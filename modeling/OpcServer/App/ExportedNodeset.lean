import OpcServer.Adapters.AddressSpace
import OpcServer.Core.AcceptedIndex
import OpcServer.Project.GenNodeset
import OpcServer.Project.LoadText
import Mathlib.Data.List.TakeWhile

/-! The exported nodeset beside the address space of the running server. The server skips
tags without a path and does not start with a path of one segment, where the export puts
the tag into the folder `Plant`; of the other tags both have the same branches. -/

namespace OpcServer.App

open Domain Project OpcServer.Core Adapters AddressSpace BrowseTree SegmentPath

section Server
variable [Platform]

/-- The project with only the tags that have a path. -/
def withNodePaths (project : Project) : Project :=
  { project with
    devices := project.devices.map fun d =>
      { d with tags := d.tags.filter fun tag => tag.nodePath ≠ "" } }

/-- No surplus slashes, and no character at which C ends a string. -/
structure PlainPath (nodePath : String) : Prop where
  clean : Clean '/' nodePath.toList
  noNul : '\x00' ∉ nodePath.toList

/-- The path of a tag has a folder and a leaf. -/
def HasFolder (tag : Tag) : Prop := 2 ≤ (split '/' tag.nodePath.toList).length

/-! ### The server -/

theorem tagSpecs_tags (project : Project) :
    (tagSpecs project).map OpcUaTagSpec.tag = project.tags := by
  rw [tagSpecs, List.map_map, Project.tags, ← RuntimeIndex.bindDevices_tags 1]
  rfl

theorem tagSpecs_nodup (project : Project) :
    ((tagSpecs project).map OpcUaTagSpec.id).Nodup := by
  have hids : (tagSpecs project).map OpcUaTagSpec.id =
      (RuntimeIndex.build project).tags.map TagBinding.id := by
    rw [tagSpecs, List.map_map]
    rfl
  rw [hids, RuntimeIndex.build, RuntimeIndex.bindDevices_ids]
  exact List.nodup_range'

theorem exists_tagSpecs (project : Project) (P : Tag → Prop) :
    (∃ spec ∈ tagSpecs project, P spec.tag) ↔ ∃ tag ∈ project.tags, P tag := by
  rw [← tagSpecs_tags project]
  constructor
  · rintro ⟨spec, hspec, h⟩
    exact ⟨spec.tag, List.mem_map_of_mem hspec, h⟩
  · rintro ⟨tag, htag, h⟩
    obtain ⟨spec, hspec, rfl⟩ := List.mem_map.mp htag
    exact ⟨spec, hspec, h⟩

/-- A path without a folder stops the server. -/
theorem serve_error {project : Project}
    (h : ∃ tag ∈ project.tags, tag.nodePath ≠ "" ∧ ¬ HasFolder tag) :
    serve project = .error shortPathError := by
  obtain ⟨s, label, hstart, -⟩ := addDiagnostics_spec
  rw [serve, hstart]
  refine bindTags_error ?_ s
  obtain ⟨spec, hspec, hpath, hfolder⟩ :=
    (exists_tagSpecs project fun tag => tag.nodePath ≠ "" ∧ ¬ HasFolder tag).mpr h
  exact ⟨spec, hspec, hpath, Nat.not_le.mp hfolder⟩

/-- The server shows its diagnostics and a branch for each tag with a path. -/
theorem serve_ok {project : Project}
    (h : ∀ tag ∈ project.tags, tag.nodePath ≠ "" → HasFolder tag) :
    ∃ s, serve project = .ok s ∧
      tree s.nodes = diagnosticsTree ∪ {e | ∃ tag ∈ project.tags, tag.nodePath ≠ "" ∧
        e ∈ branch (browsePath tag) (typeFor tag.type, accessLevel tag)} := by
  obtain ⟨s, label, hstart, hshows, htree, htags⟩ := addDiagnostics_spec
  have hnew : ∀ spec ∈ tagSpecs project, spec.id ∉ s.tagNodeIds.map Prod.fst := by
    intro spec _
    rw [htags]
    exact List.not_mem_nil
  have hparts : ∀ spec ∈ tagSpecs project, spec.tag.nodePath ≠ "" →
      2 ≤ (split '/' spec.tag.nodePath.toList).length := by
    intro spec hspec
    refine h spec.tag ?_
    rw [← tagSpecs_tags project]
    exact List.mem_map_of_mem hspec
  obtain ⟨s', hbind, htree'⟩ := bindTags_spec hshows (tagSpecs_nodup project) hnew hparts
  refine ⟨s', ?_, ?_⟩
  · rw [serve, hstart]
    exact hbind
  · rw [htree', htree]
    congr 1
    ext e
    exact exists_tagSpecs project fun tag => tag.nodePath ≠ "" ∧
      e ∈ branch (browsePath tag) (typeFor tag.type, accessLevel tag)

/-! ### The nodeset -/

theorem tags_withNodePaths (project : Project) :
    (withNodePaths project).tags = project.tags.filter fun tag => tag.nodePath ≠ "" := by
  rw [Project.tags, withNodePaths, List.flatMap_map, Project.tags, List.filter_flatMap]

theorem mem_tags_withNodePaths {project : Project} {tag : Tag} :
    tag ∈ (withNodePaths project).tags ↔ tag ∈ project.tags ∧ tag.nodePath ≠ "" := by
  rw [tags_withNodePaths, List.mem_filter, decide_eq_true_iff]

/-- Both sides give a variable the same data type and access level. -/
theorem attributes_eq (tag : Tag) : tag.attributes = (typeFor tag.type, accessLevel tag) := by
  have htype : aliases.lookup (uaDataType tag.type) = some (typeFor tag.type) := by
    cases tag.type <;> rfl
  rw [Tag.attributes, htype]
  rfl

theorem browsePath_of_plain {tag : Tag} (h : PlainPath tag.nodePath) :
    browsePath tag = split '/' tag.nodePath.toList := by
  refine (List.map_congr_left fun part hpart => ?_).trans (List.map_id _)
  refine List.takeWhile_eq_self_iff.mpr fun c hc => ?_
  have hne : c ≠ '\x00' := fun heq => h.noNul (heq ▸ mem_of_mem_split hpart hc)
  exact decide_eq_true hne

/-- The server has the tree that its project describes without the tags that it skips. -/
theorem server_shows_nodeset (project : Project) :
    ((∃ tag ∈ project.tags, tag.nodePath ≠ "" ∧ ¬ HasFolder tag) →
      serve project = .error shortPathError) ∧
    ((∀ tag ∈ project.tags, tag.nodePath ≠ "" → HasFolder tag) →
      ∃ s, serve project = .ok s ∧
        ((∀ tag ∈ project.tags, tag.nodePath ≠ "" → PlainPath tag.nodePath) →
          tree s.nodes = tree (generateNodeset (withNodePaths project)) ∪ diagnosticsTree)) := by
  refine ⟨serve_error, fun hfolder => ?_⟩
  obtain ⟨s, hserve, htree⟩ := serve_ok hfolder
  refine ⟨s, hserve, fun hplain => ?_⟩
  have hclean : CleanPaths (withNodePaths project) := by
    intro tag htag
    obtain ⟨htag, hpath⟩ := mem_tags_withNodePaths.mp htag
    have hparts := hfolder tag htag hpath
    rw [resolvedNodePath_of_parts hparts]
    have hpos : 0 < (split '/' tag.nodePath.toList).length := Nat.zero_lt_two.trans_le hparts
    exact ⟨(hplain tag htag hpath).clean, List.ne_nil_of_length_pos hpos⟩
  rw [htree, tree_generateNodeset hclean, Set.union_comm]
  congr 1
  ext e
  refine exists_congr fun tag => ?_
  rw [mem_tags_withNodePaths, and_assoc]
  refine and_congr_right fun htag => and_congr_right fun hpath => ?_
  rw [browsePath_of_plain (hplain tag htag hpath), attributes_eq,
    resolvedNodePath_of_parts (hfolder tag htag hpath)]

/-! ### A project with one tag -/

/-- A register with a path. -/
def levelAt (nodePath : String) : Json := siteDocument 0
  [.object [("name", .string "Level"), ("nodePath", .string nodePath), ("area", .string "holding"),
    ("address", .int 0), ("type", .string "uint16")]]

def levelProject (nodePath : String) : Project := (loadDocument (levelAt nodePath)).project

end Server

attribute [local instance] exactPlatform

theorem levelAt_ok (nodePath : String) : (loadDocument (levelAt nodePath)).ok = true := by
  rfl

theorem levelProject_tags (nodePath : String) :
    (levelProject nodePath).tags = [{ name := "Level", nodePath := nodePath }] := by
  rfl

/-- The tree of a path with folders, and the error for a path without one. -/
theorem level_shown :
    (∃ s, serve (levelProject "Plant/Tank1/Level") = .ok s ∧
      tree s.nodes = tree (generateNodeset (withNodePaths (levelProject "Plant/Tank1/Level"))) ∪
        diagnosticsTree) ∧
    serve (levelProject "Level") = .error shortPathError := by
  constructor
  · have hfolder : ∀ tag ∈ (levelProject "Plant/Tank1/Level").tags,
        tag.nodePath ≠ "" → HasFolder tag := by
      rw [levelProject_tags]
      refine List.forall_mem_singleton.mpr fun _ => ?_
      show 2 ≤ (split '/' "Plant/Tank1/Level".toList).length
      decide
    obtain ⟨s, hserve, htree⟩ := (server_shows_nodeset (levelProject "Plant/Tank1/Level")).2 hfolder
    refine ⟨s, hserve, htree ?_⟩
    rw [levelProject_tags]
    refine List.forall_mem_singleton.mpr fun _ => ?_
    exact ⟨⟨by decide, by decide, by decide⟩, by decide⟩
  · refine (server_shows_nodeset (levelProject "Level")).1 ?_
    rw [levelProject_tags]
    refine ⟨_, List.mem_singleton_self _, by decide, ?_⟩
    show ¬ 2 ≤ (split '/' "Level".toList).length
    decide

/-- What the server shows of the register. -/
theorem serve_levelProject (nodePath : String)
    (h : nodePath ≠ "" → 2 ≤ (split '/' nodePath.toList).length) :
    ∃ s, serve (levelProject nodePath) = .ok s ∧ ∀ e, e ∈ tree s.nodes ↔ e ∈ diagnosticsTree ∨
      nodePath ≠ "" ∧ e ∈ branch ((split '/' nodePath.toList).map cStr) (5, 1) := by
  have hfolder : ∀ tag ∈ (levelProject nodePath).tags, tag.nodePath ≠ "" → HasFolder tag := by
    rw [levelProject_tags]
    exact List.forall_mem_singleton.mpr h
  obtain ⟨s, hserve, htree⟩ := serve_ok hfolder
  refine ⟨s, hserve, fun e => ?_⟩
  rw [htree, Set.mem_union, levelProject_tags]
  refine or_congr_right ?_
  simp only [Set.mem_ofPred_eq, List.exists_mem_cons_iff, List.not_mem_nil, false_and,
    exists_false, or_false]
  rfl

/-- A tag without a path, in whose place the nodeset has the folder `Plant`. -/
theorem plant_not_served : ∃ s, serve (levelProject "") = .ok s ∧
    (["Plant".toList], .folder) ∉ tree s.nodes := by
  obtain ⟨s, hserve, htree⟩ := serve_levelProject "" (fun hne => (hne rfl).elim)
  refine ⟨s, hserve, ?_⟩
  rw [htree]
  rintro (hdiagnostics | ⟨hne, -⟩)
  · exact notMem_diagnosticsTree (by decide) _ _ hdiagnostics
  · exact hne rfl

theorem plant_exported :
    (["Plant".toList], .folder) ∈ tree (generateNodeset (levelProject "")) :=
  ⟨element "Plant".toList .folder, by decide +kernel, [], .root, rfl⟩

/-- The nodeset refers to a parent `/Plant` that it does not have. -/
theorem leading_slash_not_exported : (["Plant".toList, "Level".toList], .variable (5, 1)) ∉
    tree (generateNodeset (levelProject "/Plant/Level")) := by
  have hnodes : generateNodeset (levelProject "/Plant/Level") =
      [element "Plant".toList .folder, element "/Plant/Level".toList (.variable (5, 1))] := by
    decide +kernel
  rintro ⟨n, hn, path, hreach, heq⟩
  have hparent : n.parent = some "/Plant".toList := by
    rw [hnodes] at hn
    rcases List.mem_pair.mp hn with rfl | rfl
    · cases (Prod.mk.inj heq).2
    · decide
  rw [hparent] at hreach
  obtain ⟨m, hm, hid⟩ := hreach.exists_node
  rw [hnodes] at hm
  rcases List.mem_pair.mp hm with rfl | rfl
  · exact absurd hid (by decide)
  · exact absurd hid (by decide)

/-- A browse name of the nodeset does not end at a NUL character. -/
theorem nul_not_exported : (["Plant".toList, "Le".toList], .variable (5, 1)) ∉
    tree (generateNodeset (levelProject "Plant/Le\x00vel")) := by
  rintro ⟨n, hn, path, -, heq⟩
  have hname : n.name = "Le".toList := by
    have hlast := congrArg (fun e => e.1.getLast?) heq
    simp only [List.getLast?_concat] at hlast
    exact (Option.some.inj hlast).symm
  have hnames : ∀ n ∈ generateNodeset (levelProject "Plant/Le\x00vel"), n.name ≠ "Le".toList := by
    decide +kernel
  exact hnames n hn hname

/-- The branch of a path in the served tree. -/
theorem level_served (nodePath : String) (hne : nodePath ≠ "")
    (h : 2 ≤ (split '/' nodePath.toList).length) :
    ∃ s, serve (levelProject nodePath) = .ok s ∧
      ((split '/' nodePath.toList).map cStr, .variable (5, 1)) ∈ tree s.nodes := by
  obtain ⟨s, hserve, htree⟩ := serve_levelProject nodePath fun _ => h
  exact ⟨s, hserve, (htree _).mpr (.inr ⟨hne, .inr rfl⟩)⟩

/-- Accepted projects that the server does not start with, or does not show as their
nodeset describes them: with one tag that has one segment, no path, a slash in front or a
NUL character. -/
theorem nodeset_not_served :
    (∀ nodePath ∈ ["Level", "", "/Plant/Level", "Plant/Le\x00vel"],
      (loadDocument (levelAt nodePath)).ok = true) ∧
    serve (levelProject "Level") = .error shortPathError ∧
    ∀ nodePath ∈ ["", "/Plant/Level", "Plant/Le\x00vel"], ∃ s,
      serve (levelProject nodePath) = .ok s ∧ ∃ e, e ∉ diagnosticsTree ∧
        ¬ (e ∈ tree s.nodes ↔ e ∈ tree (generateNodeset (levelProject nodePath))) := by
  refine ⟨fun nodePath _ => levelAt_ok nodePath, ?_, ?_⟩
  · refine serve_error ?_
    rw [levelProject_tags]
    refine ⟨_, List.mem_singleton_self _, by decide, ?_⟩
    show ¬ 2 ≤ (split '/' "Level".toList).length
    decide
  · refine List.forall_mem_cons.mpr ⟨?_, List.forall_mem_cons.mpr ⟨?_,
      List.forall_mem_singleton.mpr ?_⟩⟩
    · obtain ⟨s, hserve, hnot⟩ := plant_not_served
      exact ⟨s, hserve, _, notMem_diagnosticsTree (by decide) _ _,
        fun h => hnot (h.mpr plant_exported)⟩
    · obtain ⟨s, hserve, hmem⟩ := level_served "/Plant/Level" (by decide) (by decide)
      exact ⟨s, hserve, _, notMem_diagnosticsTree (by decide) _ _,
        fun h => leading_slash_not_exported (h.mp hmem)⟩
    · obtain ⟨s, hserve, hmem⟩ := level_served "Plant/Le\x00vel" (by decide) (by decide)
      exact ⟨s, hserve, _, notMem_diagnosticsTree (by decide) _ _,
        fun h => nul_not_exported (h.mp hmem)⟩

end OpcServer.App
