import OpcServer.Project.Consistency
import OpcServer.Project.GenNodeset

/-! The ids and references of an exported nodeset. Folders are collected from the segments
of the paths and have distinct ids, but a variable has its whole path as its id, and what
is before the last slash as the id of its parent. Nothing keeps two tags from having one
path, or a tag from having the path of a folder, and surplus slashes lead to parents that
are not there. -/

set_option linter.dupNamespace false

namespace OpcServer.Project

open Domain BrowseTree SegmentPath

section Ids
variable [Platform]

/-! ### Paths of tags -/

omit [Platform] in
theorem isSegment_plant : IsSegment '/' "Plant".toList := by
  constructor <;> decide

omit [Platform] in
theorem split_plant (path : List Char) :
    split '/' ("Plant/".toList ++ path) = "Plant".toList :: split '/' path :=
  split_cons isSegment_plant path

theorem split_resolvedNodePath_ne_nil (tag : Tag) : split '/' (resolvedNodePath tag) ≠ [] := by
  match hsplit : split '/' tag.nodePath.toList with
  | [] | [_] =>
    rw [resolvedNodePath, hsplit, split_plant]
    exact List.cons_ne_nil _ _
  | _ :: _ :: _ =>
    rw [resolvedNodePath_of_parts (by rw [hsplit]; simp), hsplit]
    exact List.cons_ne_nil _ _

/-- A path without surplus slashes, by whose segments another path begins. -/
def FolderOf (path path' : List Char) : Prop :=
  Clean '/' path ∧ split '/' path <+: (split '/' path').dropLast

omit [Platform] in
theorem mem_folderPaths_iff {path path' : List Char} (hne : split '/' path ≠ []) :
    path ∈ folderPaths (split '/' path') [] ↔ FolderOf path path' := by
  have hsegments {q : List (List Char)} (hq : q <+: (split '/' path').dropLast) :
      ∀ s ∈ q, IsSegment '/' s := fun s hs =>
    isSegment_of_mem_split ((hq.trans (List.dropLast_prefix _)).subset hs)
  rw [show ([] : List Char) = join '/' [] from rfl, mem_folderPaths]
  constructor
  · rintro ⟨q, -, hq, rfl⟩
    rw [List.nil_append]
    exact ⟨clean_join (hsegments hq), by rwa [split_join (hsegments hq)]⟩
  · rintro ⟨hclean, hq⟩
    exact ⟨split '/' path, hne, hq, by rw [List.nil_append, join_split hclean]⟩

/-! ### Distinct ids -/

/-- Tags with one path, by how their paths are written. With fewer than two segments a tag
is put into `Plant` under its segment or its name; names are distinct. -/
def SamePath (t u : Tag) : Prop :=
  match split '/' t.nodePath.toList, split '/' u.nodePath.toList with
  | [], [] => False
  | [], [part] => t.name.toList = part
  | [part], [] => part = u.name.toList
  | [part], [part'] => part = part'
  | [], _ :: _ :: _ => "Plant/".toList ++ t.name.toList = u.nodePath.toList
  | [part], _ :: _ :: _ => "Plant/".toList ++ part = u.nodePath.toList
  | _ :: _ :: _, [] => t.nodePath.toList = "Plant/".toList ++ u.name.toList
  | _ :: _ :: _, [part] => t.nodePath.toList = "Plant/".toList ++ part
  | _ :: _ :: _, _ :: _ :: _ => t.nodePath = u.nodePath

theorem samePath_iff {t u : Tag} (hname : t.name ≠ u.name) :
    SamePath t u ↔ resolvedNodePath t = resolvedNodePath u := by
  have hchars : t.name.toList ≠ u.name.toList := fun h => hname (String.toList_injective h)
  unfold SamePath resolvedNodePath
  split <;> simp_all [String.toList_inj]

/-- The ids of the folders, and those of the variables. -/
theorem generateNodeset_ids (project : Project) :
    (generateNodeset project).map Node.id =
      (project.tags.flatMap fun tag =>
        folderPaths (split '/' (resolvedNodePath tag)) []).dedup.insertionSort (· ≤ ·) ++
      project.tags.map resolvedNodePath := by
  rw [generateNodeset, List.map_append, List.map_map, List.map_map]
  congr 1
  exact List.map_id _

/-- The ids are distinct exactly if no two paths are one, and none is that of a folder. -/
theorem nodup_ids_iff {project : Project} (hnames : (project.tags.map Tag.name).Nodup) :
    ((generateNodeset project).map Node.id).Nodup ↔
      project.tags.Pairwise (fun t u => ¬ SamePath t u) ∧
        ∀ t ∈ project.tags, ∀ u ∈ project.tags,
          ¬ FolderOf (resolvedNodePath t) (resolvedNodePath u) := by
  have hfolders : ((project.tags.flatMap fun tag =>
      folderPaths (split '/' (resolvedNodePath tag)) []).dedup.insertionSort (· ≤ ·)).Nodup :=
    (List.perm_insertionSort _ _).nodup_iff.mpr (List.nodup_dedup _)
  have hpaths : (project.tags.map resolvedNodePath).Nodup ↔
      project.tags.Pairwise fun t u => ¬ SamePath t u := by
    rw [List.Nodup, List.pairwise_map] at hnames ⊢
    constructor
    · intro h
      exact (hnames.and h).imp fun ⟨hname, hne⟩ => (samePath_iff hname).not.mpr hne
    · intro h
      exact (hnames.and h).imp fun ⟨hname, hnot⟩ => (samePath_iff hname).not.mp hnot
  rw [generateNodeset_ids, List.nodup_append, hpaths]
  constructor
  · rintro ⟨-, hpairs, hapart⟩
    refine ⟨hpairs, fun t ht u hu hfolder => ?_⟩
    refine hapart (resolvedNodePath t) ?_ (resolvedNodePath t) (List.mem_map_of_mem ht) rfl
    rw [List.mem_insertionSort, List.mem_dedup, List.mem_flatMap]
    exact ⟨u, hu, (mem_folderPaths_iff (split_resolvedNodePath_ne_nil t)).mpr hfolder⟩
  · rintro ⟨hpairs, hnot⟩
    refine ⟨hfolders, hpairs, fun path hpath path' hpath' heq => ?_⟩
    obtain ⟨t, ht, rfl⟩ := List.mem_map.mp hpath'
    rw [List.mem_insertionSort, List.mem_dedup, List.mem_flatMap, heq] at hpath
    obtain ⟨u, hu, hmem⟩ := hpath
    exact hnot t ht u hu ((mem_folderPaths_iff (split_resolvedNodePath_ne_nil t)).mp hmem)

/-- Of an accepted project: the ids are distinct exactly if no two tags have one path and
no path of a tag is that of a folder. -/
theorem nodeset_ids_distinct_iff {lib : JsonLibrary} (hlib : lib.ReportsViolations)
    {text sourceName : String} (hok : (loadJsonText lib text sourceName).ok = true) :
    ((generateNodeset (loadJsonText lib text sourceName).project).map Node.id).Nodup ↔
      (loadJsonText lib text sourceName).project.tags.Pairwise (fun t u => ¬ SamePath t u) ∧
        ∀ t ∈ (loadJsonText lib text sourceName).project.tags,
          ∀ u ∈ (loadJsonText lib text sourceName).project.tags,
            ¬ FolderOf (resolvedNodePath t) (resolvedNodePath u) :=
  nodup_ids_iff (loadJsonText_consistent hlib hok).tagNames.1

/-! ### References -/

/-- Every reference leads to a folder, and in the end to the root. -/
def ClosedNodeset (nodes : List NodesetNode) : Prop :=
  ∀ n ∈ nodes, (∀ p ∈ n.parent, ∃ m ∈ nodes, m.kind = .folder ∧ m.id = p) ∧
    ∃ path, Reaches nodes n.parent path

/-- What is before the last slash has no surplus slashes, and is above another tag if the
path ends with the slash. -/
def ParentKnown (project : Project) (tag : Tag) : Prop :=
  Clean '/' (parentPath '/' (resolvedNodePath tag)) ∧
    ((resolvedNodePath tag).getLast? ≠ some '/' ∨ ∃ u ∈ project.tags,
      split '/' (parentPath '/' (resolvedNodePath tag)) <+:
        (split '/' (resolvedNodePath u)).dropLast)

omit [Platform] in
theorem split_last {before after : List Char} (h : '/' ∉ after) :
    split '/' (before ++ '/' :: after) =
      split '/' before ++ if after = [] then [] else [after] := by
  split_ifs with hnil
  · rw [hnil, split_concat_sep, List.append_nil]
  · exact split_snoc ⟨hnil, h⟩ before

/-- A resolved path has a segment before its last slash. -/
theorem resolvedNodePath_last (tag : Tag) : ∃ before after,
    resolvedNodePath tag = before ++ '/' :: after ∧ '/' ∉ after ∧ split '/' before ≠ [] := by
  have hplant (path : List Char) : ∃ before after,
      "Plant/".toList ++ path = before ++ '/' :: after ∧ '/' ∉ after ∧ split '/' before ≠ [] := by
    obtain ⟨before, after, heq, hafter⟩ : ∃ before after,
        "Plant/".toList ++ path = before ++ '/' :: after ∧ '/' ∉ after :=
      exists_last_sep (List.mem_append_left _ (by decide))
    refine ⟨before, after, heq, hafter, fun hnil => ?_⟩
    -- the path begins with a letter
    have hhead := congrArg List.head? heq
    cases before with
    | nil => exact absurd hhead (by simp)
    | cons c before =>
      rw [eq_sep_of_split_eq_nil hnil c List.mem_cons_self] at hhead
      exact absurd hhead (by simp)
  match hsplit : split '/' tag.nodePath.toList with
  | [] | [_] =>
    rw [resolvedNodePath, hsplit]
    exact hplant _
  | part :: part' :: parts =>
    rw [resolvedNodePath_of_parts (by rw [hsplit]; simp)]
    have hmem : '/' ∈ tag.nodePath.toList := by
      by_contra hnot
      by_cases hnil : tag.nodePath.toList = []
      · rw [hnil] at hsplit
        cases hsplit
      · rw [split_segment ⟨hnil, hnot⟩] at hsplit
        cases hsplit
    obtain ⟨before, after, heq, hafter⟩ := exists_last_sep hmem
    refine ⟨before, after, heq, hafter, fun hnil => ?_⟩
    rw [heq, split_last hafter, hnil, List.nil_append] at hsplit
    split_ifs at hsplit
    cases hsplit

omit [Platform] in
theorem parentPath_last {before after : List Char} (h : '/' ∉ after) :
    parentPath '/' (before ++ '/' :: after) = before := by
  rw [parentPath, rfind_append h]
  exact List.take_left

omit [Platform] in
theorem parentId_last {before after : List Char} (h : '/' ∉ after) (hne : split '/' before ≠ []) :
    parentId (before ++ '/' :: after) = some before := by
  rw [parentId, parentPath_last h, if_neg]
  rintro rfl
  exact hne rfl

omit [Platform] in
theorem getLast?_last {before after : List Char} (h : '/' ∉ after) :
    (before ++ '/' :: after).getLast? = some '/' ↔ after = [] := by
  constructor
  · intro hlast
    by_contra hne
    rw [List.getLast?_append_cons, List.getLast?_cons_of_ne_nil hne] at hlast
    exact h (List.mem_of_getLast? hlast)
  · rintro rfl
    exact List.getLast?_concat

theorem parentKnown_iff {project : Project} {tag : Tag} (htag : tag ∈ project.tags) :
    ParentKnown project tag ↔ ∃ u ∈ project.tags,
      FolderOf (parentPath '/' (resolvedNodePath tag)) (resolvedNodePath u) := by
  obtain ⟨before, after, heq, hafter, -⟩ := resolvedNodePath_last tag
  unfold ParentKnown FolderOf
  rw [heq, parentPath_last hafter, ne_eq, getLast?_last hafter]
  constructor
  · rintro ⟨hclean, hne | ⟨u, hu, hprefix⟩⟩
    · refine ⟨tag, htag, hclean, ?_⟩
      rw [heq, split_last hafter, if_neg hne, List.dropLast_concat]
    · exact ⟨u, hu, hclean, hprefix⟩
  · rintro ⟨u, hu, hclean, hprefix⟩
    exact ⟨hclean, .inr ⟨u, hu, hprefix⟩⟩

/-- Folders lead to the root along the segments of their paths. -/
theorem reaches_folder {project : Project} {u : Tag} (hu : u ∈ project.tags)
    {q : List (List Char)} (hq : q <+: (split '/' (resolvedNodePath u)).dropLast) :
    Reaches (generateNodeset project)
      (if q = [] then none else some (join '/' q)) q := by
  induction q using List.reverseRecOn with
  | nil => exact .root
  | append_singleton init last ih =>
    have hsegments : ∀ s ∈ init ++ [last], IsSegment '/' s := fun s hs =>
      isSegment_of_mem_split ((hq.trans (List.dropLast_prefix _)).subset hs)
    have hmem : element (join '/' (init ++ [last])) .folder ∈ generateNodeset project :=
      mem_generateNodeset.mpr (.inl ⟨u, hu, _, by simp, hq, rfl⟩)
    have hparent := ih ((List.prefix_append _ _).trans hq)
    rw [← parentId_join hsegments] at hparent
    have hreach := Reaches.child hmem hparent
    rw [if_neg (by simp)]
    rwa [show (element (join '/' (init ++ [last])) .folder).name = last from
      browseName_snoc hsegments] at hreach

/-- Every reference of a folder leads to a folder or the root. -/
theorem folder_closed {project : Project} {u : Tag} (hu : u ∈ project.tags)
    {q : List (List Char)} (hne : q ≠ []) (hq : q <+: (split '/' (resolvedNodePath u)).dropLast) :
    (∀ p ∈ parentId (join '/' q), ∃ m ∈ generateNodeset project, m.kind = .folder ∧ m.id = p) ∧
      ∃ path, Reaches (generateNodeset project) (parentId (join '/' q)) path := by
  obtain ⟨init, last, rfl⟩ := (List.eq_nil_or_concat' q).resolve_left hne
  have hsegments : ∀ s ∈ init ++ [last], IsSegment '/' s := fun s hs =>
    isSegment_of_mem_split ((hq.trans (List.dropLast_prefix _)).subset hs)
  have hinit : init <+: (split '/' (resolvedNodePath u)).dropLast :=
    (List.prefix_append _ _).trans hq
  rw [parentId_join hsegments]
  refine ⟨fun p hp => ?_, init, reaches_folder hu hinit⟩
  split_ifs at hp with hnil
  · cases hp
  · obtain rfl := Option.mem_some_iff.mp hp
    exact ⟨element (join '/' init) .folder,
      mem_generateNodeset.mpr (.inl ⟨u, hu, init, hnil, hinit, rfl⟩), rfl, rfl⟩

/-- The references of a nodeset are closed exactly if the parent of every tag is known. -/
theorem nodeset_closed_iff (project : Project) :
    ClosedNodeset (generateNodeset project) ↔ ∀ tag ∈ project.tags, ParentKnown project tag := by
  constructor
  · intro h tag htag
    obtain ⟨before, after, heq, hafter, hne⟩ := resolvedNodePath_last tag
    have hmem : element (resolvedNodePath tag) (.variable tag.attributes) ∈
        generateNodeset project := mem_generateNodeset.mpr (.inr ⟨tag, htag, rfl⟩)
    have hparent : parentId (resolvedNodePath tag) = some before := by
      rw [heq, parentId_last hafter hne]
    obtain ⟨m, hm, hkind, hid⟩ := (h _ hmem).1 before hparent
    rw [parentKnown_iff htag, heq, parentPath_last hafter]
    rcases mem_generateNodeset.mp hm with ⟨u, hu, q, hq, hprefix, rfl⟩ | ⟨u, hu, rfl⟩
    · refine ⟨u, hu, (mem_folderPaths_iff hne).mp ?_⟩
      rw [← hid]
      exact (mem_folderPaths _ [] _).mpr ⟨q, hq, hprefix, rfl⟩
    · cases hkind
  · intro h n hn
    rcases mem_generateNodeset.mp hn with ⟨u, hu, q, hne, hq, rfl⟩ | ⟨tag, htag, rfl⟩
    · exact folder_closed hu hne hq
    · obtain ⟨before, after, heq, hafter, hne⟩ := resolvedNodePath_last tag
      have hparent : parentId (resolvedNodePath tag) = some before := by
        rw [heq, parentId_last hafter hne]
      obtain ⟨u, hu, hclean, hprefix⟩ := (parentKnown_iff htag).mp (h tag htag)
      rw [heq, parentPath_last hafter] at hclean hprefix
      have hreach := reaches_folder hu hprefix
      rw [if_neg hne, join_split hclean] at hreach
      show (∀ p ∈ parentId (resolvedNodePath tag), _) ∧
        ∃ path, Reaches _ (parentId (resolvedNodePath tag)) path
      rw [hparent]
      refine ⟨fun p hp => ?_, _, hreach⟩
      obtain rfl := Option.mem_some_iff.mp hp
      refine ⟨element (join '/' (split '/' before)) .folder, mem_generateNodeset.mpr (.inl ?_),
        rfl, join_split hclean⟩
      exact ⟨u, hu, _, hne, hprefix, rfl⟩

/-- A device with tags of the given names and paths. -/
def pathsDocument (paths : List (String × String)) : Json :=
  siteDocument 0 (paths.map fun (name, nodePath) => .object
    [("name", .string name), ("nodePath", .string nodePath), ("area", .string "holding"),
      ("address", .int 0), ("type", .string "uint16")])

/-- A tag `Level` in a tank, and one with a path of its own. -/
def besideLevel (path : String) : Json :=
  pathsDocument [("Level", "Plant/Tank/Level"), ("Other", path)]

end Ids

attribute [local instance] exactPlatform

/-- Two tags in one place, and a tag in the place of a folder. -/
theorem nodeset_ids_repeated :
    ((loadDocument (besideLevel "Plant/Tank/Level")).ok = true ∧
      ¬ ((generateNodeset (loadDocument (besideLevel "Plant/Tank/Level")).project).map
        Node.id).Nodup) ∧
    (loadDocument (besideLevel "Plant/Tank")).ok = true ∧
      ¬ ((generateNodeset (loadDocument (besideLevel "Plant/Tank")).project).map
        Node.id).Nodup := by
  refine ⟨⟨?_, ?_⟩, ?_, ?_⟩
  all_goals decide +kernel

/-- A tag with a path, and one without. -/
def levelDocument : Json := besideLevel ""

theorem level_ids_distinct :
    ((generateNodeset (loadDocument levelDocument).project).map Node.id).Nodup := by
  have htags : (loadDocument levelDocument).project.tags =
      [{ name := "Level", nodePath := "Plant/Tank/Level" }, { name := "Other" }] := rfl
  refine (nodeset_ids_distinct_iff (JsonLibrary.reading_reports _) (by decide +kernel)).mpr ⟨?_, ?_⟩
  · show (loadDocument levelDocument).project.tags.Pairwise _
    rw [htags, List.pairwise_pair]
    show ¬ "Plant/Tank/Level".toList = "Plant/".toList ++ "Other".toList
    decide
  · have hprefix : ∀ t ∈ (loadDocument levelDocument).project.tags,
        ∀ u ∈ (loadDocument levelDocument).project.tags,
          ¬ split '/' (resolvedNodePath t) <+: (split '/' (resolvedNodePath u)).dropLast := by
      decide +kernel
    exact fun t ht u hu hfolder => hprefix t ht u hu hfolder.2

/-- The parent of a path with a slash in front is not in the nodeset. -/
theorem leading_slash_not_closed :
    (loadDocument (pathsDocument [("Level", "/Plant/Level")])).ok = true ∧
      ¬ ClosedNodeset (generateNodeset
        (loadDocument (pathsDocument [("Level", "/Plant/Level")])).project) := by
  refine ⟨by decide +kernel, fun h => ?_⟩
  have hmem : element "/Plant/Level".toList (.variable (5, 1)) ∈ generateNodeset
      (loadDocument (pathsDocument [("Level", "/Plant/Level")])).project := by decide +kernel
  obtain ⟨m, hm, -, hid⟩ := (h _ hmem).1 "/Plant".toList (by decide)
  have hids : ∀ n ∈ generateNodeset (loadDocument
      (pathsDocument [("Level", "/Plant/Level")])).project, n.id ≠ "/Plant".toList := by
    decide +kernel
  exact hids m hm hid

end OpcServer.Project
