import OpcServer.Lib.BrowseTree
import OpcServer.Lib.SegmentPath
import OpcServer.Project.Types
import Mathlib.Data.List.Dedup
import Mathlib.Data.List.Lex
import Mathlib.Data.List.Sort
import Mathlib.Data.Char

/-! The nodeset that `opc-map` exports from a project: the elements of the XML text with
their ids, parent references, browse names, data types and access levels. A parent `i=85`
is the root; of the ids `ns=1;s=…` the part after the equals sign is kept. A variable has
the numeric id of its data type and its access level. -/

set_option linter.dupNamespace false

namespace OpcServer.Project

open Domain BrowseTree SegmentPath

abbrev NodesetNode := Node (List Char) (List Char) (ℕ × ℕ)

/-! ### Elements -/

/-- The texts that the loop over the parts inserts, one for each part but the last. -/
def folderPaths : List (List Char) → List Char → List (List Char)
  | part :: part' :: parts, cumulative =>
    extend '/' cumulative part :: folderPaths (part' :: parts) (extend '/' cumulative part)
  | _, _ => []

def parentId (path : List Char) : Option (List Char) :=
  if parentPath '/' path = [] then none else some (parentPath '/' path)

/-- `UAObject` or `UAVariable` with the id `ns=1;s=path`. -/
def element (path : List Char) (kind : Kind (ℕ × ℕ)) : NodesetNode :=
  ⟨path, parentId path, browseName '/' path, kind⟩

def uaDataType : TagType → String
  | .bool => "Boolean"
  | .uint16 => "UInt16"
  | .int16 => "Int16"
  | .uint32 => "UInt32"
  | .int32 => "Int32"
  | .float32 => "Float"
  | .float64 => "Double"

/-- The data types among the aliases at the head of the text. -/
def aliases : List (String × ℕ) :=
  [("Boolean", 1), ("Int16", 4), ("UInt16", 5), ("Int32", 6), ("UInt32", 7), ("Float", 10),
    ("Double", 11)]

/-- The loop inserts the paths of the folders above the last part. -/
theorem mem_folderPaths (parts done : List (List Char)) (path : List Char) :
    path ∈ folderPaths parts (join '/' done) ↔
      ∃ q, q ≠ [] ∧ q <+: parts.dropLast ∧ path = join '/' (done ++ q) := by
  match parts with
  | [] | [_] =>
    refine iff_of_false List.not_mem_nil ?_
    rintro ⟨q, hne, hq, -⟩
    exact hne (List.prefix_nil.mp hq)
  | part :: part' :: parts =>
    have ih := mem_folderPaths (part' :: parts) (done ++ [part]) path
    rw [folderPaths, ← join_snoc, List.mem_cons, ih, List.dropLast_cons_cons]
    constructor
    · rintro (rfl | ⟨q, -, hq, rfl⟩)
      · exact ⟨[part], by simp, by simp, rfl⟩
      · exact ⟨part :: q, by simp, List.cons_prefix_cons.mpr ⟨rfl, hq⟩, by simp⟩
    · rintro ⟨q, hne, hq, rfl⟩
      obtain ⟨first, rest, rfl⟩ := List.exists_cons_of_ne_nil hne
      obtain ⟨rfl, hrest⟩ := List.cons_prefix_cons.mp hq
      by_cases hnil : rest = []
      · exact .inl (by rw [hnil])
      · exact .inr ⟨rest, hnil, hrest, by simp⟩

/-- The reference of an element leads to the path without the last segment. -/
theorem parentId_join {segments : List (List Char)} {segment : List Char}
    (h : ∀ s ∈ segments ++ [segment], IsSegment '/' s) :
    parentId (join '/' (segments ++ [segment])) =
      if segments = [] then none else some (join '/' segments) := by
  have hnil := join_eq_nil_iff fun s hs => h s (List.mem_append_left _ hs)
  rw [parentId, parentPath_snoc h]
  simp only [hnil]

theorem place_parentId {segments : List (List Char)} {segment : List Char}
    (h : ∀ s ∈ segments ++ [segment], IsSegment '/' s) :
    place (split '/') (parentId (join '/' (segments ++ [segment]))) = segments := by
  rw [parentId_join h]
  split_ifs with hnil
  · exact hnil.symm
  · exact split_join fun s hs => h s (List.mem_append_left _ hs)

/-- The label of an element is the list of the segments of its id. -/
theorem element_label {segments : List (List Char)} (hne : segments ≠ [])
    (h : ∀ s ∈ segments, IsSegment '/' s) (kind : Kind (ℕ × ℕ)) :
    split '/' (element (join '/' segments) kind).id =
      place (split '/') (element (join '/' segments) kind).parent ++
        [(element (join '/' segments) kind).name] := by
  obtain ⟨init, last, rfl⟩ := (List.eq_nil_or_concat' segments).resolve_left hne
  show split '/' (join '/' (init ++ [last])) =
    place (split '/') (parentId (join '/' (init ++ [last]))) ++
      [browseName '/' (join '/' (init ++ [last]))]
  rw [split_join h, place_parentId h, browseName_snoc h]

theorem parentId_eq_some {segments : List (List Char)} (h : ∀ s ∈ segments, IsSegment '/' s)
    {p : List Char} (hp : parentId (join '/' segments) = some p) :
    segments.dropLast ≠ [] ∧ p = join '/' segments.dropLast := by
  rcases List.eq_nil_or_concat' segments with rfl | ⟨init, last, rfl⟩
  · cases hp
  · rw [parentId_join h] at hp
    rw [List.dropLast_concat]
    split_ifs at hp with hnil
    exact ⟨hnil, (Option.some.inj hp).symm⟩

/-! ### Nodesets -/

section Nodeset
variable [Platform]

/-- An empty path has no parts. -/
def resolvedNodePath (tag : Tag) : List Char :=
  match split '/' tag.nodePath.toList with
  | [] => "Plant/".toList ++ tag.name.toList
  | [part] => "Plant/".toList ++ part
  | _ :: _ :: _ => tag.nodePath.toList

theorem resolvedNodePath_of_parts {tag : Tag} (h : 2 ≤ (split '/' tag.nodePath.toList).length) :
    resolvedNodePath tag = tag.nodePath.toList := by
  match hsplit : split '/' tag.nodePath.toList with
  | [] | [_] =>
    rw [hsplit] at h
    exact absurd h (by simp)
  | _ :: _ :: _ => rw [resolvedNodePath, hsplit]

def Tag.attributes (tag : Tag) : ℕ × ℕ :=
  ((aliases.lookup (uaDataType tag.type)).getD 0, if tag.writable then 3 else 1)

def Project.tags (project : Project) : List Tag := project.devices.flatMap Device.tags

def generateNodeset (project : Project) : List NodesetNode :=
  let folders := (project.tags.flatMap fun tag =>
    folderPaths (split '/' (resolvedNodePath tag)) []).dedup.insertionSort (· ≤ ·)
  folders.map (element · .folder) ++
    project.tags.map fun tag => element (resolvedNodePath tag) (.variable tag.attributes)

theorem mem_generateNodeset {project : Project} {n : NodesetNode} :
    n ∈ generateNodeset project ↔
      (∃ tag ∈ project.tags, ∃ q, q ≠ [] ∧ q <+: (split '/' (resolvedNodePath tag)).dropLast ∧
        n = element (join '/' q) .folder) ∨
      ∃ tag ∈ project.tags, n = element (resolvedNodePath tag) (.variable tag.attributes) := by
  have hfolder (path : List Char) (tag : Tag) :
      path ∈ folderPaths (split '/' (resolvedNodePath tag)) [] ↔
        ∃ q, q ≠ [] ∧ q <+: (split '/' (resolvedNodePath tag)).dropLast ∧ path = join '/' q :=
    mem_folderPaths _ [] path
  simp only [generateNodeset, List.mem_append, List.mem_map, List.mem_insertionSort, List.mem_dedup,
    List.mem_flatMap, hfolder]
  constructor
  · rintro (⟨_, ⟨tag, htag, q, hne, hq, rfl⟩, rfl⟩ | ⟨tag, htag, rfl⟩)
    · exact .inl ⟨tag, htag, q, hne, hq, rfl⟩
    · exact .inr ⟨tag, htag, rfl⟩
  · rintro (⟨tag, htag, q, hne, hq, rfl⟩ | ⟨tag, htag, rfl⟩)
    · exact .inl ⟨_, ⟨tag, htag, q, hne, hq, rfl⟩, rfl⟩
    · exact .inr ⟨tag, htag, rfl⟩

/-- Every path of an element is written without surplus slashes. -/
def CleanPaths (project : Project) : Prop :=
  ∀ tag ∈ project.tags, Clean '/' (resolvedNodePath tag) ∧
    split '/' (resolvedNodePath tag) ≠ []

theorem labels_generateNodeset {project : Project} (h : CleanPaths project) :
    Labels (generateNodeset project) (split '/') := by
  have hsegments (tag : Tag) {q : List (List Char)}
      (hq : q <+: split '/' (resolvedNodePath tag)) : ∀ s ∈ q, IsSegment '/' s :=
    fun s hs => isSegment_of_mem_split (hq.subset hs)
  constructor
  · intro n hn
    rcases mem_generateNodeset.mp hn with ⟨tag, htag, q, hne, hq, rfl⟩ | ⟨tag, htag, rfl⟩
    · exact element_label hne (hsegments tag (hq.trans (List.dropLast_prefix _))) _
    · obtain ⟨hclean, hne⟩ := h tag htag
      rw [← join_split hclean]
      exact element_label hne (hsegments tag List.prefix_rfl) _
  · intro n hn p hp
    rcases mem_generateNodeset.mp hn with ⟨tag, htag, q, -, hq, rfl⟩ | ⟨tag, htag, rfl⟩
    · obtain ⟨hne, rfl⟩ := parentId_eq_some (hsegments tag (hq.trans (List.dropLast_prefix _))) hp
      refine ⟨element (join '/' q.dropLast) .folder, mem_generateNodeset.mpr (.inl ?_), rfl⟩
      exact ⟨tag, htag, q.dropLast, hne, (List.dropLast_prefix _).trans hq, rfl⟩
    · rw [← join_split (h tag htag).1] at hp
      obtain ⟨hne, rfl⟩ := parentId_eq_some (hsegments tag List.prefix_rfl) hp
      refine ⟨element (join '/' (split '/' (resolvedNodePath tag)).dropLast) .folder,
        mem_generateNodeset.mpr (.inl ?_), rfl⟩
      exact ⟨tag, htag, _, hne, List.prefix_rfl, rfl⟩

/-- A nodeset with clean paths describes a branch for each tag. -/
theorem tree_generateNodeset {project : Project} (h : CleanPaths project) :
    tree (generateNodeset project) =
      {e | ∃ tag ∈ project.tags, e ∈ branch (split '/' (resolvedNodePath tag)) tag.attributes} := by
  rw [(labels_generateNodeset h).tree_eq]
  have hsegments (tag : Tag) {q : List (List Char)}
      (hq : q <+: (split '/' (resolvedNodePath tag)).dropLast) : split '/' (join '/' q) = q :=
    split_join fun s hs => isSegment_of_mem_split ((hq.trans (List.dropLast_prefix _)).subset hs)
  ext e
  constructor
  · rintro ⟨n, hn, rfl⟩
    rcases mem_generateNodeset.mp hn with ⟨tag, htag, q, hne, hq, rfl⟩ | ⟨tag, htag, rfl⟩
    · refine ⟨tag, htag, .inl ?_⟩
      show split '/' (join '/' q) ≠ [] ∧ split '/' (join '/' q) <+: _ ∧ Kind.folder = Kind.folder
      rw [hsegments tag hq]
      exact ⟨hne, hq, rfl⟩
    · exact ⟨tag, htag, .inr rfl⟩
  · rintro ⟨tag, htag, ⟨hne, hq, hkind⟩ | rfl⟩
    · refine ⟨element (join '/' e.1) .folder, mem_generateNodeset.mpr (.inl ?_), ?_⟩
      · exact ⟨tag, htag, e.1, hne, hq, rfl⟩
      · show e = (split '/' (join '/' e.1), Kind.folder)
        rw [hsegments tag hq, ← hkind]
    · exact ⟨_, mem_generateNodeset.mpr (.inr ⟨tag, htag, rfl⟩), rfl⟩

end Nodeset

end OpcServer.Project
