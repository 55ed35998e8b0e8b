import OpcServer.Core.RuntimeIndex
import OpcServer.Lib.BrowseTree
import OpcServer.Lib.SegmentPath

/-! The address space of the OPC UA server: the folders and variables below `Objects`,
created by `add_diagnostics` when the server starts and by `bind_tags` for the tags.
Every call that adds a node succeeds and gives it the requested id, so that the numeric
ids never repeat. A variable has the numeric id of its data type and its access level. -/

namespace OpcServer.Adapters

open Domain Project OpcServer.Core BrowseTree SegmentPath

structure AddressSpace where
  nodes : List (Node ℕ (List Char) (ℕ × ℕ)) := []
  folderIds : List (List Char × ℕ) := []
  nextNumericId : ℕ := 1000
  tagNodeIds : List (TagId × ℕ) := []

/-- `UA_NS0ID_OBJECTSFOLDER`. -/
def objectsFolder : ℕ := 85

/-- The `Objects` folder is the root. -/
def parentNode (id : ℕ) : Option ℕ := if id = objectsFolder then none else some id

/-- What is left of a text that is passed as `c_str()`. -/
def cStr (text : List Char) : List Char := text.takeWhile (· ≠ '\x00')

/-- The numeric id of `type_for(type)->typeId`. -/
def typeFor : TagType → ℕ
  | .bool => 1
  | .uint16 => 5
  | .int16 => 4
  | .uint32 => 7
  | .int32 => 6
  | .float32 => 10
  | .float64 => 11

namespace AddressSpace

/-- A folder or variable with the next numeric id. -/
def addNode (s : AddressSpace) (parentId : ℕ) (name : List Char) (kind : Kind (ℕ × ℕ)) :
    AddressSpace :=
  { s with
    nodes := ⟨s.nextNumericId, parentNode parentId, cStr name, kind⟩ :: s.nodes
    nextNumericId := s.nextNumericId + 1 }

/-- The loop of `ensure_path` over the parts before the last. -/
def ensureFolders : List (List Char) → List Char → ℕ → AddressSpace → ℕ × AddressSpace
  | [], _, parentId, s => (parentId, s)
  | part :: parts, cumulative, parentId, s =>
    let cumulative := extend '/' cumulative part
    match s.folderIds.lookup cumulative with
    | some id => ensureFolders parts cumulative id s
    | none =>
      let id := s.nextNumericId
      let s := s.addNode parentId part .folder
      ensureFolders parts cumulative id { s with folderIds := (cumulative, id) :: s.folderIds }

def shortPathError : Error where
  code := .invalidArgument
  message := "nodePath must contain at least Folder/Leaf"
  component := "adapters.opcua"
  retryable := false

def ensurePath (s : AddressSpace) (nodePath : List Char) : Result (ℕ × AddressSpace) :=
  let parts := split '/' nodePath
  if parts.length < 2 then .error shortPathError
  else .ok (ensureFolders parts.dropLast [] objectsFolder s)

/-- The variables of `add_diagnostics`: strings and 64-bit counters. -/
def diagnosticVariables : List (List Char × ℕ) :=
  [("State".toList, 12), ("GoodCount".toList, 9), ("UncertainCount".toList, 9),
    ("BadCount".toList, 9), ("LastError".toList, 12)]

def addDiagnostics (s : AddressSpace) : Result AddressSpace := do
  let (parentId, s) ← s.ensurePath "OPC_SERVER/Diagnostics/State".toList
  return diagnosticVariables.foldl (fun s v => s.addNode parentId v.1 (.variable (v.2, 1))) s

section Tags
variable [Platform]

structure OpcUaTagSpec where
  id : TagId := 0
  tag : Tag := {}

/-- `UA_ACCESSLEVELMASK_READ`, with `UA_ACCESSLEVELMASK_WRITE` for writable tags. -/
def accessLevel (tag : Tag) : ℕ := if tag.writable then 1 ||| 2 else 1

def addVariable (s : AddressSpace) (tagId : TagId) (browseName : List Char) (parentId : ℕ)
    (tag : Tag) : AddressSpace :=
  if tagId ∈ s.tagNodeIds.map Prod.fst then s
  else
    let id := s.nextNumericId
    let s := s.addNode parentId browseName (.variable (typeFor tag.type, accessLevel tag))
    { s with tagNodeIds := (tagId, id) :: s.tagNodeIds }

/-- The loop of `bind_tags`; the first error ends it. -/
def bindTags : List OpcUaTagSpec → AddressSpace → Result AddressSpace
  | [], s => .ok s
  | spec :: specs, s =>
    if spec.tag.nodePath = "" then bindTags specs s
    else do
      let (parentId, s) ← s.ensurePath spec.tag.nodePath.toList
      let parts := split '/' spec.tag.nodePath.toList
      bindTags specs (s.addVariable spec.id (parts.getLast?.getD []) parentId spec.tag)

/-- A spec for every binding of the index. -/
def tagSpecs (project : Project) : List OpcUaTagSpec :=
  (RuntimeIndex.build project).tags.map fun b => ⟨b.id, b.tag⟩

/-- `start`, and `bind_tags` with all tags of the project. -/
def serve (project : Project) : Result AddressSpace := do
  let s ← addDiagnostics {}
  bindTags (tagSpecs project) s

end Tags

/-! ### The invariant -/

/-- The node with an id, or the root, is reached by a path. -/
def At (s : AddressSpace) (label : ℕ → List (List Char)) (id : ℕ) (path : List (List Char)) :
    Prop :=
  place label (parentNode id) = path ∧ ∀ p ∈ parentNode id, ∃ n ∈ s.nodes, n.id = p

/-- Every node is reached by its label, and every known folder by the browse names of the
segments of its key. -/
structure Shows (s : AddressSpace) (label : ℕ → List (List Char)) : Prop where
  labels : Labels s.nodes label
  ids : ∀ n ∈ s.nodes, n.id < s.nextNumericId
  next : objectsFolder < s.nextNumericId
  folders : ∀ e ∈ s.folderIds, ∃ path, (∀ p ∈ path, IsSegment '/' p) ∧ e.1 = join '/' path ∧
    s.At label e.2 (path.map cStr) ∧ (path.map cStr, .folder) ∈ tree s.nodes

theorem shows_empty : ({} : AddressSpace).Shows fun _ => [] where
  labels := ⟨fun _ hn => (List.not_mem_nil hn).elim, fun _ hn => (List.not_mem_nil hn).elim⟩
  ids _ hn := (List.not_mem_nil hn).elim
  next := by decide
  folders _ he := (List.not_mem_nil he).elim

theorem at_root (s : AddressSpace) (label : ℕ → List (List Char)) : s.At label objectsFolder [] :=
  ⟨rfl, fun _ hp => nomatch hp⟩

theorem tree_empty : tree ({} : AddressSpace).nodes = ∅ := by
  refine Set.eq_empty_of_forall_notMem ?_
  rintro e ⟨n, hn, -⟩
  exact List.not_mem_nil hn

theorem Shows.addNode {s : AddressSpace} {label : ℕ → List (List Char)} (h : s.Shows label)
    {parentId : ℕ} {path : List (List Char)} (hat : s.At label parentId path) (name : List Char)
    (kind : Kind (ℕ × ℕ)) :
    ∃ label', (s.addNode parentId name kind).Shows label' ∧
      (∀ id q, s.At label id q → (s.addNode parentId name kind).At label' id q) ∧
      (s.addNode parentId name kind).At label' s.nextNumericId (path ++ [cStr name]) ∧
      tree (s.addNode parentId name kind).nodes =
        tree s.nodes ∪ {(path ++ [cStr name], kind)} := by
  let n : Node ℕ (List Char) (ℕ × ℕ) := ⟨s.nextNumericId, parentNode parentId, cStr name, kind⟩
  have hid : ∀ m ∈ s.nodes, m.id ≠ n.id := fun m hm => (h.ids m hm).ne
  have htree : tree (n :: s.nodes) = tree s.nodes ∪ {(path ++ [cStr name], kind)} := by
    rw [h.labels.tree_cons hid hat.2, hat.1]
  have hold (id : ℕ) (q : List (List Char)) (hq : s.At label id q) :
      (s.addNode parentId name kind).At
        (Function.update label n.id (place label n.parent ++ [n.name])) id q := by
    refine ⟨(Labels.place_update hid _ hq.2).trans hq.1, fun p hp => ?_⟩
    obtain ⟨m, hm, heq⟩ := hq.2 p hp
    exact ⟨m, List.mem_cons_of_mem _ hm, heq⟩
  have hnext : parentNode s.nextNumericId = some n.id := if_neg h.next.ne'
  refine ⟨_, ⟨h.labels.cons hid hat.2, ?_, Nat.lt_succ_of_lt h.next, ?_⟩, hold, ⟨?_, ?_⟩, htree⟩
  · rintro m hm
    rcases List.mem_cons.mp hm with rfl | hm
    · exact Nat.lt_succ_self _
    · exact Nat.lt_succ_of_lt (h.ids m hm)
  · intro e he
    obtain ⟨q, hsegments, hkey, hq, hmem⟩ := h.folders e he
    refine ⟨q, hsegments, hkey, hold _ _ hq, ?_⟩
    show _ ∈ tree (n :: s.nodes)
    rw [htree]
    exact .inl hmem
  · rw [hnext, place, Option.elim_some, Function.update_self]
    exact congrArg (· ++ [cStr name]) hat.1
  · rw [hnext]
    rintro p ⟨rfl⟩
    exact ⟨n, List.mem_cons_self, rfl⟩

/-- A folder that is reached by its key is found again. -/
theorem Shows.addFolder {s : AddressSpace} {label : ℕ → List (List Char)} (h : s.Shows label)
    {path : List (List Char)} {id : ℕ} (hsegments : ∀ p ∈ path, IsSegment '/' p)
    (hat : s.At label id (path.map cStr)) (hmem : (path.map cStr, .folder) ∈ tree s.nodes) :
    ({ s with folderIds := (join '/' path, id) :: s.folderIds } : AddressSpace).Shows label where
  labels := h.labels
  ids := h.ids
  next := h.next
  folders e he := by
    rcases List.mem_cons.mp he with rfl | he
    · exact ⟨path, hsegments, rfl, hat, hmem⟩
    · exact h.folders e he

theorem mem_of_lookup {α β : Type} [BEq α] [LawfulBEq α] {l : List (α × β)} {a : α} {b : β}
    (h : l.lookup a = some b) : (a, b) ∈ l := by
  obtain ⟨l₁, l₂, rfl, -⟩ := List.lookup_eq_some_iff.mp h
  simp

/-! ### Paths -/

/-- The folders of a path are those that are found under their keys and those added. -/
theorem ensureFolders_spec (parts : List (List Char)) {s : AddressSpace}
    {label : ℕ → List (List Char)} (h : s.Shows label) {done : List (List Char)} {id : ℕ}
    (hat : s.At label id (done.map cStr)) (hsegments : ∀ p ∈ done ++ parts, IsSegment '/' p)
    (hdone : folders (done.map cStr) ⊆ tree s.nodes) {id' : ℕ} {s' : AddressSpace}
    (heq : ensureFolders parts (join '/' done) id s = (id', s')) :
    ∃ label', s'.Shows label' ∧ s'.At label' id' ((done ++ parts).map cStr) ∧
      tree s'.nodes = tree s.nodes ∪ folders ((done ++ parts).map cStr) ∧
      s'.tagNodeIds = s.tagNodeIds := by
  induction parts generalizing s label done id with
  | nil =>
    obtain ⟨rfl, rfl⟩ := Prod.mk.inj heq
    rw [List.append_nil]
    exact ⟨label, h, hat, (Set.union_eq_self_of_subset_right hdone).symm, rfl⟩
  | cons part parts ih =>
    have happend : done ++ part :: parts = (done ++ [part]) ++ parts := by simp
    have hmap : (done ++ [part]).map cStr = done.map cStr ++ [cStr part] := by simp
    have hfirst : ∀ p ∈ done ++ [part], IsSegment '/' p := fun p hp =>
      hsegments p (happend ▸ List.mem_append_left _ hp)
    have hentry : (done.map cStr ++ [cStr part], Kind.folder) ∈
        (folders ((done ++ part :: parts).map cStr) : Set (List (List Char) × Kind (ℕ × ℕ))) := by
      refine ⟨by simp, ?_, rfl⟩
      rw [happend, List.map_append, hmap]
      exact List.prefix_append _ _
    rw [happend] at hsegments
    rw [ensureFolders, ← join_snoc] at heq
    cases hlookup : s.folderIds.lookup (join '/' (done ++ [part])) with
    | some found =>
      rw [hlookup] at heq
      obtain ⟨path, hpath, hkey, hfound, hmem⟩ := h.folders _ (mem_of_lookup hlookup)
      -- a key determines its segments
      obtain rfl := join_injOn hfirst hpath hkey
      have hsub : folders ((done ++ [part]).map cStr) ⊆ tree s.nodes := by
        rw [hmap, folders_concat, ← hmap]
        exact Set.union_subset hdone (Set.singleton_subset_iff.mpr hmem)
      rw [happend]
      exact ih h hfound hsegments hsub heq
    | none =>
      rw [hlookup] at heq
      obtain ⟨label₁, h₁, -, hat₁, htree₁⟩ := h.addNode hat part .folder
      rw [← hmap] at hat₁ htree₁
      have hmem : ((done ++ [part]).map cStr, Kind.folder) ∈
          tree (s.addNode id part .folder).nodes := htree₁ ▸ .inr rfl
      have hsub : folders ((done ++ [part]).map cStr) ⊆
          tree (s.addNode id part .folder).nodes := by
        rw [htree₁, hmap, folders_concat]
        exact Set.union_subset_union_left _ hdone
      obtain ⟨label', h', hat', htree', htags⟩ :=
        ih (h₁.addFolder hfirst hat₁ hmem) hat₁ hsegments hsub heq
      rw [happend]
      refine ⟨label', h', hat', ?_, htags⟩
      rw [htree', htree₁, Set.union_assoc, ← happend, hmap]
      congr 1
      exact Set.union_eq_self_of_subset_left (Set.singleton_subset_iff.mpr hentry)

theorem ensurePath_spec {s : AddressSpace} {label : ℕ → List (List Char)} (h : s.Shows label)
    {nodePath : List Char} (hparts : 2 ≤ (split '/' nodePath).length) :
    ∃ id s' label', s.ensurePath nodePath = .ok (id, s') ∧ s'.Shows label' ∧
      s'.At label' id ((split '/' nodePath).dropLast.map cStr) ∧
      tree s'.nodes = tree s.nodes ∪ folders ((split '/' nodePath).dropLast.map cStr) ∧
      s'.tagNodeIds = s.tagNodeIds := by
  have hsegments : ∀ p ∈ [] ++ (split '/' nodePath).dropLast, IsSegment '/' p := fun p hp =>
    isSegment_of_mem_split (List.mem_of_mem_dropLast hp)
  have hroot : folders (([] : List (List Char)).map cStr) ⊆ tree s.nodes := by simp
  obtain ⟨label', h', hat, htree, htags⟩ :=
    ensureFolders_spec _ h (s.at_root label) hsegments hroot rfl
  exact ⟨_, _, label', if_neg (Nat.not_lt.mpr hparts), h', hat, htree, htags⟩

theorem ensurePath_short (s : AddressSpace) {nodePath : List Char}
    (h : (split '/' nodePath).length < 2) : s.ensurePath nodePath = .error shortPathError :=
  if_pos h

/-- The folders of the diagnostics and the variables in them. -/
def diagnosticsTree : Set (List (List Char) × Kind (ℕ × ℕ)) :=
  folders ["OPC_SERVER".toList, "Diagnostics".toList] ∪
    {e | ∃ v ∈ diagnosticVariables,
      e = (["OPC_SERVER".toList, "Diagnostics".toList, v.1], .variable (v.2, 1))}

/-- Whatever is not below `OPC_SERVER`. -/
theorem notMem_diagnosticsTree {name : List Char} (h : name ≠ "OPC_SERVER".toList)
    (rest : List (List Char)) (kind : Kind (ℕ × ℕ)) : (name :: rest, kind) ∉ diagnosticsTree := by
  rintro (⟨-, hfolder, -⟩ | ⟨v, -, heq⟩)
  · exact h (List.cons_prefix_cons.mp hfolder).1
  · exact h (List.cons.inj (Prod.mk.inj heq).1).1

theorem foldl_addNode_spec (vs : List (List Char × ℕ)) {s s' : AddressSpace}
    {label : ℕ → List (List Char)} (h : s.Shows label) {parentId : ℕ} {path : List (List Char)}
    (hat : s.At label parentId path)
    (heq : vs.foldl (fun s v => s.addNode parentId v.1 (.variable (v.2, 1))) s = s') :
    ∃ label', s'.Shows label' ∧
      tree s'.nodes =
        tree s.nodes ∪ {e | ∃ v ∈ vs, e = (path ++ [cStr v.1], .variable (v.2, 1))} ∧
      s'.tagNodeIds = s.tagNodeIds := by
  induction vs generalizing s label with
  | nil =>
    obtain rfl : s = s' := heq
    refine ⟨label, h, (Set.union_eq_self_of_subset_right ?_).symm, rfl⟩
    rintro e ⟨v, hv, -⟩
    exact (List.not_mem_nil hv).elim
  | cons v vs ih =>
    obtain ⟨label₁, h₁, hold, -, htree₁⟩ := h.addNode hat v.1 (.variable (v.2, 1))
    obtain ⟨label', h', htree', htags⟩ := ih h₁ (hold _ _ hat) heq
    refine ⟨label', h', ?_, htags⟩
    rw [htree', htree₁, Set.union_assoc]
    congr 1
    ext e
    simp only [Set.mem_union, Set.mem_singleton_iff, Set.mem_ofPred_eq, List.exists_mem_cons_iff]

theorem addDiagnostics_spec : ∃ s label, addDiagnostics {} = .ok s ∧ s.Shows label ∧
    tree s.nodes = diagnosticsTree ∧ s.tagNodeIds = [] := by
  have hparts : 2 ≤ (split '/' "OPC_SERVER/Diagnostics/State".toList).length := by decide
  obtain ⟨id, s, label, hensure, h, hat, htree, htags⟩ := ensurePath_spec shows_empty hparts
  have hfolders : (split '/' "OPC_SERVER/Diagnostics/State".toList).dropLast.map cStr =
      ["OPC_SERVER".toList, "Diagnostics".toList] := by decide
  rw [hfolders] at hat htree
  obtain ⟨label', h', htree', htags'⟩ := foldl_addNode_spec diagnosticVariables h hat rfl
  refine ⟨_, label', ?_, h', ?_, htags'.trans htags⟩
  · rw [addDiagnostics, hensure]
    rfl
  · rw [htree', htree, tree_empty, Set.empty_union, diagnosticsTree]
    have hnames : ∀ v ∈ diagnosticVariables, cStr v.1 = v.1 := by decide
    congr 1
    ext e
    refine exists_congr fun v => and_congr_right fun hv => ?_
    rw [hnames v hv]
    rfl

/-! ### Tags -/

section Tags
variable [Platform]

theorem addVariable_spec {s : AddressSpace} {label : ℕ → List (List Char)} (h : s.Shows label)
    {parentId : ℕ} {path : List (List Char)} (hat : s.At label parentId path) {tagId : TagId}
    (hnew : tagId ∉ s.tagNodeIds.map Prod.fst) (name : List Char) (tag : Tag) :
    ∃ label', (s.addVariable tagId name parentId tag).Shows label' ∧
      tree (s.addVariable tagId name parentId tag).nodes = tree s.nodes ∪
        {(path ++ [cStr name], .variable (typeFor tag.type, accessLevel tag))} ∧
      (s.addVariable tagId name parentId tag).tagNodeIds.map Prod.fst =
        tagId :: s.tagNodeIds.map Prod.fst := by
  obtain ⟨label', h', -, -, htree⟩ :=
    h.addNode hat name (.variable (typeFor tag.type, accessLevel tag))
  rw [addVariable, if_neg hnew]
  exact ⟨label', ⟨h'.labels, h'.ids, h'.next, h'.folders⟩, htree, rfl⟩

/-- The browse path of the variable of a tag. -/
def browsePath (tag : Tag) : List (List Char) := (split '/' tag.nodePath.toList).map cStr

/-- The first tag with a path that is too short stops the server. -/
theorem bindTags_error {specs : List OpcUaTagSpec}
    (h : ∃ spec ∈ specs, spec.tag.nodePath ≠ "" ∧
      (split '/' spec.tag.nodePath.toList).length < 2) (s : AddressSpace) :
    bindTags specs s = .error shortPathError := by
  induction specs generalizing s with
  | nil =>
    obtain ⟨spec, hspec, -⟩ := h
    exact (List.not_mem_nil hspec).elim
  | cons spec specs ih =>
    rw [List.exists_mem_cons_iff] at h
    rw [bindTags]
    by_cases hempty : spec.tag.nodePath = ""
    · rw [if_pos hempty]
      exact ih (h.resolve_left fun hfirst => hfirst.1 hempty) s
    · rw [if_neg hempty]
      by_cases hshort : (split '/' spec.tag.nodePath.toList).length < 2
      · rw [s.ensurePath_short hshort]
        rfl
      · rw [ensurePath, if_neg hshort]
        exact ih (h.resolve_left fun hfirst => hshort hfirst.2) _

/-- One turn of the loop for a tag with a path. -/
theorem bindTags_cons {spec : OpcUaTagSpec} {s : AddressSpace} {label : ℕ → List (List Char)}
    (h : s.Shows label) (hempty : spec.tag.nodePath ≠ "")
    (hparts : 2 ≤ (split '/' spec.tag.nodePath.toList).length)
    (hnew : spec.id ∉ s.tagNodeIds.map Prod.fst) (specs : List OpcUaTagSpec) :
    ∃ s' label', bindTags (spec :: specs) s = bindTags specs s' ∧ s'.Shows label' ∧
      tree s'.nodes = tree s.nodes ∪
        branch (browsePath spec.tag) (typeFor spec.tag.type, accessLevel spec.tag) ∧
      s'.tagNodeIds.map Prod.fst = spec.id :: s.tagNodeIds.map Prod.fst := by
  obtain ⟨id, s₁, label₁, hensure, h₁, hat, htree₁, htags₁⟩ := ensurePath_spec h hparts
  obtain ⟨parts, leaf, hsplit⟩ : ∃ parts leaf,
      split '/' spec.tag.nodePath.toList = parts ++ [leaf] := by
    refine (List.eq_nil_or_concat' _).resolve_left fun hnil => ?_
    rw [hnil] at hparts
    cases hparts
  rw [hsplit, List.dropLast_concat] at hat htree₁
  obtain ⟨label', h', htree', htags'⟩ := addVariable_spec h₁ hat (htags₁ ▸ hnew) leaf spec.tag
  refine ⟨s₁.addVariable spec.id leaf id spec.tag, label', ?_, h', ?_, ?_⟩
  · rw [bindTags, if_neg hempty, hensure, hsplit]
    show bindTags specs
      (s₁.addVariable spec.id ((parts ++ [leaf]).getLast?.getD []) id spec.tag) = _
    rw [List.getLast?_concat, Option.getD_some]
  · rw [htree', htree₁, browsePath, hsplit, List.map_append, List.map_singleton, branch_concat,
      Set.union_assoc]
  · rw [htags', htags₁]

/-- Every tag with a path gets its branch. -/
theorem bindTags_spec {specs : List OpcUaTagSpec} {s : AddressSpace}
    {label : ℕ → List (List Char)} (h : s.Shows label)
    (hids : (specs.map OpcUaTagSpec.id).Nodup)
    (hnew : ∀ spec ∈ specs, spec.id ∉ s.tagNodeIds.map Prod.fst)
    (hparts : ∀ spec ∈ specs, spec.tag.nodePath ≠ "" →
      2 ≤ (split '/' spec.tag.nodePath.toList).length) :
    ∃ s', bindTags specs s = .ok s' ∧
      tree s'.nodes = tree s.nodes ∪ {e | ∃ spec ∈ specs, spec.tag.nodePath ≠ "" ∧
        e ∈ branch (browsePath spec.tag) (typeFor spec.tag.type, accessLevel spec.tag)} := by
  induction specs generalizing s label with
  | nil =>
    refine ⟨s, rfl, (Set.union_eq_self_of_subset_right ?_).symm⟩
    rintro e ⟨spec, hspec, -⟩
    exact (List.not_mem_nil hspec).elim
  | cons spec specs ih =>
    obtain ⟨hid, hids⟩ := List.nodup_cons.mp hids
    rw [List.forall_mem_cons] at hnew hparts
    simp only [List.exists_mem_cons_iff]
    by_cases hempty : spec.tag.nodePath = ""
    · obtain ⟨s', hbind, htree⟩ := ih h hids hnew.2 hparts.2
      refine ⟨s', ?_, htree.trans ?_⟩
      · rw [bindTags, if_pos hempty, hbind]
      · simp only [ne_eq, hempty, not_true_eq_false, false_and, false_or]
    · obtain ⟨s₁, label₁, hstep, h₁, htree₁, htags₁⟩ :=
        bindTags_cons h hempty (hparts.1 hempty) hnew.1 specs
      have hnew₁ : ∀ spec' ∈ specs, spec'.id ∉ s₁.tagNodeIds.map Prod.fst := by
        intro spec' hspec' hmem
        rw [htags₁] at hmem
        rcases List.mem_cons.mp hmem with heq | hmem
        · exact hid (heq ▸ List.mem_map_of_mem hspec')
        · exact hnew.2 spec' hspec' hmem
      obtain ⟨s', hbind, htree⟩ := ih h₁ hids hnew₁ hparts.2
      refine ⟨s', hstep.trans hbind, ?_⟩
      rw [htree, htree₁, Set.union_assoc]
      congr 1
      ext e
      simp only [Set.mem_union, Set.mem_ofPred_eq, ne_eq, hempty, not_false_eq_true, true_and]

end Tags

end AddressSpace

end OpcServer.Adapters
