import OpcServer.Lib.TextStream
import OpcServer.Project.NodesetText

/-! Reading an exported nodeset back as another program would: the markup first, then the
aliases, then the nodes with what their attributes and references say. -/

set_option linter.dupNamespace false

namespace OpcServer.Project

open Domain BrowseTree SegmentPath Markup

/-! ### Reading -/

/-- A node with the texts beside it. -/
structure ExportedNode where
  node : NodesetNode
  displayName : Text
  description : Option Text
  deriving DecidableEq

/-- What follows a known beginning. -/
def after (start text : Text) : Option Text :=
  if start.isPrefixOf text then some (text.drop start.length) else none

def attributeOf (attributes : List Attribute) (name : String) : Option Text :=
  (attributes.find? fun a => a.name == name.toList).map Attribute.value

/-- The character data at the start of some tokens. -/
def leading : List Token → Text
  | .text content :: _ => content
  | _ => []

/-- The character data behind the first start tag of a kind. -/
def dataOf (kind : Text → List Attribute → Bool) : List Token → Option Text
  | [] => none
  | .opening name attributes :: rest =>
    if kind name attributes then some (leading rest) else dataOf kind rest
  | _ :: rest => dataOf kind rest

/-- The number of a node id `i=n`. -/
def numericId (text : Text) : Option ℕ :=
  ((after "i=".toList text).bind TextStream.readDigits).map Prod.fst

/-- A start tag of an element with a name. -/
def named (name : String) (tag : Text) (_ : List Attribute) : Bool := tag == name.toList

/-- The names that stand for numeric ids. -/
def readAliases : List Token → List (Text × ℕ)
  | [] => []
  | .opening name attributes :: rest =>
    if named "Alias" name attributes then
      match attributeOf attributes "Alias", numericId (leading rest) with
      | some label, some id => (label, id) :: readAliases rest
      | _, _ => readAliases rest
    else readAliases rest
  | _ :: rest => readAliases rest

/-- The target of a reference: the root for `i=85`, else the path in `ns=1;s=path`. -/
def readParent (text : Text) : Option (Option Text) :=
  if text = "i=85".toList then some none else (after "ns=1;s=".toList text).map some

/-- A reference from the node to its parent. -/
def isBackReference (name : Text) (attributes : List Attribute) : Bool :=
  named "Reference" name attributes && attributeOf attributes "IsForward" == some "false".toList

def readKind (aliases : List (Text × ℕ)) (name : Text) (attributes : List Attribute) :
    Option (Kind (ℕ × ℕ)) :=
  if name = "UAObject".toList then some .folder
  else do
    let dataType ← (attributeOf attributes "DataType").bind fun t => aliases.lookup t
    let access ← (attributeOf attributes "AccessLevel").bind TextStream.readDigits
    return .variable (dataType, access.1)

def readNode (aliases : List (Text × ℕ)) (name : Text) (attributes : List Attribute)
    (inner : List Token) : Option ExportedNode := do
  let id ← (attributeOf attributes "NodeId").bind (after "ns=1;s=".toList)
  let browse ← (attributeOf attributes "BrowseName").bind (after "1:".toList)
  let parent ← (dataOf isBackReference inner).bind readParent
  let kind ← readKind aliases name attributes
  let displayName ← dataOf (named "DisplayName") inner
  return ⟨⟨id, parent, browse, kind⟩, displayName, dataOf (named "Description") inner⟩

def isNode (name : Text) (attributes : List Attribute) : Bool :=
  named "UAObject" name attributes || named "UAVariable" name attributes

def readNodes (aliases : List (Text × ℕ)) : List Token → Option (List ExportedNode)
  | [] => some []
  | .opening name attributes :: rest =>
    if isNode name attributes then do
      let node ← readNode aliases name attributes (rest.takeWhile (· ≠ .closing name))
      return node :: (← readNodes aliases rest)
    else readNodes aliases rest
  | _ :: rest => readNodes aliases rest

/-- The namespace and the nodes of a document whose tags match. -/
def readNodeset (text : Text) : Option (Text × List ExportedNode) := do
  let tokens ← Markup.parse text
  if nesting [] tokens = some [] then
    return (← dataOf (named "Uri") tokens, ← readNodes (readAliases tokens) tokens)
  else none

/-! ### Reading what was written -/

def exportedFolder (folder : Text) : ExportedNode :=
  ⟨element folder .folder, browseName '/' folder, none⟩

def exportedVariable [Platform] (tag : Tag) : ExportedNode :=
  ⟨element (resolvedNodePath tag) (.variable tag.attributes), browseName '/' (resolvedNodePath tag),
    some tag.descriptionText⟩

/-- What a project exports: the folders, then the tags with their descriptions. -/
def exportedNodes [Platform] (project : Project) : List ExportedNode :=
  (nodesetFolders project).map exportedFolder ++ project.tags.map exportedVariable

/-- No start tag among the tokens is of a kind. -/
def Silent (kind : Text → List Attribute → Bool) (tokens : List Token) : Prop :=
  ∀ name attributes, .opening name attributes ∈ tokens → kind name attributes = false

theorem after_append (start rest : Text) : after start (start ++ rest) = some rest := by
  rw [after, if_pos (List.isPrefixOf_iff_prefix.mpr (List.prefix_append start rest)),
    List.drop_left]

theorem Silent.append {kind : Text → List Attribute → Bool} {first second : List Token}
    (hf : Silent kind first) (hs : Silent kind second) : Silent kind (first ++ second) :=
  fun name attributes hmem => (List.mem_append.mp hmem).elim (hf name attributes) (hs name attributes)

theorem silent_text (kind : Text → List Attribute → Bool) (content : Text) :
    Silent kind [.text content] := by
  intro name attributes hmem
  cases List.mem_singleton.mp hmem

theorem silent_characters (kind : Text → List Attribute → Bool) (content : Text) :
    Silent kind (characters content) := by
  unfold characters
  split_ifs
  · exact fun _ _ hmem => absurd hmem List.not_mem_nil
  · exact silent_text kind content

theorem Silent.enclose {kind : Text → List Attribute → Bool} {inner : List Token}
    (h : Silent kind inner) {name : Text} {attributes : List Attribute}
    (hname : kind name attributes = false) : Silent kind (enclose name attributes inner) := by
  intro name' attributes' hmem
  rcases List.mem_cons.mp hmem with heq | hmem
  · obtain ⟨rfl, rfl⟩ := Token.opening.inj heq
    exact hname
  · rcases List.mem_append.mp hmem with hmem | hmem
    · exact h name' attributes' hmem
    · cases List.mem_singleton.mp hmem

theorem silent_data {kind : Text → List Attribute → Bool} {name : String}
    {attributes : List Attribute} (h : kind name.toList attributes = false) (content : Text) :
    Silent kind (dataTokens name attributes content) := (silent_characters kind content).enclose h

theorem silent_block {kind : Text → List Attribute → Bool} {gap last : Text}
    {elements : List (List Token)} (h : ∀ e ∈ elements, Silent kind e) :
    Silent kind (block gap last elements) := by
  refine Silent.append ?_ (silent_text kind last)
  intro name attributes hmem
  obtain ⟨e, he, hmem⟩ := List.mem_flatMap.mp hmem
  rcases List.mem_cons.mp hmem with heq | hmem
  · cases heq
  · exact h e he name attributes hmem

theorem dataOf_skip {kind : Text → List Attribute → Bool} {tokens : List Token}
    (h : Silent kind tokens) (rest : List Token) : dataOf kind (tokens ++ rest) = dataOf kind rest := by
  induction tokens with
  | nil => rfl
  | cons t tokens ih =>
    have hrest := ih fun name attributes ht => h name attributes (List.mem_cons_of_mem t ht)
    cases t with
    | opening name attributes =>
      rw [List.cons_append, dataOf, if_neg (by simp [h name attributes List.mem_cons_self]), hrest]
    | _ => exact hrest

theorem leading_characters (content name : Text) (rest : List Token) :
    leading (characters content ++ ([.closing name] ++ rest)) = content := by
  unfold characters
  split_ifs with hnil
  · exact hnil.symm
  · rfl

theorem dataOf_data {kind : Text → List Attribute → Bool} {name : String}
    {attributes : List Attribute} (h : kind name.toList attributes = true) (content : Text)
    (rest : List Token) : dataOf kind (dataTokens name attributes content ++ rest) = some content := by
  rw [dataTokens, enclose, List.cons_append, List.append_assoc, dataOf, if_pos h]
  exact congrArg some (leading_characters content name.toList rest)

/-- Reading the nodes of some tokens, whatever follows them. -/
def Reads (aliases : List (Text × ℕ)) (tokens : List Token) (nodes : List ExportedNode) : Prop :=
  ∀ rest, readNodes aliases (tokens ++ rest) = (readNodes aliases rest).map (nodes ++ ·)

theorem Reads.append {aliases : List (Text × ℕ)} {first second : List Token}
    {nodes more : List ExportedNode} (hf : Reads aliases first nodes)
    (hs : Reads aliases second more) : Reads aliases (first ++ second) (nodes ++ more) := by
  intro rest
  rw [List.append_assoc, hf, hs, Option.map_map]
  congr 1
  funext l
  exact (List.append_assoc nodes more l).symm

theorem Silent.reads {tokens : List Token} (h : Silent isNode tokens)
    (aliases : List (Text × ℕ)) : Reads aliases tokens [] := by
  intro rest
  induction tokens with
  | nil => exact Option.map_id'.symm
  | cons t tokens ih =>
    have hrest := ih fun name attributes ht => h name attributes (List.mem_cons_of_mem t ht)
    cases t with
    | opening name attributes =>
      rw [List.cons_append, readNodes, if_neg (by simp [h name attributes List.mem_cons_self]), hrest]
    | _ => exact hrest

/-- An element that is a node, with its own end tag behind it. -/
theorem reads_enclose {aliases : List (Text × ℕ)} {name : Text} {attributes : List Attribute}
    {inner : List Token} {node : ExportedNode} (hname : isNode name attributes = true)
    (hinner : Silent isNode inner) (hclosing : Token.closing name ∉ inner)
    (hread : readNode aliases name attributes inner = some node) :
    Reads aliases (enclose name attributes inner) [node] := by
  intro rest
  have hne (t : Token) (ht : t ∈ inner) : decide (t ≠ .closing name) = true :=
    decide_eq_true fun he => hclosing (he ▸ ht)
  have hwhile : (inner ++ ([Token.closing name] ++ rest)).takeWhile (· ≠ .closing name) = inner := by
    rw [List.takeWhile_append_of_pos hne]
    simp
  have hmore : Reads aliases (inner ++ [.closing name]) [] :=
    (hinner.append fun _ _ hmem => by cases List.mem_singleton.mp hmem).reads aliases
  rw [enclose, List.cons_append, readNodes, if_pos hname, hmore, List.append_assoc, hwhile, hread]
  cases readNodes aliases rest <;> rfl

theorem reads_block {aliases : List (Text × ℕ)} {α : Type} {elements : List α}
    {tokens : α → List Token} {nodes : α → List ExportedNode}
    (h : ∀ a ∈ elements, Reads aliases (tokens a) (nodes a)) (gap last : Text) :
    Reads aliases (block gap last (elements.map tokens)) (elements.flatMap nodes) := by
  rw [← List.append_nil (elements.flatMap nodes)]
  refine Reads.append ?_ ((silent_text isNode last).reads aliases)
  induction elements with
  | nil => exact fun rest => Option.map_id'.symm
  | cons a elements ih =>
    have ha := ((silent_text isNode gap).reads aliases).append (h a List.mem_cons_self)
    exact ha.append (ih fun b hb => h b (List.mem_cons_of_mem a hb))

theorem attributeOf_attr (name name' : String) (value : Text) (rest : List Attribute) :
    attributeOf (attr name value :: rest) name' =
      if name = name' then some value else attributeOf rest name' := by
  unfold attributeOf attr
  rw [List.find?_cons]
  by_cases h : name = name'
  · simp [h]
  · have hne : (name.toList == name'.toList) = false := by
      simpa using fun he => h (String.toList_inj.mp he)
    simp only [hne, if_neg h]

theorem named_toList (name tag : String) (attributes : List Attribute) :
    named name tag.toList attributes = decide (tag = name) := by
  by_cases h : tag = name
  · simp [named, h]
  · have hne : (tag.toList == name.toList) = false := by
      simpa using fun he => h (String.toList_inj.mp he)
    rw [named, hne, decide_eq_false h]

theorem readParent_parentIdText (path : Text) :
    readParent (parentIdText path) = some (parentId path) := by
  unfold parentIdText parentId
  split_ifs with h
  · exact if_pos rfl
  · have hne : "ns=1;s=".toList ++ parentPath '/' path ≠ "i=85".toList := by
      rw [String.toList_ofList, String.toList_ofList]
      simp
    rw [readParent, if_neg hne, after_append]
    rfl

theorem readAliases_skip {tokens : List Token} (h : Silent (named "Alias") tokens)
    (rest : List Token) : readAliases (tokens ++ rest) = readAliases rest := by
  induction tokens with
  | nil => rfl
  | cons t tokens ih =>
    have hrest := ih fun name attributes ht => h name attributes (List.mem_cons_of_mem t ht)
    cases t with
    | opening name attributes =>
      rw [List.cons_append, readAliases, if_neg (by simp [h name attributes List.mem_cons_self]),
        hrest]
    | _ => exact hrest

/-- The aliases of a list of elements. -/
def aliasTable (rows : List (String × String)) : List (Text × ℕ) :=
  rows.filterMap fun row => (numericId row.2.toList).map fun id => (row.1.toList, id)

theorem readAliases_alias (row : String × String) (rest : List Token) :
    readAliases (aliasTokens row ++ rest) = aliasTable [row] ++ readAliases rest := by
  have hclosing : Silent (named "Alias") [.closing "Alias".toList] :=
    fun _ _ hmem => by cases List.mem_singleton.mp hmem
  have hsilent := (silent_characters (named "Alias") row.2.toList).append hclosing
  have hrest := readAliases_skip hsilent rest
  rw [List.append_assoc] at hrest
  have hname : named "Alias" "Alias".toList [attr "Alias" row.1.toList] = true := by
    rw [named_toList, decide_eq_true rfl]
  rw [aliasTokens, dataTokens, enclose, List.cons_append, List.append_assoc, readAliases,
    if_pos hname, attributeOf_attr, if_pos rfl, leading_characters, hrest]
  simp only [aliasTable, List.filterMap_cons, List.filterMap_nil]
  cases numericId row.2.toList <;> rfl

theorem readAliases_block (rows : List (String × String)) (gap last : Text) (rest : List Token) :
    readAliases (block gap last (rows.map aliasTokens) ++ rest) =
      aliasTable rows ++ readAliases rest := by
  have htext (content : Text) (rest : List Token) :
      readAliases (.text content :: rest) = readAliases rest := rfl
  induction rows with
  | nil => exact htext last rest
  | cons row rows ih =>
    rw [block, List.append_assoc] at ih
    rw [block, List.map_cons, List.flatMap_cons, List.append_assoc, List.append_assoc,
      List.cons_append, htext, readAliases_alias, ih, ← List.append_assoc, aliasTable, aliasTable,
      ← List.filterMap_append]
    rfl

/-- The name of a data type stands for the id that its variables have. -/
theorem lookup_aliasTable (type : TagType) : (aliasTable aliasRows).lookup (uaDataType type).toList =
    some ((aliases.lookup (uaDataType type)).getD 0) := by
  cases type <;> decide

theorem silent_references {kind : Text → List Attribute → Bool} {relation type : String}
    {path : Text} (h : kind "References".toList [] = false)
    (hreference : ∀ attributes, kind "Reference".toList attributes = false) :
    Silent kind (referencesTokens relation type path) := by
  refine (silent_block fun e he => ?_).enclose h
  rcases List.mem_pair.mp he with rfl | rfl
  · exact silent_data (hreference _) _
  · exact silent_data (hreference _) _

/-- The reference to the parent is the first of its kind. -/
theorem dataOf_references (relation type : String) (path : Text) (rest : List Token) :
    dataOf isBackReference (referencesTokens relation type path ++ rest) =
      some (parentIdText path) := by
  have hback : isBackReference "Reference".toList [attr "ReferenceType" relation.toList,
      attr "IsForward" "false".toList] = true := by
    rw [isBackReference, named_toList, attributeOf_attr, if_neg (by decide), attributeOf_attr,
      if_pos rfl]
    rfl
  have hreferences : Silent isBackReference [.opening "References".toList [],
      .text "\n      ".toList] := by
    intro name attributes hmem
    simp only [List.mem_cons, Token.opening.injEq, reduceCtorEq, List.not_mem_nil, or_false] at hmem
    rw [hmem.1, isBackReference, named_toList]
    rfl
  have hfirst := dataOf_data hback (parentIdText path)
    ((.text "\n      ".toList :: dataTokens "Reference"
      [attr "ReferenceType" "HasTypeDefinition".toList] type.toList) ++
      [.text "\n    ".toList] ++ [.closing "References".toList] ++ rest)
  rw [← hfirst, ← dataOf_skip hreferences (dataTokens _ _ _ ++ _)]
  simp only [referencesTokens, enclose, block, List.flatMap_cons, List.flatMap_nil, List.cons_append,
    List.nil_append, List.append_assoc]

section Block
variable {kind : Text → List Attribute → Bool} {gap last : Text} {e : List Token}
  {elements : List (List Token)}

theorem dataOf_block_head {content : Text} (h : ∀ rest, dataOf kind (e ++ rest) = some content) :
    dataOf kind (block gap last (e :: elements)) = some content := by
  rw [block, List.flatMap_cons, List.cons_append, List.cons_append, List.append_assoc]
  exact h _

theorem dataOf_block_skip (h : Silent kind e) :
    dataOf kind (block gap last (e :: elements)) = dataOf kind (block gap last elements) := by
  rw [block, List.flatMap_cons, List.cons_append, List.cons_append, List.append_assoc]
  exact dataOf_skip h _

end Block

theorem silent_named {name name' : String} (h : name ≠ name') (attributes : List Attribute)
    (content : Text) : Silent (named name') (dataTokens name attributes content) :=
  silent_data (by rw [named_toList, decide_eq_false h]) content

theorem silent_back {name : String} (h : name ≠ "Reference") (attributes : List Attribute)
    (content : Text) : Silent isBackReference (dataTokens name attributes content) :=
  silent_data (by rw [isBackReference, named_toList, decide_eq_false h, Bool.false_and]) content

theorem dataOf_named (name : String) (content : Text) (rest : List Token) :
    dataOf (named name) (dataTokens name [] content ++ rest) = some content :=
  dataOf_data (by rw [named_toList, decide_eq_true rfl]) content rest

theorem readNode_folder (table : List (Text × ℕ)) (folder : Text) :
    readNode table "UAObject".toList [attr "NodeId" ("ns=1;s=".toList ++ folder),
      attr "BrowseName" ("1:".toList ++ browseName '/' folder)] (block "\n    ".toList "\n  ".toList
        [dataTokens "DisplayName" [] (browseName '/' folder),
          referencesTokens "Organizes" "i=61" folder]) = some (exportedFolder folder) := by
  have hdescription : Silent (named "Description") (referencesTokens "Organizes" "i=61" folder) :=
    silent_references (by rw [named_toList]; rfl) fun _ => by rw [named_toList]; rfl
  rw [readNode, dataOf_block_skip (silent_back (by decide) _ _),
    dataOf_block_head (dataOf_references _ _ _), dataOf_block_head (dataOf_named _ _),
    dataOf_block_skip (silent_named (by decide) _ _), dataOf_block_skip hdescription]
  simp only [attributeOf_attr, if_true, Option.bind_eq_bind, Option.bind_some, after_append,
    readParent_parentIdText, readKind, String.reduceEq, if_false]
  rfl

theorem access_eq [Platform] (tag : Tag) :
    TextStream.readDigits tag.access = some (tag.attributes.2, []) := by
  unfold Tag.access Tag.attributes
  split_ifs <;> rfl

theorem readNode_variable [Platform] (tag : Tag) :
    readNode (aliasTable aliasRows) "UAVariable".toList
      [attr "NodeId" ("ns=1;s=".toList ++ resolvedNodePath tag),
        attr "BrowseName" ("1:".toList ++ browseName '/' (resolvedNodePath tag)),
        attr "DataType" (uaDataType tag.type).toList, attr "ValueRank" "-1".toList,
        attr "AccessLevel" tag.access, attr "UserAccessLevel" tag.access]
      (block "\n    ".toList "\n  ".toList
        [dataTokens "DisplayName" [] (browseName '/' (resolvedNodePath tag)),
          dataTokens "Description" [] tag.descriptionText,
          referencesTokens "HasComponent" "i=63" (resolvedNodePath tag)]) =
      some (exportedVariable tag) := by
  have hkind : "UAVariable".toList ≠ "UAObject".toList := by decide
  rw [readNode, dataOf_block_skip (silent_back (by decide) _ _),
    dataOf_block_skip (silent_back (by decide) _ _),
    dataOf_block_head (dataOf_references _ _ _), dataOf_block_head (dataOf_named _ _),
    dataOf_block_skip (silent_named (by decide) _ _), dataOf_block_head (dataOf_named _ _)]
  simp only [attributeOf_attr, if_true, Option.bind_eq_bind, Option.bind_some, after_append,
    readParent_parentIdText, readKind, String.reduceEq, if_false, hkind, lookup_aliasTable,
    access_eq]
  rfl

/-! ### The whole text -/

/-- No end tag of a name is among the tokens. -/
def Lacks (name : Text) (tokens : List Token) : Prop := Token.closing name ∉ tokens

theorem lacks_data {name name' : String} (h : name' ≠ name) (attributes : List Attribute)
    (content : Text) : Lacks name.toList (dataTokens name' attributes content) := by
  have hne : name.toList ≠ name'.toList := fun he => h (String.toList_inj.mp he).symm
  intro hmem
  simp only [dataTokens, enclose, characters, List.mem_cons, List.mem_append, reduceCtorEq, false_or,
    Token.closing.injEq, List.not_mem_nil, or_false, hne] at hmem
  split_ifs at hmem <;> simp at hmem

theorem lacks_block {name gap last : Text} {elements : List (List Token)}
    (h : ∀ e ∈ elements, Lacks name e) : Lacks name (block gap last elements) := by
  intro hmem
  simp only [block, List.mem_append, List.mem_flatMap, List.mem_cons, reduceCtorEq, false_or,
    List.not_mem_nil, or_false] at hmem
  obtain ⟨e, he, hmem⟩ := hmem
  exact h e he hmem

theorem lacks_references {name : String} (hname : "References" ≠ name) (hchild : "Reference" ≠ name)
    (relation type : String) (path : Text) :
    Lacks name.toList (referencesTokens relation type path) := by
  have hne : name.toList ≠ "References".toList := fun he => hname (String.toList_inj.mp he).symm
  intro hmem
  rcases List.mem_append.mp (List.mem_cons.mp hmem |>.resolve_left nofun) with hmem | hmem
  · refine lacks_block (fun e he => ?_) hmem
    rcases List.mem_pair.mp he with rfl | rfl <;> exact lacks_data hchild _ _
  · exact hne (Token.closing.inj (List.mem_singleton.mp hmem))

theorem isNode_toList (name : String) (attributes : List Attribute) :
    isNode name.toList attributes = decide (name = "UAObject" ∨ name = "UAVariable") := by
  rw [isNode, named_toList, named_toList, Bool.decide_or]

theorem silent_isNode_data {name : String} (h : name ≠ "UAObject" ∧ name ≠ "UAVariable")
    (attributes : List Attribute) (content : Text) :
    Silent isNode (dataTokens name attributes content) :=
  silent_data (by rw [isNode_toList, decide_eq_false (by simp [h])]) content

theorem silent_isNode_references (relation type : String) (path : Text) :
    Silent isNode (referencesTokens relation type path) :=
  silent_references (by rw [isNode_toList]; rfl) fun _ => by rw [isNode_toList]; rfl

theorem reads_folder (table : List (Text × ℕ)) (folder : Text) :
    Reads table (folderTokens folder) [exportedFolder folder] := by
  refine reads_enclose (by rw [isNode_toList]; rfl) (silent_block ?_) (lacks_block ?_)
    (readNode_folder table folder)
  · simp only [List.forall_mem_cons, List.not_mem_nil, false_implies, implies_true, and_true]
    exact ⟨silent_isNode_data (by decide) _ _, silent_isNode_references _ _ _⟩
  · simp only [List.forall_mem_cons, List.not_mem_nil, false_implies, implies_true, and_true]
    exact ⟨lacks_data (by decide) _ _, lacks_references (by decide) (by decide) _ _ _⟩

section Platform
variable [Platform]

theorem reads_variable (tag : Tag) :
    Reads (aliasTable aliasRows) (variableTokens tag) [exportedVariable tag] := by
  refine reads_enclose (by rw [isNode_toList]; rfl) (silent_block ?_) (lacks_block ?_)
    (readNode_variable tag)
  · simp only [List.forall_mem_cons, List.not_mem_nil, false_implies, implies_true, and_true]
    exact ⟨silent_isNode_data (by decide) _ _, silent_isNode_data (by decide) _ _,
      silent_isNode_references _ _ _⟩
  · simp only [List.forall_mem_cons, List.not_mem_nil, false_implies, implies_true, and_true]
    exact ⟨lacks_data (by decide) _ _, lacks_data (by decide) _ _,
      lacks_references (by decide) (by decide) _ _ _⟩

/-- The elements before the nodes hold the aliases and no node. -/
theorem silent_headElements (project : Project) : ∀ e ∈ headElements project, Silent isNode e := by
  intro e he
  rcases List.mem_pair.mp he with rfl | rfl
  · refine (silent_block fun e he => ?_).enclose (by rw [isNode_toList]; rfl)
    rw [List.mem_singleton.mp he]
    exact silent_isNode_data (by decide) _ _
  · refine (silent_block fun e he => ?_).enclose (by rw [isNode_toList]; rfl)
    obtain ⟨row, -, rfl⟩ := List.mem_map.mp he
    exact silent_isNode_data (by decide) _ _

/-- Every element of a text with the nodes to be read from it. -/
def elementNodes (project : Project) : List (List Token × List ExportedNode) :=
  (headElements project).map (fun e => (e, [])) ++
    (nodesetFolders project).map (fun folder => (folderTokens folder, [exportedFolder folder])) ++
    project.tags.map fun tag => (variableTokens tag, [exportedVariable tag])

theorem reads_elementNodes (project : Project) :
    ∀ p ∈ elementNodes project, Reads (aliasTable aliasRows) p.1 p.2 := by
  intro p hp
  simp only [elementNodes, List.mem_append, List.mem_map] at hp
  rcases hp with (⟨e, he, rfl⟩ | ⟨folder, -, rfl⟩) | ⟨tag, -, rfl⟩
  · exact (silent_headElements project e he).reads _
  · exact reads_folder _ folder
  · exact reads_variable tag

theorem readNodes_nodesetTokens (project : Project) :
    readNodes (aliasTable aliasRows) (nodesetTokens project) = some (exportedNodes project) := by
  have helements : (elementNodes project).map Prod.fst = nodesetElements project := by
    simp [elementNodes, nodesetElements, Function.comp_def]
  have hnodes : (elementNodes project).flatMap Prod.snd = exportedNodes project := by
    simp [elementNodes, exportedNodes, List.flatMap_map, ← List.map_eq_flatMap]
  have hblock := reads_block (reads_elementNodes project) "\n  ".toList ['\n']
  rw [helements, hnodes] at hblock
  have hroot : ¬ isNode "UANodeSet".toList rootAttributes = true := by
    rw [isNode_toList]
    decide
  have hprolog (body content : Text) (rest : List Token) :
      readNodes (aliasTable aliasRows) (.instruction body :: .text content :: rest) =
        readNodes (aliasTable aliasRows) rest := rfl
  have hend : readNodes (aliasTable aliasRows)
      ([.closing "UANodeSet".toList] ++ [.text ['\n']]) = some [] := rfl
  rw [nodesetTokens, hprolog, enclose, List.cons_append, readNodes, if_neg hroot, List.append_assoc,
    hblock, hend, Option.map_some, List.append_nil]

omit [Platform] in
theorem silent_alias_folder (folder : Text) : Silent (named "Alias") (folderTokens folder) := by
  refine (silent_block ?_).enclose (by rw [named_toList]; rfl)
  simp only [List.forall_mem_cons, List.not_mem_nil, false_implies, implies_true, and_true]
  exact ⟨silent_named (by decide) _ _,
    silent_references (by rw [named_toList]; rfl) fun _ => by rw [named_toList]; rfl⟩

theorem silent_alias_variable (tag : Tag) : Silent (named "Alias") (variableTokens tag) := by
  refine (silent_block ?_).enclose (by rw [named_toList]; rfl)
  simp only [List.forall_mem_cons, List.not_mem_nil, false_implies, implies_true, and_true]
  exact ⟨silent_named (by decide) _ _, silent_named (by decide) _ _,
    silent_references (by rw [named_toList]; rfl) fun _ => by rw [named_toList]; rfl⟩

theorem readAliases_nodesetTokens (project : Project) :
    readAliases (nodesetTokens project) = aliasTable aliasRows := by
  have hopening (name : String) (h : name ≠ "Alias") (attributes : List Attribute)
      (rest : List Token) :
      readAliases (.opening name.toList attributes :: rest) = readAliases rest := by
    rw [readAliases, if_neg (by rw [named_toList]; simpa using h)]
  have hnodes : Silent (named "Alias") (block "\n  ".toList ['\n']
      ((nodesetFolders project).map folderTokens ++ project.tags.map variableTokens)) := by
    refine silent_block fun e he => ?_
    simp only [List.mem_append, List.mem_map] at he
    rcases he with ⟨folder, -, rfl⟩ | ⟨tag, -, rfl⟩
    · exact silent_alias_folder folder
    · exact silent_alias_variable tag
  have huri : Silent (named "Alias") (enclose "NamespaceUris".toList []
      (block "\n    ".toList "\n  ".toList [dataTokens "Uri" [] (nsUri project)])) := by
    refine (silent_block fun e he => ?_).enclose (by rw [named_toList]; rfl)
    rw [List.mem_singleton.mp he]
    exact silent_named (by decide) _ _
  have hend : readAliases ([.closing "UANodeSet".toList] ++ [.text ['\n']]) = [] := rfl
  have hskip (t : Token) (rest : List Token) (ht : ∀ name attributes, t ≠ .opening name attributes) :
      readAliases (t :: rest) = readAliases rest := by
    cases t with
    | opening name attributes => exact absurd rfl (ht name attributes)
    | _ => rfl
  have hhead : block "\n  ".toList ['\n'] (nodesetElements project) =
      .text "\n  ".toList :: (enclose "NamespaceUris".toList [] (block "\n    ".toList "\n  ".toList
        [dataTokens "Uri" [] (nsUri project)]) ++ .text "\n  ".toList ::
        .opening "Aliases".toList [] :: (block "\n    ".toList "\n  ".toList
          (aliasRows.map aliasTokens) ++ .closing "Aliases".toList :: block "\n  ".toList ['\n']
            ((nodesetFolders project).map folderTokens ++ project.tags.map variableTokens))) := by
    simp only [nodesetElements, headElements, block, List.cons_append, List.nil_append,
      List.flatMap_cons, List.append_assoc, enclose]
  rw [nodesetTokens, hskip _ _ (by simp), hskip _ _ (by simp), enclose, List.cons_append,
    hopening _ (by decide), List.append_assoc, hhead, List.cons_append, hskip _ _ (by simp),
    List.append_assoc, readAliases_skip huri, List.cons_append, hskip _ _ (by simp),
    List.cons_append, hopening _ (by decide), List.append_assoc, readAliases_block, List.cons_append,
    hskip _ _ (by simp), readAliases_skip hnodes, hend, List.append_nil]

theorem dataOf_uri (project : Project) :
    dataOf (named "Uri") (nodesetTokens project) = some (nsUri project) := by
  have hskip (name : String) (hname : name ≠ "Uri") (attributes : List Attribute)
      (rest : List Token) :
      dataOf (named "Uri") (.opening name.toList attributes :: rest) = dataOf (named "Uri") rest := by
    rw [dataOf, if_neg (by rw [named_toList]; simpa using hname)]
  have htext (content : Text) (rest : List Token) :
      dataOf (named "Uri") (.text content :: rest) = dataOf (named "Uri") rest := rfl
  have hprolog (body : Text) (rest : List Token) :
      dataOf (named "Uri") (.instruction body :: rest) = dataOf (named "Uri") rest := rfl
  rw [nodesetTokens, hprolog, htext, enclose, List.cons_append, hskip _ (by decide), nodesetElements,
    headElements, List.append_assoc, List.append_assoc, List.cons_append, block, List.flatMap_cons,
    List.append_assoc, List.cons_append, List.cons_append, htext, enclose, List.cons_append,
    List.cons_append, hskip _ (by decide), block, List.flatMap_cons]
  simp only [List.cons_append, List.append_assoc, htext]
  exact dataOf_named "Uri" (nsUri project) _

/-! ### The characters that are read -/

section Kept
omit [Platform]

variable {tokens : List Token}

theorem leading_over (h : AllOver keptInText keptInValue tokens) :
    ∀ c ∈ leading tokens, keptInText c = true := by
  intro c hc
  unfold leading at hc
  split at hc
  · exact h _ List.mem_cons_self c hc
  · cases hc

theorem dataOf_over {kind : Text → List Attribute → Bool}
    (h : AllOver keptInText keptInValue tokens) {content : Text}
    (hdata : dataOf kind tokens = some content) : ∀ c ∈ content, keptInText c = true := by
  induction tokens with
  | nil => cases hdata
  | cons t rest ih =>
    have hrest : AllOver keptInText keptInValue rest := fun t ht => h t (List.mem_cons_of_mem _ ht)
    cases t with
    | opening name attributes =>
      rw [dataOf] at hdata
      split_ifs at hdata
      · cases hdata
        exact leading_over hrest
      · exact ih hrest hdata
    | _ => exact ih hrest hdata

theorem attributeOf_over {attributes : List Attribute}
    (h : ∀ a ∈ attributes, a.Over keptInText keptInValue) {name : String} {value : Text}
    (hvalue : attributeOf attributes name = some value) : ∀ c ∈ value, keptInValue c = true := by
  obtain ⟨a, ha, rfl⟩ := Option.map_eq_some_iff.mp hvalue
  exact (h a (List.mem_of_find?_eq_some ha)).2.2

theorem mem_of_after {start text rest : Text} (h : after start text = some rest) {c : Char}
    (hc : c ∈ rest) : c ∈ text := by
  unfold after at h
  split_ifs at h
  cases h
  exact List.mem_of_mem_drop hc

/-- The id of a node is from an attribute, and its description is character data. -/
theorem readNodes_over {table : List (Text × ℕ)} (h : AllOver keptInText keptInValue tokens)
    {nodes : List ExportedNode} (hread : readNodes table tokens = some nodes) :
    ∀ n ∈ nodes, (∀ c ∈ n.node.id, keptInValue c = true) ∧
      ∀ content ∈ n.description, ∀ c ∈ content, keptInText c = true := by
  induction tokens generalizing nodes with
  | nil =>
    cases hread
    exact fun n hn => absurd hn List.not_mem_nil
  | cons t rest ih =>
    have hrest : AllOver keptInText keptInValue rest := fun t ht => h t (List.mem_cons_of_mem _ ht)
    cases t with
    | opening name attributes =>
      rw [readNodes] at hread
      split_ifs at hread
      · obtain ⟨node, hnode, hread⟩ := Option.bind_eq_some_iff.mp hread
        obtain ⟨more, hmore, heq⟩ := Option.bind_eq_some_iff.mp hread
        cases heq
        refine List.forall_mem_cons.mpr ⟨?_, ih hrest hmore⟩
        have hinner : AllOver keptInText keptInValue (rest.takeWhile (· ≠ .closing name)) :=
          fun t ht => hrest t ((List.takeWhile_sublist _).subset ht)
        simp only [readNode, Option.bind_eq_bind, Option.bind_eq_some_iff] at hnode
        obtain ⟨id, ⟨value, hvalue, hid⟩, browse, -, parent, -, kind, -, display, -, heq⟩ := hnode
        cases heq
        refine ⟨fun c hc => ?_, fun content hcontent => dataOf_over hinner hcontent⟩
        exact attributeOf_over (h _ List.mem_cons_self).2 hvalue c (mem_of_after hid hc)
      · exact ih hrest hread
    | _ => exact ih hrest hread

theorem readNodeset_over {text uri : Text} {nodes : List ExportedNode}
    (h : readNodeset text = some (uri, nodes)) : (∀ c ∈ uri, keptInText c = true) ∧
      ∀ n ∈ nodes, (∀ c ∈ n.node.id, keptInValue c = true) ∧
        ∀ content ∈ n.description, ∀ c ∈ content, keptInText c = true := by
  obtain ⟨tokens, hparse, h⟩ := Option.bind_eq_some_iff.mp h
  have hover := parse_over hparse
  split_ifs at h
  obtain ⟨uri', huri, h⟩ := Option.bind_eq_some_iff.mp h
  obtain ⟨nodes', hnodes, heq⟩ := Option.bind_eq_some_iff.mp h
  cases heq
  exact ⟨dataOf_over hover huri, readNodes_over hover hnodes⟩

end Kept

/-- Another program that reads the exported document finds the namespace of the project and
its nodes with their names and descriptions, if and only if all texts are of characters that
a document holds, no carriage return is among them, and no tab or line feed in a path. The
nodes are those of the export. -/
theorem readNodeset_nodesetText (project : Project) :
    (readNodeset (nodesetText project) = some (nsUri project, exportedNodes project) ↔
      Readable project) ∧
      (exportedNodes project).map ExportedNode.node = generateNodeset project := by
  refine ⟨⟨fun hread => ?_, fun h => ?_⟩, ?_⟩
  · obtain ⟨huri, hall⟩ := readNodeset_over hread
    have hvariable : ∀ tag ∈ project.tags, exportedVariable tag ∈ exportedNodes project :=
      fun tag htag => List.mem_append_right _ (List.mem_map_of_mem htag)
    exact ⟨huri, fun tag htag => (hall _ (hvariable tag htag)).1,
      fun tag htag => (hall _ (hvariable tag htag)).2 _ rfl⟩
  · rw [readNodeset, parse_nodesetText h, Option.bind_eq_bind, Option.bind_some,
      if_pos (nesting_nodesetTokens project), dataOf_uri, readAliases_nodesetTokens,
      readNodes_nodesetTokens]
    exact congrArg some rfl
  · rw [exportedNodes, List.map_append, List.map_map, List.map_map]
    rfl

end Platform

end OpcServer.Project
