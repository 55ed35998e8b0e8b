import OpcServer.Lib.Markup
import OpcServer.Project.GenNodeset

/-! The text of an exported nodeset, written piece by piece as the source does, and the
markup tokens that it spells. The names, paths and descriptions of a project may hold any
characters. -/

set_option linter.dupNamespace false

namespace OpcServer.Project

open Domain BrowseTree SegmentPath Markup

/-! ### Writing -/

def xmlEscapeChar (c : Char) : Text :=
  if c = '&' then "&amp;".toList
  else if c = '<' then "&lt;".toList
  else if c = '>' then "&gt;".toList
  else if c = '"' then "&quot;".toList
  else if c = '\'' then "&apos;".toList
  else [c]

def xmlEscape (text : Text) : Text := text.flatMap xmlEscapeChar

/-- The text of a reference to the parent. -/
def parentIdText (path : Text) : Text :=
  if parentPath '/' path = [] then "i=85".toList else "ns=1;s=".toList ++ parentPath '/' path

def folderText (folder : Text) : Text :=
  let name := browseName '/' folder
  "  <UAObject NodeId=\"ns=1;s=".toList ++ xmlEscape folder ++ "\" BrowseName=\"1:".toList ++
    xmlEscape name ++ "\">\n".toList ++
    "    <DisplayName>".toList ++ xmlEscape name ++ "</DisplayName>\n".toList ++
    "    <References>\n".toList ++
    "      <Reference ReferenceType=\"Organizes\" IsForward=\"false\">".toList ++
    xmlEscape (parentIdText folder) ++ "</Reference>\n".toList ++
    "      <Reference ReferenceType=\"HasTypeDefinition\">i=61</Reference>\n".toList ++
    "    </References>\n".toList ++
    "  </UAObject>\n".toList

section Platform
variable [Platform]

def nodesetFolders (project : Project) : List Text :=
  (project.tags.flatMap fun tag =>
    folderPaths (split '/' (resolvedNodePath tag)) []).dedup.insertionSort (· ≤ ·)

def nsUri (project : Project) : Text :=
  if project.opcua.namespaceUri = "" then "urn:opc-server:".toList ++ project.name.toList
  else project.opcua.namespaceUri.toList

def Tag.access (tag : Tag) : Text := if tag.writable then ['3'] else ['1']

def Tag.descriptionText (tag : Tag) : Text :=
  if tag.description = "" then tag.name.toList else tag.description.toList

def variableText (tag : Tag) : Text :=
  let path := resolvedNodePath tag
  let name := browseName '/' path
  "  <UAVariable NodeId=\"ns=1;s=".toList ++ xmlEscape path ++ "\" BrowseName=\"1:".toList ++
    xmlEscape name ++ "\" DataType=\"".toList ++ (uaDataType tag.type).toList ++
    "\" ValueRank=\"-1\" AccessLevel=\"".toList ++ tag.access ++ "\" UserAccessLevel=\"".toList ++
    tag.access ++ "\">\n".toList ++
    "    <DisplayName>".toList ++ xmlEscape name ++ "</DisplayName>\n".toList ++
    "    <Description>".toList ++ xmlEscape tag.descriptionText ++ "</Description>\n".toList ++
    "    <References>\n".toList ++
    "      <Reference ReferenceType=\"HasComponent\" IsForward=\"false\">".toList ++
    xmlEscape (parentIdText path) ++ "</Reference>\n".toList ++
    "      <Reference ReferenceType=\"HasTypeDefinition\">i=63</Reference>\n".toList ++
    "    </References>\n".toList ++
    "  </UAVariable>\n".toList

def nodesetHead (project : Project) : Text :=
  "<?xml version=\"1.0\" encoding=\"utf-8\"?>\n".toList ++
    "<UANodeSet xmlns=\"http://opcfoundation.org/UA/2011/03/UANodeSet.xsd\"\n".toList ++
    "           xmlns:xsi=\"http://www.w3.org/2001/XMLSchema-instance\"\n".toList ++
    "           xmlns:uax=\"http://opcfoundation.org/UA/2008/02/Types.xsd\">\n".toList ++
    "  <NamespaceUris>\n".toList ++
    "    <Uri>".toList ++ xmlEscape (nsUri project) ++ "</Uri>\n".toList ++
    "  </NamespaceUris>\n".toList ++
    "  <Aliases>\n".toList ++
    "    <Alias Alias=\"Boolean\">i=1</Alias>\n".toList ++
    "    <Alias Alias=\"Int16\">i=4</Alias>\n".toList ++
    "    <Alias Alias=\"UInt16\">i=5</Alias>\n".toList ++
    "    <Alias Alias=\"Int32\">i=6</Alias>\n".toList ++
    "    <Alias Alias=\"UInt32\">i=7</Alias>\n".toList ++
    "    <Alias Alias=\"Float\">i=10</Alias>\n".toList ++
    "    <Alias Alias=\"Double\">i=11</Alias>\n".toList ++
    "    <Alias Alias=\"Organizes\">i=35</Alias>\n".toList ++
    "    <Alias Alias=\"HasComponent\">i=47</Alias>\n".toList ++
    "    <Alias Alias=\"HasTypeDefinition\">i=40</Alias>\n".toList ++
    "    <Alias Alias=\"FolderType\">i=61</Alias>\n".toList ++
    "    <Alias Alias=\"BaseDataVariableType\">i=63</Alias>\n".toList ++
    "  </Aliases>\n".toList

/-- The whole text that `generate_nodeset` returns. -/
def nodesetText (project : Project) : Text :=
  nodesetHead project ++ (nodesetFolders project).flatMap folderText ++
    project.tags.flatMap variableText ++ "</UANodeSet>\n".toList

end Platform

/-! ### The tokens of the text -/

def attr (name : String) (value : Text) : Attribute := { name := name.toList, value := value }

def dataTokens (name : String) (attributes : List Attribute) (content : Text) : List Token :=
  enclose name.toList attributes (characters content)

/-- The references of a node to its parent and to its type. -/
def referencesTokens (kind type : String) (path : Text) : List Token :=
  enclose "References".toList [] (block "\n      ".toList "\n    ".toList
    [dataTokens "Reference" [attr "ReferenceType" kind.toList, attr "IsForward" "false".toList]
      (parentIdText path),
    dataTokens "Reference" [attr "ReferenceType" "HasTypeDefinition".toList] type.toList])

def folderTokens (folder : Text) : List Token :=
  let name := browseName '/' folder
  enclose "UAObject".toList [attr "NodeId" ("ns=1;s=".toList ++ folder),
    attr "BrowseName" ("1:".toList ++ name)] (block "\n    ".toList "\n  ".toList
      [dataTokens "DisplayName" [] name, referencesTokens "Organizes" "i=61" folder])

def aliasRows : List (String × String) :=
  [("Boolean", "i=1"), ("Int16", "i=4"), ("UInt16", "i=5"), ("Int32", "i=6"), ("UInt32", "i=7"),
    ("Float", "i=10"), ("Double", "i=11"), ("Organizes", "i=35"), ("HasComponent", "i=47"),
    ("HasTypeDefinition", "i=40"), ("FolderType", "i=61"), ("BaseDataVariableType", "i=63")]

def aliasTokens (row : String × String) : List Token :=
  dataTokens "Alias" [attr "Alias" row.1.toList] row.2.toList

theorem escapeChar_eq (c : Char) : escapeChar c = xmlEscapeChar c := by
  unfold escapeChar xmlEscapeChar
  split_ifs with h₁ h₂ h₃ h₄ h₅
  · rw [h₁]; rfl
  · rw [h₂]; rfl
  · rw [h₃]; rfl
  · rw [h₄]; rfl
  · rw [h₅]; rfl
  · have hnone : entities.lookup c = none := by
      rw [List.lookup_eq_none_iff]
      simp [entities, h₁, h₂, h₃, h₄, h₅]
    rw [hnone]

theorem xmlEscape_eq : xmlEscape = escape := by
  funext text
  exact congrArg (List.flatMap · text) (funext fun c => (escapeChar_eq c).symm)

set_option maxRecDepth 8000 in
theorem folderText_eq (folder : Text) :
    folderText folder = "  ".toList ++ render (folderTokens folder) ++ ['\n'] := by
  unfold folderText folderTokens referencesTokens dataTokens attr
  repeat rw [String.toList_ofList]
  simp (disch := decide) only [xmlEscape_eq, render_enclose, render_block, render_characters,
    List.flatMap_cons, List.flatMap_nil, Attribute.render, escape_append, escape_plain,
    List.append_assoc, List.nil_append]
  rfl

theorem escape_uaDataType (type : TagType) :
    escape (uaDataType type).toList = (uaDataType type).toList := by
  cases type <;> exact escape_plain (by decide)

/-- A separator behind every piece, moved before every piece. -/
theorem separator_flatMap {α : Type} (sep : Text) (piece : α → Text) (l : List α) :
    sep ++ l.flatMap (fun a => piece a ++ sep) = l.flatMap (fun a => sep ++ piece a) ++ sep := by
  induction l with
  | nil => exact List.append_nil sep
  | cons a l ih =>
    calc sep ++ (a :: l).flatMap (fun a => piece a ++ sep)
        = sep ++ piece a ++ (sep ++ l.flatMap fun a => piece a ++ sep) := by
          simp only [List.flatMap_cons, List.append_assoc]
      _ = sep ++ piece a ++ (l.flatMap (fun a => sep ++ piece a) ++ sep) := by rw [ih]
      _ = (a :: l).flatMap (fun a => sep ++ piece a) ++ sep := by
          simp only [List.flatMap_cons, List.append_assoc]

theorem flatMap_nodes {α : Type} {text : α → Text} {tokens : α → List Token}
    (h : ∀ a, text a = "  ".toList ++ render (tokens a) ++ ['\n']) (l : List α) :
    ['\n'] ++ l.flatMap text =
      (l.map tokens).flatMap (fun e => escape "\n  ".toList ++ render e) ++ ['\n'] := by
  have hgap : escape "\n  ".toList = ['\n'] ++ "  ".toList := by
    rw [String.toList_ofList, String.toList_ofList]
    rfl
  have htext : text = fun a => "  ".toList ++ render (tokens a) ++ ['\n'] := funext h
  rw [List.flatMap_map, hgap, htext]
  simpa only [List.append_assoc] using
    separator_flatMap ['\n'] (fun a => "  ".toList ++ render (tokens a)) l

section Platform
variable [Platform]

def variableTokens (tag : Tag) : List Token :=
  let path := resolvedNodePath tag
  let name := browseName '/' path
  enclose "UAVariable".toList [attr "NodeId" ("ns=1;s=".toList ++ path),
    attr "BrowseName" ("1:".toList ++ name), attr "DataType" (uaDataType tag.type).toList,
    attr "ValueRank" "-1".toList, attr "AccessLevel" tag.access, attr "UserAccessLevel" tag.access]
    (block "\n    ".toList "\n  ".toList [dataTokens "DisplayName" [] name,
      dataTokens "Description" [] tag.descriptionText, referencesTokens "HasComponent" "i=63" path])


def headElements (project : Project) : List (List Token) :=
  [enclose "NamespaceUris".toList [] (block "\n    ".toList "\n  ".toList
      [dataTokens "Uri" [] (nsUri project)]),
    enclose "Aliases".toList [] (block "\n    ".toList "\n  ".toList (aliasRows.map aliasTokens))]

def rootAttributes : List Attribute :=
  [attr "xmlns" "http://opcfoundation.org/UA/2011/03/UANodeSet.xsd".toList,
    { attr "xmlns:xsi" "http://www.w3.org/2001/XMLSchema-instance".toList with
      gap := "\n           ".toList },
    { attr "xmlns:uax" "http://opcfoundation.org/UA/2008/02/Types.xsd".toList with
      gap := "\n           ".toList }]

def nodesetElements (project : Project) : List (List Token) :=
  headElements project ++ (nodesetFolders project).map folderTokens ++
    project.tags.map variableTokens

def nodesetTokens (project : Project) : List Token :=
  .instruction "xml version=\"1.0\" encoding=\"utf-8\"".toList :: .text ['\n'] ::
    (enclose "UANodeSet".toList rootAttributes
      (block "\n  ".toList ['\n'] (nodesetElements project)) ++ [.text ['\n']])

theorem Tag.escape_access (tag : Tag) : escape tag.access = tag.access := by
  unfold Tag.access
  split_ifs <;> rfl

set_option maxRecDepth 8000 in
theorem variableText_eq (tag : Tag) :
    variableText tag = "  ".toList ++ render (variableTokens tag) ++ ['\n'] := by
  unfold variableText variableTokens referencesTokens dataTokens attr
  repeat rw [String.toList_ofList]
  simp (disch := decide) only [xmlEscape_eq, render_enclose, render_block, render_characters,
    List.flatMap_cons, List.flatMap_nil, Attribute.render, escape_append, tag.escape_access,
    escape_uaDataType, escape_plain, List.append_assoc, List.nil_append]
  rfl

/-- The text up to the first node. -/
def headText (project : Project) : Text :=
  render [.instruction "xml version=\"1.0\" encoding=\"utf-8\"".toList, .text ['\n'],
    .opening "UANodeSet".toList rootAttributes] ++
    (headElements project).flatMap fun e => escape "\n  ".toList ++ render e

set_option maxRecDepth 8000 in
theorem nodesetHead_eq (project : Project) :
    nodesetHead project = headText project ++ ['\n'] := by
  unfold nodesetHead headText headElements aliasRows rootAttributes
  simp only [List.map_cons, List.map_nil]
  unfold aliasTokens dataTokens attr
  repeat rw [String.toList_ofList]
  simp (disch := decide) only [xmlEscape_eq, render_enclose, render_block, render_characters,
    List.flatMap_cons, List.flatMap_nil, Attribute.render, escape_plain,
    List.append_assoc, List.nil_append, render_cons, render_nil, Token.render]
  rfl

theorem nodesetText_eq (project : Project) : nodesetText project = render (nodesetTokens project) := by
  have hfolders := flatMap_nodes folderText_eq (nodesetFolders project)
  have hvariables := flatMap_nodes variableText_eq project.tags
  have hend : "</UANodeSet>\n".toList = render [.closing "UANodeSet".toList, .text ['\n']] := by
    rw [String.toList_ofList, String.toList_ofList]
    rfl
  have hlast : escape ['\n'] = ['\n'] := rfl
  rw [nodesetText, nodesetHead_eq, hend, List.append_assoc _ ['\n'], hfolders, ← List.append_assoc,
    List.append_assoc _ ['\n'], hvariables, nodesetTokens, headText, nodesetElements]
  simp only [render_cons, render_append, render_nil, enclose, render_block, List.flatMap_append,
    List.append_assoc, List.append_nil, List.cons_append, List.nil_append, hlast]

end Platform

/-! ### The tokens are well formed -/

/-- Elements that may stand anywhere and whose tags match. -/
def WellFormed (tokens : List Token) : Prop := IsElement tokens ∧ Balanced tokens

theorem attr_proper {name : String} (h : IsName name.toList) (value : Text) :
    (attr name value).Proper := ⟨List.cons_ne_nil _ _, rfl, h⟩

theorem wellFormed_data {name : String} {attributes : List Attribute} (content : Text)
    (hname : IsName name.toList) (hattributes : ∀ a ∈ attributes, a.Proper) :
    WellFormed (dataTokens name attributes content) :=
  ⟨isElement_enclose hname hattributes (isInner_characters content),
    (balanced_characters content).enclose _ _⟩

theorem wellFormed_block {name gap last : Text} {attributes : List Attribute}
    {elements : List (List Token)} (hname : IsName name) (hattributes : ∀ a ∈ attributes, a.Proper)
    (hgap : gap ≠ []) (hlast : last ≠ []) (h : ∀ e ∈ elements, WellFormed e) :
    WellFormed (enclose name attributes (block gap last elements)) :=
  ⟨isElement_enclose hname hattributes (isInner_block hgap hlast fun e he => (h e he).1),
    (balanced_block fun e he => (h e he).2).enclose _ _⟩

theorem wellFormed_references {kind type : String} (path : Text) :
    WellFormed (referencesTokens kind type path) := by
  have hreference : IsName "Reference".toList := by decide
  refine wellFormed_block (by decide) (by simp) (by decide) (by decide) fun e he => ?_
  have hattributes (target : Text) : ∀ a ∈ [attr "ReferenceType" target], a.Proper := by
    simpa only [List.forall_mem_singleton] using attr_proper (by decide) target
  rcases List.mem_pair.mp he with rfl | rfl
  · refine wellFormed_data _ hreference (List.forall_mem_cons.mpr ⟨attr_proper (by decide) _, ?_⟩)
    exact List.forall_mem_singleton.mpr (attr_proper (by decide) _)
  · exact wellFormed_data _ hreference (hattributes _)

theorem wellFormed_plain {name : String} (content : Text) (h : IsName name.toList) :
    WellFormed (dataTokens name [] content) :=
  wellFormed_data content h fun _ ha => absurd ha List.not_mem_nil

theorem wellFormed_folder (folder : Text) : WellFormed (folderTokens folder) := by
  refine wellFormed_block (by decide) ?_ (by decide) (by decide) fun e he => ?_
  · simp only [List.forall_mem_cons, List.not_mem_nil, false_implies, implies_true, and_true]
    exact ⟨attr_proper (by decide) _, attr_proper (by decide) _⟩
  · rcases List.mem_pair.mp he with rfl | rfl
    · exact wellFormed_plain _ (by decide)
    · exact wellFormed_references folder

section Platform
variable [Platform]

theorem wellFormed_variable (tag : Tag) : WellFormed (variableTokens tag) := by
  refine wellFormed_block (by decide) ?_ (by decide) (by decide) fun e he => ?_
  · simp only [List.forall_mem_cons, List.not_mem_nil, false_implies, implies_true, and_true]
    refine ⟨?_, ?_, ?_, ?_, ?_, ?_⟩ <;> exact attr_proper (by decide) _
  · simp only [List.mem_cons, List.not_mem_nil, or_false] at he
    rcases he with rfl | rfl | rfl
    · exact wellFormed_plain _ (by decide)
    · exact wellFormed_plain _ (by decide)
    · exact wellFormed_references _

theorem wellFormed_headElements (project : Project) :
    ∀ e ∈ headElements project, WellFormed e := by
  intro e he
  rcases List.mem_pair.mp he with rfl | rfl
  · refine wellFormed_block (by decide) (by simp) (by decide) (by decide) fun e he => ?_
    rw [List.mem_singleton.mp he]
    exact wellFormed_plain _ (by decide)
  · refine wellFormed_block (by decide) (by simp) (by decide) (by decide) fun e he => ?_
    obtain ⟨row, -, rfl⟩ := List.mem_map.mp he
    exact wellFormed_data _ (by decide) (List.forall_mem_singleton.mpr (attr_proper (by decide) _))

theorem wellFormed_nodeset (project : Project) :
    WellFormed (enclose "UANodeSet".toList rootAttributes
      (block "\n  ".toList ['\n'] (nodesetElements project))) := by
  refine wellFormed_block (by decide) ?_ (by decide) (by decide) fun e he => ?_
  · simp only [rootAttributes, List.forall_mem_cons, List.not_mem_nil, false_implies, implies_true,
      and_true]
    exact ⟨attr_proper (by decide) _, ⟨by decide, by decide, by decide⟩,
      ⟨by decide, by decide, by decide⟩⟩
  · simp only [nodesetElements, List.mem_append, List.mem_map] at he
    rcases he with (he | ⟨folder, -, rfl⟩) | ⟨tag, -, rfl⟩
    · exact wellFormed_headElements project e he
    · exact wellFormed_folder folder
    · exact wellFormed_variable tag

theorem scan_nodesetText (project : Project) :
    Markup.scan (nodesetText project) = some (nodesetTokens project) := by
  have hlast : Separated false [.text ['\n']] := ⟨rfl, by decide, trivial⟩
  have hroot := (wellFormed_nodeset project).1 true _ hlast
  have hinstruction : '?' ∉ "xml version=\"1.0\" encoding=\"utf-8\"".toList := by decide
  rw [nodesetText_eq]
  exact scan_render ⟨hinstruction, rfl, by decide, hroot⟩

/-! ### The characters of the tokens -/

section Over

omit [Platform]

theorem all_over {kept : Char → Bool} {text : Text} (h : text.all kept = true) :
    ∀ c ∈ text, kept c = true := List.all_eq_true.mp h

theorem over_attr {name : String} {value : Text} (hname : ∀ c ∈ name.toList, keptInText c = true)
    (h : ∀ c ∈ value, keptInValue c = true) : (attr name value).Over keptInText keptInValue :=
  ⟨List.forall_mem_singleton.mpr (by decide), hname, h⟩

theorem over_data {name : String} {attributes : List Attribute} {content : Text}
    (hname : ∀ c ∈ name.toList, keptInText c = true)
    (hattributes : ∀ a ∈ attributes, a.Over keptInText keptInValue)
    (h : ∀ c ∈ content, keptInText c = true) :
    AllOver keptInText keptInValue (dataTokens name attributes content) :=
  (allOver_characters h).enclose hname hattributes

theorem over_plain {name : String} {content : Text} (hname : ∀ c ∈ name.toList, keptInText c = true)
    (h : ∀ c ∈ content, keptInText c = true) :
    AllOver keptInText keptInValue (dataTokens name [] content) :=
  over_data hname (fun _ ha => absurd ha List.not_mem_nil) h

variable {path : Text} (hpath : ∀ c ∈ path, keptInValue c = true)
include hpath

theorem over_after {start : Text} (hstart : ∀ c ∈ start, keptInValue c = true) :
    ∀ c ∈ start ++ path, keptInValue c = true :=
  List.forall_mem_append.mpr ⟨hstart, hpath⟩

theorem over_browseName : ∀ c ∈ browseName '/' path, keptInValue c = true :=
  fun c hc => hpath c (mem_of_mem_browseName hc)

theorem over_references {kind type : String} (hkind : ∀ c ∈ kind.toList, keptInValue c = true)
    (htype : ∀ c ∈ type.toList, keptInText c = true) :
    AllOver keptInText keptInValue (referencesTokens kind type path) := by
  refine (allOver_block (fun e he => ?_) (all_over rfl) (all_over rfl)).enclose (all_over rfl)
    fun a ha => absurd ha List.not_mem_nil
  have hparent : ∀ c ∈ parentIdText path, keptInText c = true := by
    unfold parentIdText
    split_ifs
    · exact all_over rfl
    · exact List.forall_mem_append.mpr ⟨all_over rfl,
        fun c hc => keptInText_of_value (hpath c (mem_of_mem_parentPath hc))⟩
  rcases List.mem_pair.mp he with rfl | rfl
  · refine over_data (all_over rfl) (List.forall_mem_cons.mpr ⟨over_attr (all_over rfl) hkind, ?_⟩) hparent
    exact List.forall_mem_singleton.mpr (over_attr (all_over rfl) (all_over rfl))
  · exact over_data (all_over rfl) (List.forall_mem_singleton.mpr (over_attr (all_over rfl) (all_over rfl)))
      htype

theorem over_folder : AllOver keptInText keptInValue (folderTokens path) := by
  have hname := over_browseName hpath
  refine (allOver_block (fun e he => ?_) (all_over rfl) (all_over rfl)).enclose (all_over rfl) ?_
  · rcases List.mem_pair.mp he with rfl | rfl
    · exact over_plain (all_over rfl) fun c hc => keptInText_of_value (hname c hc)
    · exact over_references hpath (all_over rfl) (all_over rfl)
  · refine List.forall_mem_cons.mpr ⟨over_attr (all_over rfl) (over_after hpath (all_over rfl)), ?_⟩
    exact List.forall_mem_singleton.mpr (over_attr (all_over rfl) (over_after hname (all_over rfl)))

end Over

theorem over_variable {tag : Tag} (hpath : ∀ c ∈ resolvedNodePath tag, keptInValue c = true)
    (hdescription : ∀ c ∈ tag.descriptionText, keptInText c = true) :
    AllOver keptInText keptInValue (variableTokens tag) := by
  have hname := over_browseName hpath
  have htype : ∀ c ∈ (uaDataType tag.type).toList, keptInValue c = true := by
    cases tag.type <;> exact all_over rfl
  have haccess : ∀ c ∈ tag.access, keptInValue c = true := by
    unfold Tag.access
    split_ifs <;> exact all_over rfl
  refine (allOver_block (fun e he => ?_) (all_over rfl) (all_over rfl)).enclose (all_over rfl) ?_
  · simp only [List.mem_cons, List.not_mem_nil, or_false] at he
    rcases he with rfl | rfl | rfl
    · exact over_plain (all_over rfl) fun c hc => keptInText_of_value (hname c hc)
    · exact over_plain (all_over rfl) hdescription
    · exact over_references hpath (all_over rfl) (all_over rfl)
  · simp only [List.forall_mem_cons, List.not_mem_nil, false_implies, implies_true, and_true]
    exact ⟨over_attr (all_over rfl) (over_after hpath (all_over rfl)),
      over_attr (all_over rfl) (over_after hname (all_over rfl)), over_attr (all_over rfl) htype,
      over_attr (all_over rfl) (all_over rfl), over_attr (all_over rfl) haccess,
      over_attr (all_over rfl) haccess⟩

/-- A folder has the characters of a path, and separators. -/
theorem over_nodesetFolders {project : Project}
    (h : ∀ tag ∈ project.tags, ∀ c ∈ resolvedNodePath tag, keptInValue c = true) :
    ∀ folder ∈ nodesetFolders project, ∀ c ∈ folder, keptInValue c = true := by
  intro folder hfolder c hc
  rw [nodesetFolders, List.mem_insertionSort, List.mem_dedup, List.mem_flatMap] at hfolder
  obtain ⟨tag, htag, hmem⟩ := hfolder
  obtain ⟨q, -, hq, rfl⟩ := (mem_folderPaths _ [] folder).mp hmem
  rcases mem_join hc with rfl | ⟨segment, hsegment, hc⟩
  · decide
  · have hpart : segment ∈ split '/' (resolvedNodePath tag) :=
      List.dropLast_subset _ (hq.subset hsegment)
    exact h tag htag c (mem_of_mem_split hpart hc)

/-- The characters of a project that another program reads as they stand. -/
structure Readable (project : Project) : Prop where
  namespaceUri : ∀ c ∈ nsUri project, keptInText c = true
  paths : ∀ tag ∈ project.tags, ∀ c ∈ resolvedNodePath tag, keptInValue c = true
  descriptions : ∀ tag ∈ project.tags, ∀ c ∈ tag.descriptionText, keptInText c = true

theorem over_nodesetTokens {project : Project} (h : Readable project) :
    AllOver keptInText keptInValue (nodesetTokens project) := by
  have hgap : ∀ c ∈ ("\n  ".toList : Text), keptInText c = true := all_over rfl
  have hlast : ∀ c ∈ ['\n'], keptInText c = true := all_over rfl
  have hprolog : ∀ c ∈ "xml version=\"1.0\" encoding=\"utf-8\"".toList, keptInText c = true :=
    all_over rfl
  refine .cons hprolog (.cons hlast (AllOver.append ?_ (List.forall_mem_singleton.mpr hlast)))
  refine (allOver_block (fun e he => ?_) hgap hlast).enclose (all_over rfl) ?_
  · simp only [nodesetElements, List.mem_append, List.mem_map] at he
    rcases he with (he | ⟨folder, hfolder, rfl⟩) | ⟨tag, htag, rfl⟩
    · rcases List.mem_pair.mp he with rfl | rfl
      · refine (allOver_block (fun e he => ?_) (all_over rfl) (all_over rfl)).enclose (all_over rfl)
          fun a ha => absurd ha List.not_mem_nil
        rw [List.mem_singleton.mp he]
        exact over_plain (all_over rfl) h.namespaceUri
      · refine (allOver_block (fun e he => ?_) (all_over rfl) (all_over rfl)).enclose (all_over rfl)
          fun a ha => absurd ha List.not_mem_nil
        obtain ⟨row, hrow, rfl⟩ := List.mem_map.mp he
        have hrows : ∀ row ∈ aliasRows, row.1.toList.all keptInValue = true ∧
            row.2.toList.all keptInText = true := by decide
        exact over_data (all_over rfl)
          (List.forall_mem_singleton.mpr (over_attr (all_over rfl) (all_over (hrows row hrow).1)))
          (all_over (hrows row hrow).2)
    · exact over_folder (over_nodesetFolders h.paths folder hfolder)
    · exact over_variable (h.paths tag htag) (h.descriptions tag htag)
  · simp only [rootAttributes, List.forall_mem_cons, List.not_mem_nil, false_implies, implies_true,
      and_true]
    exact ⟨over_attr (all_over rfl) (all_over rfl), ⟨all_over rfl, all_over rfl, all_over rfl⟩,
      ⟨all_over rfl, all_over rfl, all_over rfl⟩⟩

theorem parse_nodesetText {project : Project} (h : Readable project) :
    Markup.parse (nodesetText project) = some (nodesetTokens project) := by
  have hscan := scan_nodesetText project
  rw [nodesetText_eq] at hscan ⊢
  exact parse_render hscan (over_nodesetTokens h)

/-- Every start tag of the text has its end tag. -/
theorem nesting_nodesetTokens (project : Project) : nesting [] (nodesetTokens project) = some [] := by
  rw [nodesetTokens, nesting, nesting, nesting_append, (wellFormed_nodeset project).2]
  rfl

end Platform

end OpcServer.Project
