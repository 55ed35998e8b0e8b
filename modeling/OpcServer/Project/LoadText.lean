import OpcServer.Project.Schema
import OpcServer.Project.Validate

/-! Loading a project from text, and what is known of the projects that pass. The
diagnostics of the reader, of the schema engine and of the semantic checks are
collected, and the project is accepted when none of them is an error. -/

set_option linter.dupNamespace false

namespace OpcServer.Project

open Domain

variable [Platform]

def loadJsonText (lib : JsonLibrary) (text sourceName : String) : LoadResult :=
  match lib.parse text with
  | .error what =>
    { ok := false, diagnostics := addError sourceName ("JSON parse error: " ++ what) }
  | .ok root =>
    let (parsed, diags) := parseProject root
    let project := expandDeviceProfiles parsed
    let diagnostics := diags ++
      appendJsonSchemaDiagnostics (lib.validate Schema.project root) sourceName ++ validate project
    { ok := diagnostics.all (·.severity != .error), project := project,
      diagnostics := diagnostics }

/-- A small project file: one device on one endpoint, polled by one group. -/
def siteDocument (addressBase : ℤ) (tags : List Json) : Json := .object
  [("schemaVersion", .int 1), ("name", .string "site"), ("addressBase", .int addressBase),
    ("endpoints", .array [.object [("id", .string "plc"), ("host", .string "10.0.0.2"),
      ("port", .int 502), ("transport", .string "tcp")]]),
    ("devices", .array [.object [("id", .string "pump"), ("endpointId", .string "plc"),
      ("unitId", .int 1), ("tags", .array tags)]]),
    ("pollGroups", .array [.object [("id", .string "main"), ("periodMs", .int 100),
      ("priority", .string "fast"), ("deviceId", .string "pump")]])]

/-- A tag of a project file. -/
def tagDocument (name area type : String) (address : ℤ) (writable : Bool) : Json := .object
  [("name", .string name), ("area", .string area), ("address", .int address),
    ("type", .string type), ("writable", .bool writable)]

/-- A project file with several endpoints. A device is on an endpoint, and a group polls
the tags of a device. -/
def plantDocument (endpoints : List String) (devices : List (String × String × List Json))
    (groups : List (String × String × ℤ)) : Json := .object
  [("schemaVersion", .int 1), ("name", .string "plant"),
    ("endpoints", .array (endpoints.map fun id => .object [("id", .string id),
      ("host", .string "10.0.0.2"), ("port", .int 502), ("transport", .string "tcp")])),
    ("devices", .array (devices.map fun (id, endpointId, tags) => .object [("id", .string id),
      ("endpointId", .string endpointId), ("unitId", .int 1), ("tags", .array tags)])),
    ("pollGroups", .array (groups.map fun (id, deviceId, periodMs) => .object [("id", .string id),
      ("periodMs", .int periodMs), ("priority", .string "fast"),
      ("deviceId", .string deviceId)]))]

/-- The result of loading a document, with a library that reads it as it is. -/
def loadDocument (root : Json) : LoadResult :=
  loadJsonText (.reading fun _ => root) "" "site.modbusproj.json"

/-! ### Diagnostics without errors -/

section Errors

omit [Platform]

@[simp] theorem noErrors_nil : NoErrors [] := by simp [NoErrors]

@[simp] theorem noErrors_append (a b : List Diagnostic) :
    NoErrors (a ++ b) ↔ NoErrors a ∧ NoErrors b := by
  simp only [NoErrors, List.mem_append]
  grind

@[simp] theorem noErrors_addError (path message : String) : ¬ NoErrors (addError path message) := by
  simp [NoErrors, addError]

@[simp] theorem noErrors_check (bad : Bool) (path message : String) :
    NoErrors (check bad path message) ↔ bad = false := by
  cases bad <;> simp [check]

theorem noErrors_flatMap {α : Type} (f : α → List Diagnostic) (l : List α) :
    NoErrors (l.flatMap f) ↔ ∀ a ∈ l, NoErrors (f a) := by
  simp only [NoErrors, List.mem_flatMap]
  grind

theorem required_noErrors {α : Type} {value : Option α} {default : α} {path message : String}
    (h : NoErrors (required value default path message).2) :
    value = some (required value default path message).1 := by
  cases value with
  | none => exact absurd h (noErrors_addError path message)
  | some v => rfl

theorem noErrors_schema {report : SchemaReport} {sourceName : String}
    (h : NoErrors (appendJsonSchemaDiagnostics report sourceName)) : report = {} := by
  rw [appendJsonSchemaDiagnostics, noErrors_append, noErrors_flatMap] at h
  obtain ⟨errors, exception⟩ := report
  cases errors with
  | cons e rest => exact absurd (h.1 e List.mem_cons_self) (noErrors_addError _ _)
  | nil =>
    cases exception with
    | some what => exact absurd h.2 (noErrors_addError _ _)
    | none => rfl

end Errors

/-- Values of an array read without errors come from items read without errors. -/
theorem each_noErrors {α : Type} {parse : String → Json → List α × List Diagnostic}
    {base : String} {i : ℕ} {items : List Json} {v : α} (hv : v ∈ (each parse base i items).1)
    (h : NoErrors (each parse base i items).2) :
    ∃ path, ∃ item ∈ items, v ∈ (parse path item).1 ∧ NoErrors (parse path item).2 := by
  induction items generalizing i with
  | nil => cases hv
  | cons item rest ih =>
    rw [each, noErrors_append] at h
    rcases List.mem_append.mp hv with hv | hv
    · exact ⟨_, item, List.mem_cons_self, hv, h.1⟩
    · obtain ⟨path, item', hm, hv⟩ := ih hv h.2
      exact ⟨path, item', List.mem_cons_of_mem _ hm, hv⟩

theorem requiredEach_noErrors {α : Type} {parse : String → Json → List α × List Diagnostic}
    {root : Json} {key : String} {v : α} (hv : v ∈ (requiredEach parse root key).1)
    (h : NoErrors (requiredEach parse root key).2) :
    ∃ items, root.array? key = some items ∧
      ∃ path, ∃ item ∈ items, v ∈ (parse path item).1 ∧ NoErrors (parse path item).2 := by
  cases hitems : root.array? key with
  | none =>
    rw [requiredEach, hitems] at hv
    cases hv
  | some items =>
    cases items with
    | nil =>
      rw [requiredEach, hitems] at hv
      cases hv
    | cons item rest =>
      rw [requiredEach, hitems] at hv h
      exact ⟨_, rfl, each_noErrors hv h⟩

theorem array?_eq_some {j : Json} {key : String} {items : List Json}
    (h : j.array? key = some items) : j.get? key = some (.array items) := by
  obtain ⟨v, hv, ha⟩ := Option.bind_eq_some_iff.mp h
  cases v with
  | array vs => rw [hv, Option.some.inj ha]
  | _ => cases ha

theorem string?_eq_some {j : Json} {key v : String} (h : j.string? key = some v) :
    j.get? key = some (.string v) := by
  obtain ⟨w, hw, hs⟩ := Option.bind_eq_some_iff.mp h
  cases w with
  | string s => rw [hw, Option.some.inj hs]
  | _ => cases hs

/-! ### Tags -/

/-- What the semantic checks say of one tag. -/
structure Tag.Checked (tag : Tag) : Prop where
  address : 0 ≤ tag.address
  quantity : ∀ q ∈ tag.quantity, 1 ≤ q
  writable : tag.writable = true → tag.area = .holding ∨ tag.area = .coil

theorem Tag.Checked.regsFor_pos {tag : Tag} (h : tag.Checked) : 1 ≤ regsFor tag := by
  unfold regsFor
  split
  · rename_i q hq
    exact h.quantity q hq
  · exact registerCountFor_pos tag.type

theorem validateTag_noErrors {path : String} {tag : Tag} (h : NoErrors (validateTag path tag)) :
    tag.Checked := by
  simp only [validateTag, noErrors_append, noErrors_check, decide_eq_false_iff_not, not_lt] at h
  obtain ⟨⟨⟨haddr, -⟩, hqty⟩, hwr⟩ := h
  refine ⟨haddr, ?_, ?_⟩
  · intro q hq
    rw [Option.mem_def.mp hq] at hqty
    simpa using hqty
  · intro hw
    cases harea : tag.area <;> simp_all

theorem validateTags_noErrors {path : String} {i : ℕ} {own all : List String} {tags : List Tag}
    (h : NoErrors (validateTags path i own all tags).1) : ∀ tag ∈ tags, tag.Checked := by
  induction tags generalizing i own all with
  | nil => simp
  | cons tag rest ih =>
    rw [validateTags] at h
    dsimp only at h
    split at h
    · simp at h
    · split at h
      · simp at h
      · rw [noErrors_append] at h
        rintro t (_ | ⟨_, ht⟩)
        · exact validateTag_noErrors h.1
        · exact ih h.2 t ht

theorem validateDevices_noErrors {project : Project} {i : ℕ} {seen all : List String}
    {devices : List Device} (h : NoErrors (validateDevices project i seen all devices)) :
    ∀ d ∈ devices, ∀ tag ∈ d.tags, tag.Checked := by
  induction devices generalizing i seen all with
  | nil => simp
  | cons d rest ih =>
    simp only [validateDevices, noErrors_append] at h
    rintro d' (_ | ⟨_, hd⟩)
    · exact validateTags_noErrors h.1.2
    · exact ih h.2 d' hd

/-! ### Poll groups -/

section Blocks

omit [Platform]

structure RegisterBlock.Checked (block : RegisterBlock) : Prop where
  start : 0 ≤ block.start
  count : 1 ≤ block.count ∧ block.count ≤ 125

theorem validateBlocks_noErrors {path : String} {i : ℕ} {blocks : List RegisterBlock}
    (h : NoErrors (validateBlocks path i blocks)) : ∀ block ∈ blocks, block.Checked := by
  induction blocks generalizing i with
  | nil => simp
  | cons b rest ih =>
    simp only [validateBlocks, validateBlock, noErrors_append, noErrors_check,
      decide_eq_false_iff_not, Bool.or_eq_false_iff, not_lt] at h
    rintro b' (_ | ⟨_, hb⟩)
    · exact ⟨h.1.1, h.1.2.1, by omega⟩
    · exact ih h.2 b' hb

end Blocks

/-- What the semantic checks say of one group. -/
structure PollGroup.Checked (project : Project) (group : PollGroup) : Prop where
  blocks : ∀ block ∈ group.blocks, block.Checked
  tagNames : ∀ device, devicesById project group.deviceId = some device →
    ∀ name ∈ group.tagNames, ∃ tag ∈ device.tags, tag.name = name
  deviceId : group.deviceId ≠ "" → (devicesById project group.deviceId).isSome

theorem validateGroup_noErrors {project : Project} {path : String} {seen : List String}
    {group : PollGroup} (h : NoErrors (validateGroup project path seen group)) :
    group.Checked project := by
  simp only [validateGroup, noErrors_append, noErrors_check] at h
  obtain ⟨⟨⟨⟨⟨-, -⟩, hdev⟩, -⟩, hblocks⟩, hnames⟩ := h
  refine ⟨validateBlocks_noErrors hblocks, ?_, ?_⟩
  · intro device hd name hn
    rw [hd] at hnames
    simp only [validateTagNames, noErrors_flatMap, noErrors_check] at hnames
    simpa using hnames name hn
  · intro hne
    cases hd : devicesById project group.deviceId with
    | some d => rfl
    | none => simp [hne, hd] at hdev

theorem validateGroups_noErrors {project : Project} {i : ℕ} {seen : List String}
    {groups : List PollGroup} (h : NoErrors (validateGroups project i seen groups)) :
    ∀ group ∈ groups, group.Checked project := by
  induction groups generalizing i seen with
  | nil => simp
  | cons g rest ih =>
    rw [validateGroups, noErrors_append] at h
    rintro g' (_ | ⟨_, hg⟩)
    · exact validateGroup_noErrors h.1
    · exact ih h.2 g' hg

/-! ### Accepted projects -/

/-- What the rest of the program relies on in a project that was accepted. -/
structure Project.Checked (project : Project) : Prop where
  tags : ∀ d ∈ project.devices, ∀ tag ∈ d.tags, tag.Checked
  groups : ∀ group ∈ project.pollGroups, group.Checked project
  deviceIds : ∀ group ∈ project.pollGroups, group.deviceId ≠ ""

theorem validate_noErrors {project : Project} (h : NoErrors (validate project)) :
    (∀ d ∈ project.devices, ∀ tag ∈ d.tags, tag.Checked) ∧
      ∀ group ∈ project.pollGroups, group.Checked project := by
  simp only [validate, noErrors_append] at h
  obtain ⟨⟨⟨⟨-, -⟩, hdev⟩, hgroups⟩, -⟩ := h
  exact ⟨validateDevices_noErrors hdev, validateGroups_noErrors hgroups⟩

/-- A required string whose property has a minimal length is not empty. -/
theorem requiredString_ne_empty {required : List String} {properties : List (String × Schema)}
    {j : Json} {path key : String} (h : (Schema.object required properties).conforms j = true)
    (hkey : ∀ v, Schema.propertyConforms properties key v = Schema.name.conforms v)
    (hno : NoErrors (requiredString j path key).2) : (requiredString j path key).1 ≠ "" := by
  have hv := Schema.conforms_get? h (string?_eq_some (required_noErrors hno))
  rw [hkey] at hv
  rintro (hempty : (requiredString j path key).1 = "")
  rw [requiredString] at hempty
  rw [hempty] at hv
  simp [Schema.name, Schema.conforms] at hv

theorem isObject_of_conforms {required : List String} {properties : List (String × Schema)}
    {j : Json} (h : (Schema.object required properties).conforms j = true) :
    j.isObject = true := by
  cases j <;> simp_all [Schema.conforms, Json.isObject]

/-- The schema does not let a group name its device by the empty string. -/
theorem deviceId_ne_empty {root : Json} (hroot : Schema.project.conforms root = true)
    (h : NoErrors (parseProject root).2) {group : PollGroup}
    (hg : group ∈ (parseProject root).1.pollGroups) : group.deviceId ≠ "" := by
  have hobj : root.isObject = true := isObject_of_conforms hroot
  simp only [parseProject, hobj, Bool.not_true, Bool.false_eq_true, if_false,
    noErrors_append] at h hg
  obtain ⟨items, hitems, path, item, hitem, hmem, hne⟩ := requiredEach_noErrors hg h.2
  -- the array and the item conform to their parts of the schema
  have harray := Schema.conforms_get? hroot (array?_eq_some hitems)
  have hconf : Schema.pollGroup.conforms item = true := Schema.conforms_array harray hitem
  have hobj' : item.isObject = true := isObject_of_conforms hconf
  simp only [parseGroup, hobj', Bool.not_true, Bool.false_eq_true, if_false, noErrors_append,
    List.mem_singleton] at hmem hne
  obtain ⟨⟨⟨-, hdev⟩, -⟩, -⟩ := hne
  subst hmem
  exact requiredString_ne_empty hconf (fun v => by simp [Schema.propertyConforms]) hdev

/-- A document is accepted only if reading it, the schema engine and the semantic checks
report no error. -/
theorem loadJsonText_parsed {lib : JsonLibrary} {text sourceName : String} {root : Json}
    (hroot : lib.parse text = .ok root) (h : (loadJsonText lib text sourceName).ok = true) :
    NoErrors (parseProject root).2 ∧
      NoErrors (appendJsonSchemaDiagnostics (lib.validate Schema.project root) sourceName) ∧
      NoErrors (validate (expandDeviceProfiles (parseProject root).1)) ∧
      (loadJsonText lib text sourceName).project =
        expandDeviceProfiles (parseProject root).1 := by
  simp only [loadJsonText, hroot] at h ⊢
  have hno : NoErrors ((parseProject root).2 ++
      appendJsonSchemaDiagnostics (lib.validate Schema.project root) sourceName ++
      validate (expandDeviceProfiles (parseProject root).1)) := by
    intro d hd
    simpa using List.all_eq_true.mp h d hd
  rw [noErrors_append, noErrors_append] at hno
  exact ⟨hno.1.1, hno.1.2, hno.2, trivial⟩

theorem loadJsonText_ok {lib : JsonLibrary} {text sourceName : String}
    (h : (loadJsonText lib text sourceName).ok = true) :
    ∃ root, NoErrors (parseProject root).2 ∧
      NoErrors (appendJsonSchemaDiagnostics (lib.validate Schema.project root) sourceName) ∧
      NoErrors (validate (expandDeviceProfiles (parseProject root).1)) ∧
      (loadJsonText lib text sourceName).project =
        expandDeviceProfiles (parseProject root).1 := by
  cases hroot : lib.parse text with
  | error what =>
    rw [loadJsonText, hroot] at h
    cases h
  | ok root => exact ⟨root, loadJsonText_parsed hroot h⟩

/-- A project is accepted only if it passes every check. -/
theorem loadJsonText_checked {lib : JsonLibrary} (hlib : lib.ReportsViolations)
    {text sourceName : String} (h : (loadJsonText lib text sourceName).ok = true) :
    (loadJsonText lib text sourceName).project.Checked := by
  obtain ⟨root, hparse, hschema, hvalid, hproject⟩ := loadJsonText_ok h
  rw [hproject]
  have hconf := hlib _ _ (noErrors_schema hschema)
  obtain ⟨htags, hgroups⟩ := validate_noErrors hvalid
  exact ⟨htags, hgroups, fun group hg => deviceId_ne_empty hconf hparse hg⟩

end OpcServer.Project
