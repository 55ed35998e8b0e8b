import OpcServer.Project.Consistency

/-! Texts that are accepted. The engine accepts a document that conforms with whole
numbers for its integers, and a project whose names are distinct and whose references
are known passes the semantic checks. -/

set_option linter.dupNamespace false

namespace OpcServer.Project

open Domain

/-! ### Documents that the engine accepts -/

section Documents
variable [Platform]

namespace Schema

mutual

/-- A document conforms to a schema, and its integers are written as such. -/
def accepts : Schema → Json → Bool
  | .string minLength, .string v => minLength ≤ v.length
  | .stringEnum values, .string v => values.contains v
  | .integer minimum maximum, .int v => minimum.all (· ≤ v) && maximum.all (v ≤ ·)
  | .integerEnum values, .int v => values.contains v
  | .number, .int _ => true
  | .number, .float _ => true
  | .boolean, .bool _ => true
  | .array minItems items, .array vs => minItems ≤ vs.length && vs.all (accepts items)
  | .object required properties, .object fields =>
    required.all (fun key => fields.any fun f => f.1 == key) &&
      fields.all fun f => propertyAccepts properties f.1 f.2
  | _, _ => false

def propertyAccepts : List (String × Schema) → String → Json → Bool
  | [], _, _ => false
  | (k, s) :: rest, key, v => if k == key then s.accepts v else propertyAccepts rest key v

end

mutual

theorem conforms_of_accepts : ∀ (schema : Schema) (document : Json),
    schema.accepts document = true → schema.conforms document = true
  | .array minItems items, .array vs, h => by
    simp only [accepts, conforms, Bool.and_eq_true, List.all_eq_true] at h ⊢
    exact ⟨h.1, fun v hv => conforms_of_accepts items v (h.2 v hv)⟩
  | .object required properties, .object fields, h => by
    simp only [accepts, conforms, Bool.and_eq_true, List.all_eq_true] at h ⊢
    exact ⟨h.1, fun f hf => propertyConforms_of_accepts properties f.1 f.2 (h.2 f hf)⟩
  | .string _, .string _, h => h
  | .stringEnum _, .string _, h => h
  | .integer _ _, .int _, h => h
  | .integerEnum _, .int _, h => h
  | .number, .int _, h => h
  | .number, .float _, h => h
  | .boolean, .bool _, h => h

theorem propertyConforms_of_accepts : ∀ (properties : List (String × Schema)) (key : String)
    (v : Json), propertyAccepts properties key v = true → propertyConforms properties key v = true
  | [], _, _, h => by cases h
  | (k, s) :: rest, key, v, h => by
    rw [propertyAccepts] at h
    rw [propertyConforms]
    split
    · rename_i hk
      rw [if_pos hk] at h
      exact conforms_of_accepts s v h
    · rename_i hk
      rw [if_neg hk] at h
      exact propertyConforms_of_accepts rest key v h

end

/-- An object with the fields that are required and no others than those allowed. -/
theorem accepts_object {required : List String} {properties : List (String × Schema)}
    {fields : List (String × Json)}
    (hrequired : ∀ key ∈ required, ∃ f ∈ fields, f.1 = key)
    (hfields : ∀ f ∈ fields, propertyAccepts properties f.1 f.2 = true) :
    (Schema.object required properties).accepts (.object fields) = true := by
  simp only [accepts, Bool.and_eq_true, List.all_eq_true, List.any_eq_true, beq_iff_eq]
  exact ⟨hrequired, hfields⟩

theorem accepts_array {minItems : ℕ} {items : Schema} {vs : List Json} (hlen : minItems ≤ vs.length)
    (hvs : ∀ v ∈ vs, items.accepts v = true) :
    (Schema.array minItems items).accepts (.array vs) = true := by
  simp only [accepts, Bool.and_eq_true, List.all_eq_true, decide_eq_true_eq]
  exact ⟨hlen, hvs⟩

theorem accepts_name {v : String} (h : v ≠ "") : name.accepts (.string v) = true := by
  have hlen : 1 ≤ v.length :=
    Nat.one_le_iff_ne_zero.mpr fun hzero => h (String.length_eq_zero_iff.mp hzero)
  simpa [name, accepts] using hlen

theorem accepts_atLeast {m n : ℤ} (h : m ≤ n) : (atLeast m).accepts (.int n) = true := by
  simpa [atLeast, accepts] using h

theorem accepts_between {m k n : ℤ} (h : m ≤ n) (h' : n ≤ k) :
    (between m k).accepts (.int n) = true := by
  simpa [between, accepts] using And.intro h h'

end Schema

/-- The engine is right about every document that has no floating-point number in the
place of an integer. -/
structure JsonLibrary.Faithful (lib : JsonLibrary) : Prop where
  reports : lib.ReportsViolations
  accepts : ∀ schema document, Schema.accepts schema document = true →
    lib.validate schema document = {}

theorem JsonLibrary.reading_faithful (read : String → Json) : (reading read).Faithful where
  reports := reading_reports read
  accepts schema document h := by
    simp [reading, Schema.conforms_of_accepts schema document h]

end Documents

/-! ### Projects that pass the checks -/

theorem Unseen.cons_iff {α : Type} {seen keys : List α} {k : α} :
    Unseen seen (k :: keys) ↔ k ∉ seen ∧ Unseen (k :: seen) keys := by
  refine ⟨fun h => ⟨h.2 k List.mem_cons_self, ?_⟩, fun h => .cons h.1 h.2⟩
  obtain ⟨hnodup, hseen⟩ := h
  rw [List.nodup_cons] at hnodup
  refine ⟨hnodup.2, fun x hx hmem => ?_⟩
  rcases List.mem_cons.mp hmem with rfl | hmem
  · exact hnodup.1 hx
  · exact hseen x (List.mem_cons_of_mem _ hx) hmem

@[simp] theorem noErrors_addWarning (path message : String) :
    NoErrors (addWarning path message) := by
  simp [NoErrors, addWarning]

theorem noErrors_validateEndpoints {i : ℕ} {seen : List String} {endpoints : List Endpoint}
    (hunseen : Unseen seen (endpoints.map Endpoint.id))
    (htimeouts : ∀ ep ∈ endpoints, 1 ≤ ep.connectTimeoutMs ∧ 1 ≤ ep.responseTimeoutMs) :
    NoErrors (validateEndpoints i seen endpoints) := by
  induction endpoints generalizing i seen with
  | nil => exact noErrors_nil
  | cons ep rest ih =>
    rw [List.map_cons, Unseen.cons_iff] at hunseen
    rw [List.forall_mem_cons] at htimeouts
    rw [validateEndpoints]
    split
    · exact ih ⟨hunseen.2.1, fun k hk hseen => hunseen.2.2 k hk (List.mem_cons_of_mem _ hseen)⟩
        htimeouts.2
    · rw [noErrors_append, validateEndpoint, noErrors_append, noErrors_check, noErrors_check]
      refine ⟨⟨?_, ?_⟩, ih hunseen.2 htimeouts.2⟩
      · simpa using hunseen.1
      · simpa using htimeouts.1

theorem noErrors_validateBlocks {path : String} {i : ℕ} {blocks : List RegisterBlock}
    (h : ∀ block ∈ blocks, block.Checked) : NoErrors (validateBlocks path i blocks) := by
  induction blocks generalizing i with
  | nil => exact noErrors_nil
  | cons block rest ih =>
    rw [List.forall_mem_cons] at h
    rw [validateBlocks, noErrors_append, validateBlock, noErrors_append, noErrors_check,
      noErrors_check]
    refine ⟨⟨?_, ?_⟩, ih h.2⟩
    · simpa using h.1.start
    · simpa using h.1.count

variable [Platform]

theorem noErrors_warnTagGroups (project : Project) (path : String) (i : ℕ) (tags : List Tag) :
    NoErrors (warnTagGroups project path i tags) := by
  induction tags generalizing i with
  | nil => exact noErrors_nil
  | cons tag rest ih =>
    rw [warnTagGroups, noErrors_append]
    refine ⟨?_, ih (i + 1)⟩
    split
    · exact noErrors_addWarning _ _
    · exact noErrors_nil

theorem noErrors_warnDevices (project : Project) (i : ℕ) (devices : List Device) :
    NoErrors (warnDevices project i devices) := by
  induction devices generalizing i with
  | nil => exact noErrors_nil
  | cons device rest ih =>
    rw [warnDevices, noErrors_append]
    exact ⟨noErrors_warnTagGroups _ _ _ _, ih (i + 1)⟩

/-- What the checks ask of one tag. -/
structure Tag.Sound (tag : Tag) : Prop extends tag.Checked where
  byteOrder : validByteOrder tag.byteOrder tag.type = true

theorem noErrors_validateTag {path : String} {tag : Tag} (h : tag.Sound) :
    NoErrors (validateTag path tag) := by
  simp only [validateTag, noErrors_append, noErrors_check, decide_eq_false_iff_not, not_lt]
  refine ⟨⟨⟨h.address, ?_⟩, ?_⟩, ?_⟩
  · rw [h.byteOrder]
    rfl
  · cases hq : tag.quantity with
    | none => rfl
    | some q =>
      have hle := h.quantity q hq
      simpa using hle
  · have hwritable := h.writable
    cases harea : tag.area <;> cases hw : tag.writable <;> simp_all

/-- Tags with new names pass, and their names are what is seen after them. -/
theorem noErrors_validateTags {path : String} {i : ℕ} {own all : List String} {tags : List Tag}
    (hunseen : Unseen all (tags.map Tag.name)) (hown : ∀ name ∈ own, name ∈ all)
    (htags : ∀ tag ∈ tags, tag.name ≠ "" ∧ tag.Sound) :
    NoErrors (validateTags path i own all tags).1 ∧
      ∀ name ∈ (validateTags path i own all tags).2, name ∈ all ∨ name ∈ tags.map Tag.name := by
  induction tags generalizing i own all with
  | nil => exact ⟨noErrors_nil, fun name h => .inl h⟩
  | cons tag rest ih =>
    rw [List.map_cons, Unseen.cons_iff] at hunseen
    rw [List.forall_mem_cons] at htags
    have hall : ¬ (tag.name ≠ "" ∧ all.contains tag.name = true) := by
      simpa using fun _ => hunseen.1
    have hown' : ¬ (tag.name ≠ "" ∧ own.contains tag.name = true) := by
      simpa using fun _ hmem => hunseen.1 (hown _ hmem)
    rw [validateTags]
    dsimp only
    rw [if_neg hown', if_neg hall, if_neg htags.1.1]
    have hsub : ∀ name ∈ [tag.name] ++ own, name ∈ [tag.name] ++ all := by
      intro name hmem
      rw [List.mem_append] at hmem ⊢
      exact hmem.imp_right (hown name)
    obtain ⟨hno, hnames⟩ := ih (i := i + 1) hunseen.2 hsub htags.2
    rw [noErrors_append]
    refine ⟨⟨noErrors_validateTag htags.1.2, hno⟩, fun name hmem => ?_⟩
    have hname := hnames name hmem
    simp only [List.mem_cons] at hname
    rw [List.map_cons, List.mem_cons]
    tauto

/-- What the checks ask of a device besides its tags. -/
structure Device.Sound (project : Project) (device : Device) : Prop where
  endpointId : ∃ ep ∈ project.endpoints, ep.id = device.endpointId
  profileId : device.profileId = ""
  unitId : 0 ≤ device.unitId ∧ device.unitId ≤ 255

theorem noErrors_validateDevice {project : Project} {path : String} {seen : List String}
    {device : Device} (hseen : device.id ∉ seen) (h : device.Sound project) :
    NoErrors (validateDevice project path seen device) := by
  obtain ⟨ep, hep, hid⟩ := h.endpointId
  have hknown : (project.endpoints.any fun e => e.id == device.endpointId) = true :=
    List.any_eq_true.mpr ⟨ep, hep, by simp [hid]⟩
  simp only [validateDevice, noErrors_append, noErrors_check]
  refine ⟨⟨⟨?_, ?_⟩, ?_⟩, ?_⟩
  · simp [hseen]
  · simp [hknown]
  · simp [h.profileId]
  · simpa using h.unitId

theorem noErrors_validateDevices {project : Project} {i : ℕ} {seen all : List String}
    {devices : List Device} (hids : Unseen seen (devices.map Device.id))
    (hnames : Unseen all ((devices.flatMap Device.tags).map Tag.name))
    (hdevices : ∀ d ∈ devices, d.Sound project ∧ ∀ tag ∈ d.tags, tag.name ≠ "" ∧ tag.Sound) :
    NoErrors (validateDevices project i seen all devices) := by
  induction devices generalizing i seen all with
  | nil => exact noErrors_nil
  | cons d rest ih =>
    rw [List.map_cons, Unseen.cons_iff] at hids
    rw [List.flatMap_cons, List.map_append] at hnames
    rw [List.forall_mem_cons] at hdevices
    obtain ⟨hnodup, hall⟩ := hnames
    rw [List.nodup_append] at hnodup
    have hown : Unseen all (d.tags.map Tag.name) :=
      ⟨hnodup.1, fun k hk => hall k (List.mem_append_left _ hk)⟩
    obtain ⟨hno, hseen⟩ : NoErrors (validateTags (indexed "devices" i) 0 [] all d.tags).1 ∧ _ :=
      noErrors_validateTags hown (by simp) hdevices.1.2
    rw [validateDevices, noErrors_append, noErrors_append]
    refine ⟨⟨noErrors_validateDevice hids.1 hdevices.1.1, hno⟩, ih hids.2 ?_ hdevices.2⟩
    refine ⟨hnodup.2.1, fun k hk hmem => ?_⟩
    rcases hseen k hmem with hk' | hk'
    · exact hall k (List.mem_append_right _ hk) hk'
    · exact hnodup.2.2 k hk' k hk rfl

/-- What the checks ask of a poll group. -/
structure PollGroup.Sound (project : Project) (group : PollGroup) : Prop where
  periodMs : 10 ≤ group.periodMs
  deviceId : ∃ d ∈ project.devices, d.id = group.deviceId
  blocks : ∀ block ∈ group.blocks, block.Checked
  tagNames : ∀ device ∈ project.devices, device.id = group.deviceId →
    ∀ name ∈ group.tagNames, ∃ tag ∈ device.tags, tag.name = name

theorem noErrors_validateGroup {project : Project} {path : String} {seen : List String}
    {group : PollGroup} (hseen : group.id ∉ seen) (h : group.Sound project) :
    NoErrors (validateGroup project path seen group) := by
  have hdevice : group.deviceId ≠ "" → (devicesById project group.deviceId).isSome = true := by
    intro hne
    obtain ⟨d, hd, hid⟩ := h.deviceId
    rw [devicesById, if_neg hne, List.find?_isSome]
    exact ⟨d, hd, by simp [hid]⟩
  simp only [validateGroup, noErrors_append, noErrors_check]
  refine ⟨⟨⟨⟨⟨?_, ?_⟩, ?_⟩, ?_⟩, noErrors_validateBlocks h.blocks⟩, ?_⟩
  · simp [hseen]
  · simpa using h.periodMs
  · by_cases hne : group.deviceId = ""
    · simp [hne]
    · simp [Option.isNone_eq_false_iff.mpr (hdevice hne)]
  · split
    · exact noErrors_addWarning _ _
    · exact noErrors_nil
  · split
    · exact noErrors_nil
    · rename_i device hdevice
      obtain ⟨hmem, hid⟩ := devicesById_eq hdevice
      simp only [validateTagNames, noErrors_flatMap, noErrors_check]
      simpa using h.tagNames device hmem hid

theorem noErrors_validateGroups {project : Project} {i : ℕ} {seen : List String}
    {groups : List PollGroup} (hids : Unseen seen (groups.map PollGroup.id))
    (hgroups : ∀ g ∈ groups, g.Sound project) :
    NoErrors (validateGroups project i seen groups) := by
  induction groups generalizing i seen with
  | nil => exact noErrors_nil
  | cons g rest ih =>
    rw [List.map_cons, Unseen.cons_iff] at hids
    rw [List.forall_mem_cons] at hgroups
    rw [validateGroups, noErrors_append]
    exact ⟨noErrors_validateGroup hids.1 hgroups.1, ih hids.2 hgroups.2⟩

/-- A project without profiles that passes every check. -/
structure Project.Sound (project : Project) : Prop where
  schemaVersion : 1 ≤ project.schemaVersion
  endpoints : (project.endpoints.map Endpoint.id).Nodup ∧
    ∀ ep ∈ project.endpoints, 1 ≤ ep.connectTimeoutMs ∧ 1 ≤ ep.responseTimeoutMs
  deviceIds : (project.devices.map Device.id).Nodup
  tagNames : ((project.devices.flatMap Device.tags).map Tag.name).Nodup
  devices : ∀ d ∈ project.devices, d.Sound project ∧ ∀ tag ∈ d.tags, tag.name ≠ "" ∧ tag.Sound
  groups : (project.pollGroups.map PollGroup.id).Nodup ∧ ∀ g ∈ project.pollGroups, g.Sound project

theorem Project.Sound.validate {project : Project} (h : project.Sound) :
    NoErrors (validate project) := by
  simp only [Project.validate, noErrors_append, noErrors_check]
  refine ⟨⟨⟨⟨?_, ?_⟩, ?_⟩, ?_⟩, noErrors_warnDevices _ _ _⟩
  · simpa using h.schemaVersion
  · exact noErrors_validateEndpoints ⟨h.endpoints.1, by simp⟩ h.endpoints.2
  · exact noErrors_validateDevices ⟨h.deviceIds, by simp⟩ ⟨h.tagNames, by simp⟩ h.devices
  · exact noErrors_validateGroups ⟨h.groups.1, by simp⟩ h.groups.2

/-! ### Lists that are read -/

/-- Items that are each read into one value. -/
theorem each_map {α β : Type} {parse : String → Json → List α × List Diagnostic} {f : β → Json}
    {g : β → α} (h : ∀ path x, (parse path (f x)).1 = [g x]) (base : String) (i : ℕ) (xs : List β) :
    (each parse base i (xs.map f)).1 = xs.map g := by
  induction xs generalizing i with
  | nil => rfl
  | cons x rest ih =>
    rw [List.map_cons, each, List.map_cons]
    dsimp only
    rw [ih, h]
    rfl

/-- Items that are each read into one value, without a diagnostic. -/
theorem each_eq_map {α β : Type} {parse : String → Json → List α × List Diagnostic} {f : β → Json}
    {g : β → α} {xs : List β} (h : ∀ x ∈ xs, ∀ path, parse path (f x) = ([g x], [])) (base : String)
    (i : ℕ) : each parse base i (xs.map f) = (xs.map g, []) := by
  induction xs generalizing i with
  | nil => rfl
  | cons x rest ih =>
    rw [List.forall_mem_cons] at h
    rw [List.map_cons, each, h.1, ih h.2 (i + 1)]
    rfl

theorem requiredEach_fst {α : Type} (parse : String → Json → List α × List Diagnostic) (root : Json)
    (key : String) :
    (requiredEach parse root key).1 = (each parse key 0 ((root.array? key).getD [])).1 := by
  unfold requiredEach
  cases root.array? key with
  | none => rfl
  | some items => cases items <;> rfl

theorem mem_each {α : Type} {parse : String → Json → List α × List Diagnostic} {items : List Json}
    {item : Json} {v : α} (hitem : item ∈ items) (hv : ∀ path, v ∈ (parse path item).1)
    (base : String) (i : ℕ) : v ∈ (each parse base i items).1 := by
  induction items generalizing i with
  | nil => cases hitem
  | cons other rest ih =>
    rw [each]
    rcases List.mem_cons.mp hitem with rfl | hitem
    · exact List.mem_append_left _ (hv _)
    · exact List.mem_append_right _ (ih hitem (i + 1))

theorem expandDevices_of_no_profile {devices : List Device} (h : ∀ d ∈ devices, d.profileId = "")
    (profiles : List DeviceProfile) : devices.map (expandDevice profiles) = devices := by
  refine List.map_congr_left (g := id) (fun d hd => ?_) |>.trans (List.map_id _)
  rw [expandDevice, if_pos (h d hd)]
  rfl

/-! ### Texts that are accepted -/

omit [Platform] in
theorem kArea_nodup : (kArea.map Prod.fst).Nodup := by decide

omit [Platform] in
theorem kTagType_nodup : (kTagType.map Prod.fst).Nodup := by decide

/-- A text of the table is read as its value. -/
theorem parseEnum_of_mem {α : Type} {table : List (String × α)} (hnodup : (table.map Prod.fst).Nodup)
    {e : String × α} (he : e ∈ table) (path : String) (fallback : α) :
    parseEnum (.string e.1) table path fallback = (e.2, []) := by
  have hfind : (table.find? fun e' => e'.1 == e.1) = some e := by
    induction table with
    | nil => cases he
    | cons other rest ih =>
      rw [List.map_cons, List.nodup_cons] at hnodup
      rcases List.mem_cons.mp he with rfl | he
      · exact List.find?_cons_of_pos (by simp)
      · have hne : other.1 ≠ e.1 := fun heq => hnodup.1 (heq ▸ List.mem_map_of_mem he)
        rw [List.find?_cons_of_neg (by simpa using hne)]
        exact ih hnodup.2 he
  rw [parseEnum, hfind]

theorem noErrors_each {α : Type} {parse : String → Json → List α × List Diagnostic}
    {items : List Json} (h : ∀ item ∈ items, ∀ path, NoErrors (parse path item).2) (base : String)
    (i : ℕ) : NoErrors (each parse base i items).2 := by
  induction items generalizing i with
  | nil => exact noErrors_nil
  | cons item rest ih =>
    rw [List.forall_mem_cons] at h
    rw [each, noErrors_append]
    exact ⟨h.1 _, ih h.2 (i + 1)⟩

theorem noErrors_requiredEach {α : Type} {parse : String → Json → List α × List Diagnostic}
    {root : Json} {key : String} {items : List Json} (hitems : root.array? key = some items)
    (hne : items ≠ []) (h : ∀ item ∈ items, ∀ path, NoErrors (parse path item).2) :
    NoErrors (requiredEach parse root key).2 := by
  cases items with
  | nil => exact absurd rfl hne
  | cons item rest =>
    rw [requiredEach, hitems]
    exact noErrors_each h key 0

/-- A document that is read without errors, is accepted by the engine and gives a sound
project is loaded. -/
theorem loadJsonText_of_sound {lib : JsonLibrary} (hlib : lib.Faithful) {text sourceName : String}
    {root : Json} (hroot : lib.parse text = .ok root) (hparse : NoErrors (parseProject root).2)
    (hschema : Schema.project.accepts root = true)
    (hsound : (expandDeviceProfiles (parseProject root).1).Sound) :
    (loadJsonText lib text sourceName).ok = true ∧
      (loadJsonText lib text sourceName).project = expandDeviceProfiles (parseProject root).1 := by
  have hno : NoErrors ((parseProject root).2 ++
      appendJsonSchemaDiagnostics (lib.validate Schema.project root) sourceName ++
      validate (expandDeviceProfiles (parseProject root).1)) := by
    rw [noErrors_append, noErrors_append, hlib.accepts _ _ hschema]
    exact ⟨⟨hparse, noErrors_nil⟩, hsound.validate⟩
  simp only [loadJsonText, hroot, and_true]
  exact List.all_eq_true.mpr fun d hd => by simpa using hno d hd

end OpcServer.Project
