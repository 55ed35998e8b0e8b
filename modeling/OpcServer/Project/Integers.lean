import OpcServer.Lib.Traverse
import OpcServer.Project.LoadText

/-! The integers of a project file. The loader narrows each to 32 bits before anything is
checked, and the schema bounds most of them from below only. Of an accepted text, every
integer is loaded as it is written exactly if those without an upper bound in the schema
are below `2 ^ 31`. -/

set_option linter.dupNamespace false

namespace OpcServer.Project

open Domain Traverse

theorem toInt_eq_self_iff {n : ℤ} (hn : 0 ≤ n) : toInt n = n ↔ n < 2 ^ 31 := by
  unfold toInt Int.bmod
  dsimp only
  split <;> omega

theorem toInt_of_isInt {n : ℤ} (h : IsInt n) : toInt n = n :=
  Int.bmod_eq_of_le (by unfold IsInt at h; omega) (by unfold IsInt at h; omega)

theorem toInt_toInt (n : ℤ) : toInt (toInt n) = toInt n := Int.bmod_bmod ..

theorem toInt_add_toInt (a b : ℤ) : toInt (toInt a + b) = toInt (a + b) := Int.bmod_add_bmod ..

section Integers
variable [Platform]

/-! ### What is written and what is loaded -/

/-- The items of an array; none without the array. -/
def Json.items (j : Json) (key : String) : List Json := (j.array? key).getD []

/-- An integer under the key is the one loaded. -/
def ExactAt (j : Json) (key : String) (loaded : ℤ) : Prop :=
  ∀ n, j.get? key = some (.int n) → loaded = n

def Tag.Exact (j : Json) (tag : Tag) : Prop :=
  ExactAt j "address" tag.address ∧
    ∀ n, j.get? "quantity" = some (.int n) → tag.quantity = some n

def Endpoint.Exact (j : Json) (ep : Endpoint) : Prop :=
  ExactAt j "port" ep.port.toNat ∧ ExactAt j "connectTimeoutMs" ep.connectTimeoutMs ∧
    ExactAt j "responseTimeoutMs" ep.responseTimeoutMs ∧
    ExactAt j "reconnectDelayMs" ep.reconnectDelayMs

def RegisterBlock.Exact (j : Json) (block : RegisterBlock) : Prop :=
  ExactAt j "start" block.start ∧ ExactAt j "count" block.count

def DeviceProfile.Exact (j : Json) (profile : DeviceProfile) : Prop :=
  List.Forall₂ Tag.Exact (j.items "tags") profile.tags

def Device.Exact (j : Json) (device : Device) : Prop :=
  ExactAt j "unitId" device.unitId ∧ List.Forall₂ Tag.Exact (j.items "tags") device.tags

def PollGroup.Exact (j : Json) (group : PollGroup) : Prop :=
  ExactAt j "periodMs" group.periodMs ∧
    List.Forall₂ RegisterBlock.Exact (j.items "blocks") group.blocks

/-- Every integer of the document is the one in the project, record by record. -/
structure Project.Exact (root : Json) (project : Project) : Prop where
  schemaVersion : ExactAt root "schemaVersion" project.schemaVersion
  endpoints : List.Forall₂ Endpoint.Exact (root.items "endpoints") project.endpoints
  deviceProfiles :
    List.Forall₂ DeviceProfile.Exact (root.items "deviceProfiles") project.deviceProfiles
  devices : List.Forall₂ Device.Exact (root.items "devices") project.devices
  pollGroups : List.Forall₂ PollGroup.Exact (root.items "pollGroups") project.pollGroups

/-! ### Integers of 32 bits -/

/-- An integer under the key is below `2 ^ 31`. -/
def FitsAt (j : Json) (key : String) : Prop := ∀ n, j.get? key = some (.int n) → n < 2 ^ 31

def TagFits (j : Json) : Prop := FitsAt j "address" ∧ FitsAt j "quantity"

def EndpointFits (j : Json) : Prop :=
  FitsAt j "connectTimeoutMs" ∧ FitsAt j "responseTimeoutMs" ∧ FitsAt j "reconnectDelayMs"

def PollGroupFits (j : Json) : Prop :=
  FitsAt j "periodMs" ∧ ∀ block ∈ j.items "blocks", FitsAt block "start"

/-- The integers that the schema does not bound from above. -/
structure IntegersFit (root : Json) : Prop where
  schemaVersion : FitsAt root "schemaVersion"
  endpoints : ∀ j ∈ root.items "endpoints", EndpointFits j
  deviceProfiles : ∀ j ∈ root.items "deviceProfiles", ∀ tag ∈ j.items "tags", TagFits tag
  devices : ∀ j ∈ root.items "devices", ∀ tag ∈ j.items "tags", TagFits tag
  pollGroups : ∀ j ∈ root.items "pollGroups", PollGroupFits j

instance FitsAt.decidable (j : Json) (key : String) : Decidable (FitsAt j key) :=
  match h : j.get? key with
  | some (.int n) => decidable_of_iff (n < 2 ^ 31)
      ⟨fun hlt m hm => by cases h.symm.trans hm; exact hlt, fun hfits => hfits n h⟩
  | none | some .null | some (.bool _) | some (.float _) | some (.string _) | some (.array _)
  | some (.object _) => isTrue fun m hm => by cases h.symm.trans hm

instance TagFits.decidable (j : Json) : Decidable (TagFits j) :=
  inferInstanceAs (Decidable (_ ∧ _))

instance EndpointFits.decidable (j : Json) : Decidable (EndpointFits j) :=
  inferInstanceAs (Decidable (_ ∧ _ ∧ _))

instance PollGroupFits.decidable (j : Json) : Decidable (PollGroupFits j) :=
  inferInstanceAs (Decidable (_ ∧ ∀ block ∈ _, _))

instance IntegersFit.decidable (root : Json) : Decidable (IntegersFit root) :=
  decidable_of_iff (FitsAt root "schemaVersion" ∧ (∀ j ∈ root.items "endpoints", EndpointFits j) ∧
      (∀ j ∈ root.items "deviceProfiles", ∀ tag ∈ j.items "tags", TagFits tag) ∧
      (∀ j ∈ root.items "devices", ∀ tag ∈ j.items "tags", TagFits tag) ∧
      ∀ j ∈ root.items "pollGroups", PollGroupFits j)
    ⟨fun h => ⟨h.1, h.2.1, h.2.2.1, h.2.2.2.1, h.2.2.2.2⟩, fun h => ⟨h.1, h.2, h.3, h.4, h.5⟩⟩

/-! ### One field -/

section Field
variable {required : List String} {properties : List (String × Schema)} {j : Json} {key : String}

theorem int?_of_get? {n : ℤ} (h : j.get? key = some (.int n)) : j.int? key = some (toInt n) := by
  rw [Json.int?, h]
  rfl

theorem le_of_conforms {m n : ℤ} (h : (Schema.object required properties).conforms j = true)
    (hkey : ∀ v, Schema.propertyConforms properties key v = (Schema.atLeast m).conforms v)
    (hn : j.get? key = some (.int n)) : m ≤ n := by
  have hv := Schema.conforms_get? h hn
  rw [hkey] at hv
  simpa [Schema.atLeast, Schema.conforms] using hv

theorem between_of_conforms {m k n : ℤ} (h : (Schema.object required properties).conforms j = true)
    (hkey : ∀ v, Schema.propertyConforms properties key v = (Schema.between m k).conforms v)
    (hn : j.get? key = some (.int n)) : m ≤ n ∧ n ≤ k := by
  have hv := Schema.conforms_get? h hn
  rw [hkey] at hv
  simpa [Schema.between, Schema.conforms] using hv

/-- A field with a lower bound in the schema only. -/
theorem exactAt_iff {m : ℤ} (hm : 0 ≤ m)
    (h : (Schema.object required properties).conforms j = true)
    (hkey : ∀ v, Schema.propertyConforms properties key v = (Schema.atLeast m).conforms v)
    (default : ℤ) : ExactAt j key ((j.int? key).getD default) ↔ FitsAt j key := by
  refine forall₂_congr fun n hn => ?_
  have hle := le_of_conforms h hkey hn
  rw [int?_of_get? hn, Option.getD_some]
  exact toInt_eq_self_iff (hm.trans hle)

/-- A field with both bounds in the schema. -/
theorem exactAt_of_between {m k : ℤ} (hm : 0 ≤ m) (hk : k < 2 ^ 31)
    (h : (Schema.object required properties).conforms j = true)
    (hkey : ∀ v, Schema.propertyConforms properties key v = (Schema.between m k).conforms v)
    (default : ℤ) : ExactAt j key ((j.int? key).getD default) := by
  intro n hn
  obtain ⟨hle, hge⟩ := between_of_conforms h hkey hn
  rw [int?_of_get? hn, Option.getD_some]
  exact (toInt_eq_self_iff (hm.trans hle)).mpr (hge.trans_lt hk)

omit [Platform] in
theorem required_fst {α : Type} (value : Option α) (default : α) (path message : String) :
    (Project.required value default path message).1 = value.getD default := by
  cases value <;> rfl

theorem requiredInt_fst (path : String) (default : ℤ) :
    (requiredInt j path key default).1 = (j.int? key).getD default := required_fst ..

end Field

/-! ### One record -/

/-- The items of an array that are each read into one value. -/
theorem forall₂_each {α : Type} {parse : String → Json → List α × List Diagnostic}
    {R : Json → α → Prop} {items : List Json}
    (h : ∀ item ∈ items, ∀ path, ∃ v, (parse path item).1 = [v] ∧ R item v) (base : String)
    (i : ℕ) : List.Forall₂ R items (each parse base i items).1 := by
  induction items generalizing i with
  | nil => exact .nil
  | cons item rest ih =>
    rw [List.forall_mem_cons] at h
    obtain ⟨v, hv, hr⟩ := h.1 (base ++ "[" ++ toString i ++ "]")
    rw [each]
    dsimp only
    rw [hv]
    exact .cons hr (ih h.2 (i + 1))

theorem forall₂_requiredEach {α : Type} {parse : String → Json → List α × List Diagnostic}
    {R : Json → α → Prop} {root : Json} {key : String}
    (h : ∀ item ∈ root.items key, ∀ path, ∃ v, (parse path item).1 = [v] ∧ R item v) :
    List.Forall₂ R (root.items key) (requiredEach parse root key).1 := by
  unfold Json.items requiredEach at *
  cases hitems : root.array? key with
  | none => exact .nil
  | some items =>
    rw [hitems] at h
    cases items with
    | nil => exact .nil
    | cons item rest => exact forall₂_each h key 0

/-- The items of an array of a conforming object conform. -/
theorem items_conform {required : List String} {properties : List (String × Schema)} {j : Json}
    {key : String} {m : ℕ} {item : Schema}
    (h : (Schema.object required properties).conforms j = true)
    (hkey : ∀ v, Schema.propertyConforms properties key v = (Schema.array m item).conforms v) :
    ∀ v ∈ j.items key, item.conforms v = true := by
  intro v hv
  unfold Json.items at hv
  cases hitems : j.array? key with
  | none =>
    rw [hitems] at hv
    cases hv
  | some items =>
    rw [hitems] at hv
    have harray := Schema.conforms_get? h (array?_eq_some hitems)
    rw [hkey] at harray
    exact Schema.conforms_array harray hv

theorem parseTag_exact {j : Json} (h : Schema.tag.conforms j = true) (path : String) :
    (parseTag path j).1.Exact j ↔ TagFits j := by
  have hobj : j.isObject = true := isObject_of_conforms h
  simp only [parseTag, hobj, Bool.not_true, Bool.false_eq_true, if_false, Tag.Exact, TagFits,
    requiredInt_fst]
  refine and_congr (exactAt_iff le_rfl h (fun v => by simp [Schema.propertyConforms]) 0) ?_
  refine forall₂_congr fun n hn => ?_
  have hle : 1 ≤ n := le_of_conforms h (fun v => by simp [Schema.propertyConforms]) hn
  rw [int?_of_get? hn, Option.some_inj]
  exact toInt_eq_self_iff (zero_le_one.trans hle)

theorem parseTags_exact {j : Json} (h : ∀ tag ∈ j.items "tags", Schema.tag.conforms tag = true)
    (path : String) : List.Forall₂ Tag.Exact (j.items "tags") (parseTags path j).1 ↔
      ∀ tag ∈ j.items "tags", TagFits tag := by
  apply forall₂_iff_of_forall₂
  refine forall₂_each (fun tag htag path => ?_) _ 0
  exact ⟨_, rfl, parseTag_exact (h tag htag) path⟩

theorem parsePort_exact {j : Json} (h : Schema.endpoint.conforms j = true) (path : String) :
    ExactAt j "port" (parsePort path j).1.toNat := by
  intro n hn
  obtain ⟨hle, hge⟩ : 1 ≤ n ∧ n ≤ 65535 :=
    between_of_conforms h (fun v => by simp [Schema.propertyConforms]) hn
  have hself : toInt n = n := (toInt_eq_self_iff (by omega)).mpr (by omega)
  rw [parsePort, int?_of_get? hn, hself]
  dsimp only
  rw [if_neg (by omega), toNat_ofInt (by omega) (by omega)]
  omega

theorem parseEndpoint_exact {j : Json} (h : Schema.endpoint.conforms j = true) (path : String) :
    (parseEndpoint path j).1.Exact j ↔ EndpointFits j := by
  have hobj : j.isObject = true := isObject_of_conforms h
  have hport := parsePort_exact h path
  simp only [parseEndpoint, hobj, Bool.not_true, Bool.false_eq_true, if_false, Endpoint.Exact,
    EndpointFits, hport, true_and]
  refine and_congr ?_ (and_congr ?_ ?_)
  · exact exactAt_iff zero_le_one h (fun v => by simp [Schema.propertyConforms]) 3000
  · exact exactAt_iff zero_le_one h (fun v => by simp [Schema.propertyConforms]) 1000
  · exact exactAt_iff le_rfl h (fun v => by simp [Schema.propertyConforms]) 2000

theorem parseBlock_exact {j : Json} (h : Schema.registerBlock.conforms j = true) (path : String) :
    (parseBlock path j).1.Exact j ↔ FitsAt j "start" := by
  have hobj : j.isObject = true := isObject_of_conforms h
  have hcount : ExactAt j "count" ((j.int? "count").getD 1) :=
    exactAt_of_between (k := 125) zero_le_one (by norm_num) h
      (fun v => by simp [Schema.propertyConforms]) 1
  simp only [parseBlock, hobj, Bool.not_true, Bool.false_eq_true, if_false, RegisterBlock.Exact,
    requiredInt_fst, hcount, and_true]
  exact exactAt_iff le_rfl h (fun v => by simp [Schema.propertyConforms]) 0

theorem parseProfile_exact {j : Json} (h : Schema.deviceProfile.conforms j = true) (path : String) :
    ∃ v, (parseProfile path j).1 = [v] ∧ (v.Exact j ↔ ∀ tag ∈ j.items "tags", TagFits tag) := by
  have hobj : j.isObject = true := isObject_of_conforms h
  have htags : ∀ tag ∈ j.items "tags", Schema.tag.conforms tag = true :=
    items_conform (m := 0) h fun v => by simp [Schema.propertyConforms]
  simp only [parseProfile, hobj, Bool.not_true, Bool.false_eq_true, if_false]
  exact ⟨_, rfl, parseTags_exact htags path⟩

theorem parseDevice_exact {j : Json} (h : Schema.device.conforms j = true) (path : String) :
    ∃ v, (parseDevice path j).1 = [v] ∧ (v.Exact j ↔ ∀ tag ∈ j.items "tags", TagFits tag) := by
  have hobj : j.isObject = true := isObject_of_conforms h
  have htags : ∀ tag ∈ j.items "tags", Schema.tag.conforms tag = true :=
    items_conform (m := 0) h fun v => by simp [Schema.propertyConforms]
  have hunit : ExactAt j "unitId" ((j.int? "unitId").getD 1) :=
    exactAt_of_between (k := 255) le_rfl (by norm_num) h
      (fun v => by simp [Schema.propertyConforms]) 1
  simp only [parseDevice, hobj, Bool.not_true, Bool.false_eq_true, if_false]
  refine ⟨_, rfl, ?_⟩
  simp only [Device.Exact, requiredInt_fst, hunit, true_and]
  exact parseTags_exact htags path

theorem parseGroup_exact {j : Json} (h : Schema.pollGroup.conforms j = true) (path : String) :
    ∃ v, (parseGroup path j).1 = [v] ∧ (v.Exact j ↔ PollGroupFits j) := by
  have hobj : j.isObject = true := isObject_of_conforms h
  have hblocks : ∀ block ∈ j.items "blocks", Schema.registerBlock.conforms block = true :=
    items_conform (m := 0) h fun v => by simp [Schema.propertyConforms]
  simp only [parseGroup, hobj, Bool.not_true, Bool.false_eq_true, if_false]
  refine ⟨_, rfl, ?_⟩
  simp only [PollGroup.Exact, PollGroupFits, requiredInt_fst]
  refine and_congr ?_ ?_
  · exact exactAt_iff (m := 10) (by norm_num) h (fun v => by simp [Schema.propertyConforms]) 1000
  · apply forall₂_iff_of_forall₂
    refine forall₂_each (fun block hblock path => ?_) _ 0
    exact ⟨_, rfl, parseBlock_exact (hblocks block hblock) path⟩

/-! ### The project -/

theorem parseProject_exact {root : Json} (h : Schema.project.conforms root = true) :
    (parseProject root).1.Exact root ↔ IntegersFit root := by
  have hobj : root.isObject = true := isObject_of_conforms h
  have hversion : ExactAt root "schemaVersion" (parseProject root).1.schemaVersion ↔
      FitsAt root "schemaVersion" := by
    simp only [parseProject, hobj, Bool.not_true, Bool.false_eq_true, if_false, required_fst]
    exact exactAt_iff zero_le_one h (fun v => by simp [Schema.propertyConforms]) 1
  have hendpoints : List.Forall₂ Endpoint.Exact (root.items "endpoints")
      (parseProject root).1.endpoints ↔ ∀ j ∈ root.items "endpoints", EndpointFits j := by
    have hconf : ∀ j ∈ root.items "endpoints", Schema.endpoint.conforms j = true :=
      items_conform (m := 1) h fun v => by simp [Schema.propertyConforms]
    simp only [parseProject, hobj, Bool.not_true, Bool.false_eq_true, if_false]
    apply forall₂_iff_of_forall₂
    exact forall₂_requiredEach fun j hj path => ⟨_, rfl, parseEndpoint_exact (hconf j hj) path⟩
  have hprofiles : List.Forall₂ DeviceProfile.Exact (root.items "deviceProfiles")
      (parseProject root).1.deviceProfiles ↔
        ∀ j ∈ root.items "deviceProfiles", ∀ tag ∈ j.items "tags", TagFits tag := by
    have hconf : ∀ j ∈ root.items "deviceProfiles", Schema.deviceProfile.conforms j = true :=
      items_conform (m := 0) h fun v => by simp [Schema.propertyConforms]
    simp only [parseProject, hobj, Bool.not_true, Bool.false_eq_true, if_false]
    apply forall₂_iff_of_forall₂
    exact forall₂_each (fun j hj path => parseProfile_exact (hconf j hj) path) _ 0
  have hdevices : List.Forall₂ Device.Exact (root.items "devices")
      (parseProject root).1.devices ↔
        ∀ j ∈ root.items "devices", ∀ tag ∈ j.items "tags", TagFits tag := by
    have hconf : ∀ j ∈ root.items "devices", Schema.device.conforms j = true :=
      items_conform (m := 1) h fun v => by simp [Schema.propertyConforms]
    simp only [parseProject, hobj, Bool.not_true, Bool.false_eq_true, if_false]
    apply forall₂_iff_of_forall₂
    exact forall₂_requiredEach fun j hj path => parseDevice_exact (hconf j hj) path
  have hgroups : List.Forall₂ PollGroup.Exact (root.items "pollGroups")
      (parseProject root).1.pollGroups ↔ ∀ j ∈ root.items "pollGroups", PollGroupFits j := by
    have hconf : ∀ j ∈ root.items "pollGroups", Schema.pollGroup.conforms j = true :=
      items_conform (m := 1) h fun v => by simp [Schema.propertyConforms]
    simp only [parseProject, hobj, Bool.not_true, Bool.false_eq_true, if_false]
    apply forall₂_iff_of_forall₂
    exact forall₂_requiredEach fun j hj path => parseGroup_exact (hconf j hj) path
  constructor
  · rintro ⟨h₁, h₂, h₃, h₄, h₅⟩
    exact ⟨hversion.mp h₁, hendpoints.mp h₂, hprofiles.mp h₃, hdevices.mp h₄, hgroups.mp h₅⟩
  · rintro ⟨h₁, h₂, h₃, h₄, h₅⟩
    exact ⟨hversion.mpr h₁, hendpoints.mpr h₂, hprofiles.mpr h₃, hdevices.mpr h₄, hgroups.mpr h₅⟩

/-- Of an accepted text every integer is loaded as it is written, before profiles are
expanded, exactly if those that the schema does not bound from above fit in 31 bits. -/
theorem integers_loaded_as_written_iff {lib : JsonLibrary} (hlib : lib.ReportsViolations)
    {text sourceName : String} {root : Json} (hroot : lib.parse text = .ok root)
    (hok : (loadJsonText lib text sourceName).ok = true) :
    (loadJsonText lib text sourceName).project = expandDeviceProfiles (parseProject root).1 ∧
      ((parseProject root).1.Exact root ↔ IntegersFit root) := by
  obtain ⟨-, hschema, -, hproject⟩ := loadJsonText_parsed hroot hok
  have hconf := hlib _ _ (noErrors_schema hschema)
  exact ⟨hproject, parseProject_exact hconf⟩

end Integers

/-! ### A wide address -/

attribute [local instance] exactPlatform

/-- A project file with one register. -/
def registerDocument (address : ℤ) : Json :=
  siteDocument 0 [tagDocument "level" "holding" "uint16" address false]

/-- The address `2 ^ 32 + 5` is accepted and loaded as 5. -/
theorem wide_address_narrowed : (loadDocument (registerDocument 4294967301)).ok = true ∧
    (loadDocument (registerDocument 4294967301)).project.devices.map
      (fun d => d.tags.map Tag.address) = [[5]] ∧
    ¬ (parseProject (registerDocument 4294967301)).1.Exact (registerDocument 4294967301) := by
  refine ⟨by decide +kernel, by decide +kernel, ?_⟩
  rw [parseProject_exact (by decide +kernel)]
  decide +kernel

theorem address_loaded_as_written : (loadDocument (registerDocument 65535)).ok = true ∧
    (parseProject (registerDocument 65535)).1.Exact (registerDocument 65535) := by
  have hok : (loadDocument (registerDocument 65535)).ok = true := by decide +kernel
  have hfits : IntegersFit (registerDocument 65535) := by decide +kernel
  obtain ⟨-, hiff⟩ := integers_loaded_as_written_iff
    (JsonLibrary.reading_reports fun _ => registerDocument 65535) rfl hok
  exact ⟨hok, hiff.mpr hfits⟩

end OpcServer.Project
