import OpcServer.Project.Acceptance
import OpcServer.Project.Integers
import OpcServer.Project.MigrateLegacy

/-! Which migrated projects load. The migration writes a byte order for every tag, an
empty one where the legacy entry has none and its type has no default; the schema does
not list the empty byte order. -/

set_option linter.dupNamespace false

namespace OpcServer.Project

open Domain Traverse

/-! ### Legacy configurations -/

def legacyTypes : List String :=
  ["float", "word", "uint_16", "bool", "uint16", "int16", "uint32", "int32", "float32", "float64"]

def legacyByteOrders : List String := ["01234567", "0123", "01325476", "1032"]

section Loads
variable [Platform]

/-- An entry of a node: the string of a type, or an object with one. -/
structure LegacyEntry (v : Json) : Prop where
  type : ∃ t ∈ legacyTypes, v = .string t ∨ v.get? "type" = some (.string t)
  byteorder : ∀ w, v.get? "byteorder" = some w → ∃ o ∈ legacyByteOrders, w = .string o
  name : ∀ w, v.get? "name" = some w → ∃ n, n ≠ "" ∧ w = .string n
  description : ∀ w, v.get? "description" = some w → ∃ d, w = .string d

/-- The shift of a node, before it is narrowed. -/
def legacyShift (node : Json) : ℤ :=
  match node.get? "shift" with
  | some (.int n) => n
  | _ => 0

/-- The names of the tags of a node. -/
def legacyNames (field : String × Json) : List String :=
  (legacyApi field.2).map fun entry => tagNameFrom entry.2 field.1 (legacyOffset entry.1)

/-- A node under its key. -/
structure LegacyField (field : String × Json) : Prop where
  key : field.1 ≠ ""
  isObject : field.2.isObject = true
  id : ∀ v, field.2.get? "id" = some v → ∃ n, v = .int n ∧ 0 ≤ n ∧ n ≤ 255
  shift : ∀ v, field.2.get? "shift" = some v → ∃ n, v = .int n ∧ 0 ≤ n
  registers : ∀ v, field.2.get? "registers" = some v → ∃ n, v = .int n ∧ 0 ≤ n ∧ n ≤ 125
  offsets : ∀ entry ∈ legacyApi field.2, IsDecimal entry.1 ∧ 0 ≤ legacyOffset entry.1 ∧
    legacyShift field.2 + legacyOffset entry.1 < 65536
  entries : ∀ entry ∈ legacyApi field.2, LegacyEntry entry.2

/-- The nodes of a configuration. -/
structure LegacyConfig (nodes : List (String × Json)) : Prop where
  nonempty : nodes ≠ []
  keys : (nodes.map Prod.fst).Nodup
  fields : ∀ field ∈ nodes, LegacyField field
  tagNames : (nodes.flatMap legacyNames).Nodup

/-- The entries without a default byte order have one of their own, and the shift is not
narrowed to a negative number. -/
structure NodeLoads (field : String × Json) : Prop where
  shift : 0 ≤ toInt (legacyShift field.2)
  byteorder : ∀ entry ∈ legacyApi field.2, mapLegacyType entry.2 ∈ ["bool", "float64"] →
    (entry.2.get? "byteorder").isSome = true

/-! ### Types and byte orders -/

omit [Platform] in
theorem mapTypeName_mem : ∀ t ∈ legacyTypes, mapTypeName t ∈ kTagType.map Prod.fst := by decide

omit [Platform] in
theorem kTagType_listed : ∀ e ∈ kTagType,
    ["bool", "uint16", "int16", "uint32", "int32", "float32", "float64"].contains e.1 = true := by
  decide

/-- The type of an entry is one that the loader knows. -/
theorem exists_type {v : Json} (h : LegacyEntry v) : ∃ e ∈ kTagType, mapLegacyType v = e.1 := by
  have hmem : mapLegacyType v ∈ kTagType.map Prod.fst := by
    obtain ⟨t, ht, rfl | hv⟩ := h.type
    · exact mapTypeName_mem t ht
    · have hnone : v.asString = none := by
        cases v with
        | string s => cases hv
        | _ => rfl
      have htype : v.string? "type" = some t := by
        rw [Json.string?, hv]
        rfl
      rw [mapLegacyType, hnone, htype]
      exact mapTypeName_mem t ht
  obtain ⟨e, he, heq⟩ := List.mem_map.mp hmem
  exact ⟨e, he, heq.symm⟩

omit [Platform] in
/-- The byte order is listed in the schema unless the type has no default and there is
none in the entry, and one that is listed suits the type. -/
theorem byteOrderFor_listed : ∀ raw ∈ "" :: legacyByteOrders, ∀ e ∈ kTagType,
    (["ABCD", "CDAB", "BADC", "DCBA", "AB", "BA"].contains (byteOrderFor raw e.1) = true ↔
      (e.1 ∈ ["bool", "float64"] → raw ≠ "")) ∧
    (["ABCD", "CDAB", "BADC", "DCBA", "AB", "BA"].contains (byteOrderFor raw e.1) = true →
      validByteOrder (byteOrderFor raw e.1) e.2 = true) := by
  decide

/-- The byte order of an entry as it is written. -/
theorem byteorder_mem {v : Json} (h : LegacyEntry v) :
    (v.string? "byteorder").getD "" ∈ "" :: legacyByteOrders ∧
      ((v.string? "byteorder").getD "" ≠ "" ↔ (v.get? "byteorder").isSome = true) := by
  rw [Json.string?]
  cases hget : v.get? "byteorder" with
  | none => simp
  | some w =>
    obtain ⟨o, ho, rfl⟩ := h.byteorder w hget
    have hne : o ≠ "" := by
      rintro rfl
      revert ho
      decide
    exact ⟨List.mem_cons_of_mem _ ho, by simpa [Json.asString] using hne⟩

/-! ### Documents of a node -/

/-- The device and the group that the migration writes for a node. -/
def nodeDocument (field : String × Json) : Json × Json :=
  let shift := (field.2.int? "shift").getD 0
  (migratedDevice field.1 ((field.2.int? "id").getD 1) ((legacyApi field.2).map fun entry =>
      migratedTag field.1 shift (legacyOffset entry.1) entry.2),
    migratedGroup field.1 shift ((field.2.int? "registers").getD 0))

/-- A field within bounds, or not there, is read within them. -/
theorem int?_between {node : Json} {key : String} {low high default : ℤ}
    (h : ∀ v, node.get? key = some v → ∃ n, v = .int n ∧ low ≤ n ∧ n ≤ high)
    (hlow : -2 ^ 31 ≤ low) (hhigh : high < 2 ^ 31) (hdefault : low ≤ default ∧ default ≤ high) :
    low ≤ (node.int? key).getD default ∧ (node.int? key).getD default ≤ high := by
  cases hget : node.get? key with
  | none =>
    rw [Json.int?, hget]
    exact hdefault
  | some v =>
    obtain ⟨n, rfl, hn⟩ := h v hget
    have hint : IsInt n := ⟨hlow.trans hn.1, hn.2.trans_lt hhigh⟩
    rw [int?_of_get? hget, Option.getD_some, toInt_of_isInt hint]
    exact hn

section Field
variable {field : String × Json} (h : LegacyField field)
include h

theorem legacyShift_nonneg : 0 ≤ legacyShift field.2 := by
  unfold legacyShift
  split
  · rename_i n hget
    obtain ⟨m, heq, hm⟩ := h.shift _ hget
    cases heq
    exact hm
  · exact le_rfl

theorem shift_eq : (field.2.int? "shift").getD 0 = toInt (legacyShift field.2) := by
  unfold legacyShift
  cases hget : field.2.get? "shift" with
  | none =>
    rw [Json.int?, hget]
    rfl
  | some v =>
    obtain ⟨n, rfl, -⟩ := h.shift v hget
    rw [int?_of_get? hget]
    rfl

theorem offset_fits {entry : String × Json} (hentry : entry ∈ legacyApi field.2) :
    OffsetFits entry := by
  have hshift := legacyShift_nonneg h
  obtain ⟨-, hoffset, hlt⟩ := h.offsets entry hentry
  constructor <;> omega

theorem address_eq {entry : String × Json} (hentry : entry ∈ legacyApi field.2) :
    toInt ((field.2.int? "shift").getD 0 + legacyOffset entry.1) =
      legacyShift field.2 + legacyOffset entry.1 := by
  have hshift := legacyShift_nonneg h
  obtain ⟨-, hoffset, hlt⟩ := h.offsets entry hentry
  rw [shift_eq h, toInt_add_toInt]
  apply toInt_of_isInt
  constructor <;> omega

theorem migrateNode_ok (truncate : Double → ℤ) :
    migrateNode truncate field = .ok (nodeDocument field) := by
  have hid : ∀ v, field.2.get? "id" = some v → ∃ n, v = .int n :=
    fun v hv => (h.id v hv).imp fun _ hn => hn.1
  have hshift : ∀ v, field.2.get? "shift" = some v → ∃ n, v = .int n :=
    fun v hv => (h.shift v hv).imp fun _ hn => hn.1
  have hregisters : ∀ v, field.2.get? "registers" = some v → ∃ n, v = .int n :=
    fun v hv => (h.registers v hv).imp fun _ hn => hn.1
  rw [← Prod.eta field]
  rw [migrateNode_eq h.isObject hid hshift (valueInt_eq h.isObject hregisters 0),
    mapM_migrateEntry (fun entry hentry => (h.offsets entry hentry).1)
      (fun entry hentry => offset_fits h hentry)]
  rfl

/-! ### Accepted nodes -/

theorem tagName_ne_empty {entry : String × Json} (hentry : entry ∈ legacyApi field.2) :
    tagNameFrom entry.2 field.1 (legacyOffset entry.1) ≠ "" := by
  unfold tagNameFrom
  cases hget : entry.2.get? "name" with
  | none =>
    rw [Json.string?, hget]
    intro heq
    have hlen := congrArg String.length heq
    simp at hlen
  | some w =>
    obtain ⟨n, hn, rfl⟩ := (h.entries entry hentry).name w hget
    rw [Json.string?, hget]
    exact hn

/-- The byte order that is written for an entry. -/
theorem entry_byteOrder (hloads : NodeLoads field) {entry : String × Json}
    (hentry : entry ∈ legacyApi field.2) : ∃ e ∈ kTagType, mapLegacyType entry.2 = e.1 ∧
      ["ABCD", "CDAB", "BADC", "DCBA", "AB", "BA"].contains
        (mapLegacyByteOrder entry.2 (mapLegacyType entry.2)) = true ∧
      validByteOrder (mapLegacyByteOrder entry.2 (mapLegacyType entry.2)) e.2 = true := by
  have hv := h.entries entry hentry
  obtain ⟨e, he, htype⟩ := exists_type hv
  obtain ⟨hraw, hsome⟩ := byteorder_mem hv
  obtain ⟨hiff, hvalid⟩ := byteOrderFor_listed _ hraw e he
  have hlisted := hiff.mpr fun hmem => hsome.mpr (hloads.byteorder entry hentry (htype ▸ hmem))
  refine ⟨e, he, htype, ?_, ?_⟩
  · rw [htype]
    exact hlisted
  · rw [htype]
    exact hvalid hlisted

theorem accepts_migratedTag (hloads : NodeLoads field) {entry : String × Json}
    (hentry : entry ∈ legacyApi field.2) :
    Schema.tag.accepts (migratedTag field.1 ((field.2.int? "shift").getD 0)
      (legacyOffset entry.1) entry.2) = true := by
  obtain ⟨e, he, htype, horder, -⟩ := entry_byteOrder h hloads hentry
  have hname := tagName_ne_empty h hentry
  have haddress := address_eq h hentry
  have hshift := legacyShift_nonneg h
  have hoffset := (h.offsets entry hentry).2.1
  have hlisted : ["bool", "uint16", "int16", "uint32", "int32", "float32", "float64"].contains
      (mapLegacyType entry.2) = true := htype ▸ kTagType_listed e he
  unfold migratedTag
  dsimp only
  refine Schema.accepts_object ?_ ?_
  · simp
  · simp only [List.forall_mem_append, List.forall_mem_cons]
    refine ⟨⟨⟨?_, ?_, ?_, List.forall_mem_nil _⟩, ?_⟩, ?_, ?_, ?_, ?_, ?_, List.forall_mem_nil _⟩
    · rw [haddress]
      exact Schema.accepts_atLeast (by omega)
    · rfl
    · exact horder
    · rintro f hf
      cases hget : entry.2.get? "description" with
      | none =>
        rw [hget] at hf
        cases hf
      | some w =>
        obtain ⟨d, rfl⟩ := (h.entries entry hentry).description w hget
        rw [hget] at hf
        rw [List.mem_singleton.mp hf]
        rfl
    · rfl
    · exact Schema.accepts_name hname
    · rfl
    · exact hlisted
    · rfl

theorem accepts_device (hloads : NodeLoads field) :
    Schema.device.accepts (nodeDocument field).1 = true := by
  have hone : 0 ≤ (1 : ℤ) ∧ (1 : ℤ) ≤ 255 := by norm_num
  have hid := int?_between h.id (by norm_num) (by norm_num) hone
  refine Schema.accepts_object ?_ ?_
  · simp
  · simp only [List.forall_mem_cons]
    refine ⟨?_, ?_, ?_, ?_, ?_, List.forall_mem_nil _⟩
    · rfl
    · rfl
    · exact Schema.accepts_name h.key
    · refine Schema.accepts_array (Nat.zero_le _) fun tag htag => ?_
      obtain ⟨entry, hentry, rfl⟩ := List.mem_map.mp htag
      exact accepts_migratedTag h hloads hentry
    · exact Schema.accepts_between hid.1 hid.2

theorem accepts_group (hloads : NodeLoads field) :
    Schema.pollGroup.accepts (nodeDocument field).2 = true := by
  have hregisters := int?_between h.registers (by norm_num) (by norm_num)
    (show 0 ≤ (0 : ℤ) ∧ (0 : ℤ) ≤ 125 by norm_num)
  have hid : field.1 ++ "-migrated" ≠ "" := by
    intro heq
    have hlen := congrArg String.length heq
    simp at hlen
  refine Schema.accepts_object ?_ ?_
  · simp
  · simp only [List.forall_mem_cons]
    refine ⟨?_, ?_, ?_, ?_, ?_, List.forall_mem_nil _⟩
    · refine Schema.accepts_array (Nat.zero_le _) fun block hblock => ?_
      rw [List.mem_singleton.mp hblock]
      refine Schema.accepts_object (by simp) ?_
      simp only [List.forall_mem_cons]
      refine ⟨rfl, ?_, rfl, ?_, List.forall_mem_nil _⟩
      · apply Schema.accepts_between <;> split <;> omega
      · rw [shift_eq h]
        exact Schema.accepts_atLeast hloads.shift
    · exact Schema.accepts_name h.key
    · exact Schema.accepts_name hid
    · rfl
    · rfl

theorem noErrors_parseDevice (path : String) :
    NoErrors (parseDevice path (nodeDocument field).1).2 := by
  have htags : NoErrors (parseTags path (nodeDocument field).1).2 := by
    refine noErrors_each (fun tag htag path => ?_) _ 0
    obtain ⟨entry, hentry, rfl⟩ := List.mem_map.mp htag
    obtain ⟨e, he, htype⟩ := exists_type (h.entries entry hentry)
    rw [kept, parseTag_migratedTag, htype, parseEnum_of_mem kTagType_nodup he]
    exact noErrors_nil
  exact htags

/-! ### Sound nodes -/

def nodeGroup (field : String × Json) : PollGroup :=
  loadedGroup field.1 ((field.2.int? "shift").getD 0) ((field.2.int? "registers").getD 0)

theorem sound_tags (hloads : NodeLoads field) :
    ∀ tag ∈ (nodeDevice field).tags, tag.name ≠ "" ∧ tag.Sound := by
  intro tag htag
  obtain ⟨entry, hentry, rfl⟩ := List.mem_map.mp htag
  obtain ⟨e, he, htype, -, horder⟩ := entry_byteOrder h hloads hentry
  refine ⟨tagName_ne_empty h hentry, ⟨?_, ?_, ?_⟩, ?_⟩
  · show 0 ≤ toInt ((field.2.int? "shift").getD 0 + legacyOffset entry.1)
    have hshift := legacyShift_nonneg h
    have hoffset := (h.offsets entry hentry).2.1
    rw [address_eq h hentry]
    omega
  · intro q hq
    cases hq
  · intro hw
    cases hw
  · show validByteOrder _ (parseEnum (.string (mapLegacyType entry.2)) kTagType "" _).1 = true
    rw [htype, parseEnum_of_mem kTagType_nodup he]
    exact horder

theorem unitId_between : 0 ≤ (nodeDevice field).unitId ∧ (nodeDevice field).unitId ≤ 255 := by
  have hid := int?_between h.id (by norm_num) (by norm_num)
    (show 0 ≤ (1 : ℤ) ∧ (1 : ℤ) ≤ 255 by norm_num)
  show 0 ≤ toInt ((field.2.int? "id").getD 1) ∧ toInt ((field.2.int? "id").getD 1) ≤ 255
  rw [toInt_of_isInt ⟨by omega, by omega⟩]
  exact hid

theorem checked_blocks (hloads : NodeLoads field) :
    ∀ block ∈ (nodeGroup field).blocks, block.Checked := by
  have hregisters := int?_between h.registers (by norm_num) (by norm_num)
    (show 0 ≤ (0 : ℤ) ∧ (0 : ℤ) ≤ 125 by norm_num)
  intro block hblock
  rw [List.mem_singleton.mp hblock]
  constructor
  · show 0 ≤ toInt ((field.2.int? "shift").getD 0)
    rw [shift_eq h, toInt_toInt]
    exact hloads.shift
  · let count : ℤ :=
      if (field.2.int? "registers").getD 0 > 0 then (field.2.int? "registers").getD 0 else 1
    have hcount : 1 ≤ count ∧ count ≤ 125 := by
      unfold count
      split <;> omega
    show 1 ≤ toInt count ∧ toInt count ≤ 125
    rw [toInt_of_isInt ⟨by omega, by omega⟩]
    exact hcount

end Field

/-! ### The project -/

theorem accepts_migratedProject {migrated : List (Json × Json)} (hne : migrated ≠ [])
    (hdevices : ∀ r ∈ migrated, Schema.device.accepts r.1 = true)
    (hgroups : ∀ r ∈ migrated, Schema.pollGroup.accepts r.2 = true) :
    Schema.project.accepts (migratedProject migrated) = true := by
  have hlen : 1 ≤ migrated.length := List.length_pos_iff.mpr hne
  refine Schema.accepts_object ?_ ?_
  · simp
  · simp only [List.forall_mem_cons]
    refine ⟨rfl, rfl, rfl, ?_, rfl, rfl, rfl, ?_, rfl, List.forall_mem_nil _⟩
    · refine Schema.accepts_array (by rwa [List.length_map]) fun device hdevice => ?_
      obtain ⟨r, hr, rfl⟩ := List.mem_map.mp hdevice
      exact hdevices r hr
    · refine Schema.accepts_array (by rwa [List.length_map]) fun group hgroup => ?_
      obtain ⟨r, hr, rfl⟩ := List.mem_map.mp hgroup
      exact hgroups r hr

theorem noErrors_parseProject {migrated : List (Json × Json)} (hne : migrated ≠ [])
    (hdevices : ∀ r ∈ migrated, ∀ path, NoErrors (parseDevice path r.1).2)
    (hgroups : ∀ r ∈ migrated, ∀ path, NoErrors (parseGroup path r.2).2) :
    NoErrors (parseProject (migratedProject migrated)).2 := by
  have hsplit : (parseProject (migratedProject migrated)).2 =
      (requiredEach parseDevice (migratedProject migrated) "devices").2 ++
        (requiredEach parseGroup (migratedProject migrated) "pollGroups").2 := rfl
  have harray : (migratedProject migrated).array? "devices" = some (migrated.map Prod.fst) := rfl
  have harray' : (migratedProject migrated).array? "pollGroups" = some (migrated.map Prod.snd) := rfl
  rw [hsplit, noErrors_append]
  constructor
  · refine noErrors_requiredEach harray (by simpa using hne) fun device hdevice path => ?_
    obtain ⟨r, hr, rfl⟩ := List.mem_map.mp hdevice
    exact hdevices r hr path
  · refine noErrors_requiredEach harray' (by simpa using hne) fun group hgroup path => ?_
    obtain ⟨r, hr, rfl⟩ := List.mem_map.mp hgroup
    exact hgroups r hr path

/-- The schema does not let a block start below zero. -/
theorem start_of_conforms {field : String × Json}
    (h : Schema.pollGroup.conforms (nodeDocument field).2 = true) :
    0 ≤ (field.2.int? "shift").getD 0 := by
  let block : Json := .object [("area", .string "holding"),
    ("count", .int (if (field.2.int? "registers").getD 0 > 0 then
      (field.2.int? "registers").getD 0 else 1)),
    ("description", .string "Migrated block from legacy code/shift/registers"),
    ("start", .int ((field.2.int? "shift").getD 0))]
  have hblocks : (nodeDocument field).2.get? "blocks" = some (.array [block]) := rfl
  have harray : (Schema.array 0 .registerBlock).conforms (.array [block]) = true :=
    Schema.conforms_get? h hblocks
  have hblock := Schema.conforms_array harray (List.mem_singleton_self _)
  have hstart : block.get? "start" = some (.int ((field.2.int? "shift").getD 0)) := rfl
  exact le_of_conforms hblock (fun v => by simp [Schema.propertyConforms]) hstart

/-- The schema does not let a tag have a byte order that it does not list. -/
theorem byteOrder_of_conforms {field : String × Json}
    (h : Schema.device.conforms (nodeDocument field).1 = true) {entry : String × Json}
    (hentry : entry ∈ legacyApi field.2) :
    ["ABCD", "CDAB", "BADC", "DCBA", "AB", "BA"].contains
      (mapLegacyByteOrder entry.2 (mapLegacyType entry.2)) = true := by
  let tags := (legacyApi field.2).map fun entry =>
    migratedTag field.1 ((field.2.int? "shift").getD 0) (legacyOffset entry.1) entry.2
  have htags : (nodeDocument field).1.get? "tags" = some (.array tags) := rfl
  have harray : (Schema.array 0 .tag).conforms (.array tags) = true :=
    Schema.conforms_get? h htags
  have htag := Schema.conforms_array harray (List.mem_map_of_mem hentry)
  obtain ⟨-, -, -, -, -, -, -, horder, -⟩ :=
    migratedTag_fields field.1 ((field.2.int? "shift").getD 0) (legacyOffset entry.1) entry.2
  exact Schema.conforms_get? htag (string?_eq_some horder)

section Config
variable {nodes : List (String × Json)} (h : LegacyConfig nodes)
include h

theorem mapM_migrateNode (truncate : Double → ℤ) :
    nodes.mapM (migrateNode truncate) = .ok (nodes.map nodeDocument) := by
  rw [mapM_eq_ok_iff, List.forall₂_map_right_iff, List.forall₂_same]
  intro field hfield
  exact migrateNode_ok (h.fields field hfield) truncate

theorem legacyNumbers_of_config : LegacyNumbers nodes where
  isObject field hfield := (h.fields field hfield).isObject
  id field hfield v hv := ((h.fields field hfield).id v hv).imp fun _ hn => hn.1
  shift field hfield v hv := ((h.fields field hfield).shift v hv).imp fun _ hn => hn.1
  offsets field hfield entry hentry := ((h.fields field hfield).offsets entry hentry).1

theorem sound_of_loads (hloads : ∀ field ∈ nodes, NodeLoads field) :
    (expandDeviceProfiles (parseProject (migratedProject (nodes.map nodeDocument))).1).Sound := by
  let project := expandDeviceProfiles (parseProject (migratedProject (nodes.map nodeDocument))).1
  have hdevices : project.devices = nodes.map nodeDevice :=
    (parseProject_migratedProject (legacyNumbers_of_config h)
      (mapM_migrateNode h fun _ => 0)).1
  have hgroups : project.pollGroups = nodes.map nodeGroup := by
    show (requiredEach parseGroup (migratedProject (nodes.map nodeDocument)) "pollGroups").1 = _
    rw [requiredEach_fst]
    show (each parseGroup "pollGroups" 0 ((nodes.map nodeDocument).map Prod.snd)).1 = _
    rw [List.map_map]
    exact each_map (fun path field => rfl) _ _ _
  have hendpoints : project.endpoints = [{ id := "legacy-endpoint-1", host := "127.0.0.1" }] := rfl
  refine ⟨le_rfl, ⟨?_, ?_⟩, ?_, ?_, ?_, ?_, ?_⟩
  · rw [hendpoints]
    exact List.nodup_singleton _
  · rw [hendpoints]
    simp
  · rw [hdevices, List.map_map]
    exact h.keys
  · have hnames : (project.devices.flatMap Device.tags).map Tag.name = nodes.flatMap legacyNames := by
      rw [hdevices, List.flatMap_map, List.map_flatMap]
      congr
      funext field
      exact List.map_map
    rw [hnames]
    exact h.tagNames
  · intro d hd
    rw [hdevices] at hd
    obtain ⟨field, hfield, rfl⟩ := List.mem_map.mp hd
    refine ⟨⟨?_, rfl, unitId_between (h.fields field hfield)⟩,
      sound_tags (h.fields field hfield) (hloads field hfield)⟩
    rw [hendpoints]
    exact ⟨_, List.mem_singleton_self _, rfl⟩
  · have hids : project.pollGroups.map PollGroup.id =
        (nodes.map Prod.fst).map (· ++ "-migrated") := by
      rw [hgroups, List.map_map, List.map_map]
      rfl
    rw [hids]
    exact h.keys.map fun a b hab => (String.append_left_inj _).mp hab
  · intro g hg
    rw [hgroups] at hg
    obtain ⟨field, hfield, rfl⟩ := List.mem_map.mp hg
    refine ⟨show (10 : ℤ) ≤ 500 by norm_num, ⟨nodeDevice field, ?_, rfl⟩,
      checked_blocks (h.fields field hfield) (hloads field hfield),
      fun _ _ _ _ hname => by cases hname⟩
    rw [hdevices]
    exact List.mem_map_of_mem hfield

/-- A project that loads has a listed byte order for every tag and no negative start. -/
theorem nodeLoads_of_conforms
    (hconf : Schema.project.conforms (migratedProject (nodes.map nodeDocument)) = true) :
    ∀ field ∈ nodes, NodeLoads field := by
  intro field hfield
  have hlegacy := h.fields field hfield
  have hmem : nodeDocument field ∈ nodes.map nodeDocument := List.mem_map_of_mem hfield
  have hdevices : (migratedProject (nodes.map nodeDocument)).get? "devices" =
      some (.array ((nodes.map nodeDocument).map Prod.fst)) := rfl
  have hgroups : (migratedProject (nodes.map nodeDocument)).get? "pollGroups" =
      some (.array ((nodes.map nodeDocument).map Prod.snd)) := rfl
  have hdevice : Schema.device.conforms (nodeDocument field).1 = true :=
    Schema.conforms_array (Schema.conforms_get? hconf hdevices) (List.mem_map_of_mem hmem)
  have hgroup : Schema.pollGroup.conforms (nodeDocument field).2 = true :=
    Schema.conforms_array (Schema.conforms_get? hconf hgroups) (List.mem_map_of_mem hmem)
  constructor
  · rw [← shift_eq hlegacy]
    exact start_of_conforms hgroup
  · intro entry hentry htype
    have hlisted := byteOrder_of_conforms hdevice hentry
    have hv := hlegacy.entries entry hentry
    obtain ⟨e, he, heq⟩ := exists_type hv
    obtain ⟨hraw, hsome⟩ := byteorder_mem hv
    rw [heq] at htype hlisted
    exact hsome.mp ((byteOrderFor_listed _ hraw e he).1.mp hlisted htype)

end Config

/-- Of a well-formed legacy configuration the migration gives a project, and its text loads
exactly if every entry of type bool or float64 has a byte order and no shift becomes
negative as a C++ integer. -/
theorem migrated_project_loads_iff {lib : JsonLibrary} (hlib : lib.Faithful)
    (truncate : Double → ℤ) {legacy : Json} {nodes : List (String × Json)}
    (hnodes : legacy.get? "Nodes" = some (.object nodes)) (h : LegacyConfig nodes) :
    ∃ root, migrateLegacyNodes truncate legacy = .ok root ∧
      ∀ text sourceName, lib.parse text = .ok root →
        ((loadJsonText lib text sourceName).ok = true ↔ ∀ field ∈ nodes, NodeLoads field) := by
  have hne : nodes.map nodeDocument ≠ [] := by simpa using h.nonempty
  refine ⟨migratedProject (nodes.map nodeDocument), ?_, fun text sourceName hroot => ⟨?_, ?_⟩⟩
  · exact (migrateLegacyNodes_eq_ok_iff hnodes).mpr ⟨_, mapM_migrateNode h truncate, rfl⟩
  · intro hok
    obtain ⟨-, hschema, -, -⟩ := loadJsonText_parsed hroot hok
    exact nodeLoads_of_conforms h (hlib.reports _ _ (noErrors_schema hschema))
  · intro hloads
    have hdevices : ∀ r ∈ nodes.map nodeDocument, Schema.device.accepts r.1 = true ∧
        Schema.pollGroup.accepts r.2 = true ∧ (∀ path, NoErrors (parseDevice path r.1).2) ∧
        ∀ path, NoErrors (parseGroup path r.2).2 := by
      intro r hr
      obtain ⟨field, hfield, rfl⟩ := List.mem_map.mp hr
      have hlegacy := h.fields field hfield
      have hload := hloads field hfield
      exact ⟨accepts_device hlegacy hload, accepts_group hlegacy hload,
        noErrors_parseDevice hlegacy, fun path => noErrors_nil⟩
    exact (loadJsonText_of_sound hlib hroot
      (noErrors_parseProject hne (fun r hr => (hdevices r hr).2.2.1)
        fun r hr => (hdevices r hr).2.2.2)
      (accepts_migratedProject hne (fun r hr => (hdevices r hr).1) fun r hr => (hdevices r hr).2.1)
      (sound_of_loads h hloads)).1

end Loads

/-! ### A valve -/

attribute [local instance] exactPlatform

/-- A node with one entry. -/
def legacyValve (entry : Json) : Json := .object
  [("API", .object [("0", entry)]), ("id", .int 1), ("registers", .int 1), ("shift", .int 0)]

def legacyValves (entry : Json) : Json := .object
  [("Nodes", .object [("valve", legacyValve entry)])]

def migratedValves (entry : Json) : Json :=
  (migrateLegacyNodes (fun _ => 0) (legacyValves entry)).toOption.getD .null

theorem legacyValve_config {entry : Json} (h : LegacyEntry entry) :
    LegacyConfig [("valve", legacyValve entry)] where
  nonempty := List.cons_ne_nil _ _
  keys := List.nodup_singleton _
  tagNames := List.nodup_singleton _
  fields := by
    intro field hfield
    rw [List.mem_singleton.mp hfield]
    have hkey : "valve" ≠ "" := by decide
    have hdecimal : IsDecimal "0" := by decide +kernel
    have hoffset : 0 ≤ legacyOffset "0" ∧ 0 + legacyOffset "0" < 65536 := by decide +kernel
    refine ⟨hkey, rfl, fun v hv => ?_, fun v hv => ?_, fun v hv => ?_, ?_, ?_⟩
    · exact ⟨1, (Option.some.inj hv).symm, by decide, by decide⟩
    · exact ⟨0, (Option.some.inj hv).symm, by decide⟩
    · exact ⟨1, (Option.some.inj hv).symm, by decide, by decide⟩
    · intro e he
      rw [List.mem_singleton.mp he]
      exact ⟨hdecimal, hoffset⟩
    · intro e he
      rw [List.mem_singleton.mp he]
      exact h

def openBit : Json := .string "bool"

def orderedBit : Json := .object [("byteorder", .string "0123"), ("type", .string "bool")]

/-- An entry of type bool without a byte order is migrated to a project that does not load. -/
theorem plain_bool_not_loaded : LegacyConfig [("valve", legacyValve openBit)] ∧
    migrateLegacyNodes (fun _ => 0) (legacyValves openBit) = .ok (migratedValves openBit) ∧
    (JsonLibrary.reading fun _ => migratedValves openBit).Faithful ∧
    (loadDocument (migratedValves openBit)).ok = false := by
  have hentry : LegacyEntry openBit :=
    ⟨⟨"bool", by decide, .inl rfl⟩, fun _ h => (nomatch h), fun _ h => (nomatch h),
      fun _ h => (nomatch h)⟩
  exact ⟨legacyValve_config hentry, rfl, JsonLibrary.reading_faithful _, by decide +kernel⟩

theorem ordered_bool_loaded : (loadDocument (migratedValves orderedBit)).ok = true := by
  have hentry : LegacyEntry orderedBit :=
    ⟨⟨"bool", by decide, .inr rfl⟩, fun w h => ⟨"0123", by decide, (Option.some.inj h).symm⟩,
      fun _ h => (nomatch h), fun _ h => (nomatch h)⟩
  have hnodes : (legacyValves orderedBit).get? "Nodes" =
      some (.object [("valve", legacyValve orderedBit)]) := rfl
  obtain ⟨root, hmigrate, hload⟩ := migrated_project_loads_iff
    (JsonLibrary.reading_faithful fun _ => migratedValves orderedBit) (fun _ => 0) hnodes
    (legacyValve_config hentry)
  have hroot : migratedValves orderedBit = root := by
    rw [migratedValves, hmigrate]
    rfl
  refine (hload "" "site.modbusproj.json" (congrArg _ hroot)).mpr fun field hfield => ?_
  rw [List.mem_singleton.mp hfield]
  refine ⟨by decide +kernel, fun e he _ => ?_⟩
  rw [List.mem_singleton.mp he]
  rfl

end OpcServer.Project
