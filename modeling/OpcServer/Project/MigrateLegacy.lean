import OpcServer.Lib.TextStream
import OpcServer.Lib.Traverse
import OpcServer.Project.Acceptance

/-! The migration of the legacy `Nodes` format, and what the loader reads of its output.
An object has its fields in the order of its keys. The address of a tag is a sum of two
C++ integers, taken modulo `2 ^ 32`. -/

set_option linter.dupNamespace false

namespace OpcServer.Project

open Domain TextStream Traverse

/-- What the migration throws: its own error, and those of the JSON library and of
`std::stoi`. -/
inductive LegacyError where
  | runtimeError (what : String)
  | typeError
  | badNumber
  deriving DecidableEq, Repr

/-- `std::stoi`. -/
def stoi (text : Text) : Except LegacyError ℤ :=
  match readInt (-2 ^ 31) (2 ^ 31 - 1) text with
  | some (n, _) => .ok n
  | none => .error .badNumber

def mapTypeName (t : String) : String :=
  if t = "float" then "float32" else if t = "word" ∨ t = "uint_16" then "uint16" else t

def byteOrderFor (raw type : String) : String :=
  if raw = "01234567" ∨ raw = "0123" then
    if type = "uint16" ∨ type = "int16" then "AB" else "ABCD"
  else if raw = "01325476" ∨ raw = "1032" then
    if type = "uint16" ∨ type = "int16" then "BA" else "CDAB"
  else if type = "uint16" ∨ type = "int16" then "AB"
  else if type = "float32" ∨ type = "uint32" ∨ type = "int32" then "ABCD"
  else ""

section Migration
variable [Platform]

/-! ### Entries -/

def mapLegacyType (typeNode : Json) : String :=
  match typeNode.asString, typeNode.string? "type" with
  | some t, _ => mapTypeName t
  | none, some t => mapTypeName t
  | none, none => "uint16"

def mapLegacyByteOrder (typeNode : Json) (type : String) : String :=
  byteOrderFor ((typeNode.string? "byteorder").getD "") type

def tagNameFrom (typeNode : Json) (deviceId : String) (offset : ℤ) : String :=
  (typeNode.string? "name").getD (deviceId ++ ".reg" ++ toString offset)

/-- The tag for the entry at an offset. -/
def migratedTag (deviceId : String) (shift offset : ℤ) (typeNode : Json) : Json :=
  let type := mapLegacyType typeNode
  let name := tagNameFrom typeNode deviceId offset
  .object ([("address", .int (toInt (shift + offset))), ("area", .string "holding"),
    ("byteOrder", .string (mapLegacyByteOrder typeNode type))] ++
    (match typeNode.get? "description" with
    | some description => [("description", description)]
    | none => []) ++
    [("group", .string (deviceId ++ "-migrated")), ("name", .string name),
      ("nodePath", .string ("Plant/" ++ deviceId ++ "/" ++ name)), ("type", .string type),
      ("writable", .bool false)])

def migrateEntry (deviceId : String) (shift : ℤ) (entry : String × Json) :
    Except LegacyError Json :=
  (stoi entry.1.toList).map fun offset => migratedTag deviceId shift offset entry.2

/-! ### Nodes -/

variable (truncate : Double → ℤ)

/-- `get<int>`; `truncate` is the cast of a double. -/
def Json.getInt : Json → Except LegacyError ℤ
  | .int n => .ok (toInt n)
  | .float d => .ok (truncate d)
  | .bool b => .ok (if b then 1 else 0)
  | _ => .error .typeError

/-- `value` with a default. -/
def Json.valueInt (j : Json) (key : String) (default : ℤ) : Except LegacyError ℤ :=
  if !j.isObject then .error .typeError
  else
    match j.get? key with
    | none => .ok default
    | some v => v.getInt truncate

/-- The offsets of a node, with their types. -/
def legacyApi (node : Json) : List (String × Json) :=
  match node.get? "API" with
  | some (.object api) => api
  | _ => []

def migratedDevice (deviceId : String) (unitId : ℤ) (tags : List Json) : Json := .object
  [("description", .string "Migrated legacy node"), ("endpointId", .string "legacy-endpoint-1"),
    ("id", .string deviceId), ("tags", .array tags), ("unitId", .int unitId)]

def migratedGroup (deviceId : String) (shift registers : ℤ) : Json := .object
  [("blocks", .array [.object [("area", .string "holding"),
      ("count", .int (if registers > 0 then registers else 1)),
      ("description", .string "Migrated block from legacy code/shift/registers"),
      ("start", .int shift)]]),
    ("deviceId", .string deviceId), ("id", .string (deviceId ++ "-migrated")),
    ("periodMs", .int 500), ("priority", .string "normal")]

/-- The device and the poll group of a node. -/
def migrateNode (field : String × Json) : Except LegacyError (Json × Json) := do
  let (deviceId, node) := field
  let unitId ← node.valueInt truncate "id" 1
  let shift ← node.valueInt truncate "shift" 0
  let registers ← node.valueInt truncate "registers" 0
  let tags ← (legacyApi node).mapM (migrateEntry deviceId shift)
  return (migratedDevice deviceId unitId tags, migratedGroup deviceId shift registers)

def migratedProject (nodes : List (Json × Json)) : Json := .object
  [("addressBase", .int 0),
    ("description", .string
      "Migrated from legacy config.json Nodes format. TODO: set endpoints host/port."),
    ("deviceProfiles", .array []),
    ("devices", .array (nodes.map Prod.fst)),
    ("endpoints", .array [.object [("connectTimeoutMs", .int 3000), ("host", .string "127.0.0.1"),
      ("id", .string "legacy-endpoint-1"), ("port", .int 502), ("reconnectDelayMs", .int 2000),
      ("responseTimeoutMs", .int 1000), ("transport", .string "tcp")]]),
    ("name", .string "migrated-legacy"),
    ("opcua", .object [("applicationName", .string "OPC_SERVER Migrated"),
      ("endpointUrl", .string "opc.tcp://0.0.0.0:4840"),
      ("namespaceUri", .string "urn:opc-server:migrated"), ("securityMode", .string "None"),
      ("securityPolicy", .string "None")]),
    ("pollGroups", .array (nodes.map Prod.snd)), ("schemaVersion", .int 1)]

def migrateLegacyNodes (legacy : Json) : Except LegacyError Json :=
  match legacy.get? "Nodes" with
  | some (.object nodes) => (nodes.mapM (migrateNode truncate)).map migratedProject
  | _ => .error (.runtimeError "legacy config: missing object 'Nodes'")

/-! ### Nodes of whole numbers -/

section Digits

omit [Platform]

/-- The digits of a number, which a minus sign precedes if it is negative. -/
def digitsOf (text : Text) : Text := if text.head? = some '-' then text.tail else text

def IsDecimal (key : String) : Prop :=
  digitsOf key.toList ≠ [] ∧ ∀ c ∈ digitsOf key.toList, c.isDigit = true

-- by the characters of the key, not by all characters that there are
instance (key : String) : Decidable (IsDecimal key) :=
  decidable_of_iff (digitsOf key.toList ≠ [] ∧ (digitsOf key.toList).all Char.isDigit = true)
    (and_congr_right fun _ => List.all_eq_true)

def legacyOffset (key : String) : ℤ :=
  let n : ℤ := Nat.ofDigitChars 10 (digitsOf key.toList) 0
  if key.toList.head? = some '-' then -n else n

theorem readInt_decimal {key : String} (h : IsDecimal key) (low high : ℤ) :
    readInt low high key.toList =
      if low ≤ legacyOffset key ∧ legacyOffset key ≤ high then some (legacyOffset key, [])
      else none := by
  obtain ⟨hne, hdigits⟩ := h
  unfold legacyOffset
  by_cases hsign : key.toList.head? = some '-'
  · rw [digitsOf, if_pos hsign] at hne hdigits ⊢
    rw [if_pos hsign, ← readInt_minus_digits hne hdigits, List.cons_head?_tail hsign]
  · rw [digitsOf, if_neg hsign] at hne hdigits ⊢
    rw [if_neg hsign, ← readInt_digits hne hdigits]

theorem stoi_of_decimal {key : String} (h : IsDecimal key) :
    (IsInt (legacyOffset key) → stoi key.toList = .ok (legacyOffset key)) ∧
      (¬ IsInt (legacyOffset key) → stoi key.toList = .error .badNumber) := by
  have hiff : IsInt (legacyOffset key) ↔
      -2 ^ 31 ≤ legacyOffset key ∧ legacyOffset key ≤ 2 ^ 31 - 1 := by
    unfold IsInt
    omega
  rw [stoi, readInt_decimal h, hiff]
  exact ⟨fun hin => by rw [if_pos hin], fun hout => by rw [if_neg hout]⟩

end Digits

variable {truncate}

/-- A field that is a number without a fraction, or not there. -/
theorem valueInt_eq {node : Json} (hobj : node.isObject = true) {key : String}
    (hfield : ∀ v, node.get? key = some v → ∃ n, v = .int n) (default : ℤ) :
    node.valueInt truncate key default = .ok ((node.int? key).getD default) := by
  simp only [Json.valueInt, hobj, Bool.not_true, Bool.false_eq_true, if_false, Json.int?]
  cases hget : node.get? key with
  | none => rfl
  | some v =>
    obtain ⟨n, rfl⟩ := hfield v hget
    rfl

/-- A node whose id and shift are numbers without a fraction. -/
theorem migrateNode_eq {deviceId : String} {node : Json} (hobj : node.isObject = true)
    (hid : ∀ v, node.get? "id" = some v → ∃ n, v = .int n)
    (hshift : ∀ v, node.get? "shift" = some v → ∃ n, v = .int n) {registers : ℤ}
    (hregisters : node.valueInt truncate "registers" 0 = .ok registers) :
    migrateNode truncate (deviceId, node) =
      ((legacyApi node).mapM (migrateEntry deviceId ((node.int? "shift").getD 0))).map fun tags =>
        (migratedDevice deviceId ((node.int? "id").getD 1) tags,
          migratedGroup deviceId ((node.int? "shift").getD 0) registers) := by
  simp only [migrateNode, valueInt_eq hobj hid, valueInt_eq hobj hshift, hregisters]
  rfl

def OffsetFits (entry : String × Json) : Prop := IsInt (legacyOffset entry.1)

theorem migrateEntry_eq_ok_iff {deviceId : String} {shift : ℤ} {entry : String × Json}
    (hdecimal : IsDecimal entry.1) {tag : Json} : migrateEntry deviceId shift entry = .ok tag ↔
      OffsetFits entry ∧ tag = migratedTag deviceId shift (legacyOffset entry.1) entry.2 := by
  rw [migrateEntry]
  by_cases hfits : OffsetFits entry
  · rw [(stoi_of_decimal hdecimal).1 hfits]
    exact ⟨fun h => ⟨hfits, (Except.ok.inj h).symm⟩, fun h => h.2 ▸ rfl⟩
  · rw [(stoi_of_decimal hdecimal).2 hfits]
    exact iff_of_false (fun h => by cases h) fun h => hfits h.1

theorem mapM_migrateEntry {deviceId : String} {shift : ℤ} {api : List (String × Json)}
    (hdecimal : ∀ entry ∈ api, IsDecimal entry.1)
    (hfits : ∀ entry ∈ api, OffsetFits entry) :
    api.mapM (migrateEntry deviceId shift) = .ok (api.map fun entry =>
      migratedTag deviceId shift (legacyOffset entry.1) entry.2) := by
  rw [mapM_eq_ok_iff, List.forall₂_map_right_iff, List.forall₂_same]
  intro entry hentry
  exact (migrateEntry_eq_ok_iff (hdecimal entry hentry)).mpr ⟨hfits entry hentry, rfl⟩

/-- What the migration of a node gives, if it gives anything. -/
theorem eq_of_migrateNode {field : String × Json} (hobj : field.2.isObject = true)
    (hid : ∀ v, field.2.get? "id" = some v → ∃ n, v = .int n)
    (hshift : ∀ v, field.2.get? "shift" = some v → ∃ n, v = .int n)
    (hdecimal : ∀ entry ∈ legacyApi field.2, IsDecimal entry.1) {r : Json × Json}
    (h : migrateNode truncate field = .ok r) :
    (∀ entry ∈ legacyApi field.2, OffsetFits entry) ∧
      ∃ registers, r = (migratedDevice field.1 ((field.2.int? "id").getD 1)
        ((legacyApi field.2).map fun entry => migratedTag field.1 ((field.2.int? "shift").getD 0)
          (legacyOffset entry.1) entry.2),
      migratedGroup field.1 ((field.2.int? "shift").getD 0) registers) := by
  obtain ⟨deviceId, node⟩ := field
  cases hregisters : node.valueInt truncate "registers" 0 with
  | error e =>
    simp only [migrateNode, valueInt_eq hobj hid, valueInt_eq hobj hshift, hregisters] at h
    cases h
  | ok registers =>
    rw [migrateNode_eq hobj hid hshift hregisters] at h
    cases htags : (legacyApi node).mapM (migrateEntry deviceId ((node.int? "shift").getD 0)) with
    | error e =>
      rw [htags] at h
      cases h
    | ok tags =>
      rw [htags] at h
      cases h
      have hall := mapM_eq_ok_iff.mp htags
      refine ⟨fun entry hentry => ?_, registers, ?_⟩
      · obtain ⟨tag, -, htag⟩ := exists_of_forall₂ hall hentry
        exact ((migrateEntry_eq_ok_iff (hdecimal entry hentry)).mp htag).1
      · rw [eq_map_of_forall₂ hall fun entry hentry tag htag =>
          ((migrateEntry_eq_ok_iff (hdecimal entry hentry)).mp htag).2]

theorem migrateLegacyNodes_eq_ok_iff {legacy root : Json} {nodes : List (String × Json)}
    (hnodes : legacy.get? "Nodes" = some (.object nodes)) :
    migrateLegacyNodes truncate legacy = .ok root ↔
      ∃ migrated, nodes.mapM (migrateNode truncate) = .ok migrated ∧
        root = migratedProject migrated := by
  have heq : migrateLegacyNodes truncate legacy =
      (nodes.mapM (migrateNode truncate)).map migratedProject := by
    rw [migrateLegacyNodes, hnodes]
  rw [heq]
  cases nodes.mapM (migrateNode truncate) with
  | error e => exact iff_of_false (fun h => by cases h) fun ⟨_, h, _⟩ => by cases h
  | ok migrated =>
    constructor
    · intro h
      exact ⟨migrated, rfl, (Except.ok.inj h).symm⟩
    · rintro ⟨migrated', h, rfl⟩
      rw [Except.ok.inj h]
      rfl

/-! ### What the loader reads -/

/-- The tag that is loaded for an entry. -/
def loadedTag (deviceId : String) (shift offset : ℤ) (typeNode : Json) : Tag :=
  { name := tagNameFrom typeNode deviceId offset
    nodePath := "Plant/" ++ deviceId ++ "/" ++ tagNameFrom typeNode deviceId offset
    address := toInt (shift + offset)
    type := (parseEnum (.string (mapLegacyType typeNode)) kTagType "" TagType.uint16).1
    byteOrder := mapLegacyByteOrder typeNode (mapLegacyType typeNode)
    group := deviceId ++ "-migrated"
    description := (typeNode.string? "description").getD "" }

/-- The value of an enumeration does not depend on the path of its error. -/
theorem parseEnum_fst {α : Type} (t : String) (table : List (String × α)) (path path' : String)
    (fallback : α) :
    (parseEnum (.string t) table path fallback).1 = (parseEnum (.string t) table path' fallback).1 := by
  unfold parseEnum
  dsimp only
  split <;> rfl

theorem migratedTag_fields (deviceId : String) (shift offset : ℤ) (typeNode : Json) :
    let j := migratedTag deviceId shift offset typeNode
    j.isObject = true ∧ j.string? "name" = some (tagNameFrom typeNode deviceId offset) ∧
      j.string? "nodePath" =
        some ("Plant/" ++ deviceId ++ "/" ++ tagNameFrom typeNode deviceId offset) ∧
      j.get? "area" = some (.string "holding") ∧
      j.int? "address" = some (toInt (toInt (shift + offset))) ∧
      j.get? "type" = some (.string (mapLegacyType typeNode)) ∧ j.int? "quantity" = none ∧
      j.string? "byteOrder" = some (mapLegacyByteOrder typeNode (mapLegacyType typeNode)) ∧
      j.number? "scale" = none ∧ j.number? "offset" = none ∧ j.string? "unit" = none ∧
      j.bool? "writable" = some false ∧ j.string? "group" = some (deviceId ++ "-migrated") ∧
      j.string? "description" = typeNode.string? "description" := by
  unfold migratedTag
  have hdescription : typeNode.string? "description" =
      (typeNode.get? "description").bind Json.asString := rfl
  rw [hdescription]
  cases typeNode.get? "description" with
  | none => exact ⟨rfl, rfl, rfl, rfl, rfl, rfl, rfl, rfl, rfl, rfl, rfl, rfl, rfl, rfl⟩
  | some d => exact ⟨rfl, rfl, rfl, rfl, rfl, rfl, rfl, rfl, rfl, rfl, rfl, rfl, rfl, rfl⟩

theorem parseTag_migratedTag (path deviceId : String) (shift offset : ℤ) (typeNode : Json) :
    parseTag path (migratedTag deviceId shift offset typeNode) =
      (loadedTag deviceId shift offset typeNode,
        (parseEnum (.string (mapLegacyType typeNode)) kTagType (path ++ "." ++ "type")
          TagType.uint16).2) := by
  obtain ⟨hobj, hname, hpath, harea, haddress, htype, hquantity, horder, hscale, hoffset, hunit,
    hwritable, hgroup, hdescription⟩ := migratedTag_fields deviceId shift offset typeNode
  have hint : toInt (toInt (shift + offset)) = toInt (shift + offset) := Int.bmod_bmod ..
  have hfst := parseEnum_fst (mapLegacyType typeNode) kTagType (path ++ "." ++ "type") ""
    TagType.uint16
  simp only [parseTag, hobj, requiredString, requiredEnum, requiredInt, hname, hpath, harea,
    haddress, htype, hquantity, horder, hscale, hoffset, hunit, hwritable, hgroup, hdescription,
    hint, loadedTag]
  rw [← hfst]
  rfl

/-- The device that is loaded for a node. -/
def loadedDevice (deviceId : String) (unitId shift : ℤ) (api : List (String × Json)) : Device :=
  { id := deviceId, endpointId := "legacy-endpoint-1", unitId := toInt unitId
    description := "Migrated legacy node"
    tags := api.map fun entry => loadedTag deviceId shift (legacyOffset entry.1) entry.2 }

/-- The poll group that is loaded for a node. -/
def loadedGroup (deviceId : String) (shift registers : ℤ) : PollGroup :=
  { id := deviceId ++ "-migrated", periodMs := 500, deviceId := deviceId
    blocks := [{ start := toInt shift, count := toInt (if registers > 0 then registers else 1)
                 description := "Migrated block from legacy code/shift/registers" }] }

theorem parseDevice_migratedDevice (path deviceId : String) (unitId shift : ℤ)
    (api : List (String × Json)) :
    (parseDevice path (migratedDevice deviceId unitId
      (api.map fun entry => migratedTag deviceId shift (legacyOffset entry.1) entry.2))).1 =
      [loadedDevice deviceId unitId shift api] := by
  have htags : (parseTags path (migratedDevice deviceId unitId
      (api.map fun entry => migratedTag deviceId shift (legacyOffset entry.1) entry.2))).1 =
      api.map fun entry => loadedTag deviceId shift (legacyOffset entry.1) entry.2 := by
    refine each_map (fun path entry => ?_) _ 0 api
    rw [kept, parseTag_migratedTag]
  unfold parseDevice
  dsimp only
  rw [htags]
  rfl

theorem parseGroup_migratedGroup (path deviceId : String) (shift registers : ℤ) :
    parseGroup path (migratedGroup deviceId shift registers) =
      ([loadedGroup deviceId shift registers], []) := rfl

/-- The nodes have decimal offsets, and their ids and shifts are numbers without a
fraction. -/
structure LegacyNumbers (nodes : List (String × Json)) : Prop where
  isObject : ∀ field ∈ nodes, field.2.isObject = true
  id : ∀ field ∈ nodes, ∀ v, field.2.get? "id" = some v → ∃ n, v = .int n
  shift : ∀ field ∈ nodes, ∀ v, field.2.get? "shift" = some v → ∃ n, v = .int n
  offsets : ∀ field ∈ nodes, ∀ entry ∈ legacyApi field.2, IsDecimal entry.1

def nodeDevice (field : String × Json) : Device :=
  loadedDevice field.1 ((field.2.int? "id").getD 1) ((field.2.int? "shift").getD 0)
    (legacyApi field.2)

/-- The devices that are loaded are those of the nodes, and every node has its group. -/
theorem parseProject_migratedProject {nodes : List (String × Json)} (h : LegacyNumbers nodes)
    {migrated : List (Json × Json)} (hnodes : nodes.mapM (migrateNode truncate) = .ok migrated) :
    (expandDeviceProfiles (parseProject (migratedProject migrated)).1).devices =
        nodes.map nodeDevice ∧
      ∀ field ∈ nodes, (∀ entry ∈ legacyApi field.2, OffsetFits entry) ∧
        ∃ registers, loadedGroup field.1 ((field.2.int? "shift").getD 0) registers ∈
          (expandDeviceProfiles (parseProject (migratedProject migrated)).1).pollGroups := by
  have hall := mapM_eq_ok_iff.mp hnodes
  have hnode := fun field hfield (r : Json × Json) (hr : migrateNode truncate field = .ok r) =>
    eq_of_migrateNode (h.isObject field hfield) (h.id field hfield) (h.shift field hfield)
      (h.offsets field hfield) hr
  constructor
  · have hfst := map_eq_map_of_forall₂ (g := Prod.fst) hall fun field hfield r hr => by
      obtain ⟨-, registers, rfl⟩ := hnode field hfield r hr
      rfl
    have hdevices : (requiredEach parseDevice (migratedProject migrated) "devices").1 =
        nodes.map nodeDevice := by
      rw [requiredEach_fst]
      show (each parseDevice "devices" 0 (migrated.map Prod.fst)).1 = _
      rw [hfst]
      exact each_map (fun path field => parseDevice_migratedDevice ..) _ _ _
    show (requiredEach parseDevice (migratedProject migrated) "devices").1.map (expandDevice _) = _
    rw [hdevices]
    refine expandDevices_of_no_profile (fun d hd => ?_) _
    obtain ⟨field, -, rfl⟩ := List.mem_map.mp hd
    rfl
  · intro field hfield
    obtain ⟨r, hr, hmigrate⟩ := exists_of_forall₂ hall hfield
    obtain ⟨hfits, registers, rfl⟩ := hnode field hfield r hmigrate
    refine ⟨hfits, registers, ?_⟩
    show _ ∈ (requiredEach parseGroup (migratedProject migrated) "pollGroups").1
    rw [requiredEach_fst]
    refine mem_each (List.mem_map_of_mem hr) (fun path => ?_) _ _
    rw [parseGroup_migratedGroup]
    exact List.mem_singleton_self _

end Migration

end OpcServer.Project
