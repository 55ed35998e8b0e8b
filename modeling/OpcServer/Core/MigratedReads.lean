import OpcServer.Core.AcceptedIndex
import OpcServer.Project.Integers
import OpcServer.Project.MigrateLegacy

/-! What is read of a migrated node. A legacy node names a Modbus function, a unit and
a range of addresses. The migration keeps the unit and the addresses, but every tag
is put into the holding area. -/

namespace OpcServer.Core

open Domain Project

/-- The function code, the unit and the address of a read. -/
def describedRead : Request → Option (ℤ × ℤ × ℤ)
  | .bits (.readCoils unit address _) => some (1, unit.toNat, address.toNat)
  | .bits (.readDiscreteInputs unit address _) => some (2, unit.toNat, address.toNat)
  | .registers (.readHoldingRegisters unit address _) => some (3, unit.toNat, address.toNat)
  | .registers (.readInputRegisters unit address _) => some (4, unit.toNat, address.toNat)
  | _ => none

section Reads
variable [Platform]

/-- A legacy node with its numbers: unit, function code and first address. -/
structure LegacyNode (node : Json) (id code shift : ℤ) : Prop where
  id : node.get? "id" = some (.int id) ∧ 0 ≤ id ∧ id ≤ 255
  code : node.get? "code" = some (.int code) ∧ code ∈ [1, 2, 3, 4]
  shift : node.get? "shift" = some (.int shift) ∧ 0 ≤ shift
  offsets : ∀ entry ∈ legacyApi node, IsDecimal entry.1
  distinct : ((legacyApi node).map fun entry => legacyOffset entry.1).Nodup

/-- Polling the tag makes one call, the read with these numbers. -/
def PolledBy (b : TagBinding) (read : ℤ × ℤ × ℤ) : Prop :=
  ∀ (σ : Type) (transport : IModbusTransport σ) (endpointId : String) (now : TimestampMs)
    (w : World σ) (t : σ), w.transports endpointId = some t →
      ∃ request ok value, describedRead request = some read ∧
        (pollTag transport endpointId now b w).2.dispatcher.trace =
          w.dispatcher.trace ++ [.call endpointId request ok [], .publish b.id value none]

/-- What the device of a node must hold for one of its offsets: one tag at the address,
on a device with the unit of the node, that is polled as the node says and selected by
the migrated group. -/
structure ReadAsDescribed (index : RuntimeIndex) (deviceId name : String)
    (id code address : ℤ) : Prop where
  unique : ∃! b, b ∈ index.tags ∧ b.deviceId = deviceId ∧ b.tag.address = address
  polled : ∀ b ∈ index.tags, b.deviceId = deviceId → b.tag.address = address →
    b.tag.name = name ∧
      (∃ d ∈ index.project.devices, d.id = deviceId ∧ d.unitId = id ∧ b.tag ∈ d.tags) ∧
      PolledBy b (code, id, address) ∧
      ∃ g ∈ index.project.pollGroups, g.id = deviceId ++ "-migrated" ∧ g.deviceId = deviceId ∧
        g.tagNames = [] ∧ b ∈ unnamedTags index g

theorem pollTag_trace {σ : Type} (transport : IModbusTransport σ) (endpointId : String)
    (now : TimestampMs) (b : TagBinding) {w : World σ} {t : σ}
    (ht : w.transports endpointId = some t) :
    ∃ ok value, (pollTag transport endpointId now b w).2.dispatcher.trace =
      w.dispatcher.trace ++ [.call endpointId (readRequest b) ok [], .publish b.id value none] := by
  rw [pollTag_eq transport endpointId now b ht]
  let answer : Answer := ⟨b, (ask transport b t).1⟩
  exact ⟨answer.regs.isOk, answer.published syncReason now (w.dispatcher.tagStore.get b.id),
    List.append_assoc ..⟩

/-- A transport that answers nothing. -/
def silent : IModbusTransport Unit where
  isConnected _ := true
  connect _ _ t := (.ok (), t)
  readRegisters _ t := (.ok [], t)
  readBits _ t := (.ok [], t)
  write _ t := (.ok (), t)

theorem polledBy_iff {b : TagBinding} {read : ℤ × ℤ × ℤ} :
    PolledBy b read ↔ describedRead (readRequest b) = some read := by
  constructor
  · intro h
    have ht : (⟨{}, fun _ => some ()⟩ : World Unit).transports "" = some () := rfl
    obtain ⟨request, ok, value, hread, htrace⟩ := h Unit silent "" 0 ⟨{}, fun _ => some ()⟩ () ht
    obtain ⟨ok', value', htrace'⟩ := pollTag_trace silent "" 0 b ht
    rw [htrace] at htrace'
    have hcons := List.append_cancel_left htrace'
    injection hcons with hhead
    injection hhead with _ hrequest
    rw [← hrequest]
    exact hread
  · intro h σ transport endpointId now w t ht
    obtain ⟨ok, value, htrace⟩ := pollTag_trace transport endpointId now b ht
    exact ⟨readRequest b, ok, value, h, htrace⟩

/-! ### The tags of a node -/

omit [Platform] in
/-- Offsets that are C++ integers are told apart by the address. -/
theorem offset_inj {a n m : ℤ} (hn : IsInt n) (hm : IsInt m)
    (h : toInt (a + n) = toInt (a + m)) : n = m := by
  have hbmod := (Int.bmod_add_cancel_left a).mp h
  rwa [← toInt_of_isInt hn, ← toInt_of_isInt hm]

section Node

variable {project : Project} {nodes : List (String × Json)} {field : String × Json}

/-- A tag of the device of a node comes from one of its entries. -/
theorem exists_entry (h : project.Consistent) (hdevices : project.devices = nodes.map nodeDevice)
    (hfield : field ∈ nodes) {b : TagBinding} (hb : b ∈ (RuntimeIndex.build project).tags)
    (hid : b.deviceId = field.1) :
    b.unitId = UInt8.ofInt (nodeDevice field).unitId ∧
      ∃ entry ∈ legacyApi field.2, b.tag = loadedTag field.1 ((field.2.int? "shift").getD 0)
        (legacyOffset entry.1) entry.2 := by
  obtain ⟨d, hd, htag, hdevice, -, hunit⟩ := RuntimeIndex.mem_bindDevices hb
  have hmem : nodeDevice field ∈ project.devices := hdevices ▸ List.mem_map_of_mem hfield
  have heq : d = nodeDevice field :=
    List.inj_on_of_nodup_map h.deviceIds.1 hd hmem (hdevice.symm.trans hid)
  subst heq
  obtain ⟨entry, hentry, htag⟩ := List.mem_map.mp htag
  exact ⟨hunit, entry, hentry, htag.symm⟩

/-- The tag of an entry is the only one of its device at its address. -/
theorem entry_unique (h : project.Consistent) (hdevices : project.devices = nodes.map nodeDevice)
    (hfield : field ∈ nodes) (hfits : ∀ entry ∈ legacyApi field.2, OffsetFits entry)
    (hdistinct : ((legacyApi field.2).map fun entry => legacyOffset entry.1).Nodup)
    {entry : String × Json} (hentry : entry ∈ legacyApi field.2) :
    ∃ b ∈ (RuntimeIndex.build project).tags, b.deviceId = field.1 ∧
      b.tag = loadedTag field.1 ((field.2.int? "shift").getD 0) (legacyOffset entry.1) entry.2 ∧
      ∀ b' ∈ (RuntimeIndex.build project).tags, b'.deviceId = field.1 →
        b'.tag.address = b.tag.address → b' = b := by
  have hmem : nodeDevice field ∈ project.devices := hdevices ▸ List.mem_map_of_mem hfield
  have htag : loadedTag field.1 ((field.2.int? "shift").getD 0) (legacyOffset entry.1) entry.2 ∈
      (nodeDevice field).tags := List.mem_map_of_mem hentry
  obtain ⟨b, hb, hbtag, hbid, -⟩ := RuntimeIndex.exists_binding 1 hmem htag
  refine ⟨b, hb, hbid, hbtag, fun b' hb' hid haddress => ?_⟩
  obtain ⟨-, entry', hentry', htag'⟩ := exists_entry h hdevices hfield hb' hid
  rw [htag', hbtag] at haddress
  have hoffset := offset_inj (hfits entry' hentry') (hfits entry hentry) haddress
  have hentries := List.inj_on_of_nodup_map hdistinct hentry' hentry hoffset
  have hname : b'.tag.name = b.tag.name := by rw [htag', hbtag, hentries]
  have hfound := findByName_of_mem h hb'
  rw [hname, findByName_of_mem h hb] at hfound
  exact (Option.some.inj hfound).symm

/-- A tag with its group named is selected by the group. -/
theorem mem_unnamedTags {index : RuntimeIndex} {g : PollGroup} {b : TagBinding}
    (hb : b ∈ index.tags) (hdevice : b.deviceId = g.deviceId) (hgroup : b.tag.group = g.id) :
    b ∈ unnamedTags index g := by
  have hown : b ∈ index.tags.filter fun b =>
      b.deviceId == g.deviceId && (b.tag.group == "" || b.tag.group == g.id) := by
    rw [List.mem_filter]
    simp [hb, hdevice, hgroup]
  unfold unnamedTags
  dsimp only
  rw [if_neg]
  · exact hown
  · rw [List.isEmpty_eq_false_iff.mpr (List.ne_nil_of_mem hown)]
    simp

end Node

theorem readRequest_holding {b : TagBinding} (harea : b.tag.area = .holding) :
    describedRead (readRequest b) = some (3, (b.unitId.toNat : ℤ),
      ((UInt16.ofInt b.tag.address).toNat : ℤ)) := by
  rw [readRequest, harea]
  rfl

omit [Platform] in
theorem unitId_toNat {id : ℤ} (h : 0 ≤ id) (h' : id ≤ 255) : ((UInt8.ofInt id).toNat : ℤ) = id := by
  have hmod : id % 2 ^ 8 = id := Int.emod_eq_of_lt h (by omega)
  rw [UInt8.ofInt, hmod, UInt8.toNat_ofNat', Nat.mod_eq_of_lt (by omega), Int.toNat_of_nonneg h]

theorem legacyNumbers_of_nodes {nodes : List (String × Json)}
    (h : ∀ field ∈ nodes, ∃ id code shift, LegacyNode field.2 id code shift) :
    LegacyNumbers nodes where
  isObject field hfield := by
    obtain ⟨id, code, shift, hnode⟩ := h field hfield
    cases hobj : field.2 with
    | object fields => rfl
    | _ =>
      have hid := hnode.id.1
      rw [hobj] at hid
      cases hid
  id field hfield v hv := by
    obtain ⟨id, code, shift, hnode⟩ := h field hfield
    exact ⟨id, Option.some.inj (hv.symm.trans hnode.id.1)⟩
  shift field hfield v hv := by
    obtain ⟨id, code, shift, hnode⟩ := h field hfield
    exact ⟨shift, Option.some.inj (hv.symm.trans hnode.shift.1)⟩
  offsets field hfield := by
    obtain ⟨id, code, shift, hnode⟩ := h field hfield
    exact hnode.offsets

/-- Of a well-formed legacy configuration whose migrated project loads, an entry is read as its
node says exactly if the node reads holding registers and the address has 16 bits. -/
theorem migrated_reads_iff {lib : JsonLibrary} (hlib : lib.ReportsViolations) {truncate : Double → ℤ}
    {legacy : Json} {nodes : List (String × Json)}
    (hnodes : legacy.get? "Nodes" = some (.object nodes))
    (hlegacy : ∀ field ∈ nodes, ∃ id code shift, LegacyNode field.2 id code shift)
    {root : Json} (hmigrate : migrateLegacyNodes truncate legacy = .ok root)
    {text sourceName : String} (hroot : lib.parse text = .ok root)
    (hok : (loadJsonText lib text sourceName).ok = true)
    {field : String × Json} (hfield : field ∈ nodes) {id code shift : ℤ}
    (hnode : LegacyNode field.2 id code shift)
    {entry : String × Json} (hentry : entry ∈ legacyApi field.2) :
    ReadAsDescribed (RuntimeIndex.build (loadJsonText lib text sourceName).project) field.1
        (tagNameFrom entry.2 field.1 (legacyOffset entry.1)) id code
        (shift + legacyOffset entry.1) ↔
      code = 3 ∧ shift + legacyOffset entry.1 < 65536 := by
  have hnumbers : LegacyNumbers nodes := legacyNumbers_of_nodes hlegacy
  obtain ⟨migrated, hmapM, rfl⟩ := (migrateLegacyNodes_eq_ok_iff hnodes).mp hmigrate
  have hconsistent := loadJsonText_consistent hlib hok
  have hchecked := loadJsonText_checked hlib hok
  obtain ⟨-, -, -, hproject⟩ := loadJsonText_parsed hroot hok
  obtain ⟨hdevices, hgroups⟩ := parseProject_migratedProject hnumbers hmapM
  rw [← hproject] at hdevices hgroups
  obtain ⟨hfits, registers, hgroup⟩ := hgroups field hfield
  have hshift : (field.2.int? "shift").getD 0 = toInt shift := by
    rw [int?_of_get? hnode.shift.1, Option.getD_some]
  have hunit : (nodeDevice field).unitId = id := by
    have hid : IsInt id := ⟨by linarith [hnode.id.2.1], by linarith [hnode.id.2.2]⟩
    show toInt ((field.2.int? "id").getD 1) = id
    rw [int?_of_get? hnode.id.1, Option.getD_some, toInt_of_isInt hid, toInt_of_isInt hid]
  obtain ⟨b, hb, hdevice, htag, hunique⟩ :=
    entry_unique hconsistent hdevices hfield hfits hnode.distinct hentry
  have haddress : b.tag.address = toInt (shift + legacyOffset entry.1) := by
    rw [htag, hshift]
    exact toInt_add_toInt ..
  have harea : b.tag.area = .holding := by rw [htag]; rfl
  have hunitId : (b.unitId.toNat : ℤ) = id := by
    rw [(exists_entry hconsistent hdevices hfield hb hdevice).1, hunit]
    exact unitId_toNat hnode.id.2.1 hnode.id.2.2
  constructor
  · intro h
    obtain ⟨b', ⟨hb', hdevice', haddress'⟩, -⟩ := h.unique
    obtain ⟨-, -, hpolled, -⟩ := h.polled b' hb' hdevice' haddress'
    obtain ⟨-, entry', -, htag'⟩ := exists_entry hconsistent hdevices hfield hb' hdevice'
    have harea' : b'.tag.area = .holding := by rw [htag']; rfl
    rw [polledBy_iff, readRequest_holding harea'] at hpolled
    injection hpolled with hread
    injection hread with hcode hrest
    injection hrest with _ hread
    refine ⟨hcode.symm, ?_⟩
    rw [← hread]
    exact_mod_cast UInt16.toNat_lt _
  · rintro ⟨rfl, hlt⟩
    have hoffset := hfits entry hentry
    have hint : IsInt (shift + legacyOffset entry.1) := by
      have hnonneg := hnode.shift.2
      unfold OffsetFits IsInt at hoffset
      unfold IsInt
      omega
    rw [toInt_of_isInt hint] at haddress
    obtain ⟨d, hd, hbd, -⟩ := RuntimeIndex.mem_bindDevices hb
    have hnonneg : 0 ≤ shift + legacyOffset entry.1 := by
      rw [← haddress]
      exact (hchecked.tags d hd b.tag hbd).address
    refine ⟨⟨b, ⟨hb, hdevice, haddress⟩, fun b' hb' => ?_⟩, fun b' hb' hdevice' haddress' => ?_⟩
    · exact hunique b' hb'.1 hb'.2.1 (hb'.2.2.trans haddress.symm)
    · obtain rfl := hunique b' hb' hdevice' (haddress'.trans haddress.symm)
      refine ⟨by rw [htag]; rfl, ⟨nodeDevice field, ?_, rfl, hunit, ?_⟩, ?_,
        loadedGroup field.1 ((field.2.int? "shift").getD 0) registers, hgroup, rfl, rfl, rfl, ?_⟩
      · show nodeDevice field ∈ (loadJsonText lib text sourceName).project.devices
        rw [hdevices]
        exact List.mem_map_of_mem hfield
      · rw [htag]
        exact List.mem_map_of_mem hentry
      · rw [polledBy_iff, readRequest_holding harea, haddress, toNat_ofInt hnonneg hlt,
          Int.toNat_of_nonneg hnonneg, hunitId]
      · exact mem_unnamedTags hb' hdevice' (by rw [htag]; rfl)

end Reads

/-! ### A pump -/

attribute [local instance] exactPlatform

/-- A legacy node with two entries. -/
def legacyPump (code : ℤ) : Json := .object
  [("API", .object [("0", .string "word"),
    ("2", .object [("byteorder", .string "1032"), ("name", .string "flow"),
      ("type", .string "float")])]),
    ("code", .int code), ("id", .int 7), ("registers", .int 4), ("shift", .int 100)]

def legacySite (code : ℤ) : Json := .object [("Nodes", .object [("pump", legacyPump code)])]

def migratedSite (code : ℤ) : Json :=
  (migrateLegacyNodes (fun _ => 0) (legacySite code)).toOption.getD .null

theorem legacyPump_node {code : ℤ} (h : code ∈ [1, 2, 3, 4]) :
    LegacyNode (legacyPump code) 7 code 100 where
  id := ⟨rfl, by decide, by decide⟩
  code := ⟨rfl, h⟩
  shift := ⟨rfl, by decide⟩
  offsets := by
    show ∀ entry ∈ [("0", _), ("2", _)], _
    decide +kernel
  distinct := by
    show ([legacyOffset "0", legacyOffset "2"]).Nodup
    decide +kernel

/-- A node of input registers is read from the holding registers. -/
theorem input_registers_read_as_holding :
    migrateLegacyNodes (fun _ => 0) (legacySite 4) = .ok (migratedSite 4) ∧
      (loadDocument (migratedSite 4)).ok = true ∧ LegacyNode (legacyPump 4) 7 4 100 ∧
      ¬ ReadAsDescribed (RuntimeIndex.build (loadDocument (migratedSite 4)).project) "pump"
        (tagNameFrom (.string "word") "pump" 0) 7 4 (100 + legacyOffset "0") := by
  refine ⟨rfl, by decide +kernel, legacyPump_node (by decide), fun h => ?_⟩
  obtain ⟨b, ⟨hb, hdevice, haddress⟩, -⟩ := h.unique
  obtain ⟨-, -, hpolled, -⟩ := h.polled b hb hdevice haddress
  have hareas : ∀ b ∈ (RuntimeIndex.build (loadDocument (migratedSite 4)).project).tags,
      b.tag.area = .holding := by decide +kernel
  rw [polledBy_iff, readRequest_holding (hareas b hb)] at hpolled
  injection hpolled with hread
  injection hread with hcode _
  omega

theorem holding_registers_read_as_described :
    (loadDocument (migratedSite 3)).ok = true ∧
      ReadAsDescribed (RuntimeIndex.build (loadDocument (migratedSite 3)).project) "pump"
        (tagNameFrom (.string "word") "pump" (legacyOffset "0")) 7 3 (100 + legacyOffset "0") := by
  have hok : (loadDocument (migratedSite 3)).ok = true := by decide +kernel
  have hnode : LegacyNode (legacyPump 3) 7 3 100 := legacyPump_node (by decide)
  have hlegacy : ∀ field ∈ [("pump", legacyPump 3)], ∃ id code shift,
      LegacyNode field.2 id code shift := by
    intro field hfield
    rw [List.mem_singleton.mp hfield]
    exact ⟨7, 3, 100, hnode⟩
  have hnodes : (legacySite 3).get? "Nodes" = some (.object [("pump", legacyPump 3)]) := rfl
  have hmigrate : migrateLegacyNodes (fun _ => 0) (legacySite 3) = .ok (migratedSite 3) := rfl
  have hentry : ("0", Json.string "word") ∈ legacyApi (legacyPump 3) := List.mem_cons_self
  have hiff := migrated_reads_iff (JsonLibrary.reading_reports fun _ => migratedSite 3) hnodes
    hlegacy hmigrate rfl hok (List.mem_singleton_self _) hnode hentry
  exact ⟨hok, hiff.mpr ⟨rfl, by decide +kernel⟩⟩

end OpcServer.Core
