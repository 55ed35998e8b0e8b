import OpcServer.Adapters.ModbusProtocol
import OpcServer.Core.Cells
import OpcServer.Core.PollReads
import OpcServer.Project.LoadText

/-! From the map to the wire. A project gives every tag some registers, and requests
name registers by 16-bit numbers. The loader checks addresses and quantities from
below only, so what an accepted map says goes on the wire exactly when the missing
upper bounds hold of it. -/

namespace OpcServer.Core

open Domain Project Adapters

/-! ### Registers -/

/-- A register (or coil, or input) of a device, under the number that the map or a
request gives it. -/
structure Register where
  unit : UInt8
  area : Area
  address : ℤ
  deriving DecidableEq

/-- Consecutive registers. -/
def registersFrom (unit : UInt8) (area : Area) : ℤ → ℕ → List Register
  | _, 0 => []
  | address, count + 1 => ⟨unit, area, address⟩ :: registersFrom unit area (address + 1) count

@[simp] theorem registersFrom_length (unit : UInt8) (area : Area) (address : ℤ) (count : ℕ) :
    (registersFrom unit area address count).length = count := by
  induction count generalizing address with
  | zero => rfl
  | succ count ih => rw [registersFrom, List.length_cons, ih]

theorem lt_of_mem_registersFrom {unit : UInt8} {area : Area} {address : ℤ} {count : ℕ}
    {r : Register} (h : r ∈ registersFrom unit area address count) :
    r.address < address + count := by
  induction count generalizing address with
  | zero => cases h
  | succ count ih =>
    rcases List.mem_cons.mp h with rfl | h
    · simp only
      omega
    · have := ih h
      omega

def Space.area : Space → Area
  | .coil => .coil
  | .holding => .holding

/-- The cell of a write request as a register. -/
def Cell.register (c : Cell) : Register := ⟨c.unit, c.space.area, c.address⟩

theorem assignFrom_registers (unit : UInt8) (space : Space) (address : ℕ) (values : List UInt16) :
    (assignFrom unit space address values).map (fun cv => cv.1.register) =
      registersFrom unit space.area address values.length := by
  induction values generalizing address with
  | nil => rfl
  | cons v vs ih =>
    rw [assignFrom, List.map_cons, ih, List.length_cons, registersFrom, Nat.cast_add, Nat.cast_one]
    rfl

/-! ### Requests -/

/-- The registers a request names. -/
def Request.covers : Request → List Register
  | .connect _ _ => []
  | .registers (.readHoldingRegisters u a q) => registersFrom u .holding a.toNat q.toNat
  | .registers (.readInputRegisters u a q) => registersFrom u .input a.toNat q.toNat
  | .bits (.readCoils u a q) => registersFrom u .coil a.toNat q.toNat
  | .bits (.readDiscreteInputs u a q) => registersFrom u .discrete a.toNat q.toNat
  | .write request => request.assignments.map fun cv => cv.1.register

/-- The most registers that one request of a function may name. -/
def Request.maxCount : Request → ℕ
  | .connect _ _ => 0
  | .registers _ => 125
  | .bits _ => 2000
  | .write (.writeSingleRegister ..) => 1
  | .write (.writeMultipleRegisters ..) => 123
  | .write (.writeSingleCoil ..) => 1
  | .write (.writeMultipleCoils ..) => 1968

/-- The request is one the Modbus specification allows. -/
structure Request.Legal (request : Request) : Prop where
  nonempty : request.covers ≠ []
  count : request.covers.length ≤ request.maxCount
  inRange : ∀ r ∈ request.covers, r.address < 65536

/-- The PDU that a transport builds for a write; without one nothing is sent. -/
def WriteRequest.pdu : WriteRequest → Result (List UInt8)
  | .writeSingleRegister _ a v => .ok (makeWriteSingleRegisterPdu a v)
  | .writeMultipleRegisters _ a vs => .ok (makeWriteMultipleRegistersPdu a vs)
  | .writeSingleCoil _ a v => .ok (makeWriteSingleCoilPdu a v)
  | .writeMultipleCoils _ a vs => makeWriteMultipleCoilsPdu a vs

theorem writeRequest_covers_length (request : WriteRequest) :
    (Request.write request).covers.length = request.assignments.length := by
  rw [Request.covers, List.length_map]

/-- The cells of a legal write, when they are consecutive: there is one, and all are
below the end of the address range. -/
theorem Request.Legal.assigned {request : WriteRequest} (h : (Request.write request).Legal)
    {unit : UInt8} {space : Space} {address : ℕ} {values : List UInt16}
    (heq : request.assignments = assignFrom unit space address values) :
    values ≠ [] ∧ address + values.length ≤ 65536 := by
  have hne : values ≠ [] := by
    rintro rfl
    exact h.nonempty (by rw [Request.covers, heq]; rfl)
  have hbelow : ∀ cv ∈ assignFrom unit space address values, cv.1.address < 65536 := by
    intro cv hcv
    rw [← heq] at hcv
    exact Int.ofNat_lt.mp (h.inRange cv.1.register (List.mem_map_of_mem hcv))
  exact ⟨hne, assignFrom_below hne hbelow⟩

theorem coilRequest_count {unit : UInt8} {address : UInt16} {bits : List UInt8} {pdu : List UInt8}
    (h : (coilRequest unit address bits).pdu = .ok pdu) :
    bits ≠ [] ∧ bits.length ≤ (Request.write (coilRequest unit address bits)).maxCount := by
  unfold coilRequest at h ⊢
  split
  · exact ⟨by simp, le_rfl⟩
  · rename_i hne
    split at h
    · rename_i bit
      exact absurd rfl (hne bit)
    · simp only [WriteRequest.pdu, makeWriteMultipleCoilsPdu] at h
      split at h
      · cases h
      · rename_i hsize
        simp only [not_or, not_lt, List.isEmpty_iff] at hsize
        exact ⟨hsize.1, hsize.2⟩

theorem registerRequest_count {unit : UInt8} {address : UInt16} {regs : List UInt16}
    (h : regs.length ≤ 123) :
    regs.length ≤ (Request.write (registerRequest unit address regs)).maxCount := by
  unfold registerRequest
  split
  · exact le_rfl
  · exact h

section Wire
variable [Platform]

/-! ### The wire and the map -/

/-- The registers the map gives to a tag. -/
def TagBinding.registers (b : TagBinding) : List Register :=
  registersFrom b.unitId b.tag.area b.tag.address (regsFor b.tag).toNat

/-- The registers the map gives to the tag of a write. -/
def PendingWrite.registers (index : RuntimeIndex) (w : PendingWrite) : List Register :=
  ((index.findById w.tagId).map TagBinding.registers).getD []

def maxRegs : Area → ℤ
  | .holding | .input => 125
  | .coil | .discrete => 2000

/-- What the map says is what goes on the wire. -/
structure OnTheWire (project : Project) : Prop where
  bounds : ∀ d ∈ project.devices, ∀ tag ∈ d.tags, 0 ≤ tag.address ∧ 1 ≤ regsFor tag ∧
    tag.address + regsFor tag ≤ 65536 ∧ regsFor tag ≤ maxRegs tag.area
  casts : ∀ b ∈ (RuntimeIndex.build project).tags,
    ((UInt16.ofInt b.tag.address).toNat : ℤ) = b.tag.address ∧
      ((UInt16.ofInt (regsFor b.tag)).toNat : ℤ) = regsFor b.tag
  reads : ∀ b ∈ (RuntimeIndex.build project).tags,
    (readRequest b).Legal ∧ (readRequest b).covers = b.registers
  writes : ∀ write batch request tail rest,
    (∀ w ∈ write :: batch, ∃ b, (RuntimeIndex.build project).findById w.tagId = some b ∧
      b.tag.writable = true) →
    plan (RuntimeIndex.build project) write batch = .send request tail rest →
    (∀ pdu, request.pdu = .ok pdu → (Request.write request).Legal) ∧
      (Request.write request).covers =
        (write :: tail).flatMap (PendingWrite.registers (RuntimeIndex.build project))
  distinct : ∀ b ∈ (RuntimeIndex.build project).tags, ∀ c ∈ (RuntimeIndex.build project).tags,
    (b.tag.area, b.tag.address) ≠ (c.tag.area, c.tag.address) →
    (b.tag.area, UInt16.ofInt b.tag.address) ≠ (c.tag.area, UInt16.ofInt c.tag.address)
  tagSums : ∀ d ∈ project.devices, ∀ tag ∈ d.tags, IsInt (tag.address + regsFor tag)
  blockSums : ∀ g ∈ project.pollGroups, ∀ block ∈ g.blocks, IsInt (block.start + block.count)

/-- The upper bounds that the loader does not check. -/
structure WithinRange (project : Project) : Prop where
  tags : ∀ d ∈ project.devices, ∀ tag ∈ d.tags,
    tag.address + regsFor tag ≤ 65536 ∧ regsFor tag ≤ maxRegs tag.area
  widths : ∀ d ∈ project.devices, ∀ tag ∈ d.tags, tag.writable = true →
    ∀ value regs, Translator.encode tag value = .ok regs →
      regsFor tag = registerCountFor tag.type
  blocks : ∀ g ∈ project.pollGroups, ∀ block ∈ g.blocks, block.start + block.count < 2 ^ 31

/-! ### Tags in range -/

/-- A tag within the bounds of the loader and those it does not check. -/
structure InRange (tag : Tag) : Prop where
  low : 0 ≤ tag.address
  pos : 1 ≤ regsFor tag
  high : tag.address + regsFor tag ≤ 65536
  count : regsFor tag ≤ maxRegs tag.area

theorem InRange.count_lt {tag : Tag} (h : InRange tag) : regsFor tag < 65536 := by
  have hcount := h.count
  unfold maxRegs at hcount
  split at hcount <;> omega

theorem InRange.casts {tag : Tag} (h : InRange tag) :
    ((UInt16.ofInt tag.address).toNat : ℤ) = tag.address ∧
      (UInt16.ofInt (regsFor tag)).toNat = (regsFor tag).toNat := by
  have hlow := h.low
  have hpos := h.pos
  have hhigh := h.high
  refine ⟨?_, toNat_ofInt (by omega) h.count_lt⟩
  rw [toNat_ofInt hlow (by omega), Int.toNat_of_nonneg hlow]

theorem readRequest_covers {b : TagBinding} (h : InRange b.tag) :
    (readRequest b).covers = b.registers := by
  obtain ⟨haddr, hcount⟩ := h.casts
  cases harea : b.tag.area <;>
    simp only [readRequest, harea, Request.covers, TagBinding.registers, haddr, hcount]

theorem registers_inRange {b : TagBinding} (h : InRange b.tag) :
    b.registers ≠ [] ∧ ∀ r ∈ b.registers, r.address < 65536 := by
  have hpos := h.pos
  have hhigh := h.high
  constructor
  · intro hnil
    have hlen := congrArg List.length hnil
    rw [TagBinding.registers, registersFrom_length, List.length_nil] at hlen
    omega
  · intro r hr
    have := lt_of_mem_registersFrom hr
    omega

theorem readRequest_legal {b : TagBinding} (h : InRange b.tag) : (readRequest b).Legal := by
  have hcount := h.count
  have hcovers := readRequest_covers h
  refine ⟨hcovers ▸ (registers_inRange h).1, ?_, hcovers ▸ (registers_inRange h).2⟩
  rw [hcovers, TagBinding.registers, registersFrom_length]
  cases harea : b.tag.area <;>
    simp only [harea, maxRegs, readRequest, Request.maxCount] at hcount ⊢ <;> omega

/-! ### Writes -/

/-- The cells of a write are the registers of its tag, if the tag is as wide as its
type. -/
theorem assignments_registers {index : RuntimeIndex} {w : PendingWrite} {b : TagBinding}
    {regs : List UInt16} (hb : index.findById w.tagId = some b)
    (hregs : Translator.encode b.tag w.value = .ok regs) (hrange : InRange b.tag)
    (harea : b.tag.area = .holding ∨ b.tag.area = .coil)
    (hwidth : regsFor b.tag = registerCountFor b.tag.type) :
    (w.assignments index).map (fun cv => cv.1.register) = w.registers index := by
  have hlen : regs.length = (regsFor b.tag).toNat := by
    rw [hwidth, ← Translator.encode_length hregs, Int.toNat_natCast]
  have haddr := Int.toNat_of_nonneg hrange.low
  rw [PendingWrite.assignments_eq hb hregs, PendingWrite.registers, hb, TagBinding.assignments]
  rcases harea with harea | harea
  · rw [if_neg (by simp [harea]), assignFrom_registers, haddr, hlen]
    simp [TagBinding.registers, harea, Space.area]
  · rw [if_pos harea, assignFrom_registers, List.length_map, coilBits_length, haddr, hlen]
    simp [TagBinding.registers, harea, Space.area]

theorem plan_count {index : RuntimeIndex} {write : PendingWrite} {request : WriteRequest}
    {batch tail rest : List PendingWrite} (h : plan index write batch = .send request tail rest)
    {pdu : List UInt8} (hpdu : request.pdu = .ok pdu) :
    (Request.write request).covers.length ≤ (Request.write request).maxCount := by
  rw [writeRequest_covers_length]
  obtain ⟨b, regs, hb, hregs, ⟨-, -, rfl⟩ | ⟨-, more, rfl, -⟩⟩ := plan_send_cases h
  · rw [registerRequest_assignments, assignFrom_length]
    have hlen := Translator.encode_length hregs
    have hmax := registerCountFor_le b.tag.type
    exact registerRequest_count (by omega)
  · rw [coilRequest_assignments, assignFrom_length, List.length_map]
    exact (coilRequest_count hpdu).2

/-- The request of a single write. -/
def singleRequest (b : TagBinding) (regs : List UInt16) : WriteRequest :=
  if b.tag.area = .coil then
    coilRequest b.unitId (UInt16.ofInt b.tag.address) (coilBits regs)
  else registerRequest b.unitId (UInt16.ofInt b.tag.address) regs

theorem plan_alone {index : RuntimeIndex} {write : PendingWrite} {b : TagBinding}
    {regs : List UInt16} (hb : index.findById write.tagId = some b)
    (hregs : Translator.encode b.tag write.value = .ok regs) :
    plan index write [] = .send (singleRequest b regs) [] [] := by
  unfold singleRequest
  split
  · rename_i hcoil
    simp [plan, hb, hregs, hcoil, coalesce]
  · rename_i hcoil
    simp [plan, hb, hregs, hcoil]

/-- A single write covers as many registers as its type has. -/
theorem singleRequest_covers_length (b : TagBinding) (regs : List UInt16) :
    (Request.write (singleRequest b regs)).covers.length = regs.length := by
  rw [writeRequest_covers_length]
  unfold singleRequest
  split
  · rw [coilRequest_assignments, assignFrom_length, List.length_map, coilBits_length]
  · rw [registerRequest_assignments, assignFrom_length]

/-! ### Accepted projects -/

section Accepted
variable {project : Project}

theorem inRange_of_mem (hc : project.Checked) (hr : WithinRange project) {b : TagBinding}
    (hb : b ∈ (RuntimeIndex.build project).tags) : InRange b.tag := by
  obtain ⟨d, hd, htag, -⟩ := RuntimeIndex.mem_bindDevices hb
  have hchecked := hc.tags d hd b.tag htag
  obtain ⟨hhigh, hcount⟩ := hr.tags d hd b.tag htag
  exact ⟨hchecked.address, hchecked.regsFor_pos, hhigh, hcount⟩

/-- Every write that a round of a flush sends is legal and names the registers of the
tags it carries. -/
theorem writes_of_withinRange (hc : project.Checked) (hr : WithinRange project)
    {write : PendingWrite} {batch tail rest : List PendingWrite} {request : WriteRequest}
    (hbatch : ∀ w ∈ write :: batch, ∃ b, (RuntimeIndex.build project).findById w.tagId = some b ∧
      b.tag.writable = true)
    (hplan : plan (RuntimeIndex.build project) write batch = .send request tail rest) :
    (∀ pdu, request.pdu = .ok pdu → (Request.write request).Legal) ∧
      (Request.write request).covers =
        (write :: tail).flatMap (PendingWrite.registers (RuntimeIndex.build project)) := by
  have hsub : write :: tail ⊆ write :: batch := by
    rw [plan_eq_send hplan]
    exact List.cons_subset_cons _ (List.subset_append_left _ _)
  have hmem : ∀ {w b}, (RuntimeIndex.build project).findById w = some b →
      b ∈ (RuntimeIndex.build project).tags := fun h => List.mem_of_find?_eq_some h
  -- each write carried names the registers of its tag
  have hregisters : ∀ w ∈ write :: tail,
      (w.assignments (RuntimeIndex.build project)).map (fun cv => cv.1.register) =
        w.registers (RuntimeIndex.build project) := by
    intro w hw
    obtain ⟨b, regs, hb, hregs⟩ := plan_encodes hplan w hw
    obtain ⟨b', hb', hwritable⟩ := hbatch w (hsub hw)
    obtain rfl : b = b' := Option.some.inj (hb.symm.trans hb')
    obtain ⟨d, hd, htag, -⟩ := RuntimeIndex.mem_bindDevices (hmem hb)
    exact assignments_registers hb hregs (inRange_of_mem hc hr (hmem hb))
      ((hc.tags d hd b.tag htag).writable hwritable)
      (hr.widths d hd b.tag htag hwritable w.value regs hregs)
  have hcovers : (Request.write request).covers =
      (write :: tail).flatMap (PendingWrite.registers (RuntimeIndex.build project)) := by
    obtain ⟨first, hassign, hfirst⟩ := plan_assignments hplan
    obtain ⟨b, hb, -⟩ := hbatch write List.mem_cons_self
    have hrange := inRange_of_mem hc hr (hmem hb)
    have hhigh := hrange.high
    have hpos := hrange.pos
    rw [Request.covers, hassign, hfirst b hb hrange.low (by omega), ← List.flatMap_cons,
      List.map_flatMap]
    exact List.flatMap_congr hregisters
  refine ⟨fun pdu hpdu => ⟨?_, plan_count hplan hpdu, ?_⟩, hcovers⟩
  · obtain ⟨b, hb, -⟩ := hbatch write List.mem_cons_self
    rw [hcovers, List.flatMap_cons, PendingWrite.registers, hb]
    intro hnil
    exact (registers_inRange (inRange_of_mem hc hr (hmem hb))).1 (List.append_eq_nil_iff.mp hnil).1
  · intro r hmemr
    rw [hcovers] at hmemr
    obtain ⟨w, hw, hrw⟩ := List.mem_flatMap.mp hmemr
    obtain ⟨b, hb, -⟩ := hbatch w (hsub hw)
    rw [PendingWrite.registers, hb] at hrw
    exact (registers_inRange (inRange_of_mem hc hr (hmem hb))).2 r hrw

theorem onTheWire_of_withinRange (hc : project.Checked) (hr : WithinRange project) :
    OnTheWire project where
  bounds d hd tag htag :=
    ⟨(hc.tags d hd tag htag).address, (hc.tags d hd tag htag).regsFor_pos, hr.tags d hd tag htag⟩
  casts b hb := by
    have hrange := inRange_of_mem hc hr hb
    have hpos := hrange.pos
    obtain ⟨haddr, hcount⟩ := hrange.casts
    exact ⟨haddr, by rw [hcount, Int.toNat_of_nonneg (by omega)]⟩
  reads b hb :=
    ⟨readRequest_legal (inRange_of_mem hc hr hb), readRequest_covers (inRange_of_mem hc hr hb)⟩
  writes _ _ _ _ _ hbatch hplan := writes_of_withinRange hc hr hbatch hplan
  distinct b hb c hcm hne heq := by
    simp only [Prod.mk.injEq] at heq
    have haddr : b.tag.address = c.tag.address := by
      rw [← (inRange_of_mem hc hr hb).casts.1, ← (inRange_of_mem hc hr hcm).casts.1, heq.2]
    exact hne (by rw [heq.1, haddr])
  tagSums d hd tag htag := by
    have hlow := (hc.tags d hd tag htag).address
    have hpos := (hc.tags d hd tag htag).regsFor_pos
    have hhigh := (hr.tags d hd tag htag).1
    exact ⟨by omega, by omega⟩
  blockSums g hg block hblock := by
    have hchecked := (hc.groups g hg).blocks block hblock
    have hstart := hchecked.start
    have hcount := hchecked.count
    exact ⟨by omega, hr.blocks g hg block hblock⟩

theorem withinRange_of_onTheWire (hw : OnTheWire project) : WithinRange project where
  tags d hd tag htag := (hw.bounds d hd tag htag).2.2
  widths d hd tag htag hwritable value regs hregs := by
    obtain ⟨b, hb, rfl⟩ := RuntimeIndex.exists_mem_bindDevices 1 hd htag
    have hfind : (RuntimeIndex.build project).findById b.id = some b :=
      RuntimeIndex.findById_of_mem hb
    have hplan : plan (RuntimeIndex.build project) { tagId := b.id, value := value } [] =
        .send (singleRequest b regs) [] [] := plan_alone hfind hregs
    have hlen := singleRequest_covers_length b regs
    have hbatch : ∀ w ∈ [({ tagId := b.id, value := value } : PendingWrite)],
        ∃ b, (RuntimeIndex.build project).findById w.tagId = some b ∧ b.tag.writable = true := by
      intro w hw
      obtain rfl := List.mem_singleton.mp hw
      exact ⟨b, hfind, hwritable⟩
    -- the request is as long as the encoding, and covers the registers of the tag
    have hcovers := (hw.writes _ _ _ _ _ hbatch hplan).2
    rw [List.flatMap_cons, List.flatMap_nil, List.append_nil, PendingWrite.registers, hfind,
      Option.map_some, Option.getD_some, TagBinding.registers] at hcovers
    rw [hcovers, registersFrom_length] at hlen
    have hpos := (hw.bounds d hd b.tag htag).2.1
    rw [← Translator.encode_length hregs, ← hlen, Int.toNat_of_nonneg (by omega)]
  blocks g hg block hblock := (hw.blockSums g hg block hblock).2

end Accepted

/-- What an accepted map says goes on the wire exactly when it keeps to the bounds that
the loader does not check. -/
theorem accepted_map_on_the_wire_iff {lib : JsonLibrary} (hlib : lib.ReportsViolations)
    {text sourceName : String} (hok : (loadJsonText lib text sourceName).ok = true) :
    OnTheWire (loadJsonText lib text sourceName).project ↔
      WithinRange (loadJsonText lib text sourceName).project :=
  ⟨withinRange_of_onTheWire, onTheWire_of_withinRange (loadJsonText_checked hlib hok)⟩

end Wire

/-! ### A map that wraps around -/

section Wrap

attribute [local instance] exactPlatform

def setpointSite : LoadResult :=
  loadDocument (siteDocument 0 [tagDocument "setpoint" "holding" "uint16" 10 true])

theorem setpointSite_on_the_wire : setpointSite.ok = true ∧ OnTheWire setpointSite.project := by
  have hok : setpointSite.ok = true := by decide +kernel
  refine ⟨hok, (accepted_map_on_the_wire_iff (JsonLibrary.reading_reports _) hok).mpr
    ⟨?_, ?_, ?_⟩⟩
  · have htags : ∀ d ∈ setpointSite.project.devices, ∀ tag ∈ d.tags,
        tag.address + regsFor tag ≤ 65536 ∧ regsFor tag ≤ maxRegs tag.area := by decide +kernel
    exact htags
  · intro d hd tag htag _ value regs _
    have hquantity : ∀ d ∈ setpointSite.project.devices, ∀ tag ∈ d.tags, tag.quantity = none := by
      decide +kernel
    rw [regsFor, hquantity d hd tag htag]
  · have hblocks : ∀ g ∈ setpointSite.project.pollGroups, ∀ block ∈ g.blocks,
        block.start + block.count < 2 ^ 31 := by decide +kernel
    exact hblocks

def wrappedSite : LoadResult :=
  loadDocument (siteDocument 0 [tagDocument "level" "holding" "uint16" 4464 false,
    tagDocument "flow" "holding" "uint16" 70000 false])

/-- The addresses 4464 and 70000 are accepted side by side, and are one register on the
wire. -/
theorem wrappedSite_not_on_the_wire :
    wrappedSite.ok = true ∧ ¬ OnTheWire wrappedSite.project := by
  refine ⟨by decide +kernel, fun h => ?_⟩
  have haliased : ∃ b ∈ (RuntimeIndex.build wrappedSite.project).tags,
      ∃ c ∈ (RuntimeIndex.build wrappedSite.project).tags,
      (b.tag.area, b.tag.address) ≠ (c.tag.area, c.tag.address) ∧
      (b.tag.area, UInt16.ofInt b.tag.address) = (c.tag.area, UInt16.ofInt c.tag.address) := by
    decide +kernel
  obtain ⟨b, hb, c, hc, hne, heq⟩ := haliased
  exact h.distinct b hb c hc hne heq

end Wrap

end OpcServer.Core
