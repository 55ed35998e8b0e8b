import OpcServer.Adapters.FakeModbus
import OpcServer.Core.AcceptedIndex
import OpcServer.Core.IntegerCodec

/-! A value that is written and read back. The write encodes the value and stores it in
holding registers or, bit by bit, in coils; the poll reads as many of them as the tag
says, and decodes. Between the two stand the quantity of the tag, which the encoder
does not look at, and the coils, which keep of a register whether it is zero. -/

namespace OpcServer.Core

open Domain Project Adapters

section ReadBack

variable [Platform]

/-! ### What the poll finds -/

/-- What the device keeps of an encoded value. -/
def keptRegs (area : Area) (regs : List UInt16) : List UInt16 :=
  if area = .coil then regs.map fun reg => if reg ≠ 0 then 1 else 0 else regs

omit [Platform] in
theorem keptRegs_length (area : Area) (regs : List UInt16) :
    (keptRegs area regs).length = regs.length := by
  unfold keptRegs
  split <;> simp

/-- The conditions under which a tag reads back a value of its type: it reads all the
registers of its type, no more than a request can ask for, and coils get bits. -/
structure ReadsBack (tag : Tag) (value : ScalarValue) : Prop where
  wide : registerCountFor tag.type ≤ regsFor tag
  narrow : regsFor tag ≤ 65535
  bits : tag.area = .coil → ∀ regs, Translator.encode tag value = .ok regs →
    ∀ reg ∈ regs, reg = 0 ∨ reg = 1

omit [Platform] in
theorem keptRegs_eq_iff (area : Area) (regs : List UInt16) :
    keptRegs area regs = regs ↔ (area = .coil → ∀ reg ∈ regs, reg = 0 ∨ reg = 1) := by
  unfold keptRegs
  by_cases harea : area = .coil
  · rw [if_pos harea]
    nth_rewrite 2 [← List.map_id regs]
    rw [List.map_inj_left]
    have heach : ∀ reg : UInt16, (if reg ≠ 0 then 1 else 0) = id reg ↔ reg = 0 ∨ reg = 1 := by
      intro reg
      by_cases hreg : reg = 0
      · simp [hreg]
      · simp [hreg, eq_comm]
    simp only [heach, harea, true_imp_iff]
  · simp [harea]

/-- The kept registers, at the start of what a poll reads, decode to the value exactly
under the conditions. -/
theorem decode_kept_iff (hexact : ExactIntegers) {tag : Tag} (htag : Translator.Unscaled tag)
    {value : ScalarValue} (hown : Translator.OwnType tag.type value) {regs : List UInt16}
    (hregs : Translator.encode tag value = .ok regs) (more : List UInt16)
    (hsize : regsFor tag ≤ (keptRegs tag.area regs ++ more).length) :
    Translator.decode tag (keptRegs tag.area regs ++ more) = .ok value ↔
      (tag.area = .coil → ∀ reg ∈ regs, reg = 0 ∨ reg = 1) := by
  have hcount := Translator.ensureCount_eq_ok.mpr hsize
  have hlen := Translator.encode_length hregs
  by_cases hbool : tag.type = .bool
  · -- a Boolean is one bit anyway
    rw [hbool] at hown
    obtain ⟨v, rfl⟩ : ∃ v, value = .bool v := by
      cases value with
      | bool v => exact ⟨v, rfl⟩
      | _ => cases hown
    obtain rfl : [if v then 1 else 0] = regs := by
      simpa [Translator.encode, hbool, pure, Except.pure] using hregs
    have hkept : keptRegs tag.area [if v then 1 else 0] = [if v then 1 else 0] := by
      rw [keptRegs_eq_iff]
      cases v <;> simp
    rw [hkept] at hcount ⊢
    rw [List.singleton_append] at hcount ⊢
    rw [Translator.decode_bool_eq hbool hcount]
    cases v <;> simp
  · rw [← Translator.encode_iff_decode hexact htag hown hbool
      (by rw [keptRegs_length]; exact hlen) more hcount, hregs, Except.ok.injEq, eq_comm]
    exact keptRegs_eq_iff tag.area regs

/-! ### One write -/

section Write
variable {σ : Type} {index : RuntimeIndex} {transport : IModbusTransport σ} {endpointId : String}

/-- A flush of one write that succeeds has encoded it and had it taken, and shows its
value. -/
theorem flushWrites_alone {w : World σ} {t : σ} {write : PendingWrite} {b : TagBinding}
    (ht : w.transports endpointId = some t) (hq : w.dispatcher.writeQueues endpointId = [write])
    (hb : index.findById write.tagId = some b) (now : TimestampMs)
    (hok : (flushWrites index transport endpointId now w).1 = .ok ()) :
    ∃ regs t' shown, Translator.encode b.tag write.value = .ok regs ∧
      transport.write (singleRequest b regs) t = (.ok (), t') ∧
      (flushWrites index transport endpointId now w).2.transports endpointId = some t' ∧
      (flushWrites index transport endpointId now w).2.dispatcher.tagStore.get write.tagId =
        some shown ∧ shown.value = write.value := by
  obtain ⟨hempty, -⟩ | ⟨hnone, -⟩ | ⟨t₀, r, s, ht₀, hloop, heq⟩ :=
    flushWrites_cases index transport endpointId now w
  · rw [hq] at hempty
    cases hempty
  · rw [ht] at hnone
    cases hnone
  · obtain rfl : t = t₀ := Option.some.inj (ht.symm.trans ht₀)
    rw [heq] at hok ⊢
    obtain rfl : r = .ok () := hok
    rw [hq, flushLoop_cons] at hloop
    cases hregs : Translator.encode b.tag write.value with
    | error e =>
      have hplan : plan index write [] = .unencodable [] write e [] := by
        simp [plan, hb, hregs]
      rw [hplan] at hloop
      cases congrArg Prod.fst hloop
    | ok regs =>
      rw [plan_alone hb hregs] at hloop
      dsimp only at hloop
      cases hcall : callWrite transport endpointId (singleRequest b regs) [write]
        ⟨t, w.dispatcher.setQueue endpointId []⟩ with
      | mk r' s' =>
        obtain ⟨hwrite, -⟩ := callWrite_eq transport endpointId hcall
        rw [hcall] at hloop
        cases r' with
        | error e => cases congrArg Prod.fst hloop
        | ok u =>
          dsimp only at hloop
          rw [flushLoop_nil] at hloop
          obtain ⟨-, rfl⟩ := Prod.mk.inj hloop
          exact ⟨regs, s'.transport, _, rfl, hwrite, Function.update_self ..,
            TagStore.get_publish_self .., rfl⟩

end Write

/-! ### One read -/

/-- After the write, a read of the tag starts with what the device kept of it. -/
theorem ask_written {b : TagBinding} {regs : List UInt16} {t t' : FakeModbusTransport}
    (harea : b.tag.area = .holding ∨ b.tag.area = .coil) (hpos : 1 ≤ regs.length)
    (hwrite : FakeModbusTransport.port.write (singleRequest b regs) t = (.ok (), t')) :
    ∃ registers, (ask FakeModbusTransport.port b t').1 = .ok registers ∧
      registers.length = (UInt16.ofInt (regsFor b.tag)).toNat ∧
      (regs.length ≤ registers.length → ∃ more, registers = keptRegs b.tag.area regs ++ more) := by
  have ht : t.connected = true := by
    by_contra hdown
    rw [Bool.not_eq_true] at hdown
    simp [FakeModbusTransport.port, FakeModbusTransport.write, hdown] at hwrite
  change FakeModbusTransport.write _ _ = _ at hwrite
  rcases harea with harea | harea
  · rw [singleRequest, if_neg (by simp [harea]),
      FakeModbusTransport.write_registerRequest ht] at hwrite
    obtain rfl := (Prod.mk.inj hwrite).2
    refine ⟨(Table.store b.unitId (UInt16.ofInt b.tag.address) regs t.holding).read b.unitId
      (UInt16.ofInt b.tag.address) (UInt16.ofInt (regsFor b.tag)), ?_, Table.read_length ..,
      fun hle => ?_⟩
    · simp only [ask, harea, FakeModbusTransport.port, FakeModbusTransport.readRegisters, ht]
      rfl
    · rw [keptRegs, if_neg (by simp [harea])]
      exact Table.read_store _ _ _ _ _ (by simpa using hle)
  · have hne : coilBits regs ≠ [] := by
      intro hnil
      rw [← coilBits_length, hnil] at hpos
      cases hpos
    rw [singleRequest, if_pos harea, FakeModbusTransport.write_coilRequest ht _ _ hne] at hwrite
    obtain rfl := (Prod.mk.inj hwrite).2
    refine ⟨asRegs ((Table.store b.unitId (UInt16.ofInt b.tag.address)
      ((coilBits regs).map (· != 0)) t.coils).read b.unitId (UInt16.ofInt b.tag.address)
      (UInt16.ofInt (regsFor b.tag))), ?_, ?_, fun hle => ?_⟩
    · simp only [ask, harea, FakeModbusTransport.port, FakeModbusTransport.readBits, ht]
      rfl
    · simp [asRegs]
    · obtain ⟨more, hmore⟩ := Table.read_store b.unitId (UInt16.ofInt b.tag.address)
        (UInt16.ofInt (regsFor b.tag)) ((coilBits regs).map (· != 0)) t.coils
        (by simpa [asRegs] using hle)
      refine ⟨asRegs more, ?_⟩
      rw [hmore, asRegs, List.map_append, keptRegs, if_pos harea, List.map_map, coilBits,
        List.map_map]
      congr 1
      apply List.map_congr_left
      intro reg _
      by_cases hreg : reg = 0 <;> simp [hreg]

/-- What a poll shows of a tag whose read succeeds: Good exactly with the decoded value. -/
theorem pollTag_shows {σ : Type} {transport : IModbusTransport σ} {endpointId : String}
    (now : TimestampMs) {b : TagBinding} {w : World σ} {t : σ}
    (ht : w.transports endpointId = some t) {registers : List UInt16}
    (hask : (ask transport b t).1 = .ok registers) (value : ScalarValue) :
    (∃ read, (pollTag transport endpointId now b w).2.dispatcher.tagStore.get b.id = some read ∧
      read.quality = .good ∧ read.value = value) ↔
        Translator.decode b.tag registers = .ok value := by
  have hget : (pollTag transport endpointId now b w).2.dispatcher.tagStore.get b.id =
      some (Answer.published syncReason now ⟨b, .ok registers⟩ (w.dispatcher.tagStore.get b.id)) := by
    rw [pollTag_eq transport endpointId now b ht, hask]
    exact TagStore.get_publish_self ..
  rw [hget]
  cases hd : Translator.decode b.tag registers with
  | error e => simp [Answer.published, hd, Dispatcher.qualityUpdate, withQuality_eq]
  | ok v => simp [Answer.published, hd]

/-- Registers that a poll finds decode to the value exactly under the conditions. -/
theorem decode_found_iff (hexact : ExactIntegers) {tag : Tag} (hchecked : tag.Checked)
    (htag : Translator.Unscaled tag) {value : ScalarValue}
    (hown : Translator.OwnType tag.type value) {regs registers : List UInt16}
    (hregs : Translator.encode tag value = .ok regs)
    (hlen : registers.length = (UInt16.ofInt (regsFor tag)).toNat)
    (hkept : regs.length ≤ registers.length →
      ∃ more, registers = keptRegs tag.area regs ++ more) :
    Translator.decode tag registers = .ok value ↔ ReadsBack tag value := by
  have hpos := hchecked.regsFor_pos
  have hcount := Translator.encode_length hregs
  by_cases hnarrow : regsFor tag ≤ 65535
  · have hqty : (registers.length : ℤ) = regsFor tag := by
      rw [hlen, toNat_ofInt (by omega) (by omega), Int.toNat_of_nonneg (by omega)]
    by_cases hwide : registerCountFor tag.type ≤ regsFor tag
    · obtain ⟨more, rfl⟩ := hkept (by omega)
      rw [decode_kept_iff hexact htag hown hregs more hqty.ge]
      constructor
      · intro hbits
        refine ⟨hwide, hnarrow, fun harea regs' hregs' => ?_⟩
        rw [← Except.ok.inj (hregs.symm.trans hregs')]
        exact hbits harea
      · intro h harea
        exact h.bits harea regs hregs
    · refine ⟨fun hd => ?_, fun h => absurd h.wide hwide⟩
      exact absurd hd (Translator.decode_short hown (by omega) (by omega))
  · refine ⟨fun hd => ?_, fun h => absurd h.narrow hnarrow⟩
    -- the request asks for fewer registers than the decoder insists on
    have hqty := (UInt16.ofInt (regsFor tag)).toNat_lt
    have hrefused : Translator.ensureCount tag registers.length ≠ .ok () := by
      rw [ne_eq, Translator.ensureCount_eq_ok]
      omega
    cases hsize : Translator.ensureCount tag registers.length with
    | error e => simp [Translator.decode, Translator.decodeM, hsize] at hd
    | ok u => exact absurd hsize hrefused

/-! ### Writing and reading -/

/-- A value of a Boolean or unscaled integer tag that was written with success is read
back, Good and as it was written, if and only if the tag reads all the registers of its
type and no more than 65535, and a coil tag's value encodes to bits. -/
theorem written_value_reads_back_iff (hexact : ExactIntegers) {lib : JsonLibrary}
    (hlib : lib.ReportsViolations) {text sourceName : String}
    (hok : (loadJsonText lib text sourceName).ok = true) {b : TagBinding}
    (hb : b ∈ (RuntimeIndex.build (loadJsonText lib text sourceName).project).tags)
    (hwritable : b.tag.writable = true) (htag : Translator.Unscaled b.tag) {value : ScalarValue}
    (hown : Translator.OwnType b.tag.type value) {w : World FakeModbusTransport}
    {t : FakeModbusTransport} (ht : w.transports b.endpointId = some t)
    (hqueue : w.dispatcher.writeQueues b.endpointId = []) (clock now : TimestampMs) :
    let index := RuntimeIndex.build (loadJsonText lib text sourceName).project
    let queued := { w with dispatcher := (w.dispatcher.enqueueWrite index b.id value).2 }
    let flushed := flushWrites index FakeModbusTransport.port b.endpointId clock queued
    let polled := pollTag FakeModbusTransport.port b.endpointId now b flushed.2
    flushed.1 = .ok () →
      ((∃ written read, flushed.2.dispatcher.tagStore.get b.id = some written ∧
        polled.2.dispatcher.tagStore.get b.id = some read ∧ read.quality = .good ∧
        read.value = written.value) ↔ ReadsBack b.tag value) := by
  intro index queued flushed polled hflushed
  have hfound : index.findById b.id = some b := RuntimeIndex.findById_of_mem hb
  obtain ⟨d, hd, hmem, -⟩ := RuntimeIndex.mem_bindDevices hb
  have hchecked := (loadJsonText_checked hlib hok).tags d hd b.tag hmem
  have hroom : ¬ (w.dispatcher.writeQueues b.endpointId).length ≥ kMaxWriteQueueDepth := by
    rw [hqueue]
    exact not_le.mpr (Nat.zero_lt_succ 1023)
  have hq : queued.dispatcher.writeQueues b.endpointId = [⟨b.id, value, w.dispatcher.nextSeq⟩] := by
    have haccept : (w.dispatcher.enqueueWrite index b.id value).2 =
        w.dispatcher.accept b.endpointId b.id value := by
      simp only [Dispatcher.enqueueWrite, hfound, hwritable, hroom]
      rfl
    change (w.dispatcher.enqueueWrite index b.id value).2.writeQueues b.endpointId = _
    rw [haccept, Dispatcher.accept_writeQueues, hqueue, List.nil_append]
  obtain ⟨regs, t', shown, hregs, hwrite, ht', hshown, hvalue⟩ :=
    flushWrites_alone (w := queued) ht hq hfound clock hflushed
  have hpos : 1 ≤ regs.length := by
    have hlen := Translator.encode_length hregs
    have hcount := registerCountFor_pos b.tag.type
    omega
  obtain ⟨registers, hask, hlen, hkept⟩ := ask_written (hchecked.writable hwritable) hpos hwrite
  have hshows := pollTag_shows now ht' hask value
  rw [← decode_found_iff hexact hchecked htag hown hregs hlen hkept, ← hshows]
  constructor
  · rintro ⟨written, read, hwritten, hread, hgood, heq⟩
    obtain rfl := Option.some.inj (hshown.symm.trans hwritten)
    exact ⟨read, hread, hgood, heq.trans hvalue⟩
  · rintro ⟨read, hread, hgood, heq⟩
    exact ⟨shown, read, hshown, hread, hgood, heq.trans hvalue.symm⟩

end ReadBack

/-! ### A speed and a mode -/

attribute [local instance] exactPlatform

/-- One holding register. -/
def speedSite : LoadResult :=
  loadDocument (siteDocument 0 [tagDocument "speed" "holding" "uint16" 0 true])

/-- A number where the device has a coil. -/
def modeSite : LoadResult :=
  loadDocument (siteDocument 0 [tagDocument "mode" "coil" "uint16" 0 true])

/-- The world after a 5 was queued for the first tag of a site. -/
def fiveQueued (site : LoadResult) : World FakeModbusTransport :=
  let w : World FakeModbusTransport := { transports := fun _ => some { connected := true } }
  { w with dispatcher := (w.dispatcher.enqueueWrite (.build site.project) 1 (.uint16 5)).2 }

def fiveFlushed (site : LoadResult) : Result Unit × World FakeModbusTransport :=
  flushWrites (.build site.project) FakeModbusTransport.port "plc" 10 (fiveQueued site)

def fivePolled (site : LoadResult) (b : TagBinding) : World FakeModbusTransport :=
  (pollTag FakeModbusTransport.port "plc" 20 b (fiveFlushed site).2).2

theorem speed_reads_back : speedSite.ok = true ∧
    ∃ b ∈ (RuntimeIndex.build speedSite.project).tags, b.id = 1 ∧
      (fiveFlushed speedSite).1 = .ok () ∧
      ∃ written read, (fiveFlushed speedSite).2.dispatcher.tagStore.get 1 = some written ∧
        (fivePolled speedSite b).dispatcher.tagStore.get 1 = some read ∧ read.quality = .good ∧
        read.value = written.value := by
  have hok : speedSite.ok = true := by decide +kernel
  have hb : ∃ b ∈ (RuntimeIndex.build speedSite.project).tags,
      b.id = 1 ∧ b.endpointId = "plc" ∧ b.tag.writable = true ∧ b.tag.area = .holding ∧
      b.tag.type = .uint16 ∧ b.tag.quantity = none ∧ b.tag.scale = Platform.ofInt 1 ∧
      b.tag.offset = Platform.ofInt 0 := by
    decide +kernel
  obtain ⟨b, hmem, hid, hep, hwritable, harea, htype, hqty, hscale, hoffset⟩ := hb
  have hflushed : (fiveFlushed speedSite).1 = .ok () := by decide +kernel
  have hown : Translator.OwnType b.tag.type (.uint16 5) := by
    rw [htype]
    trivial
  have hback := written_value_reads_back_iff exactPlatform_exactIntegers
    (JsonLibrary.reading_reports _) hok hmem hwritable ⟨hscale, hoffset⟩ hown
    (w := { transports := fun _ => some { connected := true } }) rfl rfl 10 20
  rw [hid, hep] at hback
  refine ⟨hok, b, hmem, hid, hflushed, (hback hflushed).mpr ⟨?_, ?_, ?_⟩⟩
  · simp [regsFor, hqty]
  · simp [regsFor, hqty, htype, registerCountFor]
  · rw [harea]
    intro hcoil
    cases hcoil

/-- The coil keeps that the 5 is not zero, and the poll shows a Good 1. -/
theorem mode_reads_one : modeSite.ok = true ∧ (fiveFlushed modeSite).1 = .ok () ∧
    ((fiveFlushed modeSite).2.dispatcher.tagStore.get 1).map (·.value) = some (.uint16 5) ∧
    ∃ b ∈ (RuntimeIndex.build modeSite.project).tags, b.id = 1 ∧ b.tag.writable = true ∧
      b.tag.type = .uint16 ∧ b.tag.scale = Platform.ofInt 1 ∧ b.tag.offset = Platform.ofInt 0 ∧
      ((fivePolled modeSite b).dispatcher.tagStore.get 1).map (fun read =>
        (read.quality, read.value)) = some (.good, .uint16 1) := by
  decide +kernel

end OpcServer.Core
