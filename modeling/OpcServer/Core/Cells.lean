import OpcServer.Core.FlushWrites

/-! The device cells that write requests name. A cell is a coil or a holding register
of a unit. A round of a flush sends one request, and that request assigns to the
cells of the tags it carries what their values encode to, in order. -/

namespace OpcServer.Core

open Domain Project

/-! ### Requests -/

inductive Space where
  | coil | holding
  deriving DecidableEq, Repr

structure Cell where
  unit : UInt8
  space : Space
  address : ℕ
  deriving DecidableEq, Repr

/-- Consecutive cells with their new values. -/
def assignFrom (unit : UInt8) (space : Space) : ℕ → List UInt16 → List (Cell × UInt16)
  | _, [] => []
  | address, value :: values =>
    (⟨unit, space, address⟩, value) :: assignFrom unit space (address + 1) values

def bitValue (bit : UInt8) : UInt16 := if bit ≠ 0 then 1 else 0

/-- The cells a request writes, with their new values. -/
def WriteRequest.assignments : WriteRequest → List (Cell × UInt16)
  | .writeSingleRegister unit address value => assignFrom unit .holding address.toNat [value]
  | .writeMultipleRegisters unit address values => assignFrom unit .holding address.toNat values
  | .writeSingleCoil unit address value =>
    assignFrom unit .coil address.toNat [if value then 1 else 0]
  | .writeMultipleCoils unit address values =>
    assignFrom unit .coil address.toNat (values.map bitValue)

theorem assignFrom_append (unit : UInt8) (space : Space) (address : ℕ) (xs ys : List UInt16) :
    assignFrom unit space address (xs ++ ys) =
      assignFrom unit space address xs ++ assignFrom unit space (address + xs.length) ys := by
  induction xs generalizing address with
  | nil => rfl
  | cons x xs ih =>
    rw [List.cons_append, assignFrom, ih, assignFrom, List.length_cons, List.cons_append]
    congr 3
    omega

theorem le_of_mem_assignFrom {unit : UInt8} {space : Space} {address : ℕ} {values : List UInt16}
    {cv : Cell × UInt16} (h : cv ∈ assignFrom unit space address values) :
    address ≤ cv.1.address := by
  induction values generalizing address with
  | nil => cases h
  | cons value values ih =>
    rcases List.mem_cons.mp h with rfl | h
    · exact le_rfl
    · exact (Nat.le_succ _).trans (ih h)

theorem assignFrom_length (unit : UInt8) (space : Space) (address : ℕ) (values : List UInt16) :
    (assignFrom unit space address values).length = values.length := by
  induction values generalizing address with
  | nil => rfl
  | cons value values ih => rw [assignFrom, List.length_cons, ih, List.length_cons]

/-- Where every assigned cell is below a bound, the whole range is. -/
theorem assignFrom_below {unit : UInt8} {space : Space} {address bound : ℕ} {values : List UInt16}
    (hne : values ≠ []) (h : ∀ cv ∈ assignFrom unit space address values, cv.1.address < bound) :
    address + values.length ≤ bound := by
  induction values generalizing address with
  | nil => exact absurd rfl hne
  | cons value values ih =>
    cases values with
    | nil => exact h _ List.mem_cons_self
    | cons next rest =>
      have := @ih (address + 1) (by simp) fun cv hcv => h cv (List.mem_cons_of_mem _ hcv)
      rw [List.length_cons]
      omega

theorem lt_of_mem_assignFrom {unit : UInt8} {space : Space} {address : ℕ} {values : List UInt16}
    {cv : Cell × UInt16} (h : cv ∈ assignFrom unit space address values) :
    cv.1.address < address + values.length := by
  induction values generalizing address with
  | nil => cases h
  | cons value values ih =>
    rw [List.length_cons]
    rcases List.mem_cons.mp h with rfl | h
    · change address < _
      omega
    · have := ih h
      omega

theorem assignFrom_nodup (unit : UInt8) (space : Space) (address : ℕ) (values : List UInt16) :
    ((assignFrom unit space address values).map Prod.fst).Nodup := by
  induction values generalizing address with
  | nil => exact List.nodup_nil
  | cons value values ih =>
    refine List.nodup_cons.mpr ⟨fun h => ?_, ih (address + 1)⟩
    obtain ⟨cv, hm, hc⟩ := List.mem_map.mp h
    have hle := le_of_mem_assignFrom hm
    rw [hc] at hle
    exact absurd hle (by simp)

theorem WriteRequest.assignments_nodup (request : WriteRequest) :
    (request.assignments.map Prod.fst).Nodup := by
  cases request <;> exact assignFrom_nodup _ _ _ _

theorem coilRequest_assignments (unit : UInt8) (address : UInt16) (bits : List UInt8) :
    (coilRequest unit address bits).assignments =
      assignFrom unit .coil address.toNat (bits.map bitValue) := by
  unfold coilRequest
  split
  · simp [WriteRequest.assignments, bitValue]
  · rfl

theorem registerRequest_assignments (unit : UInt8) (address : UInt16) (regs : List UInt16) :
    (registerRequest unit address regs).assignments =
      assignFrom unit .holding address.toNat regs := by
  unfold registerRequest
  split <;> rfl

/-! ### Tags -/

variable [Platform]

/-- The cells of a tag with the values that an encoding gives them. -/
def TagBinding.assignments (b : TagBinding) (regs : List UInt16) : List (Cell × UInt16) :=
  if b.tag.area = .coil then
    assignFrom b.unitId .coil b.tag.address.toNat ((coilBits regs).map bitValue)
  else assignFrom b.unitId .holding b.tag.address.toNat regs

/-- What a write is to put into the device. -/
def PendingWrite.assignments (index : RuntimeIndex) (w : PendingWrite) : List (Cell × UInt16) :=
  match index.findById w.tagId with
  | none => []
  | some b =>
    match Translator.encode b.tag w.value with
    | .error _ => []
    | .ok regs => b.assignments regs

theorem PendingWrite.assignments_eq {index : RuntimeIndex} {w : PendingWrite} {b : TagBinding}
    {regs : List UInt16} (hb : index.findById w.tagId = some b)
    (hregs : Translator.encode b.tag w.value = .ok regs) :
    w.assignments index = b.assignments regs := by
  simp only [assignments, hb, hregs]

/-- The bits that joined a run are those of its members, each at the address of its tag. -/
theorem coalesce_assignments {index : RuntimeIndex} {unit : UInt8} {nextAddr : ℤ}
    {bits bits' : List UInt8} {batch taken rest : List PendingWrite} (hpos : 0 ≤ nextAddr)
    (h : coalesce index unit nextAddr bits batch = .run bits' taken rest) :
    ∃ more, bits' = bits ++ more ∧ assignFrom unit .coil nextAddr.toNat (more.map bitValue) =
      taken.flatMap (PendingWrite.assignments index) := by
  induction batch generalizing nextAddr bits taken with
  | nil =>
    cases h
    exact ⟨[], (List.append_nil _).symm, rfl⟩
  | cons write batch ih =>
    simp only [coalesce] at h
    split at h
    · cases h
      exact ⟨[], (List.append_nil _).symm, rfl⟩
    · rename_i next hnext
      obtain ⟨hfind, hcoil, hunit, haddr⟩ := continues_eq_some hnext
      split at h
      · cases h
      · rename_i regs henc
        obtain ⟨t, hc, rfl⟩ := join_eq_run h
        obtain ⟨more, hbits, hmore⟩ := ih (by omega) hc
        refine ⟨coilBits regs ++ more, by rw [hbits, List.append_assoc], ?_⟩
        rw [List.map_append, assignFrom_append, List.length_map, coilBits_length,
          List.flatMap_cons, ← hmore, PendingWrite.assignments_eq hfind henc,
          TagBinding.assignments, if_pos hcoil, hunit, haddr,
          Int.toNat_add hpos (Int.natCast_nonneg _), Int.toNat_natCast]

/-- What a round sends: the registers of its first write alone, or the coils of its
first write followed by those of the writes that joined it. -/
theorem plan_send_cases {index : RuntimeIndex} {write : PendingWrite} {request : WriteRequest}
    {batch tail rest : List PendingWrite} (h : plan index write batch = .send request tail rest) :
    ∃ b regs, index.findById write.tagId = some b ∧ Translator.encode b.tag write.value = .ok regs ∧
      ((b.tag.area ≠ .coil ∧ tail = [] ∧
          request = registerRequest b.unitId (UInt16.ofInt b.tag.address) regs) ∨
        b.tag.area = .coil ∧ ∃ more,
          request = coilRequest b.unitId (UInt16.ofInt b.tag.address) (coilBits regs ++ more) ∧
          assignFrom b.unitId .coil ((UInt16.ofInt b.tag.address).toNat + regs.length)
            (more.map bitValue) = tail.flatMap (PendingWrite.assignments index)) := by
  unfold plan at h
  split at h
  · cases h
  · rename_i b hb
    split at h
    · cases h
    · rename_i regs hregs
      refine ⟨b, regs, hb, hregs, ?_⟩
      dsimp only at h
      split at h
      · rename_i hcoil
        split at h
        · cases h
        · rename_i bits taken left hrun
          cases h
          obtain ⟨more, rfl, hmore⟩ := coalesce_assignments (by omega) hrun
          rw [coilBits_length, Int.toNat_add (Int.natCast_nonneg _) (Int.natCast_nonneg _),
            Int.toNat_natCast, Int.toNat_natCast] at hmore
          exact .inr ⟨hcoil, more, rfl, hmore⟩
      · rename_i hcoil
        cases h
        exact .inl ⟨hcoil, rfl, rfl⟩

/-- A request writes what its first write is to write, at the address as it is cast, and
then what the other writes it carries are to write. -/
theorem plan_assignments {index : RuntimeIndex} {write : PendingWrite} {request : WriteRequest}
    {batch tail rest : List PendingWrite} (h : plan index write batch = .send request tail rest) :
    ∃ first, request.assignments = first ++ tail.flatMap (PendingWrite.assignments index) ∧
      ∀ b, index.findById write.tagId = some b → 0 ≤ b.tag.address → b.tag.address < 65536 →
        first = write.assignments index := by
  obtain ⟨b, regs, hb, hregs, ⟨hcoil, rfl, rfl⟩ | ⟨hcoil, more, rfl, hmore⟩⟩ := plan_send_cases h
  · rw [registerRequest_assignments]
    refine ⟨_, (List.append_nil _).symm, fun b' hb' hlow hhigh => ?_⟩
    rw [hb] at hb'
    cases hb'
    rw [PendingWrite.assignments_eq hb hregs, TagBinding.assignments, if_neg hcoil,
      toNat_ofInt hlow hhigh]
  · rw [coilRequest_assignments, List.map_append, assignFrom_append, List.length_map,
      coilBits_length, hmore]
    refine ⟨_, rfl, fun b' hb' hlow hhigh => ?_⟩
    rw [hb] at hb'
    cases hb'
    rw [PendingWrite.assignments_eq hb hregs, TagBinding.assignments, if_pos hcoil,
      toNat_ofInt hlow hhigh]

/-- Only writes that encode are sent. -/
theorem coalesce_encodes {index : RuntimeIndex} {unit : UInt8} {nextAddr : ℤ}
    {bits bits' : List UInt8} {batch taken rest : List PendingWrite}
    (h : coalesce index unit nextAddr bits batch = .run bits' taken rest) :
    ∀ w ∈ taken, ∃ b regs, index.findById w.tagId = some b ∧
      Translator.encode b.tag w.value = .ok regs := by
  induction batch generalizing nextAddr bits taken with
  | nil =>
    cases h
    simp
  | cons write batch ih =>
    simp only [coalesce] at h
    split at h
    · cases h
      simp
    · rename_i next hnext
      split at h
      · cases h
      · rename_i regs henc
        obtain ⟨t, hc, rfl⟩ := join_eq_run h
        rintro w (_ | ⟨_, hw⟩)
        · exact ⟨next, regs, (continues_eq_some hnext).1, henc⟩
        · exact ih hc w hw

theorem plan_encodes {index : RuntimeIndex} {write : PendingWrite} {request : WriteRequest}
    {batch tail rest : List PendingWrite} (h : plan index write batch = .send request tail rest) :
    ∀ w ∈ write :: tail, ∃ b regs, index.findById w.tagId = some b ∧
      Translator.encode b.tag w.value = .ok regs := by
  obtain ⟨b, regs, hb, hregs, -⟩ := plan_send_cases h
  rintro w (_ | ⟨_, hw⟩)
  · exact ⟨b, regs, hb, hregs⟩
  · simp only [plan, hb, hregs] at h
    split at h
    · split at h
      · cases h
      · cases h
        exact coalesce_encodes ‹_› w hw
    · cases h
      cases hw

end OpcServer.Core
