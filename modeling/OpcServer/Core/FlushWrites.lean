import OpcServer.Core.Dispatcher

/-! The write path of the dispatcher. A flush swaps the queue of its endpoint out and
walks through the batch. Each round looks at the first write left: `plan` says what
the round does with it, without touching any state. A coil write is joined by the
writes right behind it as long as they continue its address range on the same unit.

The loop of the source advances an index by the number of writes consumed; here it
walks down the batch and skips the writes that a round has consumed besides its
first one. -/

namespace OpcServer.Core

open Domain Project

/-! ### Coil runs -/

def coilBits (regs : List UInt16) : List UInt8 := regs.map fun reg => if reg ≠ 0 then 1 else 0

@[simp] theorem coilBits_length (regs : List UInt16) : (coilBits regs).length = regs.length := by
  simp [coilBits]

variable [Platform]

/-- How the coil run started by a write ends: at a write that does not encode, after
some writes joined, or at one that does not continue the run. -/
inductive Coalesced where
  | failed (taken : List PendingWrite) (write : PendingWrite) (e : Error)
      (rest : List PendingWrite)
  | run (bits : List UInt8) (taken rest : List PendingWrite)
  deriving DecidableEq

def Coalesced.join (first : PendingWrite) : Coalesced → Coalesced
  | .failed taken write e rest => .failed (first :: taken) write e rest
  | .run bits taken rest => .run bits (first :: taken) rest

/-- The binding of a write that continues a coil run on a unit at an address. -/
def continues (index : RuntimeIndex) (unit : UInt8) (nextAddr : ℤ) (write : PendingWrite) :
    Option TagBinding :=
  match index.findById write.tagId with
  | none => none
  | some next =>
    if next.tag.area ≠ .coil ∨ next.unitId ≠ unit ∨ next.tag.address ≠ nextAddr then none
    else some next

theorem continues_eq_some {index : RuntimeIndex} {unit : UInt8} {nextAddr : ℤ}
    {write : PendingWrite} {next : TagBinding}
    (h : continues index unit nextAddr write = some next) :
    index.findById write.tagId = some next ∧ next.tag.area = .coil ∧ next.unitId = unit ∧
      next.tag.address = nextAddr := by
  unfold continues at h
  split at h
  · cases h
  · split at h
    · cases h
    · rename_i hfind hjoin
      cases h
      simp only [ne_eq, not_or, not_not] at hjoin
      exact ⟨hfind, hjoin⟩

/-- The inner loop over the writes behind the first one of a run. -/
def coalesce (index : RuntimeIndex) (unit : UInt8) :
    ℤ → List UInt8 → List PendingWrite → Coalesced
  | _, bits, [] => .run bits [] []
  | nextAddr, bits, write :: rest =>
    match continues index unit nextAddr write with
    | none => .run bits [] (write :: rest)
    | some next =>
      match Translator.encode next.tag write.value with
      | .error e => .failed [] write e rest
      | .ok regs =>
        (coalesce index unit (nextAddr + regs.length) (bits ++ coilBits regs) rest).join write

/-! ### One round of the loop -/

/-- What a round does with the first write of the batch: nothing, when its tag is
unknown; report the write that does not encode, dropping the `lost` ones before it;
or send a request that carries the first write and those in `tail`. -/
inductive Plan where
  | skip
  | unencodable (lost : List PendingWrite) (write : PendingWrite) (e : Error)
      (rest : List PendingWrite)
  | send (request : WriteRequest) (tail rest : List PendingWrite)
  deriving DecidableEq

def coilRequest (unit : UInt8) (address : UInt16) : List UInt8 → WriteRequest
  | [bit] => .writeSingleCoil unit address (bit ≠ 0)
  | bits => .writeMultipleCoils unit address bits

def registerRequest (unit : UInt8) (address : UInt16) : List UInt16 → WriteRequest
  | [reg] => .writeSingleRegister unit address reg
  | regs => .writeMultipleRegisters unit address regs

def plan (index : RuntimeIndex) (write : PendingWrite) (rest : List PendingWrite) : Plan :=
  match index.findById write.tagId with
  | none => .skip
  | some binding =>
    match Translator.encode binding.tag write.value with
    | .error e => .unencodable [] write e rest
    | .ok encoded =>
      let addr := UInt16.ofInt binding.tag.address
      if binding.tag.area = .coil then
        let bits := coilBits encoded
        match coalesce index binding.unitId (addr.toNat + bits.length) bits rest with
        | .failed taken bad e left => .unencodable (write :: taken) bad e left
        | .run bits taken left => .send (coilRequest binding.unitId addr bits) taken left
      else .send (registerRequest binding.unitId addr encoded) [] rest

theorem join_eq_run {first : PendingWrite} {c : Coalesced} {bits : List UInt8}
    {taken rest : List PendingWrite} (h : c.join first = .run bits taken rest) :
    ∃ t, c = .run bits t rest ∧ taken = first :: t := by
  cases c with
  | failed => cases h
  | run => cases h; exact ⟨_, rfl, rfl⟩

theorem join_eq_failed {first write : PendingWrite} {c : Coalesced} {e : Error}
    {taken rest : List PendingWrite} (h : c.join first = .failed taken write e rest) :
    ∃ t, c = .failed t write e rest ∧ taken = first :: t := by
  cases c with
  | run => cases h
  | failed => cases h; exact ⟨_, rfl, rfl⟩

theorem coalesce_eq_run {index : RuntimeIndex} {unit : UInt8} {nextAddr : ℤ}
    {bits bits' : List UInt8} {batch taken rest : List PendingWrite}
    (h : coalesce index unit nextAddr bits batch = .run bits' taken rest) :
    batch = taken ++ rest := by
  induction batch generalizing nextAddr bits taken with
  | nil => simp_all [coalesce]
  | cons write batch ih =>
    simp only [coalesce] at h
    split at h
    · simp_all
    · split at h
      · cases h
      · obtain ⟨t, hc, rfl⟩ := join_eq_run h
        rw [ih hc, List.cons_append]

theorem coalesce_eq_failed {index : RuntimeIndex} {unit : UInt8} {nextAddr : ℤ}
    {bits : List UInt8} {batch taken rest : List PendingWrite} {write : PendingWrite} {e : Error}
    (h : coalesce index unit nextAddr bits batch = .failed taken write e rest) :
    batch = taken ++ write :: rest := by
  induction batch generalizing nextAddr bits taken with
  | nil => simp [coalesce] at h
  | cons first batch ih =>
    simp only [coalesce] at h
    split at h
    · cases h
    · split at h
      · simp only [Coalesced.failed.injEq] at h
        obtain ⟨rfl, rfl, rfl, rfl⟩ := h
        rfl
      · obtain ⟨t, hc, rfl⟩ := join_eq_failed h
        rw [ih hc, List.cons_append]

/-- A round that sends leaves the rest of the batch in order. -/
theorem plan_eq_send {index : RuntimeIndex} {write : PendingWrite} {request : WriteRequest}
    {batch tail rest : List PendingWrite} (h : plan index write batch = .send request tail rest) :
    batch = tail ++ rest := by
  unfold plan at h
  split at h
  · cases h
  · split at h
    · cases h
    · dsimp only at h
      split at h
      · split at h
        · cases h
        · cases h
          exact coalesce_eq_run ‹_›
      · cases h
        rfl

/-- A round that reports a write accounts for the writes before it as lost. -/
theorem plan_eq_unencodable {index : RuntimeIndex} {write bad : PendingWrite} {e : Error}
    {batch lost rest : List PendingWrite}
    (h : plan index write batch = .unencodable lost bad e rest) :
    write :: batch = lost ++ bad :: rest := by
  unfold plan at h
  split at h
  · cases h
  · split at h
    · cases h
      rfl
    · dsimp only at h
      split at h
      · split at h
        · rename_i hc
          cases h
          rw [coalesce_eq_failed hc, List.cons_append]
        · cases h
      · cases h

theorem plan_eq_skip {index : RuntimeIndex} {write : PendingWrite} {batch : List PendingWrite}
    (h : plan index write batch = .skip) : index.findById write.tagId = none := by
  unfold plan at h
  split at h
  · assumption
  · split at h
    · cases h
    · dsimp only at h
      split at h
      · split at h <;> cases h
      · cases h

/-- Induction over a batch along the rounds of the loop. -/
theorem batch_induction (index : RuntimeIndex) {motive : List PendingWrite → Prop}
    (nil : motive [])
    (skip : ∀ write batch, plan index write batch = .skip → motive batch →
      motive (write :: batch))
    (unencodable : ∀ write batch lost bad e rest,
      plan index write batch = .unencodable lost bad e rest → motive (write :: batch))
    (send : ∀ write tail rest request, plan index write (tail ++ rest) = .send request tail rest →
      motive rest → motive (write :: (tail ++ rest)))
    (batch : List PendingWrite) : motive batch := by
  induction h : batch.length using Nat.strong_induction_on generalizing batch with
  | h n ih =>
    subst h
    cases batch with
    | nil => exact nil
    | cons write batch =>
      cases hp : plan index write batch with
      | skip => exact skip write batch hp (ih _ (by simp) batch rfl)
      | unencodable lost bad e rest => exact unencodable write batch lost bad e rest hp
      | send request tail rest =>
        obtain rfl := plan_eq_send hp
        have hlt : rest.length < (write :: (tail ++ rest)).length := by
          rw [List.length_cons, List.length_append]
          omega
        exact send write tail rest request hp (ih _ hlt rest rfl)

/-! ### The flush -/

/-- Publish the outcome of a write: Good with its value, or Bad with a reason. -/
def Dispatcher.confirm (now : TimestampMs) (d : Dispatcher) (write : PendingWrite) : Dispatcher :=
  d.publishQuality write.tagId .good .none now (some write.value) (some write)

def Dispatcher.reject (now : TimestampMs) (reason : QualityReason) (d : Dispatcher)
    (write : PendingWrite) : Dispatcher :=
  d.publishQuality write.tagId .bad reason now none (some write)

section Flush
variable {σ : Type} (index : RuntimeIndex) (transport : IModbusTransport σ) (endpointId : String)
  (now : TimestampMs)

/-- The transport call of a round, as the trace shows it. -/
def callWrite (request : WriteRequest) (carried : List PendingWrite) (s : Session σ) :
    Result Unit × Session σ :=
  let (result, next) := transport.write request s.transport
  (result, ⟨next, s.dispatcher.record
    (.call endpointId (.write request) result.isOk carried)⟩)

theorem callWrite_eq {request : WriteRequest} {carried : List PendingWrite} {s s' : Session σ}
    {r : Result Unit} (h : callWrite transport endpointId request carried s = (r, s')) :
    transport.write request s.transport = (r, s'.transport) ∧
      s'.dispatcher = s.dispatcher.record (.call endpointId (.write request) r.isOk carried) := by
  unfold callWrite at h
  cases hw : transport.write request s.transport with
  | mk result next =>
    rw [hw] at h
    cases h
    exact ⟨rfl, rfl⟩

/-- The loop of `flush_writes`. -/
def flushLoop : ℕ → List PendingWrite → Session σ → Result Unit × Session σ
  | _, [], s => (.ok (), s)
  | skip + 1, _ :: rest, s => flushLoop skip rest s
  | 0, write :: rest, s =>
    match plan index write rest with
    | .skip => flushLoop 0 rest s
    | .unencodable _ bad e left =>
      (.error e, ⟨s.transport,
        (s.dispatcher.reject now .decodingError bad).requeue endpointId left⟩)
    | .send request tail _ =>
      match callWrite transport endpointId request (write :: tail) s with
      | (.error e, s) => (.error e, ⟨s.transport,
          (s.dispatcher.reject now .writeRejected write).requeue endpointId rest⟩)
      | (.ok (), s) => flushLoop tail.length rest ⟨s.transport,
          (write :: tail).foldl (Dispatcher.confirm now) s.dispatcher⟩

/-- `flush_writes`, with the clock showing `now`. -/
def flushWrites (w : World σ) : Result Unit × World σ :=
  match w.dispatcher.writeQueues endpointId with
  | [] => (.ok (), { w with dispatcher := w.dispatcher.record (.flushed endpointId (.ok ())) })
  | batch =>
    let d := w.dispatcher.setQueue endpointId []
    match w.transports endpointId with
    | none =>
      let e := coreErr .notFound "transport not bound"
      let d := (d.requeue endpointId batch).record (.flushed endpointId (.error e))
      (.error e, { w with dispatcher := d })
    | some t =>
      let (result, s) := flushLoop index transport endpointId now 0 batch ⟨t, d⟩
      (result, w.update endpointId
        ⟨s.transport, s.dispatcher.record (.flushed endpointId result)⟩)

theorem flushLoop_skip (skip : ℕ) (batch : List PendingWrite) (s : Session σ) :
    flushLoop index transport endpointId now skip batch s =
      flushLoop index transport endpointId now 0 (batch.drop skip) s := by
  induction skip generalizing batch with
  | zero => rw [List.drop_zero]
  | succ skip ih =>
    cases batch with
    | nil => simp [flushLoop]
    | cons _ rest => rw [flushLoop, List.drop_succ_cons, ih]

theorem flushLoop_nil (s : Session σ) :
    flushLoop index transport endpointId now 0 [] s = (.ok (), s) := by rw [flushLoop]

/-- The loop with the batch split as `plan` splits it. -/
theorem flushLoop_cons (write : PendingWrite) (batch : List PendingWrite) (s : Session σ) :
    flushLoop index transport endpointId now 0 (write :: batch) s =
      match plan index write batch with
      | .skip => flushLoop index transport endpointId now 0 batch s
      | .unencodable _ bad e left =>
        (.error e, ⟨s.transport,
          (s.dispatcher.reject now .decodingError bad).requeue endpointId left⟩)
      | .send request tail rest =>
        match callWrite transport endpointId request (write :: tail) s with
        | (.error e, s) => (.error e, ⟨s.transport,
            (s.dispatcher.reject now .writeRejected write).requeue endpointId (tail ++ rest)⟩)
        | (.ok (), s) => flushLoop index transport endpointId now 0 rest ⟨s.transport,
            (write :: tail).foldl (Dispatcher.confirm now) s.dispatcher⟩ := by
  rw [flushLoop]
  cases hp : plan index write batch with
  | skip => rfl
  | unencodable => rfl
  | send request tail rest =>
    obtain rfl := plan_eq_send hp
    simp only [flushLoop_skip index transport endpointId now tail.length, List.drop_left]

/-- A flush finds nothing to do, finds no transport and puts the batch back, or runs the
loop on the batch it swapped out. -/
theorem flushWrites_cases (w : World σ) :
    (w.dispatcher.writeQueues endpointId = [] ∧ flushWrites index transport endpointId now w =
      (.ok (), { w with dispatcher := w.dispatcher.record (.flushed endpointId (.ok ())) })) ∨
    (w.transports endpointId = none ∧ ∃ e, flushWrites index transport endpointId now w =
      (.error e, { w with dispatcher := w.dispatcher.record (.flushed endpointId (.error e)) })) ∨
    ∃ t r s, w.transports endpointId = some t ∧
      flushLoop index transport endpointId now 0 (w.dispatcher.writeQueues endpointId)
        ⟨t, w.dispatcher.setQueue endpointId []⟩ = (r, s) ∧
      flushWrites index transport endpointId now w = (r, w.update endpointId
        ⟨s.transport, s.dispatcher.record (.flushed endpointId r)⟩) := by
  unfold flushWrites
  split
  · rename_i hq
    exact .inl ⟨hq, rfl⟩
  · right
    dsimp only
    split
    · rename_i ht
      refine .inl ⟨ht, coreErr .notFound "transport not bound", ?_⟩
      simp [Dispatcher.requeue, Dispatcher.setQueue]
    · rename_i t ht
      exact .inr ⟨t, _, _, ht, rfl, rfl⟩

end Flush

end OpcServer.Core
