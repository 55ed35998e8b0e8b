import OpcServer.Adapters.FakeModbus
import OpcServer.Core.Ledger
import OpcServer.Project.LoadText

/-! Coalescing coil writes changes the number of requests and nothing else. Over a
device that takes every legal request, a flush of a whole queue delivers its writes in
order: the device gets the assignments of all of them one after the other, and each is
confirmed in the store. The same is true of a queue of one write, so that flushing the
writes one at a time leads to the same device memory and, but for the timestamps, the
same store. -/

namespace OpcServer.Core

open Domain Project

section Coalescing

variable [Platform]

/-! ### Writes that a device takes -/

/-- A write that was accepted for an endpoint, that encodes, and whose range the device
has; a coil is written with one bit. -/
structure Deliverable (index : RuntimeIndex) (endpointId : String) (write : PendingWrite)
    (b : TagBinding) (regs : List UInt16) : Prop where
  found : index.findById write.tagId = some b
  onEndpoint : b.endpointId = endpointId
  writable : b.tag.writable = true
  encodes : Translator.encode b.tag write.value = .ok regs
  low : 0 ≤ b.tag.address
  high : b.tag.address + regs.length ≤ 65536
  coilBool : b.tag.area = .coil → b.tag.type = .bool

/-- Every write of a batch is deliverable. -/
def DeliverableBatch (index : RuntimeIndex) (endpointId : String) (batch : List PendingWrite) :
    Prop :=
  ∀ write ∈ batch, ∃ b regs, Deliverable index endpointId write b regs

/-- The memory after the assignments of some writes, in order. -/
def Memory.assign (index : RuntimeIndex) (memory : Memory) (writes : List PendingWrite) : Memory :=
  (writes.flatMap (PendingWrite.assignments index)).foldl
    (fun m cv => Function.update m cv.1 cv.2) memory

theorem Memory.assign_append (index : RuntimeIndex) (memory : Memory)
    (first second : List PendingWrite) :
    memory.assign index (first ++ second) = (memory.assign index first).assign index second := by
  rw [Memory.assign, List.flatMap_append, List.foldl_append]
  rfl

/-- The store after a write has been confirmed. -/
def TagStore.confirm (now : TimestampMs) (store : TagStore) (write : PendingWrite) : TagStore :=
  store.publish write.tagId
    (Dispatcher.qualityUpdate (store.get write.tagId) .good .none now (some write.value))

theorem foldl_confirm_tagStore (now : TimestampMs) (writes : List PendingWrite) (d : Dispatcher) :
    (writes.foldl (Dispatcher.confirm now) d).tagStore =
      writes.foldl (TagStore.confirm now) d.tagStore := by
  induction writes generalizing d with
  | nil => rfl
  | cons write rest ih => exact ih (d.confirm now write)

/-! ### Requests are legal -/

theorem TagBinding.assignments_length (b : TagBinding) (regs : List UInt16) :
    (b.assignments regs).length = regs.length := by
  unfold TagBinding.assignments
  split
  · rw [assignFrom_length, List.length_map, coilBits_length]
  · rw [assignFrom_length]

omit [Platform] in
theorem coilRequest_maxCount {unit : UInt8} {address : UInt16} {bits : List UInt8}
    (h : bits.length ≤ 1968) :
    bits.length ≤ (Request.write (coilRequest unit address bits)).maxCount := by
  unfold coilRequest
  split
  · exact le_rfl
  · exact h

section Legal
variable {index : RuntimeIndex} {endpointId : String}

theorem Deliverable.assignments {write : PendingWrite} {b : TagBinding} {regs : List UInt16}
    (h : Deliverable index endpointId write b regs) :
    write.assignments index = b.assignments regs :=
  PendingWrite.assignments_eq h.found h.encodes

theorem Deliverable.below {write : PendingWrite} {b : TagBinding} {regs : List UInt16}
    (h : Deliverable index endpointId write b regs) :
    ∀ cv ∈ write.assignments index, cv.1.address < 65536 := by
  intro cv hcv
  have hlow := h.low
  have hhigh := h.high
  rw [h.assignments, TagBinding.assignments] at hcv
  split at hcv
  · have := lt_of_mem_assignFrom hcv
    rw [List.length_map, coilBits_length] at this
    omega
  · have := lt_of_mem_assignFrom hcv
    omega

/-- Every value takes one to four registers. -/
theorem Deliverable.length_bounds {write : PendingWrite} {b : TagBinding} {regs : List UInt16}
    (h : Deliverable index endpointId write b regs) : 1 ≤ regs.length ∧ regs.length ≤ 4 := by
  have hlen := Translator.encode_length h.encodes
  have hpos := registerCountFor_pos b.tag.type
  have hle := registerCountFor_le b.tag.type
  omega

/-- A coil is one bit. -/
theorem Deliverable.coil_length {write : PendingWrite} {b : TagBinding} {regs : List UInt16}
    (h : Deliverable index endpointId write b regs) (hcoil : b.tag.area = .coil) :
    regs.length = 1 := by
  have hlen := Translator.encode_length h.encodes
  rw [h.coilBool hcoil] at hlen
  simpa [registerCountFor] using hlen

/-- The writes that join a run are of coils. -/
theorem coalesce_coils {unit : UInt8} {nextAddr : ℤ} {bits bits' : List UInt8}
    {batch taken rest : List PendingWrite}
    (h : coalesce index unit nextAddr bits batch = .run bits' taken rest) :
    ∀ w ∈ taken, ∃ b, index.findById w.tagId = some b ∧ b.tag.area = .coil := by
  induction batch generalizing nextAddr bits taken with
  | nil =>
    cases h
    simp
  | cons write batch ih =>
    simp only [coalesce] at h
    split at h
    · cases h
      simp
    · rename_i next hnext
      obtain ⟨hfind, hcoil, -⟩ := continues_eq_some hnext
      split at h
      · cases h
      · obtain ⟨t, hc, rfl⟩ := join_eq_run h
        rintro w (_ | ⟨_, hw⟩)
        · exact ⟨next, hfind, hcoil⟩
        · exact ih hc w hw

/-- The write that ends a run with an error does not encode. -/
theorem coalesce_unencodable {unit : UInt8} {nextAddr : ℤ} {bits : List UInt8}
    {batch taken rest : List PendingWrite} {bad : PendingWrite} {e : Error}
    (h : coalesce index unit nextAddr bits batch = .failed taken bad e rest) :
    ∃ b, index.findById bad.tagId = some b ∧ Translator.encode b.tag bad.value = .error e := by
  induction batch generalizing nextAddr bits taken with
  | nil => cases h
  | cons write batch ih =>
    simp only [coalesce] at h
    split at h
    · cases h
    · rename_i next hnext
      split at h
      · rename_i henc
        cases h
        exact ⟨next, (continues_eq_some hnext).1, henc⟩
      · obtain ⟨t, hc, rfl⟩ := join_eq_failed h
        exact ih hc

theorem plan_unencodable {write bad : PendingWrite} {e : Error}
    {batch lost rest : List PendingWrite}
    (h : plan index write batch = .unencodable lost bad e rest) :
    ∃ b, index.findById bad.tagId = some b ∧ Translator.encode b.tag bad.value = .error e := by
  unfold plan at h
  split at h
  · cases h
  · rename_i b hb
    split at h
    · rename_i henc
      cases h
      exact ⟨b, hb, henc⟩
    · dsimp only at h
      split at h
      · split at h
        · rename_i hc
          cases h
          exact coalesce_unencodable hc
        · cases h
      · cases h

theorem plan_tail_coils {write : PendingWrite} {request : WriteRequest}
    {batch tail rest : List PendingWrite} (h : plan index write batch = .send request tail rest) :
    ∀ w ∈ tail, ∃ b, index.findById w.tagId = some b ∧ b.tag.area = .coil := by
  unfold plan at h
  split at h
  · cases h
  · split at h
    · cases h
    · dsimp only at h
      split at h
      · split at h
        · cases h
        · rename_i hrun
          cases h
          exact coalesce_coils hrun
      · cases h
        simp

/-- The request of a round assigns what its writes are to assign. -/
theorem plan_request_assignments {write : PendingWrite} {request : WriteRequest}
    {batch tail rest : List PendingWrite} (h : plan index write batch = .send request tail rest)
    {b : TagBinding} {regs : List UInt16} (hw : Deliverable index endpointId write b regs) :
    request.assignments = (write :: tail).flatMap (PendingWrite.assignments index) := by
  obtain ⟨first, hassign, hfirst⟩ := plan_assignments h
  have hpos := hw.length_bounds.1
  have hlow := hw.low
  have hhigh := hw.high
  rw [hassign, hfirst b hw.found hlow (by omega), List.flatMap_cons]

/-- The request of a round over deliverable writes is legal: a run of coils has a bit for
each of its writes, and every cell is one of a tag. -/
theorem plan_legal {write : PendingWrite} {request : WriteRequest}
    {tail rest : List PendingWrite}
    (h : plan index write (tail ++ rest) = .send request tail rest)
    (hbatch : DeliverableBatch index endpointId (write :: (tail ++ rest)))
    (hlen : (write :: tail).length ≤ 1024) : (Request.write request).Legal := by
  obtain ⟨b, regs, hw⟩ := hbatch write List.mem_cons_self
  have hassign := plan_request_assignments h hw
  have hcarried : ∀ w ∈ write :: tail, ∃ b regs, Deliverable index endpointId w b regs := by
    intro w hm
    apply hbatch
    rw [← List.cons_append]
    exact List.mem_append_left _ hm
  have htail := plan_tail_coils h
  obtain ⟨b', regs', hb', hregs', hcase⟩ := plan_send_cases h
  obtain rfl : b = b' := Option.some.inj (hw.found.symm.trans hb')
  obtain rfl : regs = regs' := Except.ok.inj (hw.encodes.symm.trans hregs')
  obtain ⟨hpos, hfour⟩ := hw.length_bounds
  refine ⟨?_, ?_, ?_⟩
  · intro hnone
    have hlength := congrArg List.length hnone
    rw [writeRequest_covers_length, hassign, List.flatMap_cons, List.length_append, hw.assignments,
      TagBinding.assignments_length, List.length_nil] at hlength
    omega
  · rw [writeRequest_covers_length]
    rcases hcase with ⟨-, rfl, rfl⟩ | ⟨hcoil, more, rfl, -⟩
    · rw [registerRequest_assignments, assignFrom_length]
      exact registerRequest_count (by omega)
    · -- one bit for each write of the run
      have hone : ∀ w ∈ write :: tail, (w.assignments index).length = 1 := by
        intro w hm
        obtain ⟨b', regs', hw'⟩ := hcarried w hm
        have hcoil' : b'.tag.area = .coil := by
          rcases List.mem_cons.mp hm with rfl | hm
          · rw [← Option.some.inj (hw.found.symm.trans hw'.found)]
            exact hcoil
          · obtain ⟨b₂, hfound, hb₂⟩ := htail w hm
            rw [← Option.some.inj (hfound.symm.trans hw'.found)]
            exact hb₂
        rw [hw'.assignments, TagBinding.assignments_length, hw'.coil_length hcoil']
      have hbits : (coilBits regs ++ more).length = (write :: tail).length := by
        have hlength := congrArg List.length hassign
        rw [coilRequest_assignments, assignFrom_length, List.length_map, List.length_flatMap,
          List.map_congr_left hone, List.map_const', List.sum_replicate_nat, Nat.mul_one] at hlength
        exact hlength
      rw [coilRequest_assignments, assignFrom_length, List.length_map]
      apply coilRequest_maxCount
      omega
  · intro r hr
    rw [Request.covers, hassign] at hr
    obtain ⟨cv, hcv, rfl⟩ := List.mem_map.mp hr
    obtain ⟨w, hm, hcv⟩ := List.mem_flatMap.mp hcv
    obtain ⟨b', regs', hw'⟩ := hcarried w hm
    exact Int.ofNat_lt.mpr (hw'.below cv hcv)

end Legal

/-! ### A whole queue -/

section Whole
variable {σ : Type} {index : RuntimeIndex} {transport : IModbusTransport σ} {memory : σ → Memory}
  {endpointId : String}

/-- The loop delivers and confirms every write, in order. -/
theorem flushLoop_delivers (hdev : Obeys transport memory) (now : TimestampMs)
    (batch : List PendingWrite) (hlen : batch.length ≤ 1024)
    (hbatch : DeliverableBatch index endpointId batch) (s : Session σ)
    (hconn : transport.isConnected s.transport = true) :
    ∃ s', flushLoop index transport endpointId now 0 batch s = (.ok (), s') ∧
      transport.isConnected s'.transport = true ∧
      memory s'.transport = (memory s.transport).assign index batch ∧
      s'.dispatcher.writeQueues = s.dispatcher.writeQueues ∧
      s'.dispatcher.tagStore = batch.foldl (TagStore.confirm now) s.dispatcher.tagStore := by
  induction batch using batch_induction index generalizing s with
  | nil => exact ⟨s, flushLoop_nil .., hconn, rfl, rfl, rfl⟩
  | skip write batch hp _ =>
    obtain ⟨b, regs, hw⟩ := hbatch write List.mem_cons_self
    have hnone := plan_eq_skip hp
    rw [hw.found] at hnone
    cases hnone
  | unencodable write batch lost bad e rest hp =>
    obtain ⟨b, regs, hw⟩ := hbatch bad (by rw [plan_eq_unencodable hp]; simp)
    obtain ⟨b', hb', henc⟩ := plan_unencodable hp
    obtain rfl : b = b' := Option.some.inj (hw.found.symm.trans hb')
    rw [hw.encodes] at henc
    cases henc
  | send write tail rest request hp ih =>
    obtain ⟨b, regs, hw⟩ := hbatch write List.mem_cons_self
    have hcount : (write :: tail).length + rest.length ≤ 1024 := by
      rw [← List.length_append]
      exact hlen
    obtain ⟨t', hwrite, hconn', hmem⟩ := hdev request s.transport hconn
      (plan_legal hp hbatch (by omega))
    have hrest : DeliverableBatch index endpointId rest := fun w hm =>
      hbatch w (List.mem_cons_of_mem _ (List.mem_append_right _ hm))
    let s₁ : Session σ := ⟨t', (write :: tail).foldl (Dispatcher.confirm now)
      (s.dispatcher.record (.call endpointId (.write request) true (write :: tail)))⟩
    obtain ⟨s', hloop, hend, hmemory, hqueues, hstore⟩ := ih (by omega) hrest s₁ hconn'
    refine ⟨s', ?_, hend, ?_, ?_, ?_⟩
    · rw [flushLoop_cons, hp]
      simp only [callWrite, hwrite]
      exact hloop
    · rw [hmemory, hmem, Memory.apply, plan_request_assignments hp hw, ← List.cons_append,
        Memory.assign_append]
      rfl
    · rw [hqueues]
      exact (foldl_confirm_frame now (write :: tail) _).1
    · rw [hstore, foldl_confirm_tagStore, ← List.cons_append, List.foldl_append]
      rfl

/-- A flush delivers and confirms the whole queue, and leaves it empty. -/
theorem flushWrites_delivers (hdev : Obeys transport memory) (now : TimestampMs) {w : World σ}
    {t : σ} (ht : w.transports endpointId = some t) (hconn : transport.isConnected t = true)
    (hlen : (w.dispatcher.writeQueues endpointId).length ≤ 1024)
    (hbatch : DeliverableBatch index endpointId (w.dispatcher.writeQueues endpointId)) :
    ∃ w' t', flushWrites index transport endpointId now w = (.ok (), w') ∧
      w'.transports endpointId = some t' ∧ transport.isConnected t' = true ∧
      memory t' = (memory t).assign index (w.dispatcher.writeQueues endpointId) ∧
      w'.dispatcher.writeQueues endpointId = [] ∧
      w'.dispatcher.tagStore =
        (w.dispatcher.writeQueues endpointId).foldl (TagStore.confirm now) w.dispatcher.tagStore := by
  obtain ⟨hempty, heq⟩ | ⟨hnone, -⟩ | ⟨t₀, r, s, ht₀, hloop, heq⟩ :=
    flushWrites_cases index transport endpointId now w
  · exact ⟨_, t, heq, ht, hconn, by rw [hempty]; rfl, hempty, by rw [hempty]; rfl⟩
  · rw [ht] at hnone
    cases hnone
  · obtain rfl : t = t₀ := Option.some.inj (ht.symm.trans ht₀)
    obtain ⟨s', hs', hend, hmemory, hqueues, hstore⟩ := flushLoop_delivers hdev now
      (w.dispatcher.writeQueues endpointId) hlen hbatch
      ⟨t, w.dispatcher.setQueue endpointId []⟩ hconn
    obtain ⟨rfl, rfl⟩ := Prod.mk.inj (hloop.symm.trans hs')
    refine ⟨_, s.transport, heq, Function.update_self .., hend, hmemory, ?_, hstore⟩
    change s.dispatcher.writeQueues endpointId = []
    rw [hqueues]
    simp [Dispatcher.setQueue]

end Whole

/-! ### One write at a time -/

section Each
variable {σ : Type} (index : RuntimeIndex) (transport : IModbusTransport σ) (endpointId : String)

/-- Enqueue and flush the writes one at a time, each flush at a time of its own. -/
def flushEach : List (PendingWrite × TimestampMs) → World σ → World σ
  | [], w => w
  | (write, now) :: rest, w =>
    let w := { w with dispatcher := (w.dispatcher.enqueueWrite index write.tagId write.value).2 }
    flushEach rest (flushWrites index transport endpointId now w).2

/-- The store after some writes, each confirmed at a time of its own. -/
def TagStore.confirmEach (store : TagStore) (rounds : List (PendingWrite × TimestampMs)) : TagStore :=
  rounds.foldl (fun store round => store.confirm round.2 round.1) store

variable {index transport endpointId} {memory : σ → Memory}

theorem flushEach_delivers (hdev : Obeys transport memory)
    (rounds : List (PendingWrite × TimestampMs))
    (hbatch : DeliverableBatch index endpointId (rounds.map Prod.fst)) {w : World σ} {t : σ}
    (ht : w.transports endpointId = some t) (hconn : transport.isConnected t = true)
    (hempty : w.dispatcher.writeQueues endpointId = []) :
    ∃ t', (flushEach index transport endpointId rounds w).transports endpointId = some t' ∧
      memory t' = (memory t).assign index (rounds.map Prod.fst) ∧
      (flushEach index transport endpointId rounds w).dispatcher.tagStore =
        w.dispatcher.tagStore.confirmEach rounds := by
  induction rounds generalizing w t with
  | nil => exact ⟨t, ht, rfl, rfl⟩
  | cons round rest ih =>
    obtain ⟨write, now⟩ := round
    obtain ⟨b, regs, hw⟩ := hbatch write (by simp)
    have hroom : ¬ (w.dispatcher.writeQueues endpointId).length ≥ kMaxWriteQueueDepth := by
      rw [hempty]
      exact not_le.mpr (Nat.zero_lt_succ 1023)
    have haccept : (w.dispatcher.enqueueWrite index write.tagId write.value).2 =
        w.dispatcher.accept endpointId write.tagId write.value := by
      simp only [Dispatcher.enqueueWrite, hw.found, hw.writable, hw.onEndpoint, hroom]
      rfl
    let own : PendingWrite := { write with seq := w.dispatcher.nextSeq }
    let w₁ : World σ :=
      { w with dispatcher := w.dispatcher.accept endpointId write.tagId write.value }
    have hqueue : w₁.dispatcher.writeQueues endpointId = [own] := by
      rw [Dispatcher.accept_writeQueues, hempty]
      rfl
    have hown : DeliverableBatch index endpointId [own] := by
      intro w hm
      obtain rfl := List.mem_singleton.mp hm
      exact ⟨b, regs, ⟨hw.found, hw.onEndpoint, hw.writable, hw.encodes, hw.low, hw.high,
        hw.coilBool⟩⟩
    obtain ⟨w₂, t₂, hflush, ht₂, hconn₂, hmemory, hleft, hstore⟩ :=
      flushWrites_delivers (w := w₁) hdev now ht hconn (by simp [hqueue])
        (by rw [hqueue]; exact hown)
    obtain ⟨t', ht', hmem, hstores⟩ := ih (fun write' hm => hbatch write' (List.mem_cons_of_mem _ hm))
      ht₂ hconn₂ hleft
    have hround : flushEach index transport endpointId ((write, now) :: rest) w =
        flushEach index transport endpointId rest w₂ := by
      rw [flushEach, haccept]
      simp only [hflush, w₁]
    rw [hround]
    refine ⟨t', ht', ?_, ?_⟩
    · rw [hmem, hmemory, hqueue, ← Memory.assign_append]
      rfl
    · rw [hstores, hstore, hqueue]
      rfl

end Each

/-! ### The comparison -/

/-- An entry without its timestamps. -/
def contents (entry : Option TagValue) : Option (ScalarValue × Quality × QualityReason × ℕ) :=
  entry.map fun v => (v.value, v.quality, v.reason, v.epoch)

/-- The stores hold the same but for timestamps. -/
def SameContents (store store' : TagStore) : Prop :=
  ∀ id, contents (store.get id) = contents (store'.get id)

theorem SameContents.confirm {store store' : TagStore} (h : SameContents store store')
    (write : PendingWrite) (now now' : TimestampMs) :
    SameContents (store.confirm now write) (store'.confirm now' write) := by
  intro id
  by_cases hid : id = write.tagId
  · subst hid
    have hepoch : ((store.get write.tagId).getD {}).epoch =
        ((store'.get write.tagId).getD {}).epoch := by
      have hsame := h write.tagId
      cases hs : store.get write.tagId with
      | none =>
        rw [hs] at hsame
        rw [Option.map_eq_none_iff.mp hsame.symm]
      | some v =>
        rw [hs] at hsame
        obtain ⟨v', hv', heq⟩ := Option.map_eq_some_iff.mp hsame.symm
        rw [hv']
        exact (congrArg (fun c => c.2.2.2) heq).symm
    simp only [TagStore.confirm, TagStore.get_publish_self, contents, Option.map_some,
      Dispatcher.qualityUpdate, withQuality_eq, hepoch]
  · simp only [TagStore.confirm, TagStore.get_publish_of_ne _ _ hid]
    exact h id

/-- The times at which writes are confirmed leave no other mark. -/
theorem sameContents_confirmEach (now : TimestampMs) (rounds : List (PendingWrite × TimestampMs))
    {store store' : TagStore} (h : SameContents store store') :
    SameContents ((rounds.map Prod.fst).foldl (TagStore.confirm now) store)
      (store'.confirmEach rounds) := by
  induction rounds generalizing store store' with
  | nil => exact h
  | cons round rest ih => exact ih (h.confirm round.1 now round.2)

section Comparison
variable {σ : Type} {index : RuntimeIndex} {transport : IModbusTransport σ} {memory : σ → Memory}
  {endpointId : String}

/-- A flush of a whole queue succeeds and leaves the device memory and, but for the
timestamps, the store that flushing its writes one at a time leaves. -/
theorem coalescing_equivalent (hdev : Obeys transport memory) {w : World σ} {t : σ}
    (ht : w.transports endpointId = some t) (hconn : transport.isConnected t = true)
    (rounds : List (PendingWrite × TimestampMs))
    (hqueue : w.dispatcher.writeQueues endpointId = rounds.map Prod.fst)
    (hlen : rounds.length ≤ 1024)
    (hbatch : DeliverableBatch index endpointId (rounds.map Prod.fst)) (now : TimestampMs) :
    let whole := flushWrites index transport endpointId now w
    let each := flushEach index transport endpointId rounds
      { w with dispatcher := w.dispatcher.setQueue endpointId [] }
    whole.1 = .ok () ∧
      (∃ t₁ t₂, whole.2.transports endpointId = some t₁ ∧ each.transports endpointId = some t₂ ∧
        memory t₁ = memory t₂) ∧
      SameContents whole.2.dispatcher.tagStore each.dispatcher.tagStore := by
  intro whole each
  obtain ⟨w₁, t₁, hflush, ht₁, -, hmem₁, -, hstore₁⟩ := flushWrites_delivers hdev now ht hconn
    (by rw [hqueue, List.length_map]; exact hlen) (by rw [hqueue]; exact hbatch)
  have hcleared : (w.dispatcher.setQueue endpointId []).writeQueues endpointId = [] := by
    simp [Dispatcher.setQueue]
  obtain ⟨t₂, ht₂, hmem₂, hstore₂⟩ := flushEach_delivers hdev rounds hbatch
    (w := { w with dispatcher := w.dispatcher.setQueue endpointId [] }) ht hconn hcleared
  have hwhole : whole = (.ok (), w₁) := hflush
  rw [hwhole]
  refine ⟨rfl, ⟨t₁, t₂, ht₁, ht₂, ?_⟩, ?_⟩
  · rw [hmem₁, hqueue, hmem₂]
  · rw [hstore₁, hqueue, hstore₂]
    exact sameContents_confirmEach now rounds fun _ => rfl

end Comparison

end Coalescing

/-! ### Two coils and a register -/

attribute [local instance] exactPlatform

def valvesSite : LoadResult := loadDocument (siteDocument 0
  [tagDocument "inlet" "coil" "bool" 0 true, tagDocument "outlet" "coil" "bool" 1 true,
    tagDocument "speed" "holding" "uint16" 0 true])

def valvesIndex : RuntimeIndex := .build valvesSite.project

/-- Two writes that make one request, and a third one, each with a time to go alone. -/
def valvesRounds : List (PendingWrite × TimestampMs) :=
  [(⟨1, .bool true, 0⟩, 10), (⟨2, .bool true, 1⟩, 20), (⟨3, .uint16 7, 2⟩, 30)]

def valvesWorld : World Adapters.FakeModbusTransport where
  dispatcher := { writeQueues := fun _ => valvesRounds.map Prod.fst, nextSeq := 3 }
  transports := fun _ => some { connected := true }

theorem valves_deliverable :
    DeliverableBatch valvesIndex "plc" (valvesRounds.map Prod.fst) := by
  have hcheck : ∀ write ∈ valvesRounds.map Prod.fst, (valvesIndex.findById write.tagId).any
      (fun b => b.endpointId = "plc" ∧ b.tag.writable = true ∧ 0 ≤ b.tag.address ∧
        (b.tag.area = .coil → b.tag.type = .bool) ∧
        ((Translator.encode b.tag write.value).toOption.any fun regs =>
          (b.tag.address + regs.length : ℤ) ≤ 65536)) = true := by decide +kernel
  intro write hm
  obtain ⟨b, hb, hprops⟩ := (Option.any_eq_true _ _).mp (hcheck write hm)
  obtain ⟨hep, hwritable, hlow, hcoil, hregs⟩ := of_decide_eq_true hprops
  obtain ⟨regs, henc, hhigh⟩ := (Option.any_eq_true _ _).mp hregs
  have hok : Translator.encode b.tag write.value = .ok regs := by
    cases he : Translator.encode b.tag write.value with
    | error e =>
      rw [he] at henc
      cases henc
    | ok regs' =>
      rw [he] at henc
      cases henc
      rfl
  exact ⟨b, regs, hb, hep, hwritable, hok, hlow, of_decide_eq_true hhigh, hcoil⟩

/-- Both ways the coils and the register end up set. -/
theorem valves_coalesced : valvesSite.ok = true ∧
    let whole := flushWrites valvesIndex Adapters.FakeModbusTransport.port "plc" 40 valvesWorld
    let each := flushEach valvesIndex Adapters.FakeModbusTransport.port "plc" valvesRounds
      { valvesWorld with dispatcher := valvesWorld.dispatcher.setQueue "plc" [] }
    whole.1 = .ok () ∧
      (∃ t₁ t₂, whole.2.transports "plc" = some t₁ ∧ each.transports "plc" = some t₂ ∧
        t₁.memory = t₂.memory) ∧
      SameContents whole.2.dispatcher.tagStore each.dispatcher.tagStore :=
  ⟨by decide +kernel, coalescing_equivalent Adapters.FakeModbusTransport.obeys rfl rfl valvesRounds
    rfl (by decide) valves_deliverable 40⟩

end OpcServer.Core
