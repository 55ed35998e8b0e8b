import OpcServer.Core.Interleaving

/-! The bound on the write queues under concurrency. `enqueue_write` compares the
queue with its bound, but not the writes that a flush has taken out and may put
back. While both together stay within the bound the queue does, whatever the
threads and the transport do; otherwise a failing flush takes the queue past it. -/

namespace OpcServer.Core

open Domain Project Transition

section Bound

variable [Platform] {σ : Type} {index : RuntimeIndex} {transport : IModbusTransport σ}

/-- The most writes that can come back into the queue after the publishes. -/
def After.giveBack : After → ℕ
  | .loop batch => batch.length - 1
  | .requeue writes _ => writes.length

/-- The most writes that a flush can still put back into the queue. A round of the loop
that fails blames one write at least. -/
def FlushPc.giveBack : FlushPc → ℕ
  | .start | .finished _ => 0
  | .lookup batch => batch.length
  | .loop batch => batch.length - 1
  | .get _ _ after | .put _ _ _ after => after.giveBack
  | .requeue writes _ => writes.length

@[simp] theorem FlushPc.giveBack_publishing (todo : List Outcome) (after : After) :
    (FlushPc.publishing todo after).giveBack = after.giveBack := by
  cases todo with
  | nil => cases after <;> rfl
  | cons outcome todo => rfl

/-- The most writes that the flushes of an endpoint can still put back. -/
def System.giveBack (s : System σ) (endpointId : String) : ℕ :=
  (s.flushes.map fun f => if f.endpointId = endpointId then f.pc.giveBack else 0).sum

/-- An accepted write finds room for itself and for what flushes may put back. -/
def HasRoom (index : RuntimeIndex) : Action → System σ → Prop
  | .enqueue tagId _, s => ∀ b, index.findById tagId = some b →
      (s.world.dispatcher.writeQueues b.endpointId).length < kMaxWriteQueueDepth →
      (s.world.dispatcher.writeQueues b.endpointId).length + s.giveBack b.endpointId <
        kMaxWriteQueueDepth
  | _, _ => True

instance HasRoom.decidable : ∀ (action : Action) (s : System σ), Decidable (HasRoom index action s)
  | .enqueue tagId _, s =>
    match h : index.findById tagId with
    | none => .isTrue fun b hb => by
      rw [h] at hb
      cases hb
    | some b =>
      decidable_of_iff
        ((s.world.dispatcher.writeQueues b.endpointId).length < kMaxWriteQueueDepth →
          (s.world.dispatcher.writeQueues b.endpointId).length + s.giveBack b.endpointId <
            kMaxWriteQueueDepth)
        ⟨fun hroom _ hb => Option.some.inj (h.symm.trans hb) ▸ hroom, fun hroom => hroom b h⟩
  | .flush _ _, _ | .advance _, _ => .isTrue trivial

/-- No step of a flush lets the queue and its claims on it grow. -/
theorem FlushMove.giveBack_le {endpointId : String} {now : TimestampMs} {pc pc' : FlushPc}
    {w w' : World σ} (h : FlushMove index transport endpointId now pc w pc' w') :
    (w'.dispatcher.writeQueues endpointId).length + pc'.giveBack ≤
      (w.dispatcher.writeQueues endpointId).length + pc.giveBack := by
  cases h with
  | empty => exact le_rfl
  | take => simp [FlushPc.giveBack, Dispatcher.setQueue]
  | unbound => exact le_rfl
  | bound => simp [FlushPc.giveBack]
  | done => exact le_rfl
  | skip => simp [FlushPc.giveBack]
  | unencodable hp =>
    have hlen := congrArg List.length (plan_eq_unencodable hp)
    simp only [List.length_cons, List.length_append] at hlen
    simp only [FlushPc.giveBack, After.giveBack, List.length_cons]
    omega
  | refused => simp [FlushPc.giveBack, After.giveBack, Dispatcher.record]
  | granted =>
    simp only [FlushPc.giveBack, After.giveBack, Dispatcher.record, List.length_cons,
      List.length_append]
    omega
  | get => exact le_rfl
  | put =>
    rw [FlushPc.giveBack_publishing]
    exact le_rfl
  | requeue =>
    simp [FlushPc.giveBack, Dispatcher.requeue, Dispatcher.setQueue, Dispatcher.record, add_comm]

/-- The queue and the claims on it stay within the bound. -/
def System.Bounded (s : System σ) : Prop :=
  ∀ ep, (s.world.dispatcher.writeQueues ep).length + s.giveBack ep ≤ kMaxWriteQueueDepth

theorem System.step_bounded {action : Action} {s s' : System σ} (h : s.Bounded)
    (hroom : HasRoom index action s) (hstep : System.step index transport action s = some s') :
    s'.Bounded := by
  intro ep
  have hs := h ep
  cases action with
  | enqueue tagId value =>
    cases hstep
    obtain ⟨e, he⟩ | ⟨b, hb, -, hlen, he⟩ :=
      s.world.dispatcher.enqueueWrite_cases index tagId value
    · simpa only [he] using hs
    · have hlt := hroom b hb hlen
      simp only [he]
      by_cases hep : b.endpointId = ep
      · subst hep
        rw [Dispatcher.accept_writeQueues, List.length_append, List.length_singleton]
        exact (Nat.add_right_comm _ _ _).le.trans hlt
      · rw [Dispatcher.accept_writeQueues_of_ne _ _ _ (Ne.symm hep)]
        exact hs
  | flush endpointId now =>
    cases hstep
    simpa [System.giveBack, FlushPc.giveBack] using hs
  | advance call =>
    obtain ⟨before, f, after, pc, w, hf, hpc, rfl⟩ := System.step_advance hstep
    have hmove := FlushPc.move_of_step hpc
    by_cases hep : f.endpointId = ep
    · subst hep
      have hle := hmove.giveBack_le
      simp only [System.giveBack, hf, List.map_append, List.map_cons, List.sum_append,
        List.sum_cons, if_true] at hs ⊢
      omega
    · have hq := hmove.writeQueues_other (Ne.symm hep)
      simpa [System.giveBack, hf, hep, hq] using hs

/-- In every state reached by steps whose enqueues find room, every queue is within
its bound. -/
theorem write_queue_bounded {s : System σ}
    (h : Reachable (System.step index transport) (HasRoom index) System.Fresh s)
    (endpointId : String) :
    (s.world.dispatcher.writeQueues endpointId).length ≤ kMaxWriteQueueDepth := by
  have hbounded : s.Bounded := by
    refine Reachable.invariant System.Bounded ?_ ?_ h
    · intro s hs ep
      simp [System.giveBack, hs.2.1 ep, hs.2.2]
    · intro s t action _ hs hroom hstep
      exact System.step_bounded hs hroom hstep
  exact (Nat.le_add_right _ _).trans (hbounded endpointId)

end Bound

/-! ### A failing flush over a full queue -/

section Overflow

attribute [local instance] exactPlatform

/-- A transport that refuses every write. -/
def refusing : IModbusTransport Unit where
  isConnected _ := true
  connect _ _ s := (.ok (), s)
  readRegisters _ s := (.ok [], s)
  readBits _ s := (.ok [], s)
  write _ s := (.error { code := .timeout }, s)

def setpointSystem : System Unit := { world := { transports := fun _ => some () } }

/-- Two writes are taken by a flush, and a third is accepted beside it; the first one is
refused and blamed, and the second put back. -/
def refusedRun : List Action :=
  [.enqueue 1 (.uint16 10), .enqueue 1 (.uint16 20), .flush "plc" 0, .advance 0,
    .enqueue 1 (.uint16 30)] ++ List.replicate 5 (.advance 0)

theorem setpoint_queue_bounded :
    ∃ s, run (System.step setpoint refusing) refusedRun setpointSystem = some s ∧
      (s.world.dispatcher.writeQueues "plc").map PendingWrite.value =
        [.uint16 20, .uint16 30] ∧
      (s.world.dispatcher.writeQueues "plc").length ≤ kMaxWriteQueueDepth := by
  have hfresh : Reachable (System.step setpoint refusing) (HasRoom setpoint) System.Fresh
      setpointSystem := .start ⟨rfl, fun _ => rfl, rfl⟩
  have hmeets : Meets (System.step setpoint refusing) (HasRoom setpoint) refusedRun
      setpointSystem := by decide +kernel
  have hend : (run (System.step setpoint refusing) refusedRun setpointSystem).map
      (fun s => (s.world.dispatcher.writeQueues "plc").map PendingWrite.value) =
        some [.uint16 20, .uint16 30] := by decide +kernel
  obtain ⟨s, hrun, hqueue⟩ := Option.map_eq_some_iff.mp hend
  exact ⟨s, hrun, hqueue, write_queue_bounded (hfresh.of_meets refusedRun hmeets hrun) "plc"⟩

/-- Writes to the setpoint are accepted as long as the queue has room. -/
theorem run_enqueues (n : ℕ) (s : System Unit)
    (hroom : (s.world.dispatcher.writeQueues "plc").length + n ≤ kMaxWriteQueueDepth) :
    ∃ s' more, run (System.step setpoint refusing) (List.replicate n (.enqueue 1 (.uint16 10))) s =
        some s' ∧ s'.world.dispatcher.writeQueues "plc" =
          s.world.dispatcher.writeQueues "plc" ++ more ∧ more.length = n ∧
        (∀ w ∈ more, ∃ seq, w = ⟨1, .uint16 10, seq⟩) ∧ s'.flushes = s.flushes ∧
        s'.world.transports = s.world.transports := by
  induction n generalizing s with
  | zero => exact ⟨s, [], rfl, by simp, rfl, by simp, rfl, rfl⟩
  | succ n ih =>
    set d := s.world.dispatcher.accept "plc" 1 (.uint16 10) with hd
    have hlt : ¬ (s.world.dispatcher.writeQueues "plc").length ≥ kMaxWriteQueueDepth := by omega
    have henq : s.world.dispatcher.enqueueWrite setpoint 1 (.uint16 10) = (.ok (), d) := by
      simp only [Dispatcher.enqueueWrite, setpoint_findById, if_neg hlt]
      rfl
    have hq : d.writeQueues "plc" = s.world.dispatcher.writeQueues "plc" ++
        [⟨1, .uint16 10, s.world.dispatcher.nextSeq⟩] := Dispatcher.accept_writeQueues ..
    have hroom' : (d.writeQueues "plc").length + n ≤ kMaxWriteQueueDepth := by
      rw [hq, List.length_append, List.length_singleton]
      omega
    obtain ⟨s', more, hrun, hq', hlen, hall, hf, ht⟩ :=
      ih ⟨⟨d, s.world.transports⟩, s.flushes⟩ hroom'
    refine ⟨s', ⟨1, .uint16 10, s.world.dispatcher.nextSeq⟩ :: more, ?_, ?_, by simp [hlen], ?_, hf,
      ht⟩
    · rw [List.replicate_succ, run_cons, System.step, henq]
      exact hrun
    · rw [hq', hq, List.append_assoc, List.singleton_append]
    · intro w hw
      rcases List.mem_cons.mp hw with rfl | hw
      · exact ⟨_, rfl⟩
      · exact hall w hw

/-- A flush whose first request is refused puts all other writes back. -/
theorem run_refused (s : System Unit) (seq : ℕ) (rest : List PendingWrite)
    (hf : s.flushes = [⟨"plc", 0, .lookup (⟨1, .uint16 10, seq⟩ :: rest)⟩])
    (ht : s.world.transports "plc" = some ()) :
    (run (System.step setpoint refusing) (List.replicate 5 (.advance 0)) s).map
        (fun s' => s'.world.dispatcher.writeQueues "plc") =
      some (rest ++ s.world.dispatcher.writeQueues "plc") := by
  simp only [List.replicate, run_cons, System.step, hf, List.getElem?_cons_zero, FlushPc.step, ht,
    Option.bind_some, List.set_cons_zero, plan_setpoint, callWrite, refusing]
  rfl

/-- Fill the queue, start a flush, fill the queue again, and let the first request
fail: the queue then holds 2047 writes. -/
theorem write_queue_overflows :
    ¬ ∀ (index : RuntimeIndex) (transport : IModbusTransport Unit) (s : System Unit),
      Reachable (System.step index transport) Free System.Fresh s →
        ∀ ep, (s.world.dispatcher.writeQueues ep).length ≤ kMaxWriteQueueDepth := by
  intro h
  have hfresh : Reachable (System.step setpoint refusing) Free System.Fresh setpointSystem :=
    .start ⟨rfl, fun _ => rfl, rfl⟩
  -- the first 1024 writes, and a flush that takes them
  obtain ⟨s₁, first, hrun₁, hq₁, hlen₁, hall₁, hf₁, ht₁⟩ :=
    run_enqueues kMaxWriteQueueDepth setpointSystem (by simp [setpointSystem])
  have hfirst : s₁.world.dispatcher.writeQueues "plc" = first := hq₁
  have htake : run (System.step setpoint refusing) [.flush "plc" 0, .advance 0] s₁ =
      some ⟨⟨s₁.world.dispatcher.setQueue "plc" [], s₁.world.transports⟩,
        [⟨"plc", 0, .lookup first⟩]⟩ := by
    cases first with
    | nil => exact absurd hlen₁ (by decide)
    | cons w rest =>
      have hnone : s₁.flushes = [] := hf₁
      simp [System.step, hnone, FlushPc.step, hfirst]
  -- another 1024 while the flush is under way
  obtain ⟨s₂, second, hrun₂, hq₂, hlen₂, -, hf₂, ht₂⟩ :=
    run_enqueues kMaxWriteQueueDepth ⟨⟨s₁.world.dispatcher.setQueue "plc" [], s₁.world.transports⟩,
      [⟨"plc", 0, .lookup first⟩]⟩ (by simp [Dispatcher.setQueue])
  have hsecond : s₂.world.dispatcher.writeQueues "plc" = second := by
    simpa [Dispatcher.setQueue] using hq₂
  -- the refused request puts 1023 of the first ones back
  obtain ⟨seq, rest, rfl⟩ : ∃ seq rest, first = ⟨1, .uint16 10, seq⟩ :: rest := by
    cases first with
    | nil => exact absurd hlen₁ (by decide)
    | cons w rest =>
      obtain ⟨seq, rfl⟩ := hall₁ w List.mem_cons_self
      exact ⟨seq, rest, rfl⟩
  have ht : s₂.world.transports "plc" = some () := by rw [ht₂, ht₁]; rfl
  obtain ⟨s₃, hrun₃, hq₃⟩ := Option.map_eq_some_iff.mp (run_refused s₂ seq rest hf₂ ht)
  have hreach := (((hfresh.of_run _ hrun₁).of_run _ htake).of_run _ hrun₂).of_run _ hrun₃
  have hle := h setpoint refusing s₃ hreach "plc"
  rw [hq₃, hsecond, List.length_append, hlen₂] at hle
  rw [List.length_cons] at hlen₁
  have hdepth : kMaxWriteQueueDepth = 1024 := rfl
  omega

end Overflow

end OpcServer.Core
