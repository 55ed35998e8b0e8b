import OpcServer.Core.FlushSteps
import OpcServer.Lib.Transition

/-! Threads that call `enqueue_write` and `flush_writes` at the same time. A call of
`enqueue_write` is one atomic step, since its only effect happens under the lock of
the queues; a call of `flush_writes` takes the steps of `FlushPc.step`, and left alone
does what `flushWrites` does (`System.run_flush`). Nothing in the system keeps two
flushes of one endpoint apart: that is the business of the endpoint's strand, and a
guard where a result needs it. -/

namespace OpcServer.Core

open Domain Project

section Threads

/-- A call of `flush_writes`, in progress or finished. -/
structure Flush [Platform] where
  endpointId : String
  now : TimestampMs
  pc : FlushPc
  deriving DecidableEq

structure System [Platform] (σ : Type) where
  world : World σ
  flushes : List Flush := []

inductive Action [Platform] where
  | enqueue (tagId : TagId) (value : ScalarValue)
  | flush (endpointId : String) (now : TimestampMs)
  | advance (call : ℕ)
  deriving DecidableEq

variable [Platform] {σ : Type} (index : RuntimeIndex) (transport : IModbusTransport σ)

def System.step : Action → System σ → Option (System σ)
  | .enqueue tagId value, s =>
    some ⟨⟨(s.world.dispatcher.enqueueWrite index tagId value).2, s.world.transports⟩, s.flushes⟩
  | .flush endpointId now, s => some ⟨s.world, s.flushes ++ [⟨endpointId, now, .start⟩]⟩
  | .advance call, s =>
    match s.flushes[call]? with
    | none => none
    | some f =>
      match f.pc.step index transport f.endpointId f.now s.world with
      | none => none
      | some (pc, w) => some ⟨w, s.flushes.set call { f with pc := pc }⟩

/-- A dispatcher just constructed, with no flush running. -/
def System.Fresh (s : System σ) : Prop :=
  s.world.dispatcher.trace = [] ∧ (∀ ep, s.world.dispatcher.writeQueues ep = []) ∧ s.flushes = []

variable {index transport}

/-- An advancing call, with the calls before and after it. -/
theorem System.step_advance {call : ℕ} {s s' : System σ}
    (h : System.step index transport (.advance call) s = some s') :
    ∃ before f after pc w, s.flushes = before ++ f :: after ∧
      f.pc.step index transport f.endpointId f.now s.world = some (pc, w) ∧
      s' = ⟨w, before ++ { f with pc := pc } :: after⟩ := by
  simp only [System.step] at h
  split at h
  · cases h
  · rename_i f hf
    split at h
    · cases h
    · rename_i pc w hpc
      cases h
      obtain ⟨hlt, rfl⟩ := List.getElem?_eq_some_iff.mp hf
      refine ⟨s.flushes.take call, s.flushes[call], s.flushes.drop (call + 1), pc, w, ?_, hpc, ?_⟩
      · rw [List.getElem_cons_drop, List.take_append_drop]
      · rw [List.set_eq_take_append_cons_drop, if_pos hlt]

/-- The steps of one flush are steps of the system, wherever its call is in the list. -/
theorem System.run_steps {endpointId : String} {now : TimestampMs} {a b : FlushPc × World σ}
    (h : Steps index transport endpointId now a b) (flushes : List Flush) :
    ∃ n, Transition.run (System.step index transport)
        (List.replicate n (.advance flushes.length)) ⟨a.2, flushes ++ [⟨endpointId, now, a.1⟩]⟩ =
      some ⟨b.2, flushes ++ [⟨endpointId, now, b.1⟩]⟩ := by
  induction h using Relation.ReflTransGen.head_induction_on with
  | refl => exact ⟨0, rfl⟩
  | @head a c hstep _ ih =>
    obtain ⟨n, hn⟩ := ih
    refine ⟨n + 1, ?_⟩
    have hadvance : System.step index transport (.advance flushes.length)
        ⟨a.2, flushes ++ [⟨endpointId, now, a.1⟩]⟩ =
          some ⟨c.2, flushes ++ [⟨endpointId, now, c.1⟩]⟩ := by
      simp [System.step, hstep]
    rw [List.replicate_succ, Transition.run_cons, hadvance]
    exact hn

/-- A flush that nothing interrupts does what `flushWrites` does. -/
theorem System.run_flush (s : System σ) (endpointId : String) (now : TimestampMs) :
    let done := flushWrites index transport endpointId now s.world
    ∃ n, Transition.run (System.step index transport)
        (.flush endpointId now :: List.replicate n (.advance s.flushes.length)) s =
      some ⟨done.2, s.flushes ++ [⟨endpointId, now, .finished done.1⟩]⟩ :=
  System.run_steps (steps_flushWrites s.world) s.flushes

/-- A step of a flush leaves the queues of other endpoints alone. -/
theorem FlushMove.writeQueues_other {endpointId ep : String} {now : TimestampMs}
    {pc pc' : FlushPc} {w w' : World σ} (hne : ep ≠ endpointId)
    (h : FlushMove index transport endpointId now pc w pc' w') :
    w'.dispatcher.writeQueues ep = w.dispatcher.writeQueues ep := by
  cases h with
  | take => exact Function.update_of_ne hne _ _
  | requeue => exact Function.update_of_ne hne _ _
  | _ => rfl

end Threads

/-! ### One register -/

section Register

attribute [local instance] exactPlatform

def setpointTag : Tag := { name := "Setpoint", address := 2, writable := true }

/-- A device with one writable holding register. -/
def setpoint : RuntimeIndex := RuntimeIndex.build
  { endpoints := [{ id := "plc" }],
    devices := [{ id := "dev", endpointId := "plc", tags := [setpointTag] }] }

theorem setpoint_findById :
    setpoint.findById 1 = some ⟨1, "dev", "plc", 1, setpointTag⟩ := by decide

theorem plan_setpoint (seq : ℕ) (batch : List PendingWrite) :
    plan setpoint ⟨1, .uint16 10, seq⟩ batch = .send (.writeSingleRegister 1 2 10) [] batch := by
  have henc : Translator.encode setpointTag (.uint16 10) = .ok [10] := by decide +kernel
  simp only [plan, setpoint_findById, henc]
  rfl

end Register

end OpcServer.Core
