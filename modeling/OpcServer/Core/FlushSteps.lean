import OpcServer.Core.FlushWrites
import Mathlib.Logic.Relation

/-! The flush cut into its atomic steps: taking the queue, looking up the transport,
one transport call, one read and one publish of the tag store, putting writes back.
Between two of them other threads may run. Left alone, the steps compute
`flushWrites` (`steps_flushWrites`). -/

namespace OpcServer.Core

open Domain Project

variable [Platform]

/-- A publish that a flush still has to make for one of its writes. -/
inductive Outcome where
  | good (write : PendingWrite)
  | bad (reason : QualityReason) (write : PendingWrite)
  deriving DecidableEq

namespace Outcome

def write : Outcome → PendingWrite
  | .good write | .bad _ write => write

/-- The value to publish over a previous one. -/
def update (now : TimestampMs) (previous : Option TagValue) : Outcome → TagValue
  | .good write => Dispatcher.qualityUpdate previous .good .none now (some write.value)
  | .bad reason _ => Dispatcher.qualityUpdate previous .bad reason now none

end Outcome

/-- What a flush does after its publishes. -/
inductive After where
  | loop (batch : List PendingWrite)
  | requeue (writes : List PendingWrite) (e : Error)
  deriving DecidableEq

/-- Where a flush stands. -/
inductive FlushPc where
  | start
  | lookup (batch : List PendingWrite)
  | loop (batch : List PendingWrite)
  | get (outcome : Outcome) (todo : List Outcome) (after : After)
  | put (previous : Option TagValue) (outcome : Outcome) (todo : List Outcome) (after : After)
  | requeue (writes : List PendingWrite) (e : Error)
  | finished (result : Result Unit)
  deriving DecidableEq

def After.pc : After → FlushPc
  | .loop batch => .loop batch
  | .requeue writes e => .requeue writes e

/-- The next publish, if one is left. -/
def FlushPc.publishing : List Outcome → After → FlushPc
  | [], after => after.pc
  | outcome :: todo, after => .get outcome todo after

def FlushPc.isFinished : FlushPc → Bool
  | .finished _ => true
  | _ => false

section Steps
variable {σ : Type} (index : RuntimeIndex) (transport : IModbusTransport σ) (endpointId : String)
  (now : TimestampMs)

/-- One atomic step of a flush. -/
def FlushPc.step : FlushPc → World σ → Option (FlushPc × World σ)
  | .start, w =>
    match w.dispatcher.writeQueues endpointId with
    | [] => some (.finished (.ok ()),
        { w with dispatcher := w.dispatcher.record (.flushed endpointId (.ok ())) })
    | batch => some (.lookup batch, { w with dispatcher := w.dispatcher.setQueue endpointId [] })
  | .lookup batch, w =>
    match w.transports endpointId with
    | none => some (.requeue batch (coreErr .notFound "transport not bound"), w)
    | some _ => some (.loop batch, w)
  | .loop [], w => some (.finished (.ok ()),
      { w with dispatcher := w.dispatcher.record (.flushed endpointId (.ok ())) })
  | .loop (write :: batch), w =>
    match plan index write batch with
    | .skip => some (.loop batch, w)
    | .unencodable _ bad e left => some (.get (.bad .decodingError bad) [] (.requeue left e), w)
    | .send request tail rest =>
      match w.transports endpointId with
      | none => none
      | some t =>
        match callWrite transport endpointId request (write :: tail) ⟨t, w.dispatcher⟩ with
        | (.error e, s) =>
          some (.get (.bad .writeRejected write) [] (.requeue batch e), w.update endpointId s)
        | (.ok (), s) =>
          some (.get (.good write) (tail.map .good) (.loop rest), w.update endpointId s)
  | .get outcome todo after, w =>
    some (.put (w.dispatcher.tagStore.get outcome.write.tagId) outcome todo after, w)
  | .put previous outcome todo after, w =>
    some (.publishing todo after, ⟨w.dispatcher.publish outcome.write.tagId
      (outcome.update now previous) (some outcome.write), w.transports⟩)
  | .requeue writes e, w =>
    let d := (w.dispatcher.requeue endpointId writes).record (.flushed endpointId (.error e))
    some (.finished (.error e), { w with dispatcher := d })
  | .finished _, _ => none

/-- What a step of a flush can do. -/
inductive FlushMove : FlushPc → World σ → FlushPc → World σ → Prop
  | empty {w : World σ} : w.dispatcher.writeQueues endpointId = [] →
      FlushMove .start w (.finished (.ok ()))
        ⟨w.dispatcher.record (.flushed endpointId (.ok ())), w.transports⟩
  | take {w : World σ} : w.dispatcher.writeQueues endpointId ≠ [] →
      FlushMove .start w (.lookup (w.dispatcher.writeQueues endpointId))
        ⟨w.dispatcher.setQueue endpointId [], w.transports⟩
  | unbound {batch : List PendingWrite} {w : World σ} (e : Error) :
      w.transports endpointId = none → FlushMove (.lookup batch) w (.requeue batch e) w
  | bound {batch : List PendingWrite} {w : World σ} (t : σ) :
      w.transports endpointId = some t → FlushMove (.lookup batch) w (.loop batch) w
  | done {w : World σ} : FlushMove (.loop []) w (.finished (.ok ()))
      ⟨w.dispatcher.record (.flushed endpointId (.ok ())), w.transports⟩
  | skip {write : PendingWrite} {batch : List PendingWrite} {w : World σ} :
      plan index write batch = .skip → FlushMove (.loop (write :: batch)) w (.loop batch) w
  | unencodable {write bad : PendingWrite} {batch lost left : List PendingWrite} {e : Error}
      {w : World σ} : plan index write batch = .unencodable lost bad e left →
      FlushMove (.loop (write :: batch)) w (.get (.bad .decodingError bad) [] (.requeue left e)) w
  | refused {write : PendingWrite} {tail rest : List PendingWrite} {request : WriteRequest}
      {e : Error} {t t' : σ} {w : World σ} :
      plan index write (tail ++ rest) = .send request tail rest →
      w.transports endpointId = some t → transport.write request t = (.error e, t') →
      FlushMove (.loop (write :: (tail ++ rest))) w
        (.get (.bad .writeRejected write) [] (.requeue (tail ++ rest) e))
        ⟨w.dispatcher.record (.call endpointId (.write request) false (write :: tail)),
          Function.update w.transports endpointId (some t')⟩
  | granted {write : PendingWrite} {tail rest : List PendingWrite} {request : WriteRequest}
      {t t' : σ} {w : World σ} : plan index write (tail ++ rest) = .send request tail rest →
      w.transports endpointId = some t → transport.write request t = (.ok (), t') →
      FlushMove (.loop (write :: (tail ++ rest))) w
        (.get (.good write) (tail.map .good) (.loop rest))
        ⟨w.dispatcher.record (.call endpointId (.write request) true (write :: tail)),
          Function.update w.transports endpointId (some t')⟩
  | get {outcome : Outcome} {todo : List Outcome} {after : After} {w : World σ} :
      FlushMove (.get outcome todo after) w
        (.put (w.dispatcher.tagStore.get outcome.write.tagId) outcome todo after) w
  | put {previous : Option TagValue} {outcome : Outcome} {todo : List Outcome} {after : After}
      {w : World σ} : FlushMove (.put previous outcome todo after) w (.publishing todo after)
        ⟨w.dispatcher.publish outcome.write.tagId (outcome.update now previous)
          (some outcome.write), w.transports⟩
  | requeue {writes : List PendingWrite} {e : Error} {w : World σ} :
      FlushMove (.requeue writes e) w (.finished (.error e))
        ⟨(w.dispatcher.requeue endpointId writes).record (.flushed endpointId (.error e)),
          w.transports⟩

variable {index transport endpointId now} in
/-- The step function makes only these moves. -/
theorem FlushPc.move_of_step {pc pc' : FlushPc} {w w' : World σ}
    (h : pc.step index transport endpointId now w = some (pc', w')) :
    FlushMove index transport endpointId now pc w pc' w' := by
  cases pc with
  | start =>
    simp only [FlushPc.step] at h
    split at h
    · cases h
      exact .empty ‹_›
    · rename_i hq
      cases h
      exact .take hq
  | lookup batch =>
    simp only [FlushPc.step] at h
    split at h
    · cases h
      exact .unbound _ ‹_›
    · cases h
      exact .bound _ ‹_›
  | loop batch =>
    cases batch with
    | nil =>
      cases h
      exact .done
    | cons write batch =>
      simp only [FlushPc.step] at h
      split at h
      · cases h
        exact .skip ‹_›
      · cases h
        exact .unencodable ‹_›
      · rename_i request tail rest hp
        obtain rfl := plan_eq_send hp
        split at h
        · cases h
        · rename_i t ht
          split at h
          · rename_i e s hcall
            cases h
            obtain ⟨hw, hd⟩ := callWrite_eq transport endpointId hcall
            rw [World.update, hd]
            exact .refused hp ht hw
          · rename_i s hcall
            cases h
            obtain ⟨hw, hd⟩ := callWrite_eq transport endpointId hcall
            rw [World.update, hd]
            exact .granted hp ht hw
  | get outcome todo after =>
    cases h
    exact .get
  | put previous outcome todo after =>
    cases h
    exact .put
  | requeue writes e =>
    cases h
    exact .requeue
  | finished r => cases h

/-- Steps of one flush with nothing in between. -/
def Steps : FlushPc × World σ → FlushPc × World σ → Prop :=
  Relation.ReflTransGen fun a b => a.1.step index transport endpointId now a.2 = some b

/-! ### The steps compute the flush -/

variable {index transport endpointId now}

theorem Steps.head {pc : FlushPc} {w : World σ} (pc' : FlushPc) (w' : World σ)
    {b : FlushPc × World σ} (h : pc.step index transport endpointId now w = some (pc', w'))
    (hs : Steps index transport endpointId now (pc', w') b) :
    Steps index transport endpointId now (pc, w) b := Relation.ReflTransGen.head h hs

/-- Publishing one outcome reads the store and writes it. -/
theorem steps_publish {outcome : Outcome} {todo : List Outcome} {after : After} {w : World σ}
    {b : FlushPc × World σ}
    (h : Steps index transport endpointId now (.publishing todo after,
      ⟨w.dispatcher.publish outcome.write.tagId
        (outcome.update now (w.dispatcher.tagStore.get outcome.write.tagId)) (some outcome.write),
        w.transports⟩) b) :
    Steps index transport endpointId now (.get outcome todo after, w) b :=
  Steps.head _ _ rfl (Steps.head _ _ rfl h)

/-- Publishing Good for some writes is the fold of `confirm`. -/
theorem steps_confirm {writes : List PendingWrite} {after : After} {w : World σ}
    {b : FlushPc × World σ}
    (h : Steps index transport endpointId now (after.pc,
      ⟨writes.foldl (Dispatcher.confirm now) w.dispatcher, w.transports⟩) b) :
    Steps index transport endpointId now (.publishing (writes.map .good) after, w) b := by
  induction writes generalizing w with
  | nil => exact h
  | cons write rest ih =>
    refine steps_publish (ih ?_)
    exact h

theorem steps_flushLoop (batch : List PendingWrite) (w : World σ) (t : σ)
    (ht : w.transports endpointId = some t) (r : Result Unit) (s : Session σ)
    (h : flushLoop index transport endpointId now 0 batch ⟨t, w.dispatcher⟩ = (r, s)) :
    Steps index transport endpointId now (.loop batch, w) (.finished r,
      w.update endpointId ⟨s.transport, s.dispatcher.record (.flushed endpointId r)⟩) := by
  induction batch using batch_induction index generalizing w t with
  | nil =>
    rw [flushLoop_nil] at h
    cases h
    refine Steps.head _ _ rfl ?_
    have hw : w.update endpointId ⟨t, w.dispatcher.record (.flushed endpointId (.ok ()))⟩ =
        { w with dispatcher := w.dispatcher.record (.flushed endpointId (.ok ())) } := by
      simp [World.update, ← ht]
    rw [hw]
    exact .refl
  | skip write batch hp ih =>
    rw [flushLoop_cons, hp] at h
    refine Steps.head (.loop batch) w ?_ (ih w t ht h)
    simp [FlushPc.step, hp]
  | unencodable write batch lost bad e rest hp =>
    rw [flushLoop_cons, hp] at h
    cases h
    refine Steps.head (.get (.bad .decodingError bad) [] (.requeue rest e)) w ?_ ?_
    · simp [FlushPc.step, hp]
    · refine steps_publish (Steps.head _ _ rfl ?_)
      have hw : w.transports = Function.update w.transports endpointId (some t) := by
        rw [← ht, Function.update_eq_self]
      rw [World.update, ← hw]
      exact .refl
  | send write tail rest request hp ih =>
    rw [flushLoop_cons, hp] at h
    dsimp only at h
    split at h
    · rename_i e s₁ hcall
      cases h
      refine Steps.head (.get (.bad .writeRejected write) [] (.requeue (tail ++ rest) e))
        (w.update endpointId s₁) ?_ ?_
      · simp [FlushPc.step, hp, ht, hcall]
      · exact steps_publish (Steps.head _ _ rfl .refl)
    · rename_i s₁ hcall
      refine Steps.head (.publishing ((write :: tail).map .good) (.loop rest))
        (w.update endpointId s₁) ?_ (steps_confirm ?_)
      · simp [FlushPc.step, hp, ht, hcall, FlushPc.publishing]
      · have := ih ⟨(write :: tail).foldl (Dispatcher.confirm now) s₁.dispatcher,
          Function.update w.transports endpointId (some s₁.transport)⟩ s₁.transport
          (Function.update_self ..) h
        rw [World.update, Function.update_idem] at this
        exact this

/-- A flush that runs undisturbed takes the steps from its start to its end. -/
theorem steps_flushWrites (w : World σ) :
    Steps index transport endpointId now (.start, w)
      (.finished (flushWrites index transport endpointId now w).1,
        (flushWrites index transport endpointId now w).2) := by
  unfold flushWrites
  split
  · rename_i hq
    exact Steps.head _ _ (by simp [FlushPc.step, hq]) .refl
  · rename_i hq
    have htake : FlushPc.start.step index transport endpointId now w =
        some (.lookup (w.dispatcher.writeQueues endpointId),
          ⟨w.dispatcher.setQueue endpointId [], w.transports⟩) := by
      cases h : w.dispatcher.writeQueues endpointId with
      | nil => exact absurd h hq
      | cons write batch => simp [FlushPc.step, h]
    refine Steps.head _ _ htake ?_
    dsimp only
    split
    · rename_i ht
      refine Steps.head (.requeue _ _) ⟨w.dispatcher.setQueue endpointId [], w.transports⟩ ?_
        (Steps.head _ _ rfl .refl)
      simp only [FlushPc.step, ht]
    · rename_i t ht
      refine Steps.head (.loop (w.dispatcher.writeQueues endpointId))
        ⟨w.dispatcher.setQueue endpointId [], w.transports⟩ ?_ ?_
      · simp only [FlushPc.step, ht]
      · exact steps_flushLoop _ ⟨w.dispatcher.setQueue endpointId [], w.transports⟩ t ht _ _ rfl

end Steps

end OpcServer.Core
