import OpcServer.Core.FlushSteps
import OpcServer.Core.Ledger
import OpcServer.Core.PollDueAsync
import OpcServer.Lib.Transition

/-! UA writes and the strand of their endpoint, sharing the tag store. A UA thread
queues its write, reads the tag and publishes it back as Uncertain; the strand flushes
the queue and publishes what it polls. Reading and publishing are separate atomic
steps on both sides. A flush may start whenever the strand is free, whether a write
handler has posted it or a poll begins with it. Left alone the strand does what
`flushWrites`, `concludeRead` and `markEndpointBad` do (`Scene.run_flush`,
`Scene.run_concludeRead`, `Scene.run_markEndpointBad`).

The strand's own publishes are kept in a second, ghost store. -/

namespace OpcServer.App

open Domain Project OpcServer.Core

section Scene
variable [Platform]

/-! ### What a poll publishes -/

/-- One publish of a poll: the value decoded, or a Bad quality over the stored value. -/
inductive Report where
  | good (id : TagId) (value : ScalarValue) (now : TimestampMs)
  | bad (id : TagId) (reason : QualityReason) (now : TimestampMs)
  deriving DecidableEq

namespace Report

def tagId : Report → TagId
  | .good id _ _ | .bad id _ _ => id

/-- The value to publish over a previous one. -/
def update (previous : Option TagValue) : Report → TagValue
  | .good _ value now =>
    { value := value, quality := .good, reason := .none, serverTs := now, sourceTs := now }
  | .bad _ reason now => Dispatcher.qualityUpdate previous .bad reason now none

/-- The report made at once. -/
def apply (d : Dispatcher) (r : Report) : Dispatcher :=
  d.publish r.tagId (r.update (d.tagStore.get r.tagId)) none

end Report

/-- The report on the registers read for a tag. -/
def readReport (now : TimestampMs) (binding : TagBinding) (regs : Result (List UInt16)) : Report :=
  match regs with
  | .error e => .bad binding.id (readReason e) now
  | .ok regs =>
    match Translator.decode binding.tag regs with
    | .error _ => .bad binding.id .decodingError now
    | .ok value => .good binding.id value now

theorem concludeRead_eq_report {σ : Type} (now : TimestampMs) (binding : TagBinding)
    (regs : Result (List UInt16)) (w : World σ) :
    (concludeRead now binding regs w).2 =
      w.mapDispatcher fun d => (readReport now binding regs).apply d := by
  unfold concludeRead readReport
  cases regs with
  | error e => rfl
  | ok regs =>
    dsimp only
    cases Translator.decode binding.tag regs with
    | error e => rfl
    | ok value => rfl

/-- The reports of `mark_endpoint_bad`. -/
def lostReports (index : RuntimeIndex) (endpointId : String) (reason : QualityReason)
    (now : TimestampMs) : List Report :=
  (index.tags.filter fun b => b.endpointId == endpointId).map fun b => .bad b.id reason now

theorem markEndpointBad_eq_reports (index : RuntimeIndex) (endpointId : String)
    (reason : QualityReason) (now : TimestampMs) (d : Dispatcher) :
    d.markEndpointBad index endpointId reason now =
      (lostReports index endpointId reason now).foldl Report.apply d := by
  rw [lostReports, List.foldl_map]
  rfl

/-! ### The strand -/

/-- What occupies the strand: a flush, the reports of a poll still to make, or the
first of them with the value it has read. -/
inductive Occupant where
  | flush (clock : TimestampMs) (pc : FlushPc)
  | reports (todo : List Report)
  | put (previous : Option TagValue) (report : Report) (todo : List Report)
  deriving DecidableEq

/-- One atomic step of the strand, and what occupies it then. -/
def Occupant.step {σ : Type} (index : RuntimeIndex) (transport : IModbusTransport σ)
    (endpointId : String) : Occupant → World σ → Option (Option Occupant × World σ)
  | .flush _ (.finished _), w => some (none, w)
  | .flush clock pc, w =>
    (pc.step index transport endpointId clock w).map fun (pc, w) => (some (.flush clock pc), w)
  | .reports [], w => some (none, w)
  | .reports (.good id value now :: todo), w => some (some (.reports todo),
      w.mapDispatcher fun d => d.publish id ((Report.good id value now).update none) none)
  | .reports (report :: todo), w =>
    some (some (.put (w.dispatcher.tagStore.get report.tagId) report todo), w)
  | .put previous report todo, w => some (some (.reports todo),
      w.mapDispatcher fun d => d.publish report.tagId (report.update previous) none)

/-- The publish that the next step of the strand makes. -/
def Occupant.publication : Occupant → Option (TagId × TagValue)
  | .flush clock (.put previous outcome _ _) =>
    some (outcome.write.tagId, outcome.update clock previous)
  | .reports (.good id value now :: _) => some (id, (Report.good id value now).update none)
  | .put previous report _ => some (report.tagId, report.update previous)
  | _ => none

def note (store : TagStore) : Option (TagId × TagValue) → TagStore
  | some (id, value) => store.publish id value
  | none => store

/-! ### UA threads -/

/-- Where `data_source_write` stands after its handler has returned. -/
inductive Stage where
  | queued
  | read (previous : Option TagValue)
  | finished
  deriving DecidableEq

/-- A call of `data_source_write` whose write was accepted. -/
structure UaWrite where
  write : PendingWrite
  stage : Stage := .queued
  deriving DecidableEq

structure Scene (σ : Type) where
  world : World σ := {}
  calls : List UaWrite := []
  occupant : Option Occupant := none
  /-- What the store would hold if only the strand had published. -/
  shown : TagStore := {}

inductive SceneAction where
  | write (tagId : TagId) (value : ScalarValue)
  | get (call : ℕ)
  | publish (call : ℕ) (clock : TimestampMs)
  | flush (clock : TimestampMs)
  | poll (reports : List Report)
  | advance

namespace Scene
variable {σ : Type} (index : RuntimeIndex) (transport : IModbusTransport σ) (endpointId : String)

def setCall (call : ℕ) (c : UaWrite) (s : Scene σ) : Scene σ :=
  { s with calls := s.calls.set call c }

def mapDispatcher (f : Dispatcher → Dispatcher) (s : Scene σ) : Scene σ :=
  { s with world := s.world.mapDispatcher f }

/-- Writes to tags of other endpoints touch neither the queue nor the tags of this one;
they are queued and not followed. -/
def step : SceneAction → Scene σ → Option (Scene σ)
  | .write tagId value, s =>
    let write : PendingWrite := ⟨tagId, value, s.world.dispatcher.nextSeq⟩
    match s.world.dispatcher.enqueueWrite index tagId value with
    | (.error _, _) => some s
    | (.ok (), d) => some { s with
        world := ⟨d, s.world.transports⟩
        calls := if onEndpoint index endpointId write then s.calls ++ [{ write := write }]
          else s.calls }
  | .get call, s =>
    match s.calls[call]? with
    | some ⟨write, .queued⟩ =>
      some (s.setCall call ⟨write, .read (s.world.dispatcher.tagStore.get write.tagId)⟩)
    | _ => none
  | .publish call clock, s =>
    match s.calls[call]? with
    | some ⟨write, .read previous⟩ =>
      some ((s.mapDispatcher fun d => d.publish write.tagId
        (withQuality previous .uncertain .writePending clock) none).setCall call ⟨write, .finished⟩)
    | _ => none
  | .flush clock, s =>
    match s.occupant with
    | none => some { s with occupant := some (.flush clock .start) }
    | some _ => none
  | .poll reports, s =>
    match s.occupant with
    | none => some { s with occupant := some (.reports reports) }
    | some _ => none
  | .advance, s =>
    match s.occupant with
    | none => none
    | some o => (o.step index transport endpointId s.world).map fun (o', w) =>
        { s with world := w, occupant := o', shown := note s.shown o.publication }

/-- Nothing has been written, flushed or polled. -/
def Fresh (s : Scene σ) : Prop :=
  s.world.dispatcher.writeQueues endpointId = [] ∧ s.calls = [] ∧ s.occupant = none ∧
    s.shown = {}

/-- Every call has returned, the strand is free and the queue is empty. -/
def Settled (s : Scene σ) : Prop :=
  (∀ c ∈ s.calls, c.stage = .finished) ∧ s.occupant = none ∧
    s.world.dispatcher.writeQueues endpointId = []

/-- The tag of every UA write shows what the strand published last for it, and no
pending write. -/
def Confirmed (s : Scene σ) : Prop :=
  ∀ c ∈ s.calls, ∃ v, s.shown.get c.write.tagId = some v ∧
    s.world.dispatcher.tagStore.get c.write.tagId = some v ∧
    ¬(v.quality = .uncertain ∧ v.reason = .writePending)

/-! ### Left alone -/

variable {index transport endpointId}

theorem advance_flush {clock : TimestampMs} {pc pc' : FlushPc} {w : World σ} {s : Scene σ}
    (hs : s.occupant = some (.flush clock pc))
    (h : pc.step index transport endpointId clock s.world = some (pc', w)) :
    ∃ t, step index transport endpointId .advance s = some t ∧ t.world = w ∧
      t.occupant = some (.flush clock pc') ∧ t.calls = s.calls := by
  have hoccupant : (Occupant.flush clock pc).step index transport endpointId s.world =
      some (some (.flush clock pc'), w) := by
    cases pc with
    | finished r => cases h
    | _ => simp only [Occupant.step, h, Option.map_some]
  refine ⟨{ s with
    world := w
    occupant := some (.flush clock pc')
    shown := note s.shown (Occupant.flush clock pc).publication }, ?_, rfl, rfl, rfl⟩
  simp only [step, hs, hoccupant, Option.map_some]

theorem run_steps {clock : TimestampMs} {a b : FlushPc × World σ}
    (h : Steps index transport endpointId clock a b) {s : Scene σ}
    (hs : s.occupant = some (.flush clock a.1)) (hw : s.world = a.2) :
    ∃ n t, Transition.run (step index transport endpointId) (List.replicate n .advance) s =
        some t ∧ t.world = b.2 ∧ t.occupant = some (.flush clock b.1) ∧ t.calls = s.calls := by
  induction h using Relation.ReflTransGen.head_induction_on generalizing s with
  | refl => exact ⟨0, s, rfl, hw, hs, rfl⟩
  | head hstep _ ih =>
    obtain ⟨t, ht, htw, hto, htc⟩ := advance_flush hs (hw ▸ hstep)
    obtain ⟨n, u, hu, huw, huo, huc⟩ := ih hto htw
    refine ⟨n + 1, u, ?_, huw, huo, huc.trans htc⟩
    rw [List.replicate_succ, Transition.run_cons, ht]
    exact hu

/-- A flush that nothing interrupts does what `flushWrites` does. -/
theorem run_flush {s : Scene σ} (hfree : s.occupant = none) (clock : TimestampMs) :
    ∃ n t, Transition.run (step index transport endpointId)
        (.flush clock :: List.replicate n .advance) s = some t ∧
      t.world = (flushWrites index transport endpointId clock s.world).2 ∧ t.occupant = none ∧
      t.calls = s.calls := by
  have hstart : step index transport endpointId (.flush clock) s =
      some { s with occupant := some (.flush clock .start) } := by
    simp only [step, hfree]
  obtain ⟨n, t, ht, htw, hto, htc⟩ := run_steps (steps_flushWrites s.world)
    (s := { s with occupant := some (.flush clock .start) }) rfl rfl
  refine ⟨n + 1, { t with occupant := none }, ?_, htw, rfl, htc⟩
  rw [Transition.run_cons, hstart, List.replicate_succ', Option.bind_some, Transition.run_append, ht]
  simp only [Option.bind_some, Transition.run_cons, step, hto, Occupant.step, Option.map_some,
    Occupant.publication, note, Transition.run_nil]

/-- A report is made in one step or in two. -/
theorem advance_report (report : Report) (todo : List Report) {s : Scene σ}
    (hs : s.occupant = some (.reports (report :: todo))) :
    ∃ k t, Transition.run (step index transport endpointId) (List.replicate k .advance) s =
        some t ∧ t.world = s.world.mapDispatcher report.apply ∧
      t.occupant = some (.reports todo) ∧ t.calls = s.calls := by
  cases report with
  | good id value now =>
    refine ⟨1, { s with
      world := s.world.mapDispatcher (Report.good id value now).apply
      occupant := some (.reports todo)
      shown := note s.shown (Occupant.reports (.good id value now :: todo)).publication }, ?_, rfl,
      rfl, rfl⟩
    simp only [List.replicate_one, Transition.run_cons, step, hs, Occupant.step, Option.map_some,
      Option.bind_some, Transition.run_nil]
    rfl
  | bad id reason now =>
    let report := Report.bad id reason now
    let previous := s.world.dispatcher.tagStore.get report.tagId
    refine ⟨2, { s with
      world := s.world.mapDispatcher report.apply
      occupant := some (.reports todo)
      shown := note s.shown (Occupant.put previous report todo).publication }, ?_, rfl, rfl, rfl⟩
    simp only [List.replicate_succ, List.replicate_zero, Transition.run_cons, step, hs,
      Occupant.step, Option.map_some, Option.bind_some, Transition.run_nil]
    rfl

/-- The reports of a poll that nothing interrupts are made one after the other. -/
theorem run_reports (todo : List Report) {s : Scene σ} (hs : s.occupant = some (.reports todo)) :
    ∃ n t, Transition.run (step index transport endpointId) (List.replicate n .advance) s =
        some t ∧ t.world = (s.world.mapDispatcher fun d => todo.foldl Report.apply d) ∧
      t.occupant = none ∧ t.calls = s.calls := by
  induction todo generalizing s with
  | nil =>
    refine ⟨1, { s with occupant := none }, ?_, rfl, rfl, rfl⟩
    simp only [List.replicate_one, Transition.run_cons, step, hs, Occupant.step, Option.map_some,
      Occupant.publication, note, Option.bind_some, Transition.run_nil]
  | cons report todo ih =>
    obtain ⟨k, t, ht, htw, hto, htc⟩ := advance_report report todo hs
    obtain ⟨n, u, hu, huw, huo, huc⟩ := ih hto
    refine ⟨k + n, u, ?_, ?_, huo, huc.trans htc⟩
    · rw [List.replicate_add, Transition.run_append, ht]
      exact hu
    · rw [huw, htw]
      rfl

theorem run_poll {s : Scene σ} (hfree : s.occupant = none) (reports : List Report) :
    ∃ n t, Transition.run (step index transport endpointId)
        (.poll reports :: List.replicate n .advance) s = some t ∧
      t.world = (s.world.mapDispatcher fun d => reports.foldl Report.apply d) ∧
      t.occupant = none ∧ t.calls = s.calls := by
  have hstart : step index transport endpointId (.poll reports) s =
      some { s with occupant := some (.reports reports) } := by
    simp only [step, hfree]
  obtain ⟨n, t, ht, hend⟩ : ∃ n t, Transition.run (step index transport endpointId)
      (List.replicate n .advance) { s with occupant := some (.reports reports) } = some t ∧ _ :=
    run_reports reports rfl
  refine ⟨n, t, ?_, hend⟩
  rw [Transition.run_cons, hstart]
  exact ht

/-- A poll that nothing interrupts does with what it has read what `concludeRead` does. -/
theorem run_concludeRead {s : Scene σ} (hfree : s.occupant = none) (now : TimestampMs)
    (binding : TagBinding) (regs : Result (List UInt16)) :
    ∃ n t, Transition.run (step index transport endpointId)
        (.poll [readReport now binding regs] :: List.replicate n .advance) s = some t ∧
      t.world = (concludeRead now binding regs s.world).2 ∧ t.occupant = none ∧
      t.calls = s.calls := by
  rw [concludeRead_eq_report]
  exact run_poll hfree [readReport now binding regs]

/-- A lost endpoint is marked as `markEndpointBad` does. -/
theorem run_markEndpointBad {s : Scene σ} (hfree : s.occupant = none) (reason : QualityReason)
    (now : TimestampMs) :
    ∃ n t, Transition.run (step index transport endpointId)
        (.poll (lostReports index endpointId reason now) :: List.replicate n .advance) s =
          some t ∧
      t.world = (s.world.mapDispatcher fun d => d.markEndpointBad index endpointId reason now) ∧
      t.occupant = none ∧ t.calls = s.calls := by
  simp only [markEndpointBad_eq_reports]
  exact run_poll hfree (lostReports index endpointId reason now)

end Scene

end Scene

end OpcServer.App
