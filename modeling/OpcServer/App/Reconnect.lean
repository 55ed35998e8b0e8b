import OpcServer.App.EndpointStrand
import OpcServer.Core.Isolation
import Mathlib.Tactic.Linarith

/-! When an endpoint is connected to again. The first connect is made by `start`, the later
ones by polls that a tick begins. The transport is any: it may lose its connection at any
time, and a connect or a poll may end at once or much later, with any result. -/

namespace OpcServer.App

open Domain Project OpcServer.Core

/-- What an unfinished `poll_due_async` waits for: the connect, the run of its handler, or
the flush and the reads. -/
inductive PollStage where
  | connecting
  | connected (conn : Result Unit)
  | polling

/-- A connect attempt begun at `start`. If the latest attempt completed before it failed,
`failed` is the time of that completion. -/
structure ConnectAttempt where
  start : TimestampMs
  failed : Option TimestampMs

/-- The poll state of an endpoint with what `is_connected` says, the unfinished polls and
the last reading of the clock. The rest is history: the completion of the last attempt if
it failed, and all attempts. -/
structure PolledEndpoint where
  connected : Bool
  inflight : Bool := false
  nextReconnectMs : TimestampMs
  polls : List PollStage := []
  clock : TimestampMs
  failed : Option TimestampMs
  attempts : List ConnectAttempt

namespace PolledEndpoint

/-- `start` for one endpoint: its connect is begun and ended, and the clock read. -/
def start (endpoint : Endpoint) (began ended clock : TimestampMs) (conn : Result Unit) :
    PolledEndpoint :=
  let s : PolledEndpoint :=
    { connected := conn.isOk, nextReconnectMs := 0, clock := clock, failed := none,
      attempts := [⟨began, none⟩] }
  match conn with
  | .error _ => { s with
      nextReconnectMs := clock + max 0 endpoint.reconnectDelayMs, failed := some ended }
  | .ok () => s

section Poll
variable [Platform] (index : RuntimeIndex) (endpointId : String)

/-- The completion that `tick_endpoint` passes to `poll_due_async`. -/
def done (clock : TimestampMs) (r : Result Unit) (s : PolledEndpoint) : PolledEndpoint :=
  let delayMs := EndpointStrand.reconnectDelayMs index endpointId
  let s := { s with inflight := false, clock := clock }
  let s := if !s.connected then { s with nextReconnectMs := clock + delayMs }
    else { s with nextReconnectMs := 0 }
  match r with
  | .ok () => s
  | .error e =>
    if e.code = .connection then
      { s with connected := false, nextReconnectMs := clock + delayMs }
    else s

/-- `poll_due_async` up to its first asynchronous call. -/
def pollDueAsync (now clock : TimestampMs) (s : PolledEndpoint) : PolledEndpoint :=
  if !s.connected then
    match index.endpoint endpointId with
    | none => s.done index endpointId clock (.error (coreErr .notFound "endpoint missing"))
    | some _ => { s with
        polls := s.polls ++ [.connecting], attempts := s.attempts ++ [⟨now, s.failed⟩] }
  else { s with polls := s.polls ++ [.polling] }

def lose (s : PolledEndpoint) : PolledEndpoint := { s with connected := false }

/-- `tick_endpoint`. It asks the transport for its connection once, and `poll_due_async` a
second time; the connection may be lost in between. -/
def tickEndpoint (now clock : TimestampMs) (lost : Bool) (s : PolledEndpoint) : PolledEndpoint :=
  if s.inflight then s
  else
    let s := { s with inflight := true, clock := now }
    if !s.connected && s.nextReconnectMs ≠ 0 && now < s.nextReconnectMs then
      { s with inflight := false }
    else if lost then s.lose.pollDueAsync index endpointId now clock
    else s.pollDueAsync index endpointId now clock

end Poll

end PolledEndpoint

inductive PollAction where
  | tick (now clock : TimestampMs) (lost : Bool)
  /-- The transport completes a connect; later its handler runs. -/
  | connectDone (poll : ℕ) (time : TimestampMs) (conn : Result Unit)
  | handleConnect (poll : ℕ) (clock : TimestampMs)
  | finish (poll : ℕ) (clock : TimestampMs) (r : Result Unit)
  | lose

/-- The first and the last reading of the clock. -/
def PollAction.readings (clock : TimestampMs) : PollAction → TimestampMs × TimestampMs
  | .tick now clock _ => (now, clock)
  | .connectDone _ time _ => (time, time)
  | .handleConnect _ clock | .finish _ clock _ => (clock, clock)
  | .lose => (clock, clock)

namespace PolledEndpoint

section Steps
variable [Platform] (index : RuntimeIndex) (endpointId : String)

def perform : PollAction → PolledEndpoint → Option PolledEndpoint
  | .tick now clock lost, s => some (s.tickEndpoint index endpointId now clock lost)
  | .connectDone i time conn, s =>
    match s.polls[i]? with
    | some .connecting => some { s with
        connected := conn.isOk
        polls := s.polls.set i (.connected conn)
        clock := time
        failed := if conn.isOk then none else some time }
    | _ => none
  | .handleConnect i clock, s =>
    match s.polls[i]? with
    | some (.connected (.error e)) =>
      some ({ s with polls := s.polls.eraseIdx i, failed := some clock }.done index endpointId
        clock (.error e))
    | some (.connected (.ok ())) =>
      some { s with polls := s.polls.set i .polling, clock := clock }
    | _ => none
  | .finish i clock r, s =>
    match s.polls[i]? with
    | some .polling =>
      some ({ s with polls := s.polls.eraseIdx i }.done index endpointId clock r)
    | _ => none
  | .lose, s => some s.lose

/-- The clock does not go back from one reading to the next. -/
def step (action : PollAction) (s : PolledEndpoint) : Option PolledEndpoint :=
  let (first, last) := action.readings s.clock
  if s.clock ≤ first ∧ first ≤ last then s.perform index endpointId action else none

end Steps

/-- `start` has just returned. -/
def Started (endpoint : Endpoint) (s : PolledEndpoint) : Prop :=
  ∃ began ended clock conn, 0 < began ∧ began ≤ ended ∧ ended ≤ clock ∧
    s = start endpoint began ended clock conn

/-! ### The invariant -/

/-- One poll is unfinished while the flag is set and none otherwise. A failed attempt that
no success followed leaves the transport unconnected and, once its poll has ended, the next
attempt put off. -/
structure BacksOff (delayMs : ℤ) (s : PolledEndpoint) : Prop where
  single : s.polls.length = s.inflight.toNat
  positive : 0 < s.clock
  past : ∀ t ∈ s.failed, t ≤ s.clock
  unconnected : s.connected = true → s.failed = none
  refused : s.connected = true → ∀ e, .connected (.error e) ∉ s.polls
  waits : s.inflight = false → ∀ t ∈ s.failed,
    0 < s.nextReconnectMs ∧ t + delayMs ≤ s.nextReconnectMs
  attempts : ∀ a ∈ s.attempts, ∀ t ∈ a.failed, t + delayMs ≤ a.start

section Invariant
variable [Platform] {index : RuntimeIndex} {endpointId : String} {s s' : PolledEndpoint}

theorem reconnectDelayMs_nonneg (index : RuntimeIndex) (endpointId : String) :
    0 ≤ EndpointStrand.reconnectDelayMs index endpointId := by
  unfold EndpointStrand.reconnectDelayMs
  split
  · exact le_max_left _ _
  · decide

/-- The error that closes the connection. -/
def connectionError : Result Unit → Bool
  | .ok () => false
  | .error e => e.code = .connection

/-- A completion leaves the next attempt free while the connection stays. -/
theorem done_eq (clock : TimestampMs) (r : Result Unit) (s : PolledEndpoint) :
    s.done index endpointId clock r =
      let up := s.connected && !connectionError r
      { s with
        connected := up
        inflight := false
        nextReconnectMs :=
          if up then 0 else clock + EndpointStrand.reconnectDelayMs index endpointId
        clock := clock } := by
  unfold done
  cases hconn : s.connected with
  | false =>
    cases r with
    | ok u => simp
    | error e => by_cases he : e.code = .connection <;> simp [he]
  | true =>
    cases r with
    | ok u => simp [connectionError]
    | error e => by_cases he : e.code = .connection <;> simp [he, connectionError]

/-- The end of the only poll. -/
theorem backsOff_done {clock : TimestampMs} (r : Result Unit) (hpolls : s.polls = [])
    (hpositive : 0 < clock) (hpast : ∀ t ∈ s.failed, t ≤ clock)
    (hconnected : s.connected = true → s.failed = none)
    (hattempts : ∀ a ∈ s.attempts, ∀ t ∈ a.failed,
      t + EndpointStrand.reconnectDelayMs index endpointId ≤ a.start) :
    (s.done index endpointId clock r).BacksOff
      (EndpointStrand.reconnectDelayMs index endpointId) := by
  have hup : (s.connected && !connectionError r) = true → s.failed = none := by
    intro h
    exact hconnected (Bool.and_elim_left h)
  rw [done_eq]
  refine ⟨by simp [hpolls], hpositive, hpast, hup, by simp [hpolls], fun _ t ht => ?_, hattempts⟩
  have hdelay := reconnectDelayMs_nonneg index endpointId
  have hle := hpast t ht
  have hdown : ¬ (s.connected && !connectionError r) = true := by
    intro h
    rw [hup h] at ht
    cases ht
  simp only [if_neg hdown]
  exact ⟨by linarith, by linarith⟩

variable {now clock : TimestampMs}

/-- A poll begun by a tick that found no other one unfinished. -/
theorem backsOff_pollDueAsync (hs : s.polls = []) (hinflight : s.inflight = true)
    (hpositive : 0 < s.clock) (hclock : s.clock ≤ clock) (hpast : ∀ t ∈ s.failed, t ≤ s.clock)
    (hconnected : s.connected = true → s.failed = none)
    (hdue : ∀ t ∈ s.failed, t + EndpointStrand.reconnectDelayMs index endpointId ≤ now)
    (hattempts : ∀ a ∈ s.attempts, ∀ t ∈ a.failed,
      t + EndpointStrand.reconnectDelayMs index endpointId ≤ a.start) :
    (s.pollDueAsync index endpointId now clock).BacksOff
      (EndpointStrand.reconnectDelayMs index endpointId) := by
  have hwaits : s.inflight = false → ∀ t ∈ s.failed, 0 < s.nextReconnectMs ∧
      t + EndpointStrand.reconnectDelayMs index endpointId ≤ s.nextReconnectMs := by
    intro h
    rw [hinflight] at h
    cases h
  unfold pollDueAsync
  split_ifs
  · split
    · exact backsOff_done _ hs (hpositive.trans_le hclock)
        (fun t ht => (hpast t ht).trans hclock) hconnected hattempts
    · refine ⟨by simp [hs, hinflight], hpositive, hpast, hconnected, by simp [hs], hwaits, ?_⟩
      intro a ha
      rcases List.mem_append.mp ha with ha | ha
      · exact hattempts a ha
      · rw [List.mem_singleton.mp ha]
        exact hdue
  · exact ⟨by simp [hs, hinflight], hpositive, hpast, hconnected, by simp [hs], hwaits, hattempts⟩

theorem BacksOff.tickEndpoint
    (h : s.BacksOff (EndpointStrand.reconnectDelayMs index endpointId)) (hnow : s.clock ≤ now)
    (hclock : now ≤ clock) (lost : Bool) :
    (s.tickEndpoint index endpointId now clock lost).BacksOff
      (EndpointStrand.reconnectDelayMs index endpointId) := by
  have hpositive := h.positive.trans_le hnow
  have hpast : ∀ t ∈ s.failed, t ≤ now := fun t ht => (h.past t ht).trans hnow
  unfold PolledEndpoint.tickEndpoint
  cases hinflight : s.inflight with
  | true => exact h
  | false =>
    have hpolls : s.polls = [] := by
      rw [← List.length_eq_zero_iff, h.single, hinflight]
      rfl
    simp only [Bool.false_eq_true, if_false]
    split_ifs with hwait hlost
    · exact ⟨by simp [hpolls], hpositive, hpast, h.unconnected, h.refused,
        fun _ => h.waits hinflight, h.attempts⟩
    all_goals
      -- either the first reading found a connection, or the delay is over
      have hdue : ∀ t ∈ s.failed, t + EndpointStrand.reconnectDelayMs index endpointId ≤ now := by
        intro t ht
        have hdown : s.connected = false := by
          by_contra hup
          rw [h.unconnected (by simpa using hup)] at ht
          cases ht
        obtain ⟨hnext, hle⟩ := h.waits hinflight t ht
        have hover : ¬ now < s.nextReconnectMs := by
          intro hlt
          exact hwait (by simp [hdown, hnext.ne', hlt])
        linarith
    · exact backsOff_pollDueAsync hpolls rfl hpositive hclock hpast
        (fun hup => absurd hup Bool.false_ne_true) hdue h.attempts
    · exact backsOff_pollDueAsync hpolls rfl hpositive hclock hpast h.unconnected hdue h.attempts

omit [Platform] in
/-- An unfinished poll is the only one. -/
theorem BacksOff.polls_eq {delayMs : ℤ} (h : s.BacksOff delayMs) {i : ℕ} {stage : PollStage}
    (hi : s.polls[i]? = some stage) : i = 0 ∧ s.polls = [stage] ∧ s.inflight = true := by
  have hsingle := h.single
  have hlt := (List.getElem?_eq_some_iff.mp hi).1
  cases hinflight : s.inflight with
  | false =>
    rw [hinflight, Bool.toNat_false] at hsingle
    omega
  | true =>
    rw [hinflight, Bool.toNat_true] at hsingle
    obtain ⟨poll, hpoll⟩ := List.length_eq_one_iff.mp hsingle
    obtain rfl : i = 0 := by omega
    rw [hpoll] at hi
    exact ⟨rfl, by rw [hpoll, Option.some.inj hi], rfl⟩

theorem BacksOff.step {action : PollAction}
    (h : s.BacksOff (EndpointStrand.reconnectDelayMs index endpointId))
    (hstep : s.step index endpointId action = some s') :
    s'.BacksOff (EndpointStrand.reconnectDelayMs index endpointId) := by
  unfold PolledEndpoint.step at hstep
  simp only at hstep
  split_ifs at hstep with hclock
  obtain ⟨hfirst, hlast⟩ := hclock
  unfold perform at hstep
  cases action with
  | tick now clock lost =>
    obtain rfl := Option.some.inj hstep
    exact h.tickEndpoint hfirst hlast lost
  | connectDone i time conn =>
    simp only [PollAction.readings] at hfirst
    simp only at hstep
    split at hstep
    · rename_i hi
      obtain ⟨rfl, hpolls, hinflight⟩ := h.polls_eq hi
      obtain rfl := Option.some.inj hstep
      refine ⟨by simp [hpolls, hinflight], h.positive.trans_le hfirst, ?_, ?_, ?_, ?_, h.attempts⟩
      · simp only
        split_ifs <;> simp
      · intro hok
        exact if_pos hok
      · rintro hok e he
        rw [hpolls, List.set_cons_zero, List.mem_singleton] at he
        obtain rfl := PollStage.connected.inj he
        cases hok
      · intro hnot
        exact absurd hnot (by simp [hinflight])
    · cases hstep
  | handleConnect i clock =>
    simp only [PollAction.readings] at hfirst
    simp only at hstep
    split at hstep
    · rename_i e hi
      obtain ⟨rfl, hpolls, -⟩ := h.polls_eq hi
      obtain rfl := Option.some.inj hstep
      refine backsOff_done _ (by simp [hpolls]) (h.positive.trans_le hfirst) ?_ ?_ h.attempts
      · rintro t ⟨⟩
        exact le_rfl
      · intro hup
        exact absurd (List.mem_of_getElem? hi) (h.refused hup e)
    · rename_i hi
      obtain ⟨rfl, hpolls, hinflight⟩ := h.polls_eq hi
      obtain rfl := Option.some.inj hstep
      refine ⟨by simp [hpolls, hinflight], h.positive.trans_le hfirst,
        fun t ht => (h.past t ht).trans hfirst, h.unconnected, by simp [hpolls], ?_, h.attempts⟩
      intro hnot
      exact absurd hnot (by simp [hinflight])
    · cases hstep
  | finish i clock r =>
    simp only [PollAction.readings] at hfirst
    simp only at hstep
    split at hstep
    · rename_i hi
      obtain ⟨rfl, hpolls, -⟩ := h.polls_eq hi
      obtain rfl := Option.some.inj hstep
      exact backsOff_done r (by simp [hpolls]) (h.positive.trans_le hfirst)
        (fun t ht => (h.past t ht).trans hfirst) h.unconnected h.attempts
    · cases hstep
  | lose =>
    obtain rfl := Option.some.inj hstep
    exact ⟨h.single, h.positive, h.past, fun hup => absurd hup Bool.false_ne_true,
      fun hup => absurd hup Bool.false_ne_true, h.waits, h.attempts⟩

theorem backsOff_started {endpoint : Endpoint} (hep : index.endpoint endpoint.id = some endpoint)
    (hs : s.Started endpoint) :
    s.BacksOff (EndpointStrand.reconnectDelayMs index endpoint.id) := by
  obtain ⟨began, ended, clock, conn, hbegan, hended, hclock, rfl⟩ := hs
  have hpositive : 0 < clock := by linarith
  cases conn with
  | ok u => exact ⟨rfl, hpositive, by simp [start], by simp [start], by simp [start], by simp [start],
      by simp [start]⟩
  | error e =>
    have hdelay : EndpointStrand.reconnectDelayMs index endpoint.id =
        max 0 endpoint.reconnectDelayMs := by
      simp only [EndpointStrand.reconnectDelayMs, hep]
    have hnonneg := reconnectDelayMs_nonneg index endpoint.id
    refine ⟨rfl, hpositive, ?_, nofun, nofun, fun _ => ?_, by simp [start]⟩
    · rintro t ⟨⟩
      exact hclock
    · rintro t ⟨⟩
      simp only [start, ← hdelay]
      exact ⟨by linarith, by linarith⟩

/-- A tick that finds no poll unfinished and is not held back begins one. -/
theorem length_polls_tickEndpoint (hinflight : s.inflight = false)
    (hep : (index.endpoint endpointId).isSome = true)
    (hdue : s.connected = true ∨ s.nextReconnectMs ≤ now) (lost : Bool) :
    (s.tickEndpoint index endpointId now clock lost).polls.length = s.polls.length + 1 := by
  obtain ⟨ep, hep⟩ := Option.isSome_iff_exists.mp hep
  have hfree : ¬ (!s.connected && s.nextReconnectMs ≠ 0 && now < s.nextReconnectMs) = true := by
    rcases hdue with hup | hle
    · simp [hup]
    · simp [hle]
  unfold PolledEndpoint.tickEndpoint
  simp only [hinflight, Bool.false_eq_true, if_false, if_neg hfree]
  split_ifs
  · simp [pollDueAsync, PolledEndpoint.lose, hep]
  · simp only [pollDueAsync, hep]
    split_ifs <;> simp

end Invariant

/-! ### The strands of the endpoint -/

section Strands
variable [Platform] {index : RuntimeIndex} {endpointId : String}
variable {s : PolledEndpoint} {strand : EndpointStrand}

/-- The strands of the endpoint hold the same flag, delay and connection. -/
structure Abstracts (s : PolledEndpoint) (strand : EndpointStrand) : Prop where
  connected : s.connected = strand.transport.connected
  inflight : s.inflight = strand.inflight
  nextReconnectMs : s.nextReconnectMs = strand.nextReconnectMs

/-- What is posted to the transport's strand sets neither flag nor delay. -/
theorem execute_flags (strand : EndpointStrand) (job : Job) :
    (strand.execute job).inflight = strand.inflight ∧
      (strand.execute job).nextReconnectMs = strand.nextReconnectMs := by
  cases job with
  | connect now => exact ⟨rfl, rfl⟩
  | transact t =>
    simp only [EndpointStrand.execute]
    split_ifs
    · cases t <;> exact ⟨rfl, rfl⟩
    · exact ⟨rfl, rfl⟩

theorem close_flags (strand : EndpointStrand) :
    strand.close.inflight = strand.inflight ∧
      strand.close.nextReconnectMs = strand.nextReconnectMs := by
  have hfold : ∀ (jobs : List Job) (strand : EndpointStrand),
      (jobs.foldl EndpointStrand.execute strand).inflight = strand.inflight ∧
        (jobs.foldl EndpointStrand.execute strand).nextReconnectMs = strand.nextReconnectMs := by
    intro jobs
    induction jobs with
    | nil => exact fun _ => ⟨rfl, rfl⟩
    | cons job rest ih =>
      intro strand
      obtain ⟨hinflight, hnext⟩ := ih (strand.execute job)
      obtain ⟨hinflight', hnext'⟩ := execute_flags strand job
      exact ⟨hinflight.trans hinflight', hnext.trans hnext'⟩
  exact hfold strand.transport.posted _

/-- The completion that `tick_endpoint` passes on, for both. -/
theorem Abstracts.done (h : s.Abstracts strand) (clock : TimestampMs) (r : Result Unit) :
    (s.done index endpointId clock r).Abstracts (strand.done index endpointId clock r) := by
  have hlost : ∀ {s : PolledEndpoint} {strand : EndpointStrand}, s.Abstracts strand →
      ({ s with nextReconnectMs :=
        clock + EndpointStrand.reconnectDelayMs index endpointId } : PolledEndpoint).Abstracts
          (strand.markLost index endpointId clock) := by
    intro s strand h
    exact ⟨h.connected, h.inflight, rfl⟩
  have hclosed : ∀ {s : PolledEndpoint} {strand : EndpointStrand}, s.Abstracts strand →
      ({ s with connected := false } : PolledEndpoint).Abstracts strand.close := by
    intro s strand h
    obtain ⟨hinflight, hnext⟩ := close_flags strand
    exact ⟨rfl, h.inflight.trans hinflight.symm, h.nextReconnectMs.trans hnext.symm⟩
  have hflag : ({ s with inflight := false, clock := clock } : PolledEndpoint).Abstracts
      { strand with inflight := false } := ⟨h.connected, rfl, h.nextReconnectMs⟩
  have hfree : ({ s with inflight := false, clock := clock, nextReconnectMs := 0 } :
      PolledEndpoint).Abstracts { strand with inflight := false, nextReconnectMs := 0 } :=
    ⟨h.connected, rfl, rfl⟩
  have hasked : (if !s.connected then { s with
        inflight := false, clock := clock,
        nextReconnectMs := clock + EndpointStrand.reconnectDelayMs index endpointId }
      else { s with inflight := false, clock := clock, nextReconnectMs := 0 }).Abstracts
        (if !strand.transport.connected then
          EndpointStrand.markLost index endpointId clock { strand with inflight := false }
        else { strand with inflight := false, nextReconnectMs := 0 }) := by
    rw [← h.connected]
    split_ifs
    · exact hlost hflag
    · exact hfree
  unfold PolledEndpoint.done EndpointStrand.done
  cases r with
  | ok u => exact hasked
  | error e =>
    show Abstracts (ite (e.code = ErrorCode.connection) _ _) (ite (e.code = ErrorCode.connection) _ _)
    by_cases he : e.code = .connection
    · rw [if_pos he, if_pos he]
      exact hlost (hclosed hasked)
    · rw [if_neg he, if_neg he]
      exact hasked

/-- A tick of the strand, in which no connection is lost between the two questions. -/
theorem Abstracts.tickEndpoint (h : s.Abstracts strand) (now clock : TimestampMs) :
    (s.tickEndpoint index endpointId now clock false).Abstracts
      (strand.tickEndpoint index endpointId now clock) := by
  have hflag : ({ s with inflight := true, clock := now } : PolledEndpoint).Abstracts
      { strand with inflight := true, nextReconnectMs := s.nextReconnectMs } :=
    ⟨h.connected, rfl, rfl⟩
  unfold PolledEndpoint.tickEndpoint EndpointStrand.tickEndpoint pollDueAsync
  simp only [← h.connected, ← h.inflight, Bool.false_eq_true, if_false]
  rw [← h.nextReconnectMs]
  cases hinflight : s.inflight with
  | true => exact h
  | false =>
    simp only [Bool.false_eq_true, if_false]
    split_ifs with hwait hdown
    · exact ⟨h.connected, by rw [← h.inflight, hinflight], h.nextReconnectMs⟩
    · cases index.endpoint endpointId with
      | none => exact hflag.done clock _
      | some ep => exact ⟨h.connected, rfl, rfl⟩
    · exact ⟨h.connected, rfl, rfl⟩

end Strands

end PolledEndpoint

section Accepted
variable [Platform]

/-- For every run after `start`: no attempt is begun before the delay after the latest
failed one is over, no two polls are unfinished, and a poll that ends clears the flag, so
that a later tick begins the next. -/
theorem reconnects_back_off {lib : JsonLibrary} (hlib : lib.ReportsViolations)
    {text sourceName : String} (hok : (loadJsonText lib text sourceName).ok = true)
    {endpoint : Endpoint} (hmem : endpoint ∈ (loadJsonText lib text sourceName).project.endpoints)
    {s : PolledEndpoint} :
    let index := RuntimeIndex.build (loadJsonText lib text sourceName).project
    Transition.Reachable (PolledEndpoint.step index endpoint.id) Transition.Free
      (PolledEndpoint.Started endpoint) s →
    (∀ a ∈ s.attempts, ∀ t, a.failed = some t → t + endpoint.reconnectDelayMs ≤ a.start) ∧
      s.polls.length ≤ 1 ∧
      (∀ action s', s.step index endpoint.id action = some s' →
        s'.polls.length < s.polls.length → s'.inflight = false) ∧
      (s.polls = [] → s.inflight = false ∧ ∀ now clock lost,
        s.connected = true ∨ s.nextReconnectMs ≤ now →
          (s.tickEndpoint index endpoint.id now clock lost).polls.length = 1) := by
  intro index hs
  have hcons := loadJsonText_consistent hlib hok
  have hep : index.endpoint endpoint.id = some endpoint :=
    find?_of_nodup Endpoint.id hcons.endpointIds.1 hmem
  have hinv : s.BacksOff (EndpointStrand.reconnectDelayMs index endpoint.id) := by
    apply hs.invariant
    · intro s hstarted
      exact PolledEndpoint.backsOff_started hep hstarted
    · intro s t action _ h _ hstep
      exact h.step hstep
  have hdelay : endpoint.reconnectDelayMs ≤ EndpointStrand.reconnectDelayMs index endpoint.id := by
    simp only [EndpointStrand.reconnectDelayMs, hep]
    exact le_max_right _ _
  refine ⟨fun a ha t ht => ?_, ?_, fun action s' hstep hless => ?_, fun hpolls => ?_⟩
  · have := hinv.attempts a ha t ht
    linarith
  · rw [hinv.single]
    exact Bool.toNat_le _
  · have hsingle := (hinv.step hstep).single
    have hbefore := hinv.single
    have hle := s.inflight.toNat_le
    exact Bool.toNat_eq_zero.mp (by omega)
  · have hinflight : s.inflight = false := by
      have hsingle := hinv.single
      rw [hpolls, List.length_nil] at hsingle
      exact Bool.toNat_eq_zero.mp hsingle.symm
    refine ⟨hinflight, fun now clock lost hdue => ?_⟩
    have hsome : (index.endpoint endpoint.id).isSome = true := by rw [hep]; rfl
    rw [PolledEndpoint.length_polls_tickEndpoint hinflight hsome hdue, hpolls]
    rfl

end Accepted

attribute [local instance] exactPlatform

/-- The first connect fails at 1000. The tick at 2999 waits, and the one at 3000 connects. -/
theorem north_backs_off : twoLines.ok = true ∧ ∃ endpoint ∈ twoLines.project.endpoints,
    endpoint.reconnectDelayMs = 2000 ∧ ∃ s : PolledEndpoint,
      s.attempts.map (fun a => (a.start, a.failed)) = [(900, none), (3000, some 1000)] ∧
      (∀ a ∈ s.attempts, ∀ t, a.failed = some t → t + endpoint.reconnectDelayMs ≤ a.start) ∧
      s.polls.length ≤ 1 := by
  have hok : twoLines.ok = true := by decide +kernel
  let endpoint : Endpoint := { id := "north", host := "10.0.0.2" }
  have hmem : endpoint ∈ twoLines.project.endpoints := by decide +kernel
  let refused : Result Unit := .error (coreErr .connection "connect failed")
  have hend : (Transition.run
      (PolledEndpoint.step (RuntimeIndex.build twoLines.project) endpoint.id)
      [.tick 2999 2999 false, .tick 3000 3000 false]
      (PolledEndpoint.start endpoint 900 1000 1000 refused)).map
        (fun s => s.attempts.map fun a => (a.start, a.failed)) =
      some [(900, none), (3000, some 1000)] := by decide +kernel
  obtain ⟨s, hrun, hattempts⟩ := Option.map_eq_some_iff.mp hend
  have hstarted : PolledEndpoint.Started endpoint
      (PolledEndpoint.start endpoint 900 1000 1000 refused) :=
    ⟨900, 1000, 1000, refused, by decide, by decide, le_rfl, rfl⟩
  have hreach : Transition.Reachable
      (PolledEndpoint.step (RuntimeIndex.build twoLines.project) endpoint.id) Transition.Free
      (PolledEndpoint.Started endpoint) s := (Transition.Reachable.start hstarted).of_run _ hrun
  have h := reconnects_back_off (JsonLibrary.reading_reports _) hok hmem hreach
  exact ⟨hok, endpoint, hmem, rfl, s, hattempts, h.1, h.2.1⟩

end OpcServer.App
