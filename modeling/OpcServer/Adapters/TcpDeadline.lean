import OpcServer.Adapters.TcpAligned

/-! The deadline of a TCP transaction. When it expires it cancels the operation that is on
the socket, and so ends the transaction without the peer. When it runs while an operation has
ended and waits for its handler, and that handler goes on, there is nothing to cancel, and
the next operation starts without a deadline: then the transaction ends only when the peer
sends or the connection breaks. And when `close` stops the worker before the handler of the
operation that it aborted has run, the transaction does not end until the next connect. -/

namespace OpcServer.Adapters

open Domain

/-- What the worker does without the peer and the caller. -/
def TcpAction.isOwn : TcpAction → Bool
  | .expire _ => true
  | .deadline _ => true
  | .handle _ => true
  | _ => false

namespace TcpLink

/-- The worker can end the transaction in progress. -/
def EndsAlone (s : TcpLink) : Prop :=
  ∃ actions : List TcpAction, (∀ a ∈ actions, a.isOwn = true) ∧
    ∃ t, Transition.run step actions s = some t ∧ t.calls = []

/-- The handlers that wait end the transaction: of the operation that has ended, or of
the next one, which fails on a closed socket. -/
def Ending (s : TcpLink) (c : TcpCall) : Prop :=
  ∃ ended, c.ended = some ended ∧
    (s.client.connected = false ∨ ∃ result, c.handler ended = .returns result)

/-- The worker is there, and a deadline watches over the transaction, or it is ending. -/
def Watched (s : TcpLink) (c : TcpCall) : Prop :=
  s.running = true ∧ (c.armed = true ∨ c.serial ∈ s.expired ∨ s.Ending c)

/-- The deadline of the transaction in progress runs while an operation is on the socket, or
when it no longer matters; and the worker is not stopped under a transaction. -/
def Timely : TcpAction → TcpLink → Prop
  | .deadline handler, s => ∀ c, s.calls = [c] → s.expired[handler]? = some c.serial →
    c.ended = none ∨ s.Ending c
  | .stop, s => s.calls = []
  | _, _ => True

theorem finish_calls {s : TcpLink} {c : TcpCall} (hc : s.calls = [c])
    (result : Result (List UInt8)) : (s.finish 0 c result).calls = [] := by
  unfold finish
  rw [hc]
  split_ifs
  · rfl
  · rfl

theorem step_handle {s : TcpLink} {c : TcpCall} (hc : s.calls = [c]) (hrunning : s.running = true)
    {ended : Ended} (hended : c.ended = some ended) :
    step (.handle 0) s = some (s.handle 0 c ended) := by
  simp only [step, hc, List.getElem?_cons_zero, hended, hrunning, if_true]

theorem handle_next {s : TcpLink} {c : TcpCall} (hc : s.calls = [c]) {ended : Ended}
    {stage : Stage} {moved : List UInt8} (hnext : c.handler ended = .next stage moved) :
    s.handle 0 c ended =
      { s with calls := [{ c with stage := stage, moved := moved, ended := s.launch }] } := by
  simp only [TcpLink.handle, hnext, hc, List.eraseIdx_zero, List.tail_cons, List.nil_append]

theorem Ending.endsAlone {s : TcpLink} {c : TcpCall} (hc : s.calls = [c])
    (hrunning : s.running = true) (h : s.Ending c) : s.EndsAlone := by
  obtain ⟨ended, hended, h⟩ := h
  have hstep := step_handle hc hrunning hended
  cases hh : c.handler ended with
  | returns result =>
    refine ⟨[.handle 0], by simp [TcpAction.isOwn], s.finish 0 c result, ?_, finish_calls hc result⟩
    rw [Transition.run_cons, hstep, TcpLink.handle, hh]
    rfl
  | next stage moved =>
    -- the socket is closed, and the next operation fails at once
    have hclosed : s.client.connected = false := by
      rcases h with h | ⟨result, h⟩
      · exact h
      · rw [hh] at h
        cases h
    let failed : TcpCall := { c with
      stage := stage, moved := moved, ended := some (.error (.other "Bad file descriptor")) }
    obtain ⟨err, hover, -⟩ := handler_error failed (.other "Bad file descriptor")
    have hfirst : s.handle 0 c ended = { s with calls := [failed] } := by
      rw [handle_next hc hh]
      simp only [launch, hclosed, Bool.false_eq_true, if_false, failed]
    have hsecond : step (.handle 0) { s with calls := [failed] } =
        some (finish { s with calls := [failed] } 0 failed (.error err)) := by
      rw [step_handle (s := { s with calls := [failed] }) rfl hrunning rfl]
      simp only [TcpLink.handle, hover]
    refine ⟨[.handle 0, .handle 0], by simp [TcpAction.isOwn],
      finish { s with calls := [failed] } 0 failed (.error err), ?_, finish_calls rfl _⟩
    rw [Transition.run_cons, hstep, hfirst, Option.bind_some, Transition.run_cons, hsecond]
    rfl

/-- One more step of the worker. -/
theorem EndsAlone.cons {s t : TcpLink} {action : TcpAction} (hown : action.isOwn = true)
    (hstep : step action s = some t) (h : t.EndsAlone) : s.EndsAlone := by
  obtain ⟨actions, hall, u, hrun, hu⟩ := h
  refine ⟨action :: actions, ?_, u, ?_, hu⟩
  · intro a ha
    rcases List.mem_cons.mp ha with rfl | ha
    · exact hown
    · exact hall a ha
  · rw [Transition.run_cons, hstep]
    exact hrun

theorem ending_cancel {s : TcpLink} {c : TcpCall} (hnone : c.ended = none) :
    s.Ending c.cancel := by
  obtain ⟨err, hover, -⟩ := handler_error c.cancel .aborted
  refine ⟨.error .aborted, ?_, .inr ⟨.error err, hover⟩⟩
  simp only [TcpCall.cancel, hnone]

theorem step_deadline {s : TcpLink} (h : s.Aligned) {c : TcpCall} (hc : s.calls = [c])
    (hrunning : s.running = true) {handler : ℕ} (hhandler : s.expired[handler]? = some c.serial) :
    step (.deadline handler) s =
      some { s with expired := s.expired.eraseIdx handler, calls := [c.cancel] } := by
  have hf := (h.call c hc).2.1
  simp only [step, hhandler, hrunning, if_true]
  rw [show TcpLink.finished s c.serial = false from hf]
  simp only [Bool.false_eq_true, if_false, cancel, hc, List.map_cons, List.map_nil]

theorem endsAlone_of_expired {s : TcpLink} (h : s.Aligned) {c : TcpCall} (hc : s.calls = [c])
    (hrunning : s.running = true) (hnone : c.ended = none) (hexpired : c.serial ∈ s.expired) :
    s.EndsAlone := by
  obtain ⟨handler, hhandler⟩ := List.getElem?_of_mem hexpired
  exact .cons rfl (step_deadline h hc hrunning hhandler)
    (Ending.endsAlone rfl hrunning (ending_cancel hnone))

/-- While an operation is on the socket, the deadline can end the transaction. -/
theorem endsAlone_of_pending {s : TcpLink} (h : s.Aligned) {c : TcpCall} (hc : s.calls = [c])
    (hrunning : s.running = true) (hnone : c.ended = none)
    (hwatch : c.armed = true ∨ c.serial ∈ s.expired) : s.EndsAlone := by
  rcases hwatch with harmed | hexpired
  · have hstep : step (.expire 0) s = some { s with
        calls := [{ c with armed := false }], expired := s.expired ++ [c.serial] } := by
      simp only [step, hc, List.getElem?_cons_zero, hrunning, harmed, and_self, if_true,
        List.set_cons_zero]
    apply EndsAlone.cons rfl hstep
    have hone : OneAtATime (.expire 0) s := trivial
    exact endsAlone_of_expired (step_aligned h hone hstep) rfl hrunning hnone
      (List.mem_append_right _ (List.mem_singleton_self _))
  · exact endsAlone_of_expired h hc hrunning hnone hexpired

/-- The handler of an operation that has ended starts the next one. -/
theorem step_handle_next {s : TcpLink} {c : TcpCall} (hc : s.calls = [c])
    (hrunning : s.running = true) {ended : Ended} (hended : c.ended = some ended)
    (hending : ¬ s.Ending c) : ∃ stage moved, step (.handle 0) s = some { s with
      calls := [{ c with stage := stage, moved := moved, ended := none }] } := by
  have hopen : s.client.connected = true := by
    rw [← Bool.not_eq_false]
    intro hclosed
    exact hending ⟨ended, hended, .inl hclosed⟩
  cases hh : c.handler ended with
  | returns result => exact absurd ⟨ended, hended, .inr ⟨result, hh⟩⟩ hending
  | next stage moved =>
    refine ⟨stage, moved, ?_⟩
    rw [step_handle hc hrunning hended, handle_next hc hh]
    simp only [launch, hopen, if_true]

theorem Watched.endsAlone {s : TcpLink} (h : s.Aligned) {c : TcpCall} (hc : s.calls = [c])
    (hwatch : s.Watched c) : s.EndsAlone := by
  obtain ⟨hrunning, hwatch⟩ := hwatch
  by_cases hending : s.Ending c
  · exact hending.endsAlone hc hrunning
  have hwatch' : c.armed = true ∨ c.serial ∈ s.expired := by
    rcases hwatch with harmed | hexpired | h'
    · exact .inl harmed
    · exact .inr hexpired
    · exact absurd h' hending
  cases hended : c.ended with
  | none => exact endsAlone_of_pending h hc hrunning hended hwatch'
  | some ended =>
    obtain ⟨stage, moved, hstep⟩ := step_handle_next hc hrunning hended hending
    have hone : OneAtATime (.handle 0) s := trivial
    exact .cons rfl hstep
      (endsAlone_of_pending (step_aligned h hone hstep) rfl hrunning rfl hwatch')

/-- Without a worker, or without a deadline, nothing that the worker does ends the
transaction. -/
theorem step_unwatched {s t : TcpLink} (h : s.Aligned) {c : TcpCall} (hc : s.calls = [c])
    (hwatch : ¬ s.Watched c) {action : TcpAction} (hown : action.isOwn = true)
    (hstep : step action s = some t) : ∃ c', t.calls = [c'] ∧ ¬ t.Watched c' := by
  have hparts : s.running = true → ¬ c.armed = true ∧ c.serial ∉ s.expired ∧ ¬ s.Ending c := by
    intro hrunning
    simpa only [Watched, hrunning, true_and, not_or] using hwatch
  cases h.steps hstep with
  | connect | start | refuse | close | stop | answer | arrive | complete | breaks => cases hown
  | expire hd hrunning harmed =>
    cases hc.symm.trans hd
    exact absurd harmed (hparts hrunning).1
  | stale hserial hrunning =>
    obtain ⟨harmed, hexpired, hending⟩ := hparts hrunning
    refine ⟨c, hc, ?_⟩
    simp only [Watched, not_and, not_or]
    exact fun _ => ⟨harmed, fun hs => hexpired (List.mem_of_mem_eraseIdx hs), hending⟩
  | deadline hd hrunning hserial =>
    cases hc.symm.trans hd
    exact absurd (List.mem_of_getElem? hserial) (hparts hrunning).2.1
  | handle hd hrunning hended =>
    cases hc.symm.trans hd
    obtain ⟨harmed, hexpired, hending⟩ := hparts hrunning
    obtain ⟨stage, moved, hnext⟩ := step_handle_next hc hrunning hended hending
    rw [step_handle hc hrunning hended] at hnext
    rw [Option.some.inj hnext]
    refine ⟨_, rfl, ?_⟩
    simp only [Watched, Ending, not_and, not_or]
    exact fun _ => ⟨harmed, hexpired, by simp⟩

theorem isOwn_oneAtATime {action : TcpAction} (h : action.isOwn = true) (s : TcpLink) :
    OneAtATime action s := by
  cases action with
  | expire call => trivial
  | deadline handler => trivial
  | handle call => trivial
  | connect ok => cases h
  | start unit pdu => cases h
  | close => cases h
  | stop => cases h
  | answer request reply => cases h
  | arrive count => cases h
  | complete call count => cases h
  | breaks call e => cases h

theorem endsAlone_iff {s : TcpLink} (h : s.Aligned) {c : TcpCall} (hc : s.calls = [c]) :
    s.EndsAlone ↔ s.Watched c := by
  constructor
  · rintro ⟨actions, hown, t, hrun, ht⟩
    by_contra hwatch
    induction actions generalizing s c with
    | nil =>
      cases hrun
      rw [hc] at ht
      cases ht
    | cons action rest ih =>
      obtain ⟨u, hu, hrest⟩ := Option.bind_eq_some_iff.mp hrun
      have hfirst := hown action List.mem_cons_self
      obtain ⟨c', hc', hwatch'⟩ := step_unwatched h hc hwatch hfirst hu
      exact ih (step_aligned h (isOwn_oneAtATime hfirst s) hu) hc'
        (fun a ha => hown a (List.mem_cons_of_mem _ ha)) hrest hwatch'
  · exact Watched.endsAlone h hc

/-! ### Where the deadline is lost -/

theorem cancel_of_ended {c : TcpCall} (h : c.ended ≠ none) : c.cancel = c := by
  unfold TcpCall.cancel
  split
  · next hnone => exact absurd hnone h
  · rfl

theorem Ending.ended {s : TcpLink} {c : TcpCall} (h : s.Ending c) : c.ended ≠ none := by
  obtain ⟨ended, hended, -⟩ := h
  rw [hended]
  exact Option.some_ne_none ended

theorem watched_handle {s t : TcpLink} {c : TcpCall} (hc : s.calls = [c]) (hwatch : s.Watched c)
    {ended : Ended} (hended : c.ended = some ended) (hstep : t = s.handle 0 c ended) :
    ∀ c', t.calls = [c'] → t.Watched c' := by
  intro c' hc'
  subst hstep
  obtain ⟨hrunning, hwatch⟩ := hwatch
  cases hh : c.handler ended with
  | returns result =>
    have hover : s.handle 0 c ended = s.finish 0 c result := by rw [TcpLink.handle, hh]
    rw [hover, finish_calls hc] at hc'
    cases hc'
  | next stage moved =>
    rw [handle_next hc hh] at hc' ⊢
    cases hc'
    refine ⟨hrunning, ?_⟩
    by_cases hopen : s.client.connected = true
    · rcases hwatch with harmed | hexpired | ⟨ended', hended', hclosed | ⟨result, hover⟩⟩
      · exact .inl harmed
      · exact .inr (.inl hexpired)
      · rw [hopen] at hclosed
        cases hclosed
      · cases hended.symm.trans hended'
        rw [hh] at hover
        cases hover
    · have hclosed : s.client.connected = false := Bool.eq_false_iff.mpr hopen
      refine .inr (.inr ⟨.error (.other "Bad file descriptor"), ?_, .inl hclosed⟩)
      simp only [launch, hclosed, Bool.false_eq_true, if_false]

/-- The deadline of another transaction has no effect. -/
theorem watched_stale {s : TcpLink} (h : s.Aligned) {c : TcpCall} (hc : s.calls = [c])
    (hwatch : s.Watched c) {handler serial : ℕ} (hserial : s.expired[handler]? = some serial)
    (hfinished : s.finished serial = true) :
    Watched { s with expired := s.expired.eraseIdx handler } c := by
  refine ⟨hwatch.1, ?_⟩
  rcases hwatch.2 with harmed | hexpired | hending
  · exact .inl harmed
  · right
    left
    obtain ⟨i, hi⟩ := List.getElem?_of_mem hexpired
    refine List.mem_eraseIdx_iff_getElem?.mpr ⟨i, ?_, hi⟩
    rintro rfl
    obtain rfl := Option.some.inj (hserial.symm.trans hi)
    cases hfinished.symm.trans (h.call c hc).2.1
  · exact .inr (.inr hending)

/-- A close aborts what is on the socket. -/
theorem watched_markDisconnected {s : TcpLink} (h : s.Aligned)
    (hwatch : ∀ c, s.calls = [c] → s.Watched c) {c' : TcpCall}
    (hc' : s.markDisconnected.calls = [c']) : s.markDisconnected.Watched c' := by
  cases hcalls : s.calls with
  | nil =>
    simp only [markDisconnected, cancel, hcalls, List.map_nil] at hc'
    cases hc'
  | cons c rest =>
    obtain ⟨hc, -⟩ := h.only (show s.calls[0]? = some c by rw [hcalls]; rfl)
    simp only [markDisconnected, cancel, hc, List.map_cons, List.map_nil] at hc'
    cases hc'
    obtain ⟨ended, hended⟩ := Option.ne_none_iff_exists'.mp (cancel_ended c)
    exact ⟨(hwatch c hc).1, .inr (.inr ⟨ended, hended, .inl rfl⟩)⟩

theorem watched_complete {s t : TcpLink} {c : TcpCall} (hc : s.calls = [c]) (hwatch : s.Watched c)
    {count : ℕ} (ht : s.complete 0 c count = some t) {c' : TcpCall} (hc' : t.calls = [c']) :
    t.Watched c' := by
  have hnone : c.ended = none := by
    unfold complete at ht
    split at ht
    · next hready => exact hready.2.1
    · cases ht
  obtain ⟨-, hrunning, hexpired, -, -, -, -, bytes, hcalls⟩ := complete_frame hc ht
  cases hcalls.symm.trans hc'
  refine ⟨hrunning.trans hwatch.1, ?_⟩
  rcases hwatch.2 with harmed | hmem | hending
  · exact .inl harmed
  · exact .inr (.inl (by rw [hexpired]; exact hmem))
  · exact absurd hnone hending.ended

/-- Only the deadline's own handler, and the end of the worker, can leave a transaction that
goes on without one. -/
theorem step_watched {s t : TcpLink} (h : s.Aligned)
    (hwatch : ∀ c, s.calls = [c] → s.Watched c) {action : TcpAction} (hone : OneAtATime action s)
    (htimely : Timely action s) (hstep : step action s = some t) :
    ∀ c', t.calls = [c'] → t.Watched c' := by
  intro c' hc'
  cases h.steps hstep with
  | connect ok =>
    simp only [cancel, hone.1, List.map_nil] at hc'
    cases hc'
  | start unit pdu hopen =>
    simp only [hone.1, List.nil_append] at hc'
    cases hc'
    exact ⟨rfl, .inl rfl⟩
  | refuse unit pdu hclosed => cases hone.1.symm.trans hc'
  | close => exact watched_markDisconnected h hwatch hc'
  | stop => cases htimely.symm.trans hc'
  | answer => exact hwatch c' hc'
  | arrive => exact hwatch c' hc'
  | @complete c hc count t ht => exact watched_complete hc (hwatch c hc) ht hc'
  | @breaks c hc hrunning e =>
    cases hc'
    obtain ⟨err, hover, -⟩ := handler_error { c with ended := some (.error e) } e
    exact ⟨hrunning, .inr (.inr ⟨_, rfl, .inr ⟨_, hover⟩⟩)⟩
  | expire hc hrunning harmed =>
    cases hc'
    exact ⟨hrunning, .inr (.inl (List.mem_append_right _ (List.mem_singleton_self _)))⟩
  | stale hserial hrunning hfinished => exact watched_stale h hc' (hwatch c' hc') hserial hfinished
  | @deadline c hc hrunning handler hserial =>
    cases hc'
    rcases htimely c hc hserial with hnone | hending
    · exact ⟨hrunning, .inr (.inr (ending_cancel hnone))⟩
    · rw [cancel_of_ended hending.ended]
      exact ⟨hrunning, .inr (.inr hending)⟩
  | @handle c hc hrunning ended hended => exact watched_handle hc (hwatch c hc) hended rfl c' hc'

/-! ### A deadline expires once -/

theorem cancel_armed (c : TcpCall) : c.cancel.armed = c.armed := by
  unfold TcpCall.cancel
  split
  · rfl
  · rfl

/-- The numbers and the timers of the transactions in progress. -/
def timers (s : TcpLink) : List (ℕ × Bool) := s.calls.map fun c => (c.serial, c.armed)

theorem timers_cancel (s : TcpLink) : s.cancel.timers = s.timers := by
  simp only [timers, cancel, List.map_map]
  apply List.map_congr_left
  intro c _
  simp only [Function.comp_apply, cancel_serial, cancel_armed]

theorem timers_cancel_sublist (s : TcpLink) : s.cancel.timers.Sublist s.timers := by
  rw [timers_cancel]

theorem timers_finish (s : TcpLink) (call : ℕ) (c : TcpCall) (result : Result (List UInt8)) :
    (s.finish call c result).timers = s.timers.eraseIdx call := by
  have herase : timers { s with
      calls := s.calls.eraseIdx call
      results := s.results ++ [(c.serial, result)] } = s.timers.eraseIdx call :=
    (List.eraseIdx_map _ _ _).symm
  unfold finish
  split_ifs
  · exact (timers_cancel _).trans herase
  · exact herase

/-- A deadline expires once. -/
structure Once (s : TcpLink) : Prop where
  nodup : s.expired.Nodup
  bound : ∀ serial ∈ s.expired, serial < s.requests
  armed : ∀ serial, (serial, true) ∈ s.timers → serial ∉ s.expired

theorem Once.shrink {s t : TcpLink} (h : s.Once) (hexpired : t.expired.Sublist s.expired)
    (hrequests : s.requests ≤ t.requests) (htimers : t.timers.Sublist s.timers) : t.Once where
  nodup := h.nodup.sublist hexpired
  bound serial hs := Nat.lt_of_lt_of_le (h.bound serial (hexpired.subset hs)) hrequests
  armed serial hs hmem := h.armed serial (htimers.subset hs) (hexpired.subset hmem)

theorem timers_singleton {s : TcpLink} {c : TcpCall} (hc : s.calls = [c]) :
    s.timers = [(c.serial, c.armed)] := by
  rw [timers, hc]
  rfl

/-- The deadline of the transaction in progress expires. -/
theorem once_expire {s : TcpLink} (halign : s.Aligned) (h : s.Once) {c : TcpCall}
    (hc : s.calls = [c]) (harmed : c.armed = true) :
    Once { s with
      calls := [{ c with armed := false }]
      expired := s.expired ++ [c.serial] } where
  nodup := by
    rw [List.nodup_append]
    refine ⟨h.nodup, by simp, ?_⟩
    rintro a ha b hb rfl
    obtain rfl := List.mem_singleton.mp hb
    refine h.armed _ ?_ ha
    rw [timers_singleton hc, harmed]
    exact List.mem_singleton_self _
  bound serial hs := by
    rcases List.mem_append.mp hs with hs | hs
    · exact h.bound serial hs
    · obtain rfl := List.mem_singleton.mp hs
      have hlast := (halign.call c hc).1
      change c.serial < s.requests
      omega
  armed serial hs := by cases congrArg Prod.snd (List.mem_singleton.mp hs)

theorem once_handle {s : TcpLink} (h : s.Once) {c : TcpCall} (hc : s.calls = [c]) (ended : Ended) :
    (s.handle 0 c ended).Once := by
  cases hh : c.handler ended with
  | next stage moved =>
    rw [handle_next hc hh]
    refine h.shrink (.refl _) le_rfl ?_
    rw [timers_singleton hc]
    exact .refl _
  | returns result =>
    have hover : s.handle 0 c ended = s.finish 0 c result := by rw [TcpLink.handle, hh]
    have hframe : (s.finish 0 c result).expired = s.expired ∧
        (s.finish 0 c result).requests = s.requests := by
      unfold finish
      split_ifs
      · exact ⟨rfl, rfl⟩
      · exact ⟨rfl, rfl⟩
    rw [hover]
    refine h.shrink (by rw [hframe.1]) hframe.2.ge ?_
    rw [timers_finish]
    exact List.eraseIdx_sublist _ _

theorem step_once {action : TcpAction} {s t : TcpLink} (halign : s.Aligned) (h : s.Once)
    (hstep : step action s = some t) : t.Once := by
  cases halign.steps hstep with
  | connect ok => exact h.shrink (.refl _) le_rfl (timers_cancel_sublist s)
  | start unit pdu hopen =>
    refine ⟨h.nodup, fun serial hs => Nat.lt_succ_of_lt (h.bound serial hs), ?_⟩
    intro serial hs hmem
    rw [timers, List.map_append, List.mem_append] at hs
    rcases hs with hs | hs
    · exact h.armed serial hs hmem
    · obtain rfl := congrArg Prod.fst (List.mem_singleton.mp hs)
      exact absurd (h.bound _ hmem) (Nat.lt_irrefl _)
  | refuse unit pdu hclosed => exact h.shrink (.refl _) (Nat.le_succ _) (.refl _)
  | close => exact h.shrink (.refl _) le_rfl (timers_cancel_sublist s)
  | stop => exact h.shrink (.refl _) le_rfl (.refl _)
  | answer => exact h.shrink (.refl _) le_rfl (.refl _)
  | arrive => exact h.shrink (.refl _) le_rfl (.refl _)
  | complete hc ht =>
    obtain ⟨-, -, hexpired, hrequests, -, -, -, bytes, hcalls⟩ := complete_frame hc ht
    refine h.shrink (by rw [hexpired]) hrequests.ge ?_
    rw [timers_singleton hc, timers_singleton hcalls]
  | breaks hc hrunning e =>
    refine h.shrink (.refl _) le_rfl ?_
    rw [timers_singleton hc]
    exact .refl _
  | expire hc hrunning harmed => exact once_expire halign h hc harmed
  | stale => exact h.shrink (List.eraseIdx_sublist _ _) le_rfl (.refl _)
  | @deadline c hc =>
    refine h.shrink (List.eraseIdx_sublist _ _) le_rfl ?_
    rw [timers_singleton hc, timers_singleton rfl, cancel_serial, cancel_armed]
  | handle hc hrunning hended => exact once_handle h hc _

theorem once_of_reachable {s : TcpLink}
    (hs : Transition.Reachable step OneAtATime Fresh s) : s.Once := by
  apply hs.invariant
  · rintro s ⟨-, hcalls, hexpired, -⟩
    exact ⟨by simp [hexpired], by simp [hexpired], by simp [timers, hcalls]⟩
  · intro s t action hs h _ hstep
    exact step_once (aligned_of_reachable hs) h hstep

/-- The deadline of the transaction in progress runs while the operation waits for its
handler: it has no effect, and it was the only one. Or the worker is stopped. -/
theorem deadline_lost {s t : TcpLink} (halign : s.Aligned) (h : s.Once) {c : TcpCall}
    (hc : s.calls = [c]) (hrunning : s.running = true) {action : TcpAction}
    (hlate : ¬ Timely action s) (hstep : step action s = some t) :
    t.calls = [c] ∧ ¬ t.Watched c := by
  cases action with
  | deadline handler =>
    simp only [Timely, not_forall, not_or] at hlate
    obtain ⟨d, hd, hhandler, hended, hending⟩ := hlate
    cases hc.symm.trans hd
    rw [step_deadline halign hc hrunning hhandler, cancel_of_ended hended] at hstep
    cases hstep
    refine ⟨rfl, ?_⟩
    simp only [Watched, not_and, not_or]
    intro _
    refine ⟨?_, ?_, hending⟩
    · intro harmed
      refine h.armed c.serial ?_ (List.mem_of_getElem? hhandler)
      rw [timers_singleton hc, ← harmed]
      exact List.mem_singleton_self _
    · intro hs
      obtain ⟨i, hne, hi⟩ := List.mem_eraseIdx_iff_getElem?.mp hs
      obtain ⟨hlt, -⟩ := List.getElem?_eq_some_iff.mp hi
      exact hne ((List.getElem?_inj hlt h.nodup).mp (hi.trans hhandler.symm))
  | stop =>
    simp only [step] at hstep
    split at hstep
    · cases hstep
      exact ⟨hc, fun hwatch => Bool.false_ne_true hwatch.1⟩
    · cases hstep
  | connect ok => exact absurd trivial hlate
  | start unit pdu => exact absurd trivial hlate
  | close => exact absurd trivial hlate
  | answer request reply => exact absurd trivial hlate
  | arrive count => exact absurd trivial hlate
  | complete call count => exact absurd trivial hlate
  | breaks call e => exact absurd trivial hlate
  | expire call => exact absurd trivial hlate
  | handle call => exact absurd trivial hlate

end TcpLink

/-- In a run with one call at a time, in which no deadline comes between an operation and a
handler that goes on, and the worker is not stopped under a transaction, the worker can at
any time end the transaction in progress by itself. -/
theorem tcp_ends_alone {s : TcpLink}
    (hs : Transition.Reachable TcpLink.step
      (fun action s => TcpLink.OneAtATime action s ∧ TcpLink.Timely action s) TcpLink.Fresh s)
    {c : TcpCall} (hc : s.calls = [c]) : s.EndsAlone := by
  have hinv : s.Aligned ∧ ∀ c, s.calls = [c] → s.Watched c := by
    apply hs.invariant (fun s => s.Aligned ∧ ∀ c, s.calls = [c] → s.Watched c)
    · intro s hfresh
      have hidle : s.calls = [] := hfresh.2.1
      exact ⟨TcpLink.aligned_of_reachable (.start hfresh), by simp [hidle]⟩
    · rintro s t action - ⟨halign, hwatch⟩ ⟨hone, htimely⟩ hstep
      exact ⟨TcpLink.step_aligned halign hone hstep,
        TcpLink.step_watched halign hwatch hone htimely hstep⟩
  exact (hinv.2 c hc).endsAlone hinv.1 hc

/-- A request is out, three bytes of the header of its reply are read, and its deadline has
expired. -/
def overdueLink : TcpLink where
  client := ⟨true, 2⟩
  running := true
  requests := 1
  calls := [{ serial := 0, tid := 1, unit := 1, pdu := readOne, stage := .header, moved := [0, 1, 0]
              armed := false }]
  expired := [0]
  transit := (packMbap 1 1 oneRegister).drop 3
  replies := [(0, oneRegister)]

def overdue : List TcpAction :=
  [.connect true, .start 1 readOne, .complete 0 12, .handle 0, .answer 0 oneRegister, .arrive 3,
    .complete 0 3, .handle 0, .expire 0]

theorem overdue_ends : Transition.run TcpLink.step overdue {} = some overdueLink ∧
    overdueLink.EndsAlone := by
  have hfresh : TcpLink.Fresh {} := ⟨rfl, rfl, rfl, rfl, rfl, rfl, rfl, rfl⟩
  have hrun : Transition.run TcpLink.step overdue {} = some overdueLink := by decide +kernel
  have hmeets : Transition.Meets TcpLink.step
      (fun action s => TcpLink.OneAtATime action s ∧ TcpLink.Timely action s) overdue {} := by
    simp [overdue, Transition.Meets, TcpLink.Timely, TcpLink.OneAtATime, TcpLink.step,
      TcpLink.cancel]
  exact ⟨hrun, tcp_ends_alone ((Transition.Reachable.start hfresh).of_meets _ hmeets hrun) rfl⟩

/-- In every run with one call at a time: a step that the transaction in progress survives
takes from the worker the power to end it if and only if the step is such a deadline, or the
end of the worker. -/
theorem tcp_deadline_kept_iff {s t : TcpLink}
    (hs : Transition.Reachable TcpLink.step TcpLink.OneAtATime TcpLink.Fresh s)
    (halone : s.EndsAlone) {action : TcpAction} (hone : TcpLink.OneAtATime action s)
    (hstep : TcpLink.step action s = some t)
    {c c' : TcpCall} (hc : s.calls = [c]) (hc' : t.calls = [c']) :
    t.EndsAlone ↔ TcpLink.Timely action s := by
  have halign := TcpLink.aligned_of_reachable hs
  have htalign := TcpLink.step_aligned halign hone hstep
  rw [TcpLink.endsAlone_iff halign hc] at halone
  rw [TcpLink.endsAlone_iff htalign hc']
  constructor
  · intro hwatch
    by_contra hlate
    obtain ⟨hsame, hlost⟩ :=
      TcpLink.deadline_lost halign (TcpLink.once_of_reachable hs) hc halone.1 hlate hstep
    cases hsame.symm.trans hc'
    exact hlost hwatch
  · intro htimely
    refine TcpLink.step_watched halign ?_ hone htimely hstep c' hc'
    intro d hd
    cases hc.symm.trans hd
    exact halone

/-- Three bytes of the header are read, the deadline has expired, and both handlers wait. -/
def crossedLink : TcpLink := { overdueLink with
  calls := [{ serial := 0, tid := 1, unit := 1, pdu := readOne, stage := .header
              ended := some (.ok [0, 1, 0]), armed := false }] }

def crossed : List TcpAction :=
  [.connect true, .start 1 readOne, .complete 0 12, .handle 0, .answer 0 oneRegister, .arrive 3,
    .complete 0 3, .expire 0]

/-- The deadline runs first, and the transaction waits for the device. -/
theorem crossed_waits : Transition.run TcpLink.step crossed {} = some crossedLink ∧
    crossedLink.EndsAlone ∧ TcpLink.step (.deadline 0) crossedLink =
      some { crossedLink with expired := [] } ∧
    ¬ TcpLink.EndsAlone { crossedLink with expired := [] } := by
  have hfresh : TcpLink.Fresh {} := ⟨rfl, rfl, rfl, rfl, rfl, rfl, rfl, rfl⟩
  have hrun : Transition.run TcpLink.step crossed {} = some crossedLink := by decide +kernel
  have hmeets : Transition.Meets TcpLink.step TcpLink.OneAtATime crossed {} := by decide +kernel
  have hreach := (Transition.Reachable.start hfresh).of_meets _ hmeets hrun
  have halone : crossedLink.EndsAlone :=
    ⟨[.handle 0, .deadline 0, .handle 0], by decide, _, rfl, rfl⟩
  have hstep : TcpLink.step (.deadline 0) crossedLink =
      some { crossedLink with expired := [] } := by decide +kernel
  refine ⟨hrun, halone, hstep, ?_⟩
  have hone : TcpLink.OneAtATime (.deadline 0) crossedLink := trivial
  rw [tcp_deadline_kept_iff hreach halone hone hstep rfl rfl]
  intro htimely
  rcases htimely _ rfl rfl with hnone | ⟨ended, hended, hclosed | ⟨result, hover⟩⟩
  · cases hnone
  · cases hclosed
  · cases hended
    cases hover

end OpcServer.Adapters
