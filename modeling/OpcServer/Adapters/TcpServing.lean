import OpcServer.Adapters.TcpAligned

/-! What a TCP transport does after a late reply. A connect leaves the late reply behind with
the old socket: from then on, until a deadline expires or an operation fails, every request
returns its own reply, however its bytes are cut and whatever stale deadlines still run. -/

namespace OpcServer.Adapters

open Domain

namespace TcpLink

/-- The caller only sends requests, no operation fails, and no deadline expires; those that
have expired before may still run. -/
def Prompt : TcpAction → TcpLink → Prop
  | .start _ _, s => s.calls = [] ∧ s.closing = false
  | .connect _, _ | .close, _ | .stop, _ | .breaks _ _, _ | .expire _, _ => False
  | _, _ => True

instance : ∀ action s, Decidable (Prompt action s)
  | .start _ _, _ => inferInstanceAs (Decidable (_ ∧ _))
  | .connect _, _ | .close, _ | .stop, _ | .breaks _ _, _ | .expire _, _ => .isFalse id
  | .answer _ _, _ | .arrive _, _ | .complete _ _, _ | .deadline _, _ | .handle _, _ =>
    .isTrue trivial

theorem Prompt.oneAtATime {action : TcpAction} {s : TcpLink} (h : Prompt action s) :
    OneAtATime action s := by
  cases action with
  | start unit pdu => exact h
  | connect ok => exact h.elim
  | close => exact h.elim
  | stop => exact h.elim
  | breaks call e => exact h.elim
  | expire call => exact h.elim
  | answer request reply => trivial
  | arrive count => trivial
  | complete call count => trivial
  | deadline handler => trivial
  | handle call => trivial

/-- The requests since a state, but the one in progress, have returned their replies. -/
def AnsweredSince (base s : TcpLink) : Prop :=
  ∃ answers : List (ℕ × List UInt8),
    answers.map Prod.fst = List.range' base.requests answers.length ∧
    (∀ p ∈ answers, p ∈ s.replies) ∧
    s.results = base.results ++ answers.map (fun p => (p.1, tcpAnswerOf p.2)) ∧
    s.requests = base.requests + answers.length + s.calls.length

/-- What a prompt run keeps. -/
structure Serving (base s : TcpLink) : Prop where
  aligned : s.Aligned
  opened : s.client.connected = true
  running : s.running = true
  stale : ∀ serial ∈ s.expired, s.finished serial = true
  sound : ∀ c ∈ s.calls, ∀ e, c.ended ≠ some (.error e)
  answered : AnsweredSince base s

theorem AnsweredSince.mono {base s t : TcpLink} (h : AnsweredSince base s)
    (hreplies : s.replies ⊆ t.replies) (hresults : t.results = s.results)
    (hrequests : t.requests + s.calls.length = s.requests + t.calls.length) :
    AnsweredSince base t := by
  obtain ⟨answers, hserials, hmem, hall, hcount⟩ := h
  refine ⟨answers, hserials, fun p hp => hreplies (hmem p hp), hresults.trans hall, ?_⟩
  omega

/-- One more request has returned. -/
theorem AnsweredSince.append {base s t : TcpLink} (h : AnsweredSince base s) {c : TcpCall}
    (hc : s.calls = [c]) (hserial : c.serial + 1 = s.requests) {reply : List UInt8}
    (hreply : (c.serial, reply) ∈ s.replies) (hreplies : t.replies = s.replies)
    (hresults : t.results = s.results ++ [(c.serial, tcpAnswerOf reply)])
    (hrequests : t.requests = s.requests) (hcalls : t.calls = []) : AnsweredSince base t := by
  obtain ⟨answers, hserials, hmem, hall, hcount⟩ := h
  rw [hc, List.length_singleton] at hcount
  refine ⟨answers ++ [(c.serial, reply)], ?_, ?_, ?_, ?_⟩
  · have hnext : c.serial = base.requests + answers.length := by omega
    rw [List.map_append, hserials, List.length_append, List.length_singleton, List.range'_concat,
      hnext, Nat.one_mul]
    rfl
  · intro p hp
    rw [hreplies]
    rcases List.mem_append.mp hp with hp | hp
    · exact hmem p hp
    · obtain rfl := List.mem_singleton.mp hp
      exact hreply
  · rw [hresults, hall, List.map_append, List.append_assoc]
    rfl
  · rw [hrequests, hcalls, List.length_append, List.length_singleton, List.length_nil]
    omega

/-- An operation that has ended has moved its bytes: it starts the next one, or the
transaction returns its reply. -/
theorem handle_cases {s : TcpLink} (h : s.Aligned) (hopen : s.client.connected = true) {c : TcpCall}
    (hc : s.calls = [c]) {bytes : List UInt8} (hended : c.ended = some (.ok bytes)) :
    (∃ stage moved, s.handle 0 c (.ok bytes) =
        { s with calls := [{ c with stage := stage, moved := moved, ended := none }] }) ∨
    ∃ reply, (c.serial, reply) ∈ s.replies ∧ s.handle 0 c (.ok bytes) = { s with
      calls := []
      results := s.results ++ [(c.serial, tcpAnswerOf reply)] } := by
  rcases (h.call c hc).2.2.2.handled hended with ⟨stage, moved, hhandler, -⟩ |
    ⟨reply, hreply, hover, -⟩
  · refine .inl ⟨stage, moved, ?_⟩
    simp only [TcpLink.handle, hhandler, hc, launch, hopen, List.eraseIdx_zero, List.tail_cons,
      List.nil_append, if_true]
  · refine .inr ⟨reply, hreply, ?_⟩
    simp only [TcpLink.handle, hover, TcpLink.finish, hc, disconnects_tcpAnswerOf,
      List.eraseIdx_zero, List.tail_cons, Bool.false_eq_true, if_false]

theorem finished_append {s : TcpLink} {serial : ℕ} (h : s.finished serial = true)
    {results : List (ℕ × Result (List UInt8))} (hresults : s.results ⊆ results) :
    TcpLink.finished { s with results := results } serial = true := by
  rw [finished_iff] at h ⊢
  exact List.map_subset _ hresults h

theorem Serving.step {base s t : TcpLink} (h : Serving base s) {action : TcpAction}
    (hprompt : Prompt action s) (hstep : step action s = some t) : Serving base t := by
  have halign := step_aligned h.aligned hprompt.oneAtATime hstep
  cases h.aligned.steps hstep with
  | connect | close | stop | breaks | expire => exact hprompt.elim
  | start unit pdu hopen =>
    refine ⟨halign, hopen, rfl, h.stale, ?_, h.answered.mono (List.Subset.refl _) rfl ?_⟩
    · intro c hc e
      rw [hprompt.1, List.nil_append, List.mem_singleton] at hc
      rw [hc]
      exact fun h => by cases h
    · simp only [List.length_append, List.length_singleton]
      omega
  | refuse unit pdu hclosed => cases h.opened.symm.trans hclosed
  | answer =>
    exact ⟨halign, h.opened, h.running, h.stale, h.sound,
      h.answered.mono (List.subset_append_left _ _) rfl rfl⟩
  | arrive count =>
    exact ⟨halign, h.opened, h.running, h.stale, h.sound,
      h.answered.mono (List.Subset.refl _) rfl rfl⟩
  | complete hc ht =>
    obtain ⟨hclient, hrunning, hexpired, hrequests, hreplies, hresults, -, bytes, hcalls⟩ :=
      complete_frame hc ht
    refine ⟨halign, by rw [hclient]; exact h.opened, hrunning.trans h.running, ?_, ?_,
      h.answered.mono (by rw [hreplies]; exact List.Subset.refl _) hresults ?_⟩
    · intro serial hs
      rw [hexpired] at hs
      rw [finished, hresults]
      exact h.stale serial hs
    · intro d hd e
      rw [hcalls, List.mem_singleton] at hd
      rw [hd]
      exact fun h => by cases h
    · rw [hrequests, hcalls, hc, List.length_singleton, List.length_singleton]
  | stale =>
    exact ⟨halign, h.opened, h.running,
      fun serial hs => h.stale serial (List.mem_of_mem_eraseIdx hs), h.sound,
      h.answered.mono (List.Subset.refl _) rfl rfl⟩
  | @deadline c hc hrunning handler hserial =>
    -- A deadline of before the connect finds its transaction finished.
    have hstale := h.stale c.serial (List.mem_of_getElem? hserial)
    cases hstale.symm.trans (h.aligned.call c hc).2.1
  | @handle c hc hrunning ended hended =>
    cases ended with
    | error e => exact absurd hended (h.sound c (by rw [hc]; exact List.mem_singleton_self c) e)
    | ok bytes =>
      rcases handle_cases h.aligned h.opened hc hended with ⟨stage, moved, ht⟩ |
        ⟨reply, hreply, ht⟩
      · rw [ht] at halign ⊢
        refine ⟨halign, h.opened, h.running, h.stale, ?_,
          h.answered.mono (List.Subset.refl _) rfl (by rw [hc]; rfl)⟩
        intro d hd e
        rw [List.mem_singleton.mp hd]
        exact fun h => by cases h
      · rw [ht] at halign ⊢
        refine ⟨halign, h.opened, h.running, ?_, ?_,
          h.answered.append hc (h.aligned.call c hc).1 hreply rfl rfl rfl rfl⟩
        · intro serial hs
          exact finished_append (h.stale serial hs) (List.subset_append_left _ _)
        · intro d hd
          exact absurd hd List.not_mem_nil

theorem Serving.run {base s t : TcpLink} (h : Serving base s) {schedule : List TcpAction}
    (hprompt : Transition.Meets TcpLink.step Prompt schedule s)
    (hrun : Transition.run TcpLink.step schedule s = some t) : Serving base t := by
  induction schedule generalizing s with
  | nil =>
    cases hrun
    exact h
  | cons action rest ih =>
    obtain ⟨u, hu, hrest⟩ := Option.bind_eq_some_iff.mp hrun
    exact ih (h.step hprompt.1 hu) (hprompt.2 u hu) hrest

/-- What brings a reply to its end: its bytes arrive and are read, and the handlers run. -/
def Moves : TcpAction → TcpLink → Prop
  | .arrive count, s => 0 < count ∧ s.transit ≠ []
  | .complete _ _, _ | .handle _, _ => True
  | _, _ => False

instance : ∀ action s, Decidable (Moves action s)
  | .arrive _, _ => inferInstanceAs (Decidable (_ ∧ _))
  | .complete _ _, _ | .handle _, _ => .isTrue trivial
  | .connect _, _ | .start _ _, _ | .close, _ | .stop, _ | .answer _ _, _ | .breaks _ _, _
  | .expire _, _ | .deadline _, _ => .isFalse id

/-- How many of these steps there can be: a byte arrives, is read, and is handled. -/
def work (s : TcpLink) : ℕ :=
  s.transit.length + 2 * (s.stream.length + s.transit.length) +
    (s.calls.filter fun c => c.ended.isSome).length

theorem Moves.prompt {action : TcpAction} {s : TcpLink} (h : Moves action s) : Prompt action s := by
  cases action with
  | arrive count => trivial
  | complete call count => trivial
  | handle call => trivial
  | connect ok => exact h.elim
  | start unit pdu => exact h.elim
  | close => exact h.elim
  | stop => exact h.elim
  | answer request reply => exact h.elim
  | breaks call e => exact h.elim
  | expire call => exact h.elim
  | deadline handler => exact h.elim

/-- The reply is on its way, or read. -/
theorem Aligned.arriving {s : TcpLink} (h : s.Aligned) {c : TcpCall} (hc : s.calls = [c])
    (hsound : ∀ e, c.ended ≠ some (.error e)) {reply : List UInt8}
    (hreply : (c.serial, reply) ∈ s.replies) :
    c.written ∧ Correct c.pdu reply ∧
      c.taken ++ (s.stream ++ s.transit) = packMbap c.tid c.unit reply := by
  rcases (h.call c hc).2.2.2.wire hsound with ⟨-, -, -, hnew⟩ | ⟨-, -, hsent, -⟩ |
    ⟨hwritten, -, reply', hreply', hcorrect, hall⟩
  · exact absurd hreply (hnew reply)
  · have hmem : c.sent ∈ s.pending := by
      rw [hsent]
      exact List.mem_singleton_self _
    exact absurd hreply ((h.pending.2 c.sent hmem).2 reply)
  · obtain rfl : reply' = reply :=
      congrArg Prod.snd (List.inj_on_of_nodup_map h.replies.1 hreply' hreply rfl)
    exact ⟨hwritten, hcorrect, hall⟩

theorem not_write_of_written {s : TcpLink} {c : TcpCall} (h : s.Carries c) (hnone : c.ended = none)
    (hwritten : c.written) (request : List UInt8) : c.stage ≠ .write request := by
  intro hstage
  have hshort := h.short (by simp [hnone])
  have hlength := hwritten request hstage
  rw [TcpCall.moving_pending hnone] at hlength
  rw [hstage] at hshort
  exact absurd hlength (Nat.ne_of_lt hshort)

theorem complete_work {s t : TcpLink} (h : s.Aligned) {c : TcpCall} (hc : s.calls = [c])
    (hwritten : c.written) {count : ℕ} (hstep : s.complete 0 c count = some t) :
    t.work < s.work := by
  unfold complete at hstep
  split at hstep
  · next hready =>
    obtain ⟨-, hnone, -, hcount, -⟩ := hready
    have hread := not_write_of_written (h.call c hc).2.2.2 hnone hwritten
    split at hstep
    · next request hstage => exact absurd hstage (hread request)
    · split at hstep
      · next hstream =>
        cases hstep
        simp only [work, hc, List.set_cons_zero, List.length_drop, List.filter_cons, hnone,
          Option.isSome_some, Option.isSome_none, if_true, Bool.false_eq_true, if_false,
          List.filter_nil, List.length_singleton, List.length_nil]
        omega
      · cases hstep
  · cases hstep

theorem Serving.moves {base s t : TcpLink} (h : Serving base s) {c : TcpCall} (hc : s.calls = [c])
    {reply : List UInt8} (hreply : (c.serial, reply) ∈ s.replies) {action : TcpAction}
    (hmoves : Moves action s) (hstep : TcpLink.step action s = some t) :
    t.work < s.work ∧ t.replies = s.replies ∧
      ((∃ c', t.calls = [c'] ∧ c'.serial = c.serial ∧ t.results = s.results) ∨
        t.calls = [] ∧ t.results = s.results ++ [(c.serial, tcpAnswerOf reply)]) := by
  have hsound := h.sound c (by rw [hc]; exact List.mem_singleton_self c)
  cases h.aligned.steps hstep with
  | connect | start | refuse | close | stop | answer | breaks | expire | stale | deadline =>
    exact hmoves.elim
  | arrive count =>
    refine ⟨?_, rfl, .inl ⟨c, hc, rfl, rfl⟩⟩
    have hsome := List.length_pos_of_ne_nil hmoves.2
    have hcount := hmoves.1
    simp only [work, List.length_append, List.length_take, List.length_drop]
    omega
  | complete hd ht =>
    cases hc.symm.trans hd
    obtain ⟨-, -, -, -, hreplies, hresults, -, bytes, hcalls⟩ := complete_frame hc ht
    exact ⟨complete_work h.aligned hc (h.aligned.arriving hc hsound hreply).1 ht, hreplies,
      .inl ⟨_, hcalls, rfl, hresults⟩⟩
  | @handle d hd hrunning ended hended =>
    cases hc.symm.trans hd
    cases ended with
    | error e => exact absurd hended (hsound e)
    | ok bytes =>
      rcases handle_cases h.aligned h.opened hc hended with ⟨stage, moved, ht⟩ |
        ⟨reply', hreply', ht⟩
      · rw [ht]
        refine ⟨?_, rfl, .inl ⟨_, rfl, rfl, rfl⟩⟩
        simp only [work, hc, hended, List.filter_cons, Option.isSome_some, Option.isSome_none,
          if_true, Bool.false_eq_true, if_false, List.filter_nil, List.length_singleton,
          List.length_nil]
        omega
      · obtain rfl : reply' = reply :=
          congrArg Prod.snd (List.inj_on_of_nodup_map h.aligned.replies.1 hreply' hreply rfl)
        rw [ht]
        refine ⟨?_, rfl, .inr ⟨rfl, rfl⟩⟩
        simp only [work, hc, hended, List.filter_cons, Option.isSome_some, if_true,
          List.filter_nil, List.length_singleton, List.length_nil]
        omega

/-- While a reply is on its way there is something to do. -/
theorem Serving.enabled {base s : TcpLink} (h : Serving base s) {c : TcpCall} (hc : s.calls = [c])
    {reply : List UInt8} (hreply : (c.serial, reply) ∈ s.replies) :
    ∃ action t, Moves action s ∧ TcpLink.step action s = some t := by
  have hsound := h.sound c (by rw [hc]; exact List.mem_singleton_self c)
  have hcarries := (h.aligned.call c hc).2.2.2
  obtain ⟨hwritten, hcorrect, hall⟩ := h.aligned.arriving hc hsound hreply
  have hget : s.calls[0]? = some c := by rw [hc]; rfl
  cases hended : c.ended with
  | some ended =>
    refine ⟨.handle 0, s.handle 0 c ended, trivial, ?_⟩
    simp only [TcpLink.step, hget, hended, h.running, if_true]
  | none =>
    have hread := not_write_of_written hcarries hended hwritten
    have hshort := hcarries.short (by simp [hended])
    by_cases hstream : s.stream = []
    · -- the rest of the reply is in transit
      refine ⟨.arrive 1, _, ⟨Nat.one_pos, ?_⟩, rfl⟩
      intro htransit
      rw [hstream, htransit, List.append_nil, List.append_nil] at hall
      obtain ⟨header, hheader, hlength, hpack⟩ := packMbap_append c.tid c.unit reply
      have htotal := congrArg List.length hall
      rw [packMbap_length] at htotal
      cases hstage : c.stage with
      | write request => exact hread request hstage
      | header =>
        rw [hstage] at hshort
        simp only [TcpCall.taken, hstage, TcpCall.moving_pending hended] at htotal
        simp only [Stage.wants] at hshort
        omega
      | body mbap =>
        have hsix := hcarries.header mbap hstage
        simp only [TcpCall.taken, hstage, TcpCall.moving_pending hended] at hall htotal
        rw [hpack] at hall
        obtain ⟨rfl, -⟩ := List.append_inj hall (hsix.trans hheader.symm)
        rw [hstage, (onHeader_correct hcorrect hlength).2] at hshort
        rw [List.length_append, hsix] at htotal
        omega
    · have hready : s.running = true ∧ c.ended = none ∧ s.serves 0 c = true ∧ 0 < 1 ∧ 1 ≤ c.left := by
        refine ⟨h.running, hended, rfl, Nat.one_pos, ?_⟩
        rw [TcpCall.left]
        omega
      have hone : 1 ≤ s.stream.length := List.length_pos_of_ne_nil hstream
      obtain ⟨t, ht⟩ : ∃ t, s.complete 0 c 1 = some t := by
        unfold complete
        rw [if_pos hready]
        split
        · next request hstage => exact absurd hstage (hread request)
        · exact ⟨_, if_pos hone⟩
      refine ⟨.complete 0 1, t, trivial, ?_⟩
      simp only [TcpLink.step, hget, ht]

/-- When nothing is in progress there is nothing to do. -/
theorem Serving.idle {base s t : TcpLink} (h : Serving base s) (hidle : s.calls = [])
    {action : TcpAction} (hmoves : Moves action s) : TcpLink.step action s ≠ some t := by
  intro hstep
  cases action with
  | arrive count => exact hmoves.2 (h.aligned.idle hidle h.opened).2.1
  | complete call count => simp [TcpLink.step, hidle] at hstep
  | handle call => simp [TcpLink.step, hidle] at hstep
  | connect ok => exact hmoves.elim
  | start unit pdu => exact hmoves.elim
  | close => exact hmoves.elim
  | stop => exact hmoves.elim
  | answer request reply => exact hmoves.elim
  | breaks call e => exact hmoves.elim
  | expire call => exact hmoves.elim
  | deadline handler => exact hmoves.elim

/-- A reply is read in boundedly many steps, in whatever order they come. -/
theorem Serving.settles {base s u : TcpLink} (h : Serving base s) {c : TcpCall} (hc : s.calls = [c])
    {reply : List UInt8} (hreply : (c.serial, reply) ∈ s.replies) {more : List TcpAction}
    (hmoves : Transition.Meets TcpLink.step Moves more s)
    (hrun : Transition.run TcpLink.step more s = some u) :
    more.length ≤ s.work ∧
      ((u.calls = [] ∧ u.results = s.results ++ [(c.serial, tcpAnswerOf reply)]) ∨
        ∃ action v, Moves action u ∧ TcpLink.step action u = some v) := by
  induction more generalizing s c with
  | nil =>
    cases hrun
    exact ⟨Nat.zero_le _, .inr (h.enabled hc hreply)⟩
  | cons action rest ih =>
    obtain ⟨t, ht, hrest⟩ := Option.bind_eq_some_iff.mp hrun
    obtain ⟨hwork, hreplies, hcalls⟩ := h.moves hc hreply hmoves.1 ht
    have hnext := h.step hmoves.1.prompt ht
    rw [List.length_cons]
    rcases hcalls with ⟨c', hc', hserial, hresults⟩ | ⟨hidle, hresults⟩
    · obtain ⟨hlength, hend⟩ := ih hnext hc' (by rw [hserial, hreplies]; exact hreply)
        (hmoves.2 t ht) hrest
      rw [hserial, hresults] at hend
      exact ⟨by omega, hend⟩
    · cases rest with
      | nil =>
        cases hrest
        exact ⟨by rw [List.length_nil]; omega, .inl ⟨hidle, hresults⟩⟩
      | cons action' rest' =>
        obtain ⟨v, hv, -⟩ := Option.bind_eq_some_iff.mp hrest
        exact absurd hv (hnext.idle hidle (hmoves.2 t ht).1)

/-- The link right after a connect. -/
theorem serving_connect {s : TcpLink} (h : s.Aligned) (hidle : s.calls = []) :
    ∃ t, TcpLink.step (.connect true) s = some t ∧ Serving s t ∧ t.results = s.results ∧
      t.requests = s.requests := by
  refine ⟨_, rfl, ⟨aligned_connect h hidle true, rfl, rfl, ?_, ?_, ?_⟩, rfl, rfl⟩
  · intro serial hserial
    rcases h.expired serial hserial with hf | ⟨c, hc, -⟩
    · exact hf
    · rw [hidle] at hc
      cases hc
  · intro c hc
    simp only [cancel, hidle, List.map_nil] at hc
    exact absurd hc List.not_mem_nil
  · refine ⟨[], rfl, by simp, by simp [cancel], ?_⟩
    simp [cancel, hidle]

end TcpLink

/-- Whatever has happened, late replies included: after one connect, in every run in which no
deadline expires and no operation fails, all requests but the one in progress have returned
their own replies, in order. When the reply of that one has been sent, however its bytes
arrive and are read, it returns after a bounded number of steps. -/
theorem tcp_answers_after_connect {s t : TcpLink}
    (hs : Transition.Reachable TcpLink.step TcpLink.OneAtATime TcpLink.Fresh s)
    (hidle : s.calls = []) {connected : TcpLink}
    (hconnect : TcpLink.step (.connect true) s = some connected) {schedule : List TcpAction}
    (hprompt : Transition.Meets TcpLink.step TcpLink.Prompt schedule connected)
    (hrun : Transition.run TcpLink.step schedule connected = some t) :
    (∃ answers : List (ℕ × List UInt8),
      answers.map Prod.fst = List.range' s.requests answers.length ∧
      (∀ p ∈ answers, p ∈ t.replies) ∧
      t.results = s.results ++ answers.map (fun p => (p.1, tcpAnswerOf p.2)) ∧
      t.requests = s.requests + answers.length + t.calls.length) ∧
    ∀ c reply, t.calls = [c] → (c.serial, reply) ∈ t.replies → ∀ more u,
      Transition.Meets TcpLink.step TcpLink.Moves more t →
      Transition.run TcpLink.step more t = some u →
      more.length ≤ t.work ∧
        ((u.calls = [] ∧ u.results = t.results ++ [(c.serial, tcpAnswerOf reply)]) ∨
          ∃ action v, TcpLink.Moves action u ∧ TcpLink.step action u = some v) := by
  obtain ⟨connected', hconnect', hserving, -, -⟩ :=
    TcpLink.serving_connect (TcpLink.aligned_of_reachable hs) hidle
  cases hconnect.symm.trans hconnect'
  have ht := hserving.run hprompt hrun
  exact ⟨ht.answered, fun c reply hc hreply more u hmoves hmore =>
    ht.settles hc hreply hmoves hmore⟩

/-- The read of one register is sent, its deadline expires, and its reply comes late. -/
def lateOnTcp : List TcpAction :=
  [.connect true, .start 1 readOne, .complete 0 12, .handle 0, .expire 0, .deadline 0, .handle 0,
    .answer 0 oneRegister, .arrive 11]

/-- The same read again; the reply is sent, and three bytes of it have arrived. -/
def askedAgain : List TcpAction :=
  [.start 1 readOne, .complete 0 7, .handle 0, .complete 0 5, .handle 0, .answer 0 oneRegister,
    .arrive 3]

/-- The rest arrives, and is read in three pieces. -/
def readAgain : List TcpAction :=
  [.complete 0 3, .arrive 8, .handle 0, .complete 0 3, .handle 0, .complete 0 5, .handle 0]

def lateState : TcpLink where
  client := ⟨false, 2⟩
  running := true
  requests := 1
  stream := packMbap 1 1 oneRegister
  replies := [(0, oneRegister)]
  results := [(0, .error (makeErr .timeout "operation timeout"))]

def askedState : TcpLink where
  client := ⟨true, 3⟩
  running := true
  requests := 2
  calls := [{ serial := 1, tid := 2, unit := 1, pdu := readOne, stage := .header }]
  transit := (packMbap 2 1 oneRegister).drop 3
  stream := (packMbap 2 1 oneRegister).take 3
  replies := [(0, oneRegister), (1, oneRegister)]
  results := lateState.results

def readState : TcpLink := { askedState with
  calls := []
  transit := []
  stream := []
  results := lateState.results ++ [(1, .ok oneRegister)] }

theorem late_reply_dropped :
    (∃ answers : List (ℕ × List UInt8), answers.map Prod.fst = List.range' 1 answers.length ∧
      (∀ p ∈ answers, p ∈ readState.replies) ∧
      readState.results = lateState.results ++ answers.map (fun p => (p.1, tcpAnswerOf p.2)) ∧
      readState.requests = 1 + answers.length + readState.calls.length) ∧
    readAgain.length ≤ askedState.work := by
  have hfresh : TcpLink.Fresh {} := ⟨rfl, rfl, rfl, rfl, rfl, rfl, rfl, rfl⟩
  have hlate : Transition.run TcpLink.step lateOnTcp {} = some lateState := by decide +kernel
  have hmeets : Transition.Meets TcpLink.step TcpLink.OneAtATime lateOnTcp {} := by decide +kernel
  have hs := (Transition.Reachable.start hfresh).of_meets lateOnTcp hmeets hlate
  let connected : TcpLink := { lateState with client := ⟨true, 2⟩, stream := [] }
  have hasked : Transition.Meets TcpLink.step TcpLink.Prompt askedAgain connected ∧
      Transition.run TcpLink.step askedAgain connected = some askedState := by decide +kernel
  have hread : Transition.Meets TcpLink.step TcpLink.Prompt (askedAgain ++ readAgain) connected ∧
      Transition.run TcpLink.step (askedAgain ++ readAgain) connected = some readState := by
    decide +kernel
  have hmoves : Transition.Meets TcpLink.step TcpLink.Moves readAgain askedState ∧
      Transition.run TcpLink.step readAgain askedState = some readState := by decide +kernel
  have hconnect : TcpLink.step (.connect true) lateState = some connected := rfl
  exact ⟨(tcp_answers_after_connect hs rfl hconnect hread.1 hread.2).1,
    ((tcp_answers_after_connect hs rfl hconnect hasked.1 hasked.2).2 _
      oneRegister rfl (by decide +kernel) readAgain readState hmoves.1 hmoves.2).1⟩

end OpcServer.Adapters
