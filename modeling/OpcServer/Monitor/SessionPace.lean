import OpcServer.Monitor.SessionBooks

/-! When the monitor's client tries to have its connection back. Nothing is assumed of the
library here. -/

namespace OpcServer.Monitor

open Domain Project Transition

section Pace
variable [Platform] {NodeId V : Type}

/-- The time, the tries and losses so far, and whether and when to try again. -/
structure Pace where
  clock : ℕ
  marks : List (Bool × ℕ)
  wantConnected : Bool
  reconnectAt : ℕ

def Session.pace (s : Session V) : Pace where
  clock := s.clock
  marks := s.marks
  wantConnected := s.wantConnected
  reconnectAt := s.reconnectAt

/-- A pair of files is read when both are named, and no read breaks off. -/
def Answers.Reads (a : Answers NodeId V) (certificate key : String) : Prop :=
  certificate ≠ "" → key ≠ "" → (a.file certificate).isSome ∧ (a.file key).isSome

namespace Session
variable {parse : String → Option NodeId} {s : Session V}

/-! ### What leaves the pace alone -/

/-- Neither the pace nor the connection is touched. -/
def Frame (s t : Session V) : Prop := t.pace = s.pace ∧ t.connected = s.connected

theorem Frame.rfl : s.Frame s := ⟨.refl _, .refl _⟩

theorem Frame.trans {t u : Session V} (h : s.Frame t) (h' : t.Frame u) : s.Frame u :=
  ⟨h'.1.trans h.1, h'.2.trans h.2⟩

theorem emitError_frame (message : String) (status : UInt32) (command : Option Json) :
    s.Frame (s.emitError message status command) := ⟨.refl _, .refl _⟩

theorem notify_frame (n : ℕ × V) : s.Frame (s.notify n) := by
  unfold notify
  split
  · split
    · exact Frame.rfl
    · exact Frame.rfl
  · exact Frame.rfl

theorem deliver_frame (notified : List (ℕ × V)) : s.Frame (s.deliver notified) := by
  induction notified generalizing s with
  | nil => exact Frame.rfl
  | cons n rest ih => exact (notify_frame n).trans ih

theorem createServerSubscription_frame (a : Answer V) :
    s.Frame (s.createServerSubscription a).2 := by
  unfold createServerSubscription
  dsimp only
  split
  · exact deliver_frame _
  · exact deliver_frame _

theorem createMonitoredItem_frame (parse : String → Option NodeId) (a : Answer V) (item : Item) :
    s.Frame (s.createMonitoredItem parse a item).2 := by
  unfold createMonitoredItem
  dsimp only
  split
  · exact Frame.rfl
  split
  · exact deliver_frame _
  · exact deliver_frame _

theorem monitorAll_frame (answer : ℕ → Answer V) (rest : List (String × Item)) :
    s.Frame (s.monitorAll parse answer rest) := by
  induction rest generalizing s with
  | nil => exact Frame.rfl
  | cons p rest ih =>
    have hitem := createMonitoredItem_frame (s := s) parse (answer p.2.serial) p.2
    rw [monitorAll]
    split
    · next id t ht =>
      rw [ht] at hitem
      exact (hitem.trans (u := t.setMonitored p.1 id) ⟨.refl _, .refl _⟩).trans ih
    · next t ht =>
      rw [ht] at hitem
      exact hitem.trans ih

theorem monitorItems_frame (parse : String → Option NodeId) (a : Answers NodeId V) :
    s.Frame (s.monitorItems parse a) := by
  unfold monitorItems
  split
  · exact Frame.rfl
  · have hsub := createServerSubscription_frame (s := s) a.subscription
    split
    · next t ht =>
      rw [ht] at hsub
      exact hsub
    · next t ht =>
      rw [ht] at hsub
      exact hsub.trans (monitorAll_frame a.item _)

theorem subscribe_frame (a : Answers NodeId V) (command : Json) :
    s.Frame (s.subscribe parse a command) := by
  unfold subscribe
  split
  · exact Frame.rfl
  split
  swap
  · exact Frame.rfl
  next nodeId externalId _ _ =>
  split
  · exact Frame.rfl
  split
  · exact Frame.rfl
  have hsub : s.Frame (if s.serverSubscriptionId = 0 then
      s.createServerSubscription a.subscription else (true, s)).2 := by
    split
    · exact createServerSubscription_frame _
    · exact Frame.rfl
  split
  next ok t ht =>
  rw [ht] at hsub
  split
  · exact hsub
  have hspend : s.Frame { t with serials := t.serials + 1 } := hsub
  have hitem := createMonitoredItem_frame (s := { t with serials := t.serials + 1 }) parse
    (a.item t.serials)
    { serial := t.serials, externalId, nodeId }
  dsimp only
  split
  · next u hu =>
    rw [hu] at hitem
    exact hspend.trans hitem
  · next id u hu =>
    rw [hu] at hitem
    exact hspend.trans hitem

theorem removeItem_frame (a : Answers NodeId V) (key : String) : s.Frame (s.removeItem a key) := by
  unfold removeItem
  dsimp only
  split
  · exact deliver_frame (s := { s with items := s.items.filter fun p => p.1 ≠ key }) _
  · exact ⟨.refl _, .refl _⟩

theorem unsubscribe_frame (a : Answers NodeId V) (command : Json) :
    s.Frame (s.unsubscribe a command) := by
  unfold unsubscribe
  split
  · exact Frame.rfl
  split
  · exact Frame.rfl
  split
  · exact Frame.rfl
  have hdelete := deliver_frame (s := s) a.delete.notified
  split
  · dsimp only
    split
    · exact hdelete
    · refine Frame.trans ?_ (removeItem_frame a _)
      exact hdelete
  · exact removeItem_frame a _

theorem browse_frame (print : NodeId → String) (a : Answers NodeId V) (command : Json) :
    s.Frame (s.browse print parse a command) := by
  unfold browse
  dsimp only
  split
  · exact ⟨.refl _, .refl _⟩
  · exact deliver_frame _

theorem applySecurity_frame {a : Answers NodeId V} {t : Session V}
    (h : s.applySecurity a = some t) : s.Frame t := by
  unfold applySecurity at h
  split_ifs at h
  · cases h
    exact Frame.rfl
  · split at h
    · cases h
      exact Frame.rfl
    · cases h
      exact ⟨.refl _, .refl _⟩

theorem resetClient_frame {a : Answers NodeId V} {t : Session V}
    (h : s.resetClient a = some t) : s.Frame t := by
  unfold resetClient at h
  split_ifs at h
  have hdeliver := deliver_frame (s := s) a.released
  exact hdeliver.trans (applySecurity_frame (s := { s.deliver a.released with
    registered := [], securityOk := true }) h)

/-- The attempt itself sets the time of the next one only when it succeeds, to none. -/
theorem establish_pace {a : Answers NodeId V} {command : Option Json} {t : Session V}
    (h : s.establish parse a command = some t) :
    t.clock = s.clock ∧ t.marks = s.marks ∧ t.wantConnected = s.wantConnected := by
  unfold establish at h
  split at h
  · cases h
    exact ⟨rfl, rfl, rfl⟩
  split at h
  · cases h
  · cases h
    exact ⟨rfl, rfl, rfl⟩
  split at h
  · cases h
    exact ⟨rfl, rfl, rfl⟩
  · cases h
    have hframe := monitorItems_frame parse a
      (s := { s with connected := true, reconnectAt := 0 }.emitConnection "connected" 0 command)
    exact ⟨congrArg Pace.clock hframe.1, congrArg Pace.marks hframe.1,
      congrArg Pace.wantConnected hframe.1⟩

/-- An attempt takes its time, and is followed by the wait when it fails. -/
theorem attempt_cases {a : Answers NodeId V} {command : Option Json} {t : Session V}
    (h : s.attempt parse a command = some t) :
    ∃ u : Session V, u.clock = s.clock ∧ u.marks = s.marks ∧
      (u.connected = true ∧ t = u.advance a.during ∨ t = (u.advance a.during).backOff) := by
  simp only [attempt, Option.bind_eq_bind, Option.bind_eq_some_iff, Option.pure_def,
    Option.some.injEq] at h
  obtain ⟨v, hv, u, hu, rfl⟩ := h
  have hreset := (resetClient_frame hv).1
  obtain ⟨hclock, hmarks, -⟩ := establish_pace hu
  refine ⟨u, hclock.trans (congrArg Pace.clock hreset), hmarks.trans (congrArg Pace.marks hreset), ?_⟩
  split_ifs with hconnected
  · exact .inl ⟨hconnected, rfl⟩
  · exact .inr rfl

/-! ### Attempts -/

/-- What is on record is past, and every attempt came long enough after all that is. -/
structure Marked (s : Session V) : Prop where
  past : ∀ m ∈ s.marks, m.2 ≤ s.clock
  spaced : s.marks.Pairwise fun late early => late.1 = true → early.2 + reconnectDelay ≤ late.2

/-- The next attempt is neither too early nor too late. -/
structure Paced (s : Session V) : Prop extends s.Marked where
  due : s.wantConnected = true → s.connected = false →
    (∀ m ∈ s.marks, m.2 + reconnectDelay ≤ s.reconnectAt) ∧
      s.reconnectAt ≤ s.clock + reconnectDelay

theorem Paced.frame {t : Session V} (h : s.Paced) (hframe : s.Frame t) : t.Paced := by
  obtain ⟨hpace, hconnected⟩ := hframe
  have hclock : t.clock = s.clock := congrArg Pace.clock hpace
  have hmarks : t.marks = s.marks := congrArg Pace.marks hpace
  have hwant : t.wantConnected = s.wantConnected := congrArg Pace.wantConnected hpace
  have hat : t.reconnectAt = s.reconnectAt := congrArg Pace.reconnectAt hpace
  refine ⟨⟨?_, ?_⟩, ?_⟩
  · rw [hmarks, hclock]
    exact h.past
  · rw [hmarks]
    exact h.spaced
  · rw [hmarks, hclock, hwant, hat, hconnected]
    exact h.due

theorem Marked.advance (h : s.Marked) (n : ℕ) : (s.advance n).Marked where
  past := fun m hm => (h.past m hm).trans (Nat.le_add_right _ _)
  spaced := h.spaced

theorem Paced.advance (h : s.Paced) (n : ℕ) : (s.advance n).Paced where
  toMarked := h.toMarked.advance n
  due := by
    intro hwant hclosed
    obtain ⟨hearly, hlate⟩ := h.due hwant hclosed
    refine ⟨hearly, hlate.trans ?_⟩
    change s.clock + reconnectDelay ≤ s.clock + n + reconnectDelay
    omega

theorem Marked.backOff (h : s.Marked) : s.backOff.Paced where
  past := by
    intro m hm
    rcases List.mem_cons.mp hm with rfl | hm
    · exact le_rfl
    · exact h.past m hm
  spaced := List.pairwise_cons.mpr ⟨fun _ _ hfalse => absurd hfalse Bool.false_ne_true, h.spaced⟩
  due := by
    intro _ _
    refine ⟨?_, le_rfl⟩
    intro m hm
    apply Nat.add_le_add_right
    rcases List.mem_cons.mp hm with rfl | hm
    · exact le_rfl
    · exact h.past m hm

theorem Marked.of_connected (h : s.Marked) (hc : s.connected = true) : s.Paced where
  toMarked := h
  due := fun _ hd => absurd (hc.symm.trans hd) Bool.noConfusion

theorem Marked.attempt (h : s.Marked) {a : Answers NodeId V} {command : Option Json}
    {t : Session V} (ht : s.attempt parse a command = some t) : t.Paced := by
  obtain ⟨u, hclock, hmarks, hu⟩ := attempt_cases ht
  have hmarked : u.Marked := by
    refine ⟨?_, ?_⟩
    · rw [hclock, hmarks]
      exact h.past
    · rw [hmarks]
      exact h.spaced
  rcases hu with ⟨hconnected, rfl⟩ | rfl
  · exact (hmarked.advance a.during).of_connected hconnected
  · exact (hmarked.advance a.during).backOff

theorem close_pace (a : Answers NodeId V) (notify : Bool) (command : Option Json) :
    (s.close a notify command).pace = { s.pace with wantConnected := false } ∧
      (s.close a notify command).connected = false := by
  have hdeliver := deliver_frame (s := { s with wantConnected := false }) a.disconnect.notified
  unfold Session.close
  dsimp only
  split_ifs
  all_goals first | exact ⟨hdeliver.1, rfl⟩ | exact ⟨rfl, rfl⟩

theorem Marked.close (h : s.Marked) (a : Answers NodeId V) (notify : Bool)
    (command : Option Json) : (s.close a notify command).Paced := by
  have hpace := (close_pace (s := s) a notify command).1
  have hclock : (s.close a notify command).clock = s.clock := congrArg Pace.clock hpace
  have hmarks : (s.close a notify command).marks = s.marks := congrArg Pace.marks hpace
  have hwant : (s.close a notify command).wantConnected = false := congrArg Pace.wantConnected hpace
  refine ⟨⟨?_, ?_⟩, ?_⟩
  · rw [hmarks, hclock]
    exact h.past
  · rw [hmarks]
    exact h.spaced
  · rw [hwant]
    exact fun hw => absurd hw Bool.false_ne_true

theorem connect_paced (h : s.Paced) (a : Answers NodeId V) (command : Json) {t : Session V}
    (ht : s.connect parse a command = some t) : t.Paced := by
  unfold connect at ht
  split at ht
  · cases ht
    exact h.frame (emitError_frame _ _ _)
  · simp only [Option.bind_eq_bind, Option.bind_eq_some_iff] at ht
    obtain ⟨mode, -, policy, -, cert, -, key, -, userCert, -, userKey, -, ht⟩ := ht
    apply Marked.attempt _ ht
    have hclosed := (h.close a false none).toMarked
    exact ⟨hclosed.past, hclosed.spaced⟩

theorem dispatch_paced (h : s.Paced) (print : NodeId → String) (a : Answers NodeId V)
    (command : Json) {t : Session V} (ht : s.dispatch print parse a command = some t) : t.Paced := by
  unfold dispatch at ht
  split at ht
  · cases ht
    exact h.frame (emitError_frame _ _ _)
  split_ifs at ht
  · exact connect_paced h a command ht
  · cases ht
    exact h.frame (browse_frame print a command)
  · cases ht
    exact h.frame (subscribe_frame a command)
  · cases ht
    exact h.frame (unsubscribe_frame a command)
  · cases ht
    exact h.close a true _
  · cases ht
    exact h.frame (emitError_frame _ _ _)

theorem tick_paced (h : s.Paced) {a : Answers NodeId V} {t : Session V}
    (ht : s.tick parse a = some t) : t.Paced := by
  unfold tick at ht
  split at ht
  · next hc =>
    have hdeliver := deliver_frame (s := s) a.iterate.notified
    have hiterate := (h.frame hdeliver).advance a.during
    dsimp only at ht
    split at ht
    · cases ht
      exact Marked.backOff ⟨hiterate.past, hiterate.spaced⟩
    · cases ht
      exact hiterate
  · next hc =>
    split at ht
    · next hgo =>
      rw [Bool.and_eq_true, decide_eq_true_eq] at hgo
      obtain ⟨hearly, -⟩ := h.due hgo.1 (Bool.eq_false_iff.mpr hc)
      -- The delay is over for all that is on record.
      apply Marked.attempt _ ht
      refine ⟨?_, List.pairwise_cons.mpr ⟨?_, h.spaced⟩⟩
      · intro m hm
        rcases List.mem_cons.mp hm with rfl | hm
        · exact le_rfl
        · exact h.past m hm
      · intro m hm _
        exact (hearly m hm).trans hgo.2
    · cases ht
      exact h

/-! ### Attempts that break off -/

section Attempts
variable {a : Answers NodeId V} {t : Session V}

theorem deliver_eq (notified : List (ℕ × V)) (s : Session V) :
    ∃ events dangling, s.deliver notified = { s with events := events, dangling := dangling } := by
  induction notified generalizing s with
  | nil => exact ⟨s.events, s.dangling, rfl⟩
  | cons n rest ih =>
    obtain ⟨events, dangling, h⟩ : ∃ events dangling,
        s.notify n = { s with events := events, dangling := dangling } := by
      unfold notify
      split_ifs
      · split
        · exact ⟨_, s.dangling, rfl⟩
        · exact ⟨s.events, true, rfl⟩
      · exact ⟨s.events, s.dangling, rfl⟩
    change ∃ events dangling, (s.notify n).deliver rest = _
    rw [h]
    exact ih _

theorem applySecurity_isSome : (s.applySecurity a).isSome ↔
    (s.securityMode ≠ "None" → s.securityMode ≠ "" → a.Reads s.certificatePath s.privateKeyPath) := by
  unfold applySecurity Answers.Reads
  split_ifs with hplain hreads
  · simp only [Option.isSome_some, true_iff]
    intro hnone hempty
    exact absurd hplain (not_or.mpr ⟨hnone, hempty⟩)
  · rw [not_or] at hplain
    simp only [Option.isSome_none, Bool.false_eq_true, false_iff]
    intro h
    obtain ⟨hcertificate, hkey⟩ := h hplain.1 hplain.2 hreads.1.1 hreads.1.2
    rcases hreads.2 with hnone | hnone
    · rw [Option.isNone_iff_eq_none.mp hnone] at hcertificate
      exact Bool.false_ne_true hcertificate
    · rw [Option.isNone_iff_eq_none.mp hnone] at hkey
      exact Bool.false_ne_true hkey
  · constructor
    · intro _ _ _ hcertificate hkey
      by_contra hbad
      apply hreads
      simp only [← Option.not_isSome, Bool.not_eq_true', Bool.eq_false_iff]
      exact ⟨⟨hcertificate, hkey⟩, not_and_or.mp hbad⟩
    · intro _
      split <;> rfl

theorem applySecurity_some (h : s.applySecurity a = some t) :
    t.userCertificatePath = s.userCertificatePath ∧ t.userPrivateKeyPath = s.userPrivateKeyPath ∧
      (s.securityOk = true →
        (t.securityOk = true ↔
          (s.securityMode = "None" ∨ s.securityMode = "") ∨ a.security = none)) := by
  unfold applySecurity at h
  split_ifs at h with hplain hreads
  · cases h
    exact ⟨rfl, rfl, fun hok => iff_of_true hok (.inl hplain)⟩
  · split at h
    · next hnone =>
      cases h
      exact ⟨rfl, rfl, fun hok => iff_of_true hok (.inr hnone)⟩
    · next message status hsome =>
      cases h
      refine ⟨rfl, rfl, fun _ => iff_of_false Bool.false_ne_true ?_⟩
      rintro (h | h)
      · exact hplain h
      · rw [hsome] at h
        cases h

theorem authenticate_isSome :
    (s.authenticate a).isSome ↔ a.Reads s.userCertificatePath s.userPrivateKeyPath := by
  unfold authenticate Answers.Reads
  by_cases hcertificate : s.userCertificatePath = ""
  · split_ifs <;> simp_all
  by_cases hkey : s.userPrivateKeyPath = ""
  · split_ifs <;> simp_all
  · rw [if_pos (.inl hcertificate), if_neg (not_or.mpr ⟨hcertificate, hkey⟩)]
    simp only [ne_eq, hcertificate, hkey, not_false_eq_true, true_imp_iff]
    cases a.file s.userCertificatePath with
    | none => simp
    | some certificate =>
      cases a.file s.userPrivateKeyPath with
      | none => simp
      | some key =>
        simp only [Option.bind_eq_bind, Option.bind_some, Option.isSome_some, and_self, iff_true]
        split_ifs <;> rfl

theorem establish_isSome (command : Option Json) : (s.establish parse a command).isSome ↔
    (s.securityOk = true → a.Reads s.userCertificatePath s.userPrivateKeyPath) := by
  rw [← authenticate_isSome]
  unfold establish
  cases s.securityOk with
  | false => simp
  | true =>
    simp only [Bool.not_true, Bool.false_eq_true, if_false, true_imp_iff]
    split
    · next hnone => simp only [hnone, Option.isSome_none]
    · next hsome => simp only [hsome, Option.isSome_some]
    · next hsome =>
      rw [hsome]
      split_ifs <;> rfl

/-- An attempt breaks off when there is no new client object, or in a read of a file. -/
theorem attempt_isSome (command : Option Json) : (s.attempt parse a command).isSome ↔
    a.made = true ∧
      (s.securityMode ≠ "None" → s.securityMode ≠ "" → a.Reads s.certificatePath s.privateKeyPath) ∧
      ((s.securityMode = "None" ∨ s.securityMode = "") ∨ a.security = none →
        a.Reads s.userCertificatePath s.userPrivateKeyPath) := by
  obtain ⟨events, dangling, hdeliver⟩ := deliver_eq a.released s
  unfold attempt resetClient
  rw [hdeliver]
  dsimp only
  cases hmade : a.made with
  | false => simp
  | true =>
    simp only [Bool.not_true, Bool.false_eq_true, if_false, true_and]
    rw [← applySecurity_isSome (a := a) (s := { s with
      events := events, dangling := dangling, registered := [], securityOk := true })]
    cases hsecurity : applySecurity a { s with
        events := events, dangling := dangling, registered := [], securityOk := true } with
    | none => simp
    | some t =>
      obtain ⟨hcertificate, hkey, hok⟩ := applySecurity_some hsecurity
      have hiff : (t.establish parse a command).isSome ↔ _ := establish_isSome command
      rw [hok rfl, hcertificate, hkey] at hiff
      rw [← hiff]
      simp only [Option.bind_eq_bind, Option.bind_some, Option.isSome_some, true_and]
      cases t.establish parse a command with
      | none => simp
      | some u => simp

end Attempts

/-- A turn that is due makes an attempt, unless the attempt breaks off. -/
theorem tick_attempts (a : Answers NodeId V) (hwant : s.wantConnected = true)
    (hclosed : s.connected = false) (hdue : s.reconnectAt ≤ s.clock) :
    (∃ t, s.tick parse a = some t ∧ (true, s.clock) ∈ t.marks) ∨
      s.tick parse a = none ∧ (a.made = false ∨ ¬ a.Reads s.certificatePath s.privateKeyPath ∨
        ¬ a.Reads s.userCertificatePath s.userPrivateKeyPath) := by
  rw [tick_due a hwant hclosed hdue]
  cases ht : attempt parse a none { s.emitConnection "reconnecting" 0 none with
      marks := (true, s.clock) :: s.marks } with
  | some t =>
    refine .inl ⟨t, rfl, ?_⟩
    obtain ⟨u, -, hmarks, hu⟩ := attempt_cases ht
    have hmem : (true, s.clock) ∈ u.marks := hmarks ▸ List.mem_cons_self
    rcases hu with ⟨-, rfl⟩ | rfl
    · exact hmem
    · exact List.mem_cons_of_mem _ hmem
  | none =>
    refine .inr ⟨rfl, ?_⟩
    by_contra hgood
    simp only [not_or, not_not, Bool.not_eq_false] at hgood
    obtain ⟨hmade, hreads, huser⟩ := hgood
    have hsome : (attempt parse a none { s.emitConnection "reconnecting" 0 none with
        marks := (true, s.clock) :: s.marks }).isSome :=
      (attempt_isSome none).mpr ⟨hmade, fun _ _ => hreads, fun _ => huser⟩
    rw [ht] at hsome
    cases hsome

end Session

variable {print : NodeId → String} {parse : String → Option NodeId}

theorem sessionStep_paced {action : SessionAction NodeId V} {s t : Session V} (h : s.Paced)
    (hstep : sessionStep print parse action s = some t) : t.Paced := by
  cases action with
  | command command a => exact Session.dispatch_paced (h.advance a.before) print a command hstep
  | tick a => exact Session.tick_paced (h.advance a.before) hstep
  | shutdown a =>
    cases hstep
    exact (h.advance a.before).close a false none

/-- An attempt of the client to have its connection back comes at least two seconds after
every earlier attempt, loss and failure; and while it wants the connection, a turn two
seconds later makes one, or breaks off in it for want of a client object or in the read of a
file. -/
theorem reachable_paced {s : Session V}
    (h : Reachable (sessionStep print parse) Free (· = {}) s) :
    (s.marks.Pairwise fun late early => late.1 = true → early.2 + 2000 ≤ late.2) ∧
      (s.wantConnected = true → s.connected = false → ∀ a : Answers NodeId V, 2000 ≤ a.before →
        (∃ t, sessionStep print parse (.tick a) s = some t ∧
          (true, s.clock + a.before) ∈ t.marks) ∨
        sessionStep print parse (.tick a) s = none ∧
          (a.made = false ∨ ¬ a.Reads s.certificatePath s.privateKeyPath ∨
            ¬ a.Reads s.userCertificatePath s.userPrivateKeyPath)) := by
  have hpaced : s.Paced := by
    apply h.invariant Session.Paced
    · rintro _ rfl
      exact ⟨⟨fun m hm => absurd hm List.not_mem_nil, .nil⟩, fun h => absurd h Bool.false_ne_true⟩
    · intro s t action _ hs _ hstep
      exact sessionStep_paced hs hstep
  refine ⟨hpaced.spaced, ?_⟩
  intro hwant hclosed a hlong
  have hdue := (hpaced.due hwant hclosed).2
  apply Session.tick_attempts (s := s.advance a.before) a hwant hclosed
  change s.reconnectAt ≤ s.clock + a.before
  rw [reconnectDelay] at hdue
  omega

/-! ### After a disconnect -/

/-- An event that only a connection, or an attempt at one, gives rise to. -/
def SessionEvent.live : SessionEvent V → Prop
  | .connection state .. => state ≠ "disconnected"
  | .error .. => False
  | .dataChange .. => True
  | .browsed event _ => ∃ nodeId children, event = .browseResult nodeId children

/-- From one state to another the client rests. -/
structure Rests (s t : Session V) : Prop where
  want : t.wantConnected = false
  closed : t.connected = false
  marks : t.marks = s.marks
  events : ∃ events, t.events = s.events ++ events ∧ ∀ e ∈ events, ¬ e.live

namespace Rests
variable {s t u : Session V}

theorem refl (hwant : s.wantConnected = false) (hclosed : s.connected = false) : Rests s s :=
  ⟨hwant, hclosed, rfl, [], (List.append_nil _).symm, fun _ h => absurd h List.not_mem_nil⟩

theorem trans (h : Rests s t) (h' : Rests t u) : Rests s u := by
  obtain ⟨first, hfirst, hquiet⟩ := h.events
  obtain ⟨second, hsecond, hquiet'⟩ := h'.events
  refine ⟨h'.want, h'.closed, h'.marks.trans h.marks, first ++ second, ?_, ?_⟩
  · rw [hsecond, hfirst, List.append_assoc]
  · intro e he
    rcases List.mem_append.mp he with he | he
    · exact hquiet e he
    · exact hquiet' e he

theorem emit (h : Rests s t) {e : SessionEvent V} (he : ¬ e.live) : Rests s (t.emit e) := by
  obtain ⟨events, hevents, hquiet⟩ := h.events
  refine ⟨h.want, h.closed, h.marks, events ++ [e], ?_, ?_⟩
  · rw [← List.append_assoc, ← hevents]
    rfl
  · intro e' he'
    rcases List.mem_append.mp he' with he' | he'
    · exact hquiet e' he'
    · rw [List.mem_singleton.mp he']
      exact he

theorem emitError (h : Rests s t) (message : String) (status : UInt32) (command : Option Json) :
    Rests s (t.emitError message status command) := h.emit id

end Rests

namespace Session
variable {s : Session V}

theorem close_rests (hclosed : s.connected = false) (a : Answers NodeId V) (notify : Bool)
    (command : Option Json) : Rests s (s.close a notify command) := by
  have hclose : Rests s { s with
      wantConnected := false, connected := false, serverSubscriptionId := 0
      items := forgetIds s.items } :=
    ⟨rfl, rfl, rfl, [], (List.append_nil _).symm, fun _ h => absurd h List.not_mem_nil⟩
  unfold close
  simp only [hclosed, Bool.false_eq_true, if_false]
  split
  · exact hclose.emit fun h => h rfl
  · exact hclose

theorem unsubscribe_rests (hwant : s.wantConnected = false) (hclosed : s.connected = false)
    (a : Answers NodeId V) (command : Json) : Rests s (s.unsubscribe a command) := by
  have hs := Rests.refl hwant hclosed
  unfold unsubscribe
  split
  · exact hs.emitError _ _ _
  split
  · exact hs.emitError _ _ _
  split
  · exact hs.emitError _ _ _
  · simp only [hclosed, Bool.false_and, Bool.false_eq_true, if_false, removeItem, Bool.and_false]
    exact ⟨hwant, rfl, rfl, [], (List.append_nil _).symm, fun _ h => absurd h List.not_mem_nil⟩

theorem browse_rests (hwant : s.wantConnected = false) (hclosed : s.connected = false)
    (print : NodeId → String) (a : Answers NodeId V) (command : Json) :
    Rests s (s.browse print parse a command) := by
  unfold browse Monitor.browse
  simp only [hclosed, Bool.not_false, if_true, List.isEmpty_nil]
  apply (Rests.refl hwant hclosed).emit
  rintro ⟨nodeId, children, h⟩
  cases h

/-- A command other than `connect`. -/
theorem dispatch_rests (hwant : s.wantConnected = false) (hclosed : s.connected = false)
    (print : NodeId → String) (a : Answers NodeId V) {command : Json}
    (hother : command.string? "command" ≠ some "connect") {t : Session V}
    (ht : s.dispatch print parse a command = some t) : Rests s t := by
  have hs := Rests.refl hwant hclosed
  unfold dispatch at ht
  split at ht
  · cases ht
    exact hs.emitError _ _ _
  next name hname =>
  split_ifs at ht with hconnect
  · exact absurd (hname.trans (congrArg some hconnect)) hother
  · cases ht
    exact browse_rests hwant hclosed print a command
  · cases ht
    unfold subscribe
    rw [hclosed]
    exact hs.emitError _ _ _
  · cases ht
    exact unsubscribe_rests hwant hclosed a command
  · cases ht
    exact close_rests hclosed a true _
  · cases ht
    exact hs.emitError _ _ _

end Session

/-- A command to connect. -/
def SessionAction.connects : SessionAction NodeId V → Prop
  | .command request _ => request.string? "command" = some "connect"
  | _ => False

theorem sessionStep_rests {action : SessionAction NodeId V} {s t : Session V}
    (hwant : s.wantConnected = false) (hclosed : s.connected = false) (hother : ¬ action.connects)
    (hstep : sessionStep print parse action s = some t) : Rests s t := by
  have hadvance : Rests s (s.advance action.answers.before) :=
    ⟨hwant, hclosed, rfl, [], (List.append_nil _).symm, fun _ h => absurd h List.not_mem_nil⟩
  apply hadvance.trans
  cases action with
  | command command a =>
    exact Session.dispatch_rests (s := s.advance a.before) hwant hclosed print a hother hstep
  | tick a =>
    have htick : (s.advance a.before).tick parse a = some (s.advance a.before) := by
      have hc : ¬ (s.advance a.before).connected = true := by
        rw [show (s.advance a.before).connected = false from hclosed]
        exact Bool.false_ne_true
      have hw : ((s.advance a.before).wantConnected &&
          decide ((s.advance a.before).reconnectAt ≤ (s.advance a.before).clock)) = false := by
        rw [show (s.advance a.before).wantConnected = false from hwant, Bool.false_and]
      unfold Session.tick
      rw [if_neg hc, hw, if_neg Bool.false_ne_true]
    cases hstep.symm.trans htick
    exact Rests.refl hwant hclosed
  | shutdown a =>
    cases hstep
    exact Session.close_rests (s := s.advance a.before) hclosed a false none

theorem run_rests (actions : List (SessionAction NodeId V)) {s t : Session V}
    (hwant : s.wantConnected = false) (hclosed : s.connected = false)
    (hother : ∀ action ∈ actions, ¬ action.connects)
    (hrun : run (sessionStep print parse) actions s = some t) : Rests s t := by
  induction actions generalizing s with
  | nil =>
    cases hrun
    exact Rests.refl hwant hclosed
  | cons action rest ih =>
    obtain ⟨u, hu, hrest⟩ := Option.bind_eq_some_iff.mp hrun
    have hfirst := sessionStep_rests hwant hclosed (hother action List.mem_cons_self) hu
    exact hfirst.trans (ih hfirst.want hfirst.closed
      (fun a ha => hother a (List.mem_cons_of_mem _ ha)) hrest)

/-- After a `disconnect`, from whatever state, and until the next `connect`, the client makes
no attempt, stays without a connection, and reports no value, no node and no connection. -/
theorem disconnect_rests (print : NodeId → String) (parse : String → Option NodeId)
    {s t u : Session V} {command : Json} {a : Answers NodeId V}
    (hname : command.string? "command" = some "disconnect")
    (hdisconnect : sessionStep print parse (.command command a) s = some t)
    (actions : List (SessionAction NodeId V)) (hother : ∀ action ∈ actions, ¬ action.connects)
    (hrun : run (sessionStep print parse) actions t = some u) :
    u.connected = false ∧ u.marks = t.marks ∧
      ∃ events, u.events = t.events ++ events ∧ ∀ e ∈ events, ¬ e.live := by
  have ht : t = (s.advance a.before).close a true (some command) := by
    unfold sessionStep Session.dispatch at hdisconnect
    simp only [hname] at hdisconnect
    exact (Option.some.inj hdisconnect).symm
  obtain ⟨hpace, hclosed⟩ := Session.close_pace (s := s.advance a.before) a true (some command)
  rw [← ht] at hpace hclosed
  have hwant : t.wantConnected = false := congrArg Pace.wantConnected hpace
  have hrests := run_rests actions hwant hclosed hother hrun
  exact ⟨hrests.closed, hrests.marks, hrests.events⟩

end Pace

/-! ### A client that tries and waits -/

section Retried
attribute [local instance] exactPlatform

/-- The connection is lost; an attempt fails, a turn comes too early, and a later attempt has
it back. -/
def retried : List (SessionAction String ℕ) :=
  [.command connectLocal obliging, .tick { obliging with iterate := { status := 1 } },
    .tick { obliging with before := 2000, connect := 1 }, .tick { obliging with before := 1999 },
    .tick { obliging with before := 501 }]

theorem retried_some : (run (sessionStep id some) retried {}).isSome = true := by decide +kernel

def retriedState : Session ℕ := (run (sessionStep id some) retried {}).get retried_some

theorem retried_paced : retriedState.marks = [(true, 4500), (false, 2000), (true, 2000), (false, 0)] ∧
    retriedState.marks.Pairwise fun late early => late.1 = true → early.2 + 2000 ≤ late.2 :=
  ⟨by decide +kernel, (reachable_paced (.of_run retried (.start rfl)
    (Option.some_get retried_some).symm)).1⟩

def disconnectCommand : Json := .object [("command", .string "disconnect")]

def restedState : Session ℕ := retriedState.close obliging true (some disconnectCommand)

/-- Time passes, and an item is asked for. -/
def resting : List (SessionAction String ℕ) :=
  [.tick { obliging with before := 5000 }, .command watchLevel obliging]

theorem resting_some : (run (sessionStep id some) resting restedState).isSome = true := by
  decide +kernel

theorem retried_rests : retriedState.connected = true ∧
    ((run (sessionStep id some) resting restedState).get resting_some).connected = false ∧
    ((run (sessionStep id some) resting restedState).get resting_some).marks = restedState.marks := by
  have hother : ∀ action ∈ resting, ¬ action.connects := by
    intro action haction
    rcases List.mem_cons.mp haction with rfl | haction
    · exact id
    · rw [List.mem_singleton.mp haction]
      change watchLevel.string? "command" ≠ some "connect"
      decide
  have hrests := disconnect_rests id some (s := retriedState) (a := obliging)
    (show disconnectCommand.string? "command" = some "disconnect" by decide) rfl resting hother
    (Option.some_get resting_some).symm
  exact ⟨by decide +kernel, hrests.1, hrests.2.1⟩

end Retried

end OpcServer.Monitor
