import OpcServer.Core.Isolation

/-! When a group is polled. The poll times of all groups of all endpoints are in one
table, under keys made of the endpoint id, a bar and the group id. Against it stands
the history of each group: the time it was itself polled last. The two agree in every
run exactly when no two groups share a key. -/

namespace OpcServer.Core

open Domain Project

section Schedule

variable [Platform]

/-! ### The groups of a poll -/

section Logged
variable {σ : Type} (index : RuntimeIndex) (transport : IModbusTransport σ) (endpointId : String)
  (now : TimestampMs)

/-- The loop over the groups with a log of those that `poll_group` is called on. -/
def pollGroupsLogged : List PollGroup → Result Unit → World σ →
    (Result Unit × World σ) × List PollGroup
  | [], first, w => ((first, w), [])
  | group :: rest, first, w =>
    if recentlyPolled endpointId now group w.dispatcher then pollGroupsLogged rest first w
    else
      let (r, w) := pollGroup index transport endpointId now group w
      let (out, polled) := pollGroupsLogged rest (firstError first r)
        (w.mapDispatcher fun d => d.setLastPoll (pollKey endpointId group) now)
      (out, group :: polled)

theorem pollGroupsLogged_eq (groups : List PollGroup) (first : Result Unit) (w : World σ) :
    (pollGroupsLogged index transport endpointId now groups first w).1 =
      pollGroups index transport endpointId now groups first w := by
  induction groups generalizing first w with
  | nil => rfl
  | cons group rest ih =>
    rw [pollGroupsLogged, pollGroups]
    split
    · exact ih first w
    · exact ih _ _

/-- The groups that a call of `poll_due` polls. -/
def polledGroups (clock : TimestampMs) (w : World σ) : List PollGroup :=
  match prepare index transport endpointId now clock w with
  | (.error _, _) => []
  | (.ok (), w) => (pollGroupsLogged index transport endpointId now
      (index.groupsForEndpoint endpointId) (.ok ()) w).2

end Logged

section Loops
variable {σ : Type} (index : RuntimeIndex) (transport : IModbusTransport σ) (endpointId : String)
  (now : TimestampMs)

/-- The loop polls the groups that are due by the table, and leaves the table they
leave. -/
theorem pollGroupsLogged_due (groups : List PollGroup) (first : Result Unit) {w : World σ} {t : σ}
    (ht : w.transports endpointId = some t) :
    (pollGroupsLogged index transport endpointId now groups first w).2 =
        (dueGroups endpointId now groups w.dispatcher.lastPollMs).1 ∧
      (pollGroupsLogged index transport endpointId now groups first w).1.2.dispatcher.lastPollMs =
        (dueGroups endpointId now groups w.dispatcher.lastPollMs).2 := by
  induction groups generalizing first w t with
  | nil => exact ⟨rfl, rfl⟩
  | cons group rest ih =>
    have hsame : recentlyPolled endpointId now group
        { lastPollMs := w.dispatcher.lastPollMs } =
          recentlyPolled endpointId now group w.dispatcher := rfl
    rw [pollGroupsLogged, dueGroups, hsame]
    split
    · exact ih first ht
    · dsimp only
      rw [pollGroup_absorb index transport endpointId now group ht]
      let own := answers transport (groupReads index group) t
      let polled := (w.absorb endpointId now syncReason own).mapDispatcher
        fun d => d.setLastPoll (pollKey endpointId group) now
      have hpolled : polled.transports endpointId = some own.2 :=
        World.absorb_transports endpointId now syncReason w own
      have htimes : polled.dispatcher.lastPollMs = Function.update w.dispatcher.lastPollMs
          (pollKey endpointId group) (some now) :=
        World.absorb_lastPollMs endpointId now syncReason w own group
      obtain ⟨hlog, htable⟩ := ih (firstError first
        (pollGroup index transport endpointId now group w).1) hpolled
      rw [htimes] at hlog htable
      exact ⟨congrArg (group :: ·) hlog, htable⟩

end Loops

/-! ### The table of poll times -/

/-- The effect is not one on the poll times. -/
def Effect.KeepsTimes : Effect → Prop
  | .pollTimes _ => False
  | _ => True

theorem script_lastPollMs (endpointId : String) {effects : List Effect}
    (h : ∀ e ∈ effects, e.KeepsTimes) (d : Dispatcher) :
    (d.script endpointId effects).lastPollMs = d.lastPollMs := by
  induction effects generalizing d with
  | nil => rfl
  | cons e rest ih =>
    have hfirst : (d.effect endpointId e).lastPollMs = d.lastPollMs := by
      cases e with
      | pollTimes times => exact (h _ List.mem_cons_self).elim
      | _ => rfl
    exact (ih (fun e' he' => h e' (List.mem_cons_of_mem _ he')) _).trans hfirst

theorem keepsTimes_holdsOfFlush (batch : List PendingWrite) :
    HoldsOfFlush batch Effect.KeepsTimes where
  call _ _ _ := trivial
  quality _ _ _ _ _ _ := trivial
  swapOut := trivial
  requeue _ _ := trivial
  flushed _ := trivial

theorem lostEffects_keepsTimes (index : RuntimeIndex) (endpointId : String)
    (reason : QualityReason) (now : TimestampMs) :
    ∀ e ∈ lostEffects index endpointId reason now, e.KeepsTimes := by
  intro e he
  obtain ⟨b, -, rfl⟩ := List.mem_map.mp he
  trivial

section Table
variable {σ : Type} (index : RuntimeIndex) (transport : IModbusTransport σ) (endpointId : String)
  (now clock : TimestampMs)

theorem prepare_lastPollMs (w : World σ) :
    (prepare index transport endpointId now clock w).2.dispatcher.lastPollMs =
      w.dispatcher.lastPollMs := by
  obtain ⟨sent, effects, hs, hp⟩ := prepare_script index transport endpointId now clock w
  rw [hp.dispatcher]
  exact script_lastPollMs endpointId (hs.forall_effects (keepsTimes_holdsOfFlush _)
    (lostEffects_keepsTimes index endpointId .noCommunication now)) _

/-- The groups whose tags a call of `poll_due_async` collects. -/
def collectedGroups (w : World σ) : List PollGroup :=
  match prepare index transport endpointId now clock w with
  | (.error _, _) => []
  | (.ok (), w) => (dueGroups endpointId now (index.groupsForEndpoint endpointId)
      w.dispatcher.lastPollMs).1

/-- Up to the polling stage nothing is polled; from there on the groups that the table
says are due. -/
theorem polledGroups_eq (w : World σ) :
    polledGroups index transport endpointId now clock w =
      collectedGroups index transport endpointId now clock w := by
  unfold polledGroups collectedGroups
  cases hp : prepare index transport endpointId now clock w with
  | mk r w' =>
    cases r with
    | error e => rfl
    | ok u =>
      obtain ⟨t, ht⟩ := prepare_transports index transport endpointId now clock hp
      exact (pollGroupsLogged_due index transport endpointId now _ (.ok ()) ht).1

/-- Either poll sets the table at the keys of the groups it polls. -/
theorem polls_times (w : World σ) (key : String) :
    let times := if ∃ g ∈ collectedGroups index transport endpointId now clock w,
      pollKey endpointId g = key then some now else w.dispatcher.lastPollMs key
    (pollDue index transport endpointId now clock w).2.dispatcher.lastPollMs key = times ∧
      (pollDueAsync index transport endpointId now clock ⟨w, []⟩).world.dispatcher.lastPollMs key =
        times := by
  have hkeep := prepare_lastPollMs index transport endpointId now clock w
  rw [pollDue_eq, pollDueAsync_eq, collectedGroups]
  cases hp : prepare index transport endpointId now clock w with
  | mk r w' =>
    rw [hp] at hkeep
    dsimp only at hkeep
    cases r with
    | error e => simp [hkeep]
    | ok u =>
      obtain ⟨t, ht⟩ := prepare_transports index transport endpointId now clock hp
      have hsync := (pollGroupsLogged_due index transport endpointId now
        (index.groupsForEndpoint endpointId) (.ok ()) ht).2
      rw [pollGroupsLogged_eq] at hsync
      have hasync := next_eq transport endpointId now
        (collectDue index endpointId now (index.groupsForEndpoint endpointId) w').1 none
        (a := ⟨(collectDue index endpointId now (index.groupsForEndpoint endpointId) w').2, []⟩)
        (t := t) (by rw [collectDue_due]; exact ht)
      dsimp only
      rw [hsync, hasync, ← hkeep, dueGroups_times]
      refine ⟨rfl, ?_⟩
      rw [← dueGroups_times]
      simp only [World.absorb, (foldl_absorb_frame asyncReason endpointId now _ _).1]
      rw [collectDue_due]
      rfl

end Table

/-! ### Runs -/

/-- The endpoint and the time of a poll. -/
def Command.poll? {σ : Type} : Command σ → Option (String × TimestampMs)
  | .pollDue endpointId now _ | .pollDueAsync endpointId now _ => some (endpointId, now)
  | _ => none

/-- The world with the history of its groups, and the time of the last poll. -/
structure Schedule (σ : Type) where
  world : World σ
  polled : PollGroup → Option TimestampMs := fun _ => none
  latest : TimestampMs := 0

namespace Schedule
variable {σ : Type} (index : RuntimeIndex) (transport : IModbusTransport σ)

/-- The groups a command polls. -/
def groupsOf (w : World σ) : Command σ → List PollGroup
  | .pollDue endpointId now clock => polledGroups index transport endpointId now clock w
  | .pollDueAsync endpointId now clock => collectedGroups index transport endpointId now clock w
  | _ => []

/-- Polls have positive times that do not decrease; other commands may come in between. -/
def step (c : Command σ) (s : Schedule σ) : Option (Schedule σ) :=
  match c.poll? with
  | none => (execute index transport c s.world).map fun w => { s with world := w }
  | some (_, now) =>
    if 0 < now ∧ s.latest ≤ now then
      (execute index transport c s.world).map fun w => ⟨w,
        fun g => if g ∈ groupsOf index transport s.world c then some now else s.polled g, now⟩
    else none

/-- No group has been polled. -/
def Fresh (s : Schedule σ) : Prop :=
  s.world.dispatcher.lastPollMs = (fun _ => none) ∧ s.polled = (fun _ => none) ∧ s.latest = 0

/-- A call of `poll_due` that reaches the polling stage polls the groups that are on its
endpoint and were never polled, or not for a period. -/
def Exact (s : Schedule σ) : Prop :=
  ∀ ep ∈ index.project.endpoints, ∀ now clock, 0 < now → s.latest ≤ now →
    (prepare index transport ep.id now clock s.world).1 = .ok () →
    ∀ g ∈ index.project.pollGroups,
      (g ∈ polledGroups index transport ep.id now clock s.world ↔
        (∃ d, index.device g.deviceId = some d ∧ d.endpointId = ep.id) ∧
          ∀ last, s.polled g = some last → g.periodMs ≤ now - last)

end Schedule

/-- No two groups have the same key. -/
def KeysDistinct (index : RuntimeIndex) : Prop :=
  ∀ g ∈ index.project.pollGroups, ∀ g' ∈ index.project.pollGroups, ∀ d d',
    index.device g.deviceId = some d → index.device g'.deviceId = some d' →
    pollKey d.endpointId g = pollKey d'.endpointId g' → g = g'

/-- The table holds the history of every group, and the history lies in the past. -/
structure Schedule.Tracks {σ : Type} (index : RuntimeIndex) (s : Schedule σ) : Prop where
  table : ∀ g ∈ index.project.pollGroups, ∀ d, index.device g.deviceId = some d →
    s.world.dispatcher.lastPollMs (pollKey d.endpointId g) = s.polled g
  past : ∀ g last, s.polled g = some last → 0 < last

section Runs
variable {σ : Type} {index : RuntimeIndex} {transport : IModbusTransport σ}

theorem collectedGroups_subset (endpointId : String) (now clock : TimestampMs) (w : World σ) :
    ∀ g ∈ collectedGroups index transport endpointId now clock w,
      g ∈ index.groupsForEndpoint endpointId := by
  intro g hg
  unfold collectedGroups at hg
  split at hg
  · cases hg
  · exact dueGroups_subset endpointId now _ _ g hg

theorem groupsOf_eq (w : World σ) (endpointId : String) (now clock : TimestampMs) :
    Schedule.groupsOf index transport w (.pollDue endpointId now clock) =
      collectedGroups index transport endpointId now clock w :=
  polledGroups_eq index transport endpointId now clock w

theorem execute_times_none {c : Command σ} (hc : c.poll? = none) {w w' : World σ}
    (h : execute index transport c w = some w') :
    w'.dispatcher.lastPollMs = w.dispatcher.lastPollMs := by
  cases c with
  | pollDue | pollDueAsync => cases hc
  | flushWrites ep clock =>
    cases h
    obtain ⟨sent, effects, hf, hp⟩ := flushWrites_performs index transport ep clock w
    rw [hp.dispatcher]
    exact script_lastPollMs ep (hf.forall_effects (keepsTimes_holdsOfFlush _)) _
  | markEndpointBad ep reason now =>
    cases h
    change (w.dispatcher.markEndpointBad index ep reason now).lastPollMs = _
    rw [← script_lost]
    exact script_lastPollMs ep (lostEffects_keepsTimes index ep reason now) _
  | enqueueWrite tagId value =>
    cases h
    obtain ⟨e, he⟩ | ⟨b, -, -, -, he⟩ := Dispatcher.enqueueWrite_cases index tagId value w.dispatcher
    · simp only [World.mapDispatcher, he]
    · simp only [World.mapDispatcher, he]
      rfl
  | markStaleBefore cutoff reason =>
    cases h
    rfl
  | setTransport ep t =>
    cases h
    rfl

/-- A poll sets the table at the keys of the groups it polls. -/
theorem execute_times_some {c : Command σ} {endpointId : String} {now : TimestampMs}
    (hc : c.poll? = some (endpointId, now))
    {w w' : World σ} (h : execute index transport c w = some w') (key : String) :
    (∀ g ∈ Schedule.groupsOf index transport w c, g ∈ index.groupsForEndpoint endpointId) ∧
      w'.dispatcher.lastPollMs key =
        if ∃ g ∈ Schedule.groupsOf index transport w c, pollKey endpointId g = key then some now
        else w.dispatcher.lastPollMs key := by
  cases c with
  | pollDue ep now' clock =>
    cases hc
    cases h
    rw [groupsOf_eq]
    exact ⟨collectedGroups_subset endpointId now clock w,
      (polls_times index transport endpointId now clock w key).1⟩
  | pollDueAsync ep now' clock =>
    cases hc
    cases h
    exact ⟨collectedGroups_subset endpointId now clock w,
      (polls_times index transport endpointId now clock w key).2⟩
  | _ => cases hc

theorem step_tracks (hkeys : KeysDistinct index) {c : Command σ} {s s' : Schedule σ} (hs : s.Tracks index)
    (h : Schedule.step index transport c s = some s') : s'.Tracks index := by
  unfold Schedule.step at h
  split at h
  · rename_i hc
    obtain ⟨w, hw, rfl⟩ := Option.map_eq_some_iff.mp h
    refine ⟨?_, hs.past⟩
    rw [execute_times_none hc hw]
    exact hs.table
  · rename_i endpointId now hc
    split at h
    · rename_i hnow
      obtain ⟨w, hw, rfl⟩ := Option.map_eq_some_iff.mp h
      refine ⟨?_, ?_⟩
      · intro g hg d hd
        obtain ⟨hsub, htimes⟩ := execute_times_some hc hw (pollKey d.endpointId g)
        dsimp only
        rw [htimes, ← hs.table g hg d hd]
        -- the key of a group is hit exactly when the group itself is polled
        have hiff : (∃ g' ∈ Schedule.groupsOf index transport s.world c,
            pollKey endpointId g' = pollKey d.endpointId g) ↔
              g ∈ Schedule.groupsOf index transport s.world c := by
          constructor
          · rintro ⟨g', hg', hkey⟩
            obtain ⟨hmem, d', hd', rfl⟩ := mem_groupsForEndpoint.mp (hsub g' hg')
            rwa [← hkeys g' hmem g hg d' d hd' hd hkey]
          · intro hpolled
            obtain ⟨-, d', hd', rfl⟩ := mem_groupsForEndpoint.mp (hsub g hpolled)
            rw [hd] at hd'
            cases hd'
            exact ⟨g, hpolled, rfl⟩
        simp only [hiff]
      · intro g last hlast
        dsimp only at hlast
        split at hlast
        · cases hlast
          exact hnow.1
        · exact hs.past g last hlast
    · cases h

theorem tracks_of_reachable (hkeys : KeysDistinct index) {s : Schedule σ} (hs : Transition.Reachable
      (Schedule.step index transport) Transition.Free Schedule.Fresh s) : s.Tracks index := by
  apply hs.invariant
  · rintro s ⟨htimes, hpolled, -⟩
    refine ⟨?_, ?_⟩
    · intro g _ d _
      rw [htimes, hpolled]
    · intro g last hlast
      rw [hpolled] at hlast
      cases hlast
  · intro s t c _ ht _ h
    exact step_tracks hkeys ht h

/-- A group on the endpoint is held back by the table exactly when it was itself polled
less than a period ago. -/
theorem recentlyPolled_iff {s : Schedule σ} (hs : s.Tracks index) {g : PollGroup}
    (hg : g ∈ index.project.pollGroups) {d : Device} (hd : index.device g.deviceId = some d)
    (now : TimestampMs) :
    recentlyPolled d.endpointId now g { lastPollMs := s.world.dispatcher.lastPollMs } = false ↔
      ∀ last, s.polled g = some last → g.periodMs ≤ now - last := by
  simp only [recentlyPolled, hs.table g hg d hd]
  cases hp : s.polled g with
  | none => simp
  | some last =>
    have hne : last ≠ 0 := (hs.past g last hp).ne'
    simp [hne]

end Runs

section Accepted
variable {project : Project}

/-- The keys of the groups of one endpoint differ. -/
theorem groupsForEndpoint_keys (hcons : project.Consistent) (endpointId : String) :
    (((RuntimeIndex.build project).groupsForEndpoint endpointId).map
      (pollKey endpointId)).Nodup := by
  have hids : (((RuntimeIndex.build project).groupsForEndpoint endpointId).map
      PollGroup.id).Nodup :=
    hcons.groupIds.1.sublist (List.filter_sublist.map PollGroup.id)
  rw [List.nodup_map_iff_inj_on (List.Nodup.of_map _ hids)]
  intro g hg g' hg' hkey
  exact List.inj_on_of_nodup_map hids hg hg' (pollKey_inj endpointId hkey)

theorem exact_of_tracks (hcons : project.Consistent) {σ : Type}
    {transport : IModbusTransport σ} {s : Schedule σ}
    (hs : s.Tracks (RuntimeIndex.build project)) :
    s.Exact (RuntimeIndex.build project) transport := by
  intro ep _ now clock _ _ hprep g hg
  have hkeep := prepare_lastPollMs (RuntimeIndex.build project) transport ep.id now clock s.world
  rw [polledGroups_eq, collectedGroups]
  cases hp : prepare (RuntimeIndex.build project) transport ep.id now clock s.world with
  | mk r w =>
    rw [hp] at hprep hkeep
    cases hprep
    dsimp only at hkeep ⊢
    rw [hkeep]
    by_cases hon : g ∈ (RuntimeIndex.build project).groupsForEndpoint ep.id
    · obtain ⟨-, d, hd, hep⟩ := mem_groupsForEndpoint.mp hon
      rw [mem_dueGroups ep.id now (groupsForEndpoint_keys hcons ep.id) _ g hon, ← hep,
        recentlyPolled_iff hs hg hd now]
      exact (and_iff_right ⟨d, hd, rfl⟩).symm
    · refine ⟨fun hdue => absurd (dueGroups_subset ep.id now _ _ g hdue) hon, ?_⟩
      rintro ⟨⟨d, hd, hep⟩, -⟩
      exact absurd (mem_groupsForEndpoint.mpr ⟨hg, d, hd, hep⟩) hon

/-! ### Keys that collide -/

/-- A connected transport with nothing to send. -/
def idle : IModbusTransport Unit where
  isConnected _ := true
  connect _ _ t := (.ok (), t)
  readRegisters _ t := (.ok [], t)
  readBits _ t := (.ok [], t)
  write _ t := (.ok (), t)

def idleWorld : World Unit := { transports := fun _ => some () }

theorem prepare_idle (index : RuntimeIndex) (endpointId : String) (now clock : TimestampMs)
    {w : World Unit} (ht : w.transports endpointId = some ())
    (hq : w.dispatcher.writeQueues endpointId = []) :
    (prepare index idle endpointId now clock w).1 = .ok () := by
  simp [prepare, ht, idle, flushWrites, hq]

/-- Two groups with one key: after a poll of the first, the second is never due at the
same time. -/
theorem keysDistinct_of_exact (hcons : project.Consistent) (hchecked : project.Checked)
    (hperiods : ∀ g ∈ project.pollGroups, 10 ≤ g.periodMs)
    (hexact : ∀ s : Schedule Unit, Transition.Reachable
      (Schedule.step (RuntimeIndex.build project) idle) Transition.Free Schedule.Fresh s →
      s.Exact (RuntimeIndex.build project) idle) :
    KeysDistinct (RuntimeIndex.build project) := by
  intro g hg g' hg' d d' hd hd' hkey
  by_contra hne
  have hep : d.endpointId ≠ d'.endpointId := by
    intro heq
    rw [heq] at hkey
    exact hne (List.inj_on_of_nodup_map hcons.groupIds.1 hg hg' (pollKey_inj _ hkey))
  -- the first poll, at time one
  let fresh : Schedule Unit := { world := idleWorld }
  have hfresh : Transition.Reachable (Schedule.step (RuntimeIndex.build project) idle)
      Transition.Free Schedule.Fresh fresh := .start ⟨rfl, rfl, rfl⟩
  let first : Command Unit := .pollDue d.endpointId 1 1
  have hw : execute (RuntimeIndex.build project) idle first idleWorld =
      some (pollDue (RuntimeIndex.build project) idle d.endpointId 1 1 idleWorld).2 := rfl
  set w := (pollDue (RuntimeIndex.build project) idle d.endpointId 1 1 idleWorld).2 with hwdef
  let polled := Schedule.groupsOf (RuntimeIndex.build project) idle idleWorld first
  let next : Schedule Unit := ⟨w, fun g => if g ∈ polled then some 1 else none, 1⟩
  have hstep : Schedule.step (RuntimeIndex.build project) idle first fresh = some next := rfl
  have hnext : Transition.Reachable (Schedule.step (RuntimeIndex.build project) idle)
      Transition.Free Schedule.Fresh next := .next hfresh trivial hstep
  -- it polls the first group, and not the second
  obtain ⟨e, he, hid⟩ := hcons.endpoints d (List.mem_of_find?_eq_some hd)
  obtain ⟨e', he', hid'⟩ := hcons.endpoints d' (List.mem_of_find?_eq_some hd')
  have hfirst : g ∈ polled := by
    have := (hexact fresh hfresh e he 1 1 (by decide) zero_le_one
      (prepare_idle _ _ _ _ rfl rfl) g hg).mpr ⟨⟨d, hd, hid.symm⟩, fun last h => by cases h⟩
    rwa [hid] at this
  obtain ⟨hsub, htable⟩ :=
    execute_times_some (c := first) rfl hw (pollKey d'.endpointId g')
  have hsecond : g' ∉ polled := by
    intro hmem
    obtain ⟨-, d₁, hd₁, hep₁⟩ := mem_groupsForEndpoint.mp (hsub g' hmem)
    rw [hd'] at hd₁
    cases hd₁
    exact hep hep₁.symm
  have hrecent : w.dispatcher.lastPollMs (pollKey d'.endpointId g') = some 1 := by
    rw [htable, if_pos ⟨g, hfirst, hkey⟩]
  -- so the table holds the second group back, which was never polled
  have hlocal := execute_local (c := first) hcons hchecked rfl (by simp [idleWorld]) hw
  have hprep : (prepare (RuntimeIndex.build project) idle e'.id 1 1 w).1 = .ok () := by
    rw [hid']
    exact prepare_idle _ _ _ _ (hlocal.transports _ hep) (hlocal.spares _ hep).queue
  have hdue := (hexact next hnext e' he' 1 1 (by decide) le_rfl hprep g' hg').mpr
    ⟨⟨d', hd', hid'.symm⟩, fun last h => by simp [next, hsecond] at h⟩
  have hkeep := prepare_lastPollMs (RuntimeIndex.build project) idle e'.id 1 1 w
  have hon : g' ∈ (RuntimeIndex.build project).groupsForEndpoint e'.id :=
    mem_groupsForEndpoint.mpr ⟨hg', d', hd', hid'.symm⟩
  rw [polledGroups_eq, collectedGroups] at hdue
  split at hdue
  · cases hdue
  · rename_i w' hp
    rw [hp] at hkeep
    rw [mem_dueGroups e'.id 1 (groupsForEndpoint_keys hcons e'.id) _ g' hon] at hdue
    dsimp only at hkeep
    rw [hkeep] at hdue
    have hperiod : (1 : ℤ) - 1 < g'.periodMs := by
      have := hperiods g' hg'
      omega
    simp only [recentlyPolled, hid', hrecent, Option.getD_some, hperiod, decide_true] at hdue
    simp at hdue

/-- The poll schedule of an accepted project is exact in every run, over every
transport, if and only if no two of its groups share a key. -/
theorem poll_schedule_exact_iff {lib : JsonLibrary} (hlib : lib.ReportsViolations)
    {text sourceName : String} (hok : (loadJsonText lib text sourceName).ok = true) :
    let index := RuntimeIndex.build (loadJsonText lib text sourceName).project
    (∀ (σ : Type) (transport : IModbusTransport σ) (s : Schedule σ),
      Transition.Reachable (Schedule.step index transport) Transition.Free Schedule.Fresh s →
        s.Exact index transport) ↔ KeysDistinct index := by
  intro index
  have hcons := loadJsonText_consistent hlib hok
  have hchecked := loadJsonText_checked hlib hok
  constructor
  · intro hexact
    exact keysDistinct_of_exact hcons hchecked (loadJsonText_periods hok) (hexact Unit idle)
  · intro hkeys σ transport s hs
    exact exact_of_tracks hcons (tracks_of_reachable hkeys hs)

end Accepted

end Schedule

/-! ### Two groups under one key -/

attribute [local instance] exactPlatform

/-- Group `b|c` on endpoint `a`, and group `c` on endpoint `a|b`. -/
def barredSite : LoadResult := loadDocument (plantDocument ["a", "a|b"]
  [("valve", "a", [tagDocument "open" "coil" "bool" 0 false]),
    ("pump", "a|b", [tagDocument "running" "coil" "bool" 0 false])]
  [("b|c", "valve", 100), ("c", "pump", 100)])

def barredIndex : RuntimeIndex := .build barredSite.project

def barredGroup : PollGroup :=
  { id := "c", periodMs := 100, priority := .fast, deviceId := "pump" }

/-- A poll of `a` makes the group of `a|b` wait, which was never polled. -/
theorem barred_group_held_back : barredSite.ok = true ∧
    ∃ s : Schedule Unit, Transition.Reachable (Schedule.step barredIndex idle) Transition.Free
        Schedule.Fresh s ∧
      s.polled barredGroup = none ∧ ¬ s.Exact barredIndex idle := by
  have hend : (Transition.run (Schedule.step barredIndex idle) [.pollDue "a" 1000 1000]
      { world := idleWorld }).map (fun s => (s.polled barredGroup, s.latest,
        polledGroups barredIndex idle "a|b" 1000 1000 s.world,
        (prepare barredIndex idle "a|b" 1000 1000 s.world).1)) =
      some (none, 1000, [], .ok ()) := by decide +kernel
  obtain ⟨s, hrun, hs⟩ := Option.map_eq_some_iff.mp hend
  obtain ⟨hnever, hlatest, hnone, hprep⟩ : s.polled barredGroup = none ∧ s.latest = 1000 ∧
      polledGroups barredIndex idle "a|b" 1000 1000 s.world = [] ∧
      (prepare barredIndex idle "a|b" 1000 1000 s.world).1 = .ok () := by simpa using hs
  have hfresh : Schedule.Fresh ({ world := idleWorld } : Schedule Unit) := ⟨rfl, rfl, rfl⟩
  have hreach : Transition.Reachable (Schedule.step barredIndex idle) Transition.Free
      Schedule.Fresh s := (Transition.Reachable.start hfresh).of_run _ hrun
  refine ⟨by decide +kernel, s, hreach, hnever, fun hexact => ?_⟩
  have hep : { id := "a|b", host := "10.0.0.2" } ∈ barredIndex.project.endpoints := by
    decide +kernel
  have hg : barredGroup ∈ barredIndex.project.pollGroups := by decide +kernel
  have hd : (barredIndex.device barredGroup.deviceId).map Device.endpointId = some "a|b" := by
    decide +kernel
  have hdue := (hexact _ hep 1000 1000 (by decide) hlatest.le hprep barredGroup hg).mpr
    ⟨Option.map_eq_some_iff.mp hd, fun last h => by rw [hnever] at h; cases h⟩
  rw [hnone] at hdue
  cases hdue

theorem twoLines_on_schedule : twoLines.ok = true ∧
    ∀ (s : Schedule Unit), Transition.Reachable
      (Schedule.step (RuntimeIndex.build twoLines.project) idle) Transition.Free Schedule.Fresh s →
        s.Exact (RuntimeIndex.build twoLines.project) idle := by
  have hok : twoLines.ok = true := by decide +kernel
  have hdevices : ∀ g ∈ twoLines.project.pollGroups, ∀ g' ∈ twoLines.project.pollGroups,
      ∀ d ∈ (RuntimeIndex.build twoLines.project).device g.deviceId,
      ∀ d' ∈ (RuntimeIndex.build twoLines.project).device g'.deviceId,
        pollKey d.endpointId g = pollKey d'.endpointId g' → g = g' := by decide +kernel
  have hkeys : KeysDistinct (RuntimeIndex.build twoLines.project) :=
    fun g hg g' hg' d d' hd hd' => hdevices g hg g' hg' d hd d' hd'
  exact ⟨hok, fun s hs => (poll_schedule_exact_iff (JsonLibrary.reading_reports _) hok).mpr hkeys
    Unit idle s hs⟩

end OpcServer.Core
