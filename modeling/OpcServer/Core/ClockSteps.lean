import OpcServer.Core.PollSchedule
import Mathlib.Algebra.Order.Group.Unbundled.Abs
import Mathlib.Tactic.Linarith

/-! Polls of one endpoint under a clock that may be set back. A group is held back as long
as the time since its latest poll is below its period, and that time is negative after the
clock was set back. -/

namespace OpcServer.Core

open Domain Project

section ClockSteps

variable [Platform]

section Steps
variable {σ : Type} (index : RuntimeIndex) (transport : IModbusTransport σ) (endpointId : String)

/-- Polls are of the one endpoint and have positive times, in any order. -/
def Schedule.stepAnyTime (c : Command σ) (s : Schedule σ) : Option (Schedule σ) :=
  match c.poll? with
  | none => (execute index transport c s.world).map fun w => { s with world := w }
  | some (polledId, now) =>
    if polledId = endpointId ∧ 0 < now then
      (execute index transport c s.world).map fun w => { s with
        world := w
        polled := fun g =>
          if g ∈ groupsOf index transport s.world c then some now else s.polled g }
    else none

/-- The table holds the latest poll of each group of the endpoint. -/
structure Schedule.Times (s : Schedule σ) : Prop where
  table : ∀ g ∈ index.groupsForEndpoint endpointId,
    s.world.dispatcher.lastPollMs (pollKey endpointId g) = s.polled g
  past : ∀ g last, s.polled g = some last → 0 < last

/-- A group that the call leaves out was polled less than a period away from `now`. -/
def Schedule.SkipsRecent (now : TimestampMs) (c : Command σ) (s : Schedule σ) : Prop :=
  ∀ g ∈ index.groupsForEndpoint endpointId, g ∉ groupsOf index transport s.world c →
    ∃ last, s.polled g = some last ∧ |now - last| < g.periodMs

end Steps

section Accepted
variable {project : Project} {σ : Type} {transport : IModbusTransport σ} {endpointId : String}

theorem stepAnyTime_times (hcons : project.Consistent) {c : Command σ} {s s' : Schedule σ}
    (hs : s.Times (RuntimeIndex.build project) endpointId)
    (h : s.stepAnyTime (RuntimeIndex.build project) transport endpointId c = some s') :
    s'.Times (RuntimeIndex.build project) endpointId := by
  unfold Schedule.stepAnyTime at h
  split at h
  · rename_i hc
    obtain ⟨w, hw, rfl⟩ := Option.map_eq_some_iff.mp h
    refine ⟨?_, hs.past⟩
    rw [execute_times_none hc hw]
    exact hs.table
  · rename_i polledId now hc
    split_ifs at h with hguard
    obtain ⟨rfl, hnow⟩ := hguard
    obtain ⟨w, hw, rfl⟩ := Option.map_eq_some_iff.mp h
    constructor
    · intro g hg
      obtain ⟨hsub, htimes⟩ := execute_times_some hc hw (pollKey polledId g)
      -- on one endpoint the key of a group is its own
      have hiff : (∃ g' ∈ Schedule.groupsOf (RuntimeIndex.build project) transport s.world c,
          pollKey polledId g' = pollKey polledId g) ↔
            g ∈ Schedule.groupsOf (RuntimeIndex.build project) transport s.world c := by
        constructor
        · rintro ⟨g', hg', hkey⟩
          rwa [← List.inj_on_of_nodup_map (groupsForEndpoint_keys hcons polledId) (hsub g' hg') hg
            hkey]
        · intro hpolled
          exact ⟨g, hpolled, rfl⟩
      dsimp only
      rw [htimes, ← hs.table g hg]
      simp only [hiff]
    · intro g last hlast
      dsimp only at hlast
      split_ifs at hlast with hpolled
      · cases hlast
        exact hnow
      · exact hs.past g last hlast

theorem times_of_reachable (hcons : project.Consistent) {s : Schedule σ}
    (hs : Transition.Reachable (Schedule.stepAnyTime (RuntimeIndex.build project) transport
      endpointId) Transition.Free Schedule.Fresh s) :
    s.Times (RuntimeIndex.build project) endpointId := by
  apply hs.invariant
  · rintro s ⟨htimes, hpolled, -⟩
    constructor
    · intro g _
      rw [htimes, hpolled]
    · intro g last hlast
      rw [hpolled] at hlast
      cases hlast
  · intro s t c _ ht _ h
    exact stepAnyTime_times hcons ht h

/-- A call that reaches the polling stage leaves out the groups polled before that are less
than a period behind `now`, however far ahead of it they are. -/
theorem notMem_groupsOf_iff (hcons : project.Consistent) {s : Schedule σ}
    (hs : s.Times (RuntimeIndex.build project) endpointId) {now clock : TimestampMs}
    {c : Command σ} (hc : c = .pollDue endpointId now clock ∨ c = .pollDueAsync endpointId now clock)
    (hprep : (prepare (RuntimeIndex.build project) transport endpointId now clock s.world).1 = .ok ())
    {g : PollGroup} (hg : g ∈ (RuntimeIndex.build project).groupsForEndpoint endpointId) :
    g ∉ Schedule.groupsOf (RuntimeIndex.build project) transport s.world c ↔
      ∃ last, s.polled g = some last ∧ now - last < g.periodMs := by
  have hsame : Schedule.groupsOf (RuntimeIndex.build project) transport s.world c =
      collectedGroups (RuntimeIndex.build project) transport endpointId now clock s.world := by
    rcases hc with rfl | rfl
    · exact groupsOf_eq s.world endpointId now clock
    · rfl
  have hkeep := prepare_lastPollMs (RuntimeIndex.build project) transport endpointId now clock
    s.world
  rw [hsame, collectedGroups]
  cases hp : prepare (RuntimeIndex.build project) transport endpointId now clock s.world with
  | mk r w =>
    rw [hp] at hprep hkeep
    cases hprep
    dsimp only at hkeep ⊢
    rw [mem_dueGroups endpointId now (groupsForEndpoint_keys hcons endpointId) _ g hg, hkeep]
    simp only [recentlyPolled, hs.table g hg]
    cases hpolled : s.polled g with
    | none => simp
    | some last =>
      have hne : last ≠ 0 := (hs.past g last hpolled).ne'
      simp [hne]

/-- For every run of polls of one endpoint at positive times in any order, and every further
call that reaches the polling stage: the groups it leaves out were all polled less than a
period away, if and only if no group was polled a period or more ahead of `now`. -/
theorem skips_recent_iff {lib : JsonLibrary} (hlib : lib.ReportsViolations)
    {text sourceName : String} (hok : (loadJsonText lib text sourceName).ok = true)
    (endpointId : String) {σ : Type} (transport : IModbusTransport σ) {s : Schedule σ} :
    let index := RuntimeIndex.build (loadJsonText lib text sourceName).project
    Transition.Reachable (Schedule.stepAnyTime index transport endpointId) Transition.Free
      Schedule.Fresh s →
    ∀ (now clock : TimestampMs) (c : Command σ), 0 < now →
      (c = .pollDue endpointId now clock ∨ c = .pollDueAsync endpointId now clock) →
      (prepare index transport endpointId now clock s.world).1 = .ok () →
      (s.SkipsRecent index transport endpointId now c ↔
        ∀ g ∈ index.groupsForEndpoint endpointId, ∀ last, s.polled g = some last →
          last - now < g.periodMs) := by
  intro index hs now clock c _ hc hprep
  have hcons := loadJsonText_consistent hlib hok
  have htimes := times_of_reachable hcons hs
  constructor
  · intro hskips g hg last hlast
    have hperiod := loadJsonText_periods hok g (mem_groupsForEndpoint.mp hg).1
    by_contra hahead
    have hbehind : now - last < g.periodMs := by linarith
    obtain ⟨last', hlast', hnear⟩ := hskips g hg
      ((notMem_groupsOf_iff hcons htimes hc hprep hg).mpr ⟨last, hlast, hbehind⟩)
    obtain rfl := Option.some.inj (hlast.symm.trans hlast')
    have := (abs_lt.mp hnear).1
    linarith
  · intro hahead g hg hskipped
    obtain ⟨last, hlast, hbehind⟩ := (notMem_groupsOf_iff hcons htimes hc hprep hg).mp hskipped
    have := hahead g hg last hlast
    exact ⟨last, hlast, abs_lt.mpr ⟨by linarith, hbehind⟩⟩

end Accepted

end ClockSteps

/-! ### The clock set back -/

attribute [local instance] exactPlatform

def twoLinesIndex : RuntimeIndex := .build twoLines.project

def valveGroup : PollGroup :=
  { id := "valves", periodMs := 100, priority := .fast, deviceId := "valve" }

/-- Half of a period back the valves wait, and the poll before it was near. -/
theorem twoLines_small_step : twoLines.ok = true ∧
    ∃ s : Schedule Unit, Transition.Reachable (Schedule.stepAnyTime twoLinesIndex idle "north")
        Transition.Free Schedule.Fresh s ∧ s.polled valveGroup = some 1000 ∧
      s.SkipsRecent twoLinesIndex idle "north" 950 (.pollDue "north" 950 950) := by
  have hok : twoLines.ok = true := by decide +kernel
  have hend : (Transition.run (Schedule.stepAnyTime twoLinesIndex idle "north")
      [.pollDue "north" 1000 1000] { world := idleWorld }).map (fun s => (
        (twoLinesIndex.groupsForEndpoint "north").map s.polled, s.polled valveGroup,
        (prepare twoLinesIndex idle "north" 950 950 s.world).1)) =
      some ([some 1000], some 1000, .ok ()) := by decide +kernel
  obtain ⟨s, hrun, hs⟩ := Option.map_eq_some_iff.mp hend
  obtain ⟨hpolled, hvalve, hprep⟩ : (twoLinesIndex.groupsForEndpoint "north").map s.polled =
      [some 1000] ∧ s.polled valveGroup = some 1000 ∧
      (prepare twoLinesIndex idle "north" 950 950 s.world).1 = .ok () := by simpa using hs
  have hfresh : Schedule.Fresh ({ world := idleWorld } : Schedule Unit) := ⟨rfl, rfl, rfl⟩
  have hreach : Transition.Reachable (Schedule.stepAnyTime twoLinesIndex idle "north")
      Transition.Free Schedule.Fresh s := (Transition.Reachable.start hfresh).of_run _ hrun
  have hperiods : ∀ g ∈ twoLinesIndex.groupsForEndpoint "north", (50 : ℤ) < g.periodMs := by
    decide +kernel
  refine ⟨hok, s, hreach, hvalve, (skips_recent_iff (JsonLibrary.reading_reports _) hok "north"
    idle hreach 950 950 (.pollDue "north" 950 950) (by decide) (.inl rfl) hprep).mpr ?_⟩
  intro g hg last hlast
  have hmem : s.polled g ∈ (twoLinesIndex.groupsForEndpoint "north").map s.polled :=
    List.mem_map_of_mem hg
  rw [hpolled, List.mem_singleton, hlast] at hmem
  obtain rfl := Option.some.inj hmem
  exact hperiods g hg

/-- Set back from 1000000 to 500000 the clock suspends the polls of the valves. -/
theorem clock_set_back : twoLines.ok = true ∧
    ∃ s : Schedule Unit, Transition.Reachable (Schedule.stepAnyTime twoLinesIndex idle "north")
        Transition.Free Schedule.Fresh s ∧
      (prepare twoLinesIndex idle "north" 500000 500000 s.world).1 = .ok () ∧
      valveGroup ∈ twoLinesIndex.groupsForEndpoint "north" ∧
      s.polled valveGroup = some 1000000 ∧
      polledGroups twoLinesIndex idle "north" 500000 500000 s.world = [] ∧
      ¬ s.SkipsRecent twoLinesIndex idle "north" 500000 (.pollDue "north" 500000 500000) := by
  have hend : (Transition.run (Schedule.stepAnyTime twoLinesIndex idle "north")
      [.pollDue "north" 1000000 1000000] { world := idleWorld }).map (fun s => (
        (prepare twoLinesIndex idle "north" 500000 500000 s.world).1, s.polled valveGroup,
        polledGroups twoLinesIndex idle "north" 500000 500000 s.world)) =
      some (.ok (), some 1000000, []) := by decide +kernel
  obtain ⟨s, hrun, hs⟩ := Option.map_eq_some_iff.mp hend
  obtain ⟨hprep, hpolled, hnone⟩ :
      (prepare twoLinesIndex idle "north" 500000 500000 s.world).1 = .ok () ∧
      s.polled valveGroup = some 1000000 ∧
      polledGroups twoLinesIndex idle "north" 500000 500000 s.world = [] := by simpa using hs
  have hfresh : Schedule.Fresh ({ world := idleWorld } : Schedule Unit) := ⟨rfl, rfl, rfl⟩
  have hreach : Transition.Reachable (Schedule.stepAnyTime twoLinesIndex idle "north")
      Transition.Free Schedule.Fresh s := (Transition.Reachable.start hfresh).of_run _ hrun
  have hmem : valveGroup ∈ twoLinesIndex.groupsForEndpoint "north" := by decide +kernel
  refine ⟨by decide +kernel, s, hreach, hprep, hmem, hpolled, hnone, fun hskips => ?_⟩
  have hout : valveGroup ∉ Schedule.groupsOf twoLinesIndex idle s.world
      (.pollDue "north" 500000 500000) := by
    change valveGroup ∉ polledGroups twoLinesIndex idle "north" 500000 500000 s.world
    rw [hnone]
    exact List.not_mem_nil
  obtain ⟨last, hlast, hnear⟩ := hskips valveGroup hmem hout
  obtain rfl := Option.some.inj (hpolled.symm.trans hlast)
  exact absurd hnear (by decide)

end OpcServer.Core
