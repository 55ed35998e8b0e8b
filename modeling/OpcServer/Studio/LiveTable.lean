import OpcServer.Lib.OrderedMap
import OpcServer.Lib.Transition
import OpcServer.Studio.Document
import OpcServer.Studio.LiveValues

/-! The table of live values. The studio collects the values that arrive between two frames,
the last one for each node, and hands them to the page when the frame is drawn; other events
it hands on at once. The page that gets each value as it arrives is what the table is compared
with. A value that arrives while a frame is due is under the pause that holds at the frame. -/

namespace OpcServer.Studio

open Domain Project Adapters Monitor OpcServer.Core

section Table

variable [Platform]

/-! ### The page -/

structure View where
  status : String := "disconnected"
  nodes : Json := .array []
  values : List (String × LiveValue) := []
  events : List MonitorEvent := []

/-- `MAX_EVENTS`. -/
def maxEvents : ℕ := 500

/-- The listener of the page. -/
def View.notice (paused : Bool) (v : View) (event : MonitorEvent) : View :=
  let events := Document.lastOf maxEvents (v.events ++ [event])
  match event with
  | .status status _ => { v with status := status, events := events }
  | .browse nodes => { v with nodes := nodes, events := events }
  | .value value =>
    if paused then { v with events := events }
    else { v with values := OrderedMap.set v.values value.nodeId value, events := events }
  | .diagnostic .. => { v with events := events }

theorem View.notice_value (paused : Bool) (v : View) (value : LiveValue) :
    (v.notice paused (.value value)).status = v.status ∧
      (v.notice paused (.value value)).nodes = v.nodes ∧
      (v.notice paused (.value value)).values =
        if paused then v.values else OrderedMap.set v.values value.nodeId value := by
  unfold View.notice
  cases paused with
  | true => simp
  | false => simp

structure LiveMonitor where
  pendingValues : List (String × LiveValue) := []
  animationFrame : Bool := false
  paused : Bool := false
  view : View := {}

inductive LiveAction where
  | emit (event : MonitorEvent)
  | frame
  | pause (paused : Bool)

namespace LiveMonitor

def step : LiveAction → LiveMonitor → Option LiveMonitor
  | .emit (.value value), s => some { s with
      pendingValues := OrderedMap.set s.pendingValues value.nodeId value
      animationFrame := true }
  | .emit event, s => some { s with view := s.view.notice s.paused event }
  | .frame, s =>
    if s.animationFrame then
      some { s with
        pendingValues := []
        animationFrame := false
        view := s.pendingValues.foldl (fun v p => v.notice s.paused (.value p.2)) s.view }
    else none
  | .pause paused, s => some { s with paused := paused }

/-- The page without frames: each event is noticed when it arrives. -/
def direct (s : Bool × View) : LiveAction → Bool × View
  | .emit event => (s.1, s.2.notice s.1 event)
  | .frame => s
  | .pause paused => (paused, s.2)

/-- The page is paused and resumed while no value waits for a frame. -/
def Settled : LiveAction → LiveMonitor → Prop
  | .pause _, s => s.pendingValues = []
  | _, _ => True

/-- The page that got everything at once. -/
structure Agrees (s : LiveMonitor) (d : Bool × View) : Prop where
  frame : s.animationFrame = false → s.pendingValues = []
  keys : (s.pendingValues.map Prod.fst).Nodup
  nodes : ∀ p ∈ s.pendingValues, p.2.nodeId = p.1
  paused : d.1 = s.paused
  status : d.2.status = s.view.status
  browsed : d.2.nodes = s.view.nodes
  values : d.2.values =
    if s.paused then s.view.values else OrderedMap.setAll s.view.values s.pendingValues

theorem agrees_start : Agrees {} (false, {}) where
  frame _ := rfl
  keys := List.nodup_nil
  nodes _ h := by cases h
  paused := rfl
  status := rfl
  browsed := rfl
  values := rfl

/-- What a frame does to the page. -/
theorem foldl_notice (paused : Bool) (pending : List (String × LiveValue))
    (hnodes : ∀ p ∈ pending, p.2.nodeId = p.1) (v : View) :
    let w := pending.foldl (fun v p => v.notice paused (.value p.2)) v
    w.status = v.status ∧ w.nodes = v.nodes ∧
      w.values = if paused then v.values else OrderedMap.setAll v.values pending := by
  induction pending generalizing v with
  | nil =>
    refine ⟨rfl, rfl, ?_⟩
    split
    · rfl
    · rfl
  | cons p rest ih =>
    obtain ⟨hstatus, hbrowsed, hvalues⟩ :=
      ih (fun q hq => hnodes q (List.mem_cons_of_mem _ hq)) (v.notice paused (.value p.2))
    obtain ⟨hstatus', hbrowsed', hvalues'⟩ := v.notice_value paused p.2
    refine ⟨hstatus.trans hstatus', hbrowsed.trans hbrowsed', hvalues.trans ?_⟩
    rw [hvalues', hnodes p List.mem_cons_self]
    cases paused with
    | true => rfl
    | false => rfl

theorem step_agrees {action : LiveAction} {s t : LiveMonitor} {d : Bool × View} (h : s.Agrees d)
    (hsettled : Settled action s) (hstep : step action s = some t) :
    t.Agrees (direct d action) := by
  obtain ⟨paused, v⟩ := d
  obtain rfl : paused = s.paused := h.paused
  cases action with
  | emit event =>
    cases event with
    | status status message =>
      cases hstep
      exact ⟨h.frame, h.keys, h.nodes, rfl, by simp only [direct, View.notice],
        by simpa only [direct, View.notice] using h.browsed,
        by simpa only [direct, View.notice] using h.values⟩
    | browse nodes =>
      cases hstep
      exact ⟨h.frame, h.keys, h.nodes, rfl, by simpa only [direct, View.notice] using h.status,
        by simp only [direct, View.notice],
        by simpa only [direct, View.notice] using h.values⟩
    | diagnostic level message timestamp =>
      cases hstep
      exact ⟨h.frame, h.keys, h.nodes, rfl, by simpa only [direct, View.notice] using h.status,
        by simpa only [direct, View.notice] using h.browsed,
        by simpa only [direct, View.notice] using h.values⟩
    | value value =>
      cases hstep
      obtain ⟨hstatus, hbrowsed, hvalues⟩ := v.notice_value s.paused value
      refine ⟨by simp, OrderedMap.nodup_keys_set h.keys _ _, ?_, rfl, hstatus.trans h.status,
        hbrowsed.trans h.browsed, hvalues.trans ?_⟩
      · intro p hp
        rcases OrderedMap.mem_set hp with rfl | hp
        · rfl
        · exact h.nodes p hp
      · have hall := h.values
        simp only at hall
        cases hpaused : s.paused with
        | true => simpa [hpaused] using hall
        | false =>
          simp only [hpaused, Bool.false_eq_true, if_false] at hall ⊢
          rw [OrderedMap.setAll_set h.keys, hall]
  | frame =>
    simp only [step] at hstep
    split at hstep
    · cases hstep
      obtain ⟨hstatus, hbrowsed, hvalues⟩ := foldl_notice s.paused s.pendingValues h.nodes s.view
      refine ⟨fun _ => rfl, List.nodup_nil, by simp, rfl, h.status.trans hstatus.symm,
        h.browsed.trans hbrowsed.symm, ?_⟩
      refine (h.values.trans hvalues.symm).trans ?_
      split
      · rfl
      · rfl
    · cases hstep
  | pause paused =>
    cases hstep
    refine ⟨h.frame, h.keys, h.nodes, rfl, h.status, h.browsed, ?_⟩
    have hvalues := h.values
    rw [show s.pendingValues = [] from hsettled, OrderedMap.setAll_nil, ite_self] at hvalues ⊢
    exact hvalues

theorem run_agrees (actions : List LiveAction) {s t : LiveMonitor} {d : Bool × View}
    (h : s.Agrees d) (hmeets : Transition.Meets step Settled actions s)
    (hrun : Transition.run step actions s = some t) : t.Agrees (actions.foldl direct d) := by
  induction actions generalizing s d with
  | nil =>
    cases hrun
    exact h
  | cons action rest ih =>
    obtain ⟨u, hu, hrest⟩ := Option.bind_eq_some_iff.mp hrun
    exact ih (step_agrees h hmeets.1 hu) (hmeets.2 u hu) hrest

/-- When no frame is due the table is the one that shows each value as it arrives, with the
rows in the same order, and so are the status and the nodes. -/
theorem batched_agrees (actions : List LiveAction) {s : LiveMonitor}
    (hmeets : Transition.Meets step Settled actions {})
    (hrun : Transition.run step actions {} = some s) (hdrawn : s.animationFrame = false) :
    let v := (actions.foldl direct (false, {})).2
    s.view.values = v.values ∧ s.view.status = v.status ∧ s.view.nodes = v.nodes := by
  have h := run_agrees actions agrees_start hmeets hrun
  refine ⟨?_, h.status.symm, h.browsed.symm⟩
  rw [h.values, h.frame hdrawn, OrderedMap.setAll_nil, ite_self]

/-! ### Changes in the store -/

/-- The last time that fits into a `UA_DateTime`. -/
def maxStoredMs : ℤ := (2 ^ 63 - 1 - 116444736000000000) / 10000

/-- What the server reports for an item on the node of a tag: the entry of the tag, if it
has one, the times that the library adds, and the time of the studio. -/
structure Change where
  item : Item
  ctx : OpcUaNodeContext
  stored : Option TagValue
  sourceClock : Option ℤ := none
  serverClock : Option ℤ := none
  now : String := ""
  subscribed : (subscriptionKey item.externalId).isSome
  inTime : ∀ tv ∈ stored, tv.sourceTs ≤ maxStoredMs ∧ tv.serverTs ≤ maxStoredMs

section Changes

variable (rfc3339 : ℤ → Option String) (reread : Double → Except String Double)

/-- The event that a change ends as. -/
def Change.event (c : Change) : MonitorEvent :=
  lineEvent rfc3339 c.now (line reread (onDataChange c.item
    (sent c.sourceClock c.serverClock (dataSourceRead c.ctx true ⟨fun _ => c.stored⟩))))

/-- The row that a change should give; a tag without an entry is one that never had a
value. -/
def Change.row (c : Change) : Except String LiveValue :=
  entryRow rfc3339 reread c.item.nodeId c.ctx.type (c.stored.getD {}) c.sourceClock c.serverClock

theorem Change.event_eq (c : Change) :
    c.event rfc3339 reread = rowEvent c.now (c.row rfc3339 reread) :=
  stored_is_shown c.now c.ctx _ c.sourceClock c.serverClock c.subscribed

/-- Changes, and the frames between them. -/
def changeActions (steps : List (Option Change)) : List LiveAction :=
  steps.map fun
    | some c => .emit (c.event rfc3339 reread)
    | none => .frame

/-- The rows of the changes whose lines could be read. -/
def rows (steps : List (Option Change)) : List LiveValue :=
  steps.filterMap fun step => step.bind fun c => (c.row rfc3339 reread).toOption

theorem meets_changes (steps : List (Option Change)) (s : LiveMonitor) :
    Transition.Meets step Settled (changeActions rfc3339 reread steps) s := by
  induction steps generalizing s with
  | nil => trivial
  | cons first rest ih =>
    cases first with
    | none => exact ⟨trivial, fun t _ => ih t⟩
    | some c => exact ⟨trivial, fun t _ => ih t⟩

theorem direct_changes (steps : List (Option Change)) (v : View) :
    ((changeActions rfc3339 reread steps).foldl direct (false, v)).2.values =
      OrderedMap.setAll v.values
        ((rows rfc3339 reread steps).map fun row => (row.nodeId, row)) := by
  induction steps generalizing v with
  | nil => rfl
  | cons first rest ih =>
    cases first with
    | none => exact ih v
    | some c =>
      rw [changeActions, List.map_cons, List.foldl_cons, direct, c.event_eq]
      refine (ih _).trans ?_
      rw [rows, rows, List.filterMap_cons, Option.bind_some]
      cases c.row rfc3339 reread with
      | error error =>
        simp only [rowEvent, View.notice]
        rfl
      | ok row =>
        rw [rowEvent, (v.notice_value false row).2.2]
        rfl

/-- However changes and frames alternate: when no frame is due, the row of a node shows the
last of its changes that could be read, the value, the quality and the times as they are
stored. -/
theorem last_change_shown (steps : List (Option Change)) {s : LiveMonitor}
    (hrun : Transition.run step (changeActions rfc3339 reread steps) {} = some s)
    (hdrawn : s.animationFrame = false) (nodeId : String) :
    s.view.values.lookup nodeId =
      (rows rfc3339 reread steps).reverse.find? fun row => row.nodeId = nodeId := by
  have h := run_agrees _ agrees_start (meets_changes rfc3339 reread steps {}) hrun
  have hvalues := h.values
  rw [h.frame hdrawn, OrderedMap.setAll_nil, ite_self, direct_changes] at hvalues
  rw [← hvalues, OrderedMap.lookup_setAll, ← List.map_reverse, OrderedMap.lookup_map,
    Option.map_id']
  exact Option.or_none

end Changes

end LiveMonitor

end Table

namespace LiveMonitor

section Levels

attribute [local instance] exactPlatform

/-- A change on a node, with a library that adds the source time where it is missing. -/
def tagChange (nodeId : String) (type : TagType) (stored : Option TagValue)
    (h : ∀ tv ∈ stored, tv.sourceTs ≤ maxStoredMs ∧ tv.serverTs ≤ maxStoredMs) : Change where
  item := ⟨0, .string "studio-0", nodeId, 7⟩
  ctx := ⟨1, type, false⟩
  stored := stored
  sourceClock := some 133000000000000000
  subscribed := rfl
  inTime := h

def levelEntry (value : UInt16) (quality : Quality) (sourceTs serverTs : ℤ) : TagValue :=
  ⟨.uint16 value, quality, .none, sourceTs, serverTs, 0⟩

/-- A level that is read three times and then lost, and a pump that was never read. -/
def levelSteps : List (Option Change) :=
  [some (tagChange "ns=1;i=1003" .uint16 (levelEntry 20 .good 1000 1000) (by decide)),
    some (tagChange "ns=1;i=1003" .uint16 (levelEntry 21 .good 1250 1250) (by decide)),
    none,
    some (tagChange "ns=1;i=1003" .uint16 (levelEntry 22 .good 1500 1500) (by decide)),
    some (tagChange "ns=1;s=Pump" .bool none (by decide)),
    some (tagChange "ns=1;i=1003" .uint16 (levelEntry 22 .bad 1500 1750) (by decide)),
    none]

def levelText (ms : ℤ) : Option String :=
  if ms = 1500 then some "00:00:01.500" else if ms = 1750 then some "00:00:01.750" else none

theorem liveLevel_shown : ∃ s,
    Transition.run step (changeActions levelText .ok levelSteps) {} = some s ∧
    (s.view.values.lookup "ns=1;i=1003").map (fun row => (row.browseName, row.quality,
      row.sourceTimestamp, row.serverTimestamp)) =
        some ("1003", "Bad", "00:00:01.500", "00:00:01.750") ∧
    (s.view.values.lookup "ns=1;s=Pump").map (fun row => (row.browseName, row.quality,
      row.serverTimestamp)) = some ("Pump", "Bad", "") := by
  obtain ⟨s, hrun⟩ :
      ∃ s, Transition.run step (changeActions levelText .ok levelSteps) {} = some s := ⟨_, rfl⟩
  have hdrawn : s.animationFrame = false := by
    cases hrun
    rfl
  have hshown := last_change_shown levelText .ok levelSteps hrun hdrawn
  refine ⟨s, hrun, ?_, ?_⟩
  · rw [hshown]
    rfl
  · rw [hshown]
    rfl

/-- The same changes as events, with a pause between two frames. -/
def pausedLevel : List LiveAction :=
  changeActions levelText .ok (levelSteps.take 3) ++ [.pause true] ++
    changeActions levelText .ok (levelSteps.drop 3)

theorem pausedLevel_agrees : ∃ s, Transition.run step pausedLevel {} = some s ∧
    s.view.values.length = 1 ∧ s.view.values = (pausedLevel.foldl direct (false, {})).2.values := by
  obtain ⟨s, hrun⟩ : ∃ s, Transition.run step pausedLevel {} = some s := ⟨_, rfl⟩
  have hmeets : Transition.Meets step Settled pausedLevel {} := by
    refine ⟨trivial, fun _ _ => ⟨trivial, fun _ _ => ⟨trivial, fun _ ht => ⟨?_, fun u _ =>
      meets_changes levelText .ok (levelSteps.drop 3) u⟩⟩⟩⟩
    simp only [step] at ht
    split at ht
    · cases ht
      rfl
    · cases ht
  have hend : s.animationFrame = false ∧ s.view.values.length = 1 := by
    cases hrun
    exact ⟨rfl, rfl⟩
  exact ⟨s, hrun, hend.2, (batched_agrees pausedLevel hmeets hrun hend.1).1⟩

end Levels

end LiveMonitor

end OpcServer.Studio
