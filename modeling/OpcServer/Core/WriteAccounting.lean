import OpcServer.Core.Ledger
import OpcServer.Lib.Transition

/-! No accepted write is lost or duplicated, over every sequence of `enqueue_write`
and `flush_writes` calls. A flush drops writes in one case only: a coil run that
breaks at a write that does not encode. Runs whose flushes never start on such a
queue account for every write; the last theorem is a run of two coil writes that
loses the first. -/

namespace OpcServer.Core

open Domain Project Transition

section Accounting

/-! ### Calls -/

/-- A call made on the dispatcher, a flush with the clock it reads. -/
inductive Call [Platform] where
  | enqueue (tagId : TagId) (value : ScalarValue)
  | flush (endpointId : String) (now : TimestampMs)
  deriving DecidableEq

variable [Platform]

def perform {σ : Type} (index : RuntimeIndex) (transport : IModbusTransport σ) :
    Call → World σ → Option (World σ)
  | .enqueue tagId value, w =>
    some { w with dispatcher := (w.dispatcher.enqueueWrite index tagId value).2 }
  | .flush endpointId now, w => some (flushWrites index transport endpointId now w).2

/-- A dispatcher just constructed, over any store and any transports. -/
def Fresh {σ : Type} (w : World σ) : Prop :=
  w.dispatcher.trace = [] ∧ ∀ ep, w.dispatcher.writeQueues ep = []

/-- No flush starts on a queue with a broken coil run. -/
def RunsEncode {σ : Type} (index : RuntimeIndex) : Call → World σ → Prop
  | .enqueue _ _, _ => True
  | .flush endpointId _, w => brokenRun index (w.dispatcher.writeQueues endpointId) = false

/-! ### The three situations -/

/-- A flush failed right after publishing Bad for this write. -/
def Rejected (endpointId : String) (write : PendingWrite) (trace : List Event) : Prop :=
  ∃ before event e after, trace = before ++ event :: .flushed endpointId (.error e) :: after ∧
    BadPublish write event

/-- Exactly one of three propositions. -/
def ExactlyOne (p q r : Prop) : Prop := (p ∧ ¬q ∧ ¬r) ∨ (¬p ∧ q ∧ ¬r) ∨ (¬p ∧ ¬q ∧ r)

/-- Every accepted write was delivered, was rejected, or is queued, and only one of
these; nothing was delivered twice, and the queue keeps the order of acceptance. -/
def WritesAccounted (endpointId : String) (d : Dispatcher) : Prop :=
  (∀ write ∈ accepted endpointId d.trace,
    ExactlyOne (Delivered endpointId write d.trace) (Rejected endpointId write d.trace)
      (write ∈ d.writeQueues endpointId)) ∧
  (delivered endpointId d.trace).Nodup ∧
  (d.writeQueues endpointId).Sublist (accepted endpointId d.trace)

theorem Rejected.append {ep : String} {write : PendingWrite} {trace : List Event}
    (h : Rejected ep write trace) (more : List Event) : Rejected ep write (trace ++ more) := by
  obtain ⟨before, event, e, after, rfl, hb⟩ := h
  exact ⟨before, event, e, after ++ more, by simp, hb⟩

theorem BadPublish.rejected {index : RuntimeIndex} {ep : String} {write : PendingWrite}
    {event : Event} (h : BadPublish write event) :
    rejected index ep [event] = if onEndpoint index ep write then [write] else [] := by
  obtain ⟨value, rfl, hq, -⟩ := h
  simp [Core.rejected, hq]

theorem Rejected.mem {ep : String} {write : PendingWrite} {trace : List Event}
    (h : Rejected ep write trace) (index : RuntimeIndex) (hon : onEndpoint index ep write) :
    write ∈ rejected index ep trace := by
  obtain ⟨before, event, e, after, rfl, hb⟩ := h
  have hsplit : before ++ event :: .flushed ep (.error e) :: after =
      before ++ ([event] ++ .flushed ep (.error e) :: after) := rfl
  rw [hsplit, rejected_append, rejected_append, hb.rejected, if_pos hon]
  simp

/-! ### The ledger -/

/-- The books of an endpoint. -/
structure Ledger (index : RuntimeIndex) (endpointId : String) (d : Dispatcher) : Prop where
  numbered : ∀ write ∈ accepted endpointId d.trace, write.seq < d.nextSeq
  increasing : (accepted endpointId d.trace).Pairwise fun a b => a.seq < b.seq
  known : ∀ write ∈ accepted endpointId d.trace, onEndpoint index endpointId write
  balance : (accepted endpointId d.trace).Perm
    (delivered endpointId d.trace ++ (rejected index endpointId d.trace ++ d.writeQueues endpointId))
  order : (d.writeQueues endpointId).Sublist (accepted endpointId d.trace)
  confirmed : ∀ write ∈ delivered endpointId d.trace, Delivered endpointId write d.trace
  settled : ∀ write ∈ rejected index endpointId d.trace, Rejected endpointId write d.trace

namespace Ledger

variable {index : RuntimeIndex} {ep : String} {d d' : Dispatcher}

theorem nodup (h : Ledger index ep d) : (accepted ep d.trace).Nodup :=
  h.increasing.imp fun hlt heq => absurd (congrArg PendingWrite.seq heq) hlt.ne

/-- The balance says where each write is, and that it is in one place only. -/
theorem writesAccounted (h : Ledger index ep d) : WritesAccounted ep d := by
  have hnd := h.balance.nodup_iff.mp h.nodup
  obtain ⟨hdel, hrest, hdisj⟩ := List.nodup_append.mp hnd
  obtain ⟨-, -, hdisj'⟩ := List.nodup_append.mp hrest
  refine ⟨fun write hw => ?_, hdel, h.order⟩
  have hD : Delivered ep write d.trace ↔ write ∈ delivered ep d.trace :=
    ⟨Delivered.mem, h.confirmed write⟩
  have hR : Rejected ep write d.trace ↔ write ∈ rejected index ep d.trace :=
    ⟨fun hr => hr.mem index (h.known write hw), h.settled write⟩
  rw [hD, hR]
  have hmem := h.balance.mem_iff.mp hw
  rcases List.mem_append.mp hmem with hm | hm
  · refine .inl ⟨hm, fun hr => ?_, fun hq => ?_⟩
    · exact hdisj _ hm _ (List.mem_append_left _ hr) rfl
    · exact hdisj _ hm _ (List.mem_append_right _ hq) rfl
  · have hnot : write ∉ delivered ep d.trace := fun hdm => hdisj _ hdm _ hm rfl
    rcases List.mem_append.mp hm with hr | hq
    · exact .inr (.inl ⟨hnot, hr, fun hq => hdisj' _ hr _ hq rfl⟩)
    · exact .inr (.inr ⟨hnot, fun hr => hdisj' _ hr _ hq rfl, hq⟩)

/-- Events that say nothing about an endpoint leave its books alone. -/
theorem frame (h : Ledger index ep d) (events : List Event) (ht : d'.trace = d.trace ++ events)
    (hseq : d.nextSeq ≤ d'.nextSeq) (hq : d'.writeQueues ep = d.writeQueues ep)
    (ha : accepted ep events = []) (hd : delivered ep events = [])
    (hr : rejected index ep events = []) : Ledger index ep d' := by
  have ha' : accepted ep d'.trace = accepted ep d.trace := by simp [ht, ha]
  have hd' : delivered ep d'.trace = delivered ep d.trace := by simp [ht, hd]
  have hr' : rejected index ep d'.trace = rejected index ep d.trace := by simp [ht, hr]
  refine ⟨?_, ?_, ?_, ?_, ?_, ?_, ?_⟩
  · rw [ha']
    exact fun write hw => (h.numbered write hw).trans_le hseq
  · rw [ha']
    exact h.increasing
  · rw [ha']
    exact h.known
  · rw [ha', hd', hr', hq]
    exact h.balance
  · rw [ha', hq]
    exact h.order
  · rw [hd', ht]
    exact fun write hw => (h.confirmed write hw).append events
  · rw [hr', ht]
    exact fun write hw => (h.settled write hw).append events

/-- A dispatcher just constructed has empty books. -/
theorem of_fresh (ht : d.trace = []) (hq : d.writeQueues ep = []) : Ledger index ep d := by
  constructor <;> simp [ht, hq, accepted, delivered, rejected]

/-- Accepting a write enters it as queued. -/
theorem accept (h : Ledger index ep d) {tagId : TagId} {value : ScalarValue} {b : TagBinding}
    (hb : index.findById tagId = some b) :
    Ledger index ep (d.accept b.endpointId tagId value) := by
  by_cases hep : b.endpointId = ep
  · subst hep
    set write : PendingWrite := { tagId := tagId, value := value, seq := d.nextSeq } with hwrite
    have ht : (d.accept b.endpointId tagId value).trace =
        d.trace ++ [.accepted b.endpointId write] := rfl
    have hq : (d.accept b.endpointId tagId value).writeQueues b.endpointId =
        d.writeQueues b.endpointId ++ [write] := Dispatcher.accept_writeQueues ..
    have ha : accepted b.endpointId (d.accept b.endpointId tagId value).trace =
        accepted b.endpointId d.trace ++ [write] := by
      rw [accepted_accept, if_pos rfl]
    have hd : delivered b.endpointId (d.accept b.endpointId tagId value).trace =
        delivered b.endpointId d.trace := delivered_accept ..
    have hr : rejected index b.endpointId (d.accept b.endpointId tagId value).trace =
        rejected index b.endpointId d.trace := by
      rw [ht, rejected_append]
      simp [rejected]
    refine ⟨?_, ?_, ?_, ?_, ?_, ?_, ?_⟩
    · rw [ha]
      intro w hw
      rcases List.mem_append.mp hw with hw | hw
      · exact (h.numbered w hw).trans (Nat.lt_succ_self _)
      · obtain rfl := List.mem_singleton.mp hw
        exact Nat.lt_succ_self _
    · rw [ha]
      refine List.pairwise_append.mpr ⟨h.increasing, List.pairwise_singleton _ _, ?_⟩
      intro w hw w' hw'
      obtain rfl := List.mem_singleton.mp hw'
      exact h.numbered w hw
    · rw [ha]
      intro w hw
      rcases List.mem_append.mp hw with hw | hw
      · exact h.known w hw
      · obtain rfl := List.mem_singleton.mp hw
        simp [onEndpoint, hwrite, hb]
    · rw [ha, hd, hr, hq, ← List.append_assoc, ← List.append_assoc]
      exact (h.balance.trans (List.Perm.of_eq (List.append_assoc _ _ _).symm)).append_right _
    · rw [ha, hq]
      exact h.order.append_right _
    · rw [hd, ht]
      exact fun w hw => (h.confirmed w hw).append _
    · rw [hr, ht]
      exact fun w hw => (h.settled w hw).append _
  · refine h.frame [.accepted b.endpointId _] rfl (Nat.le_succ _) ?_ ?_ rfl rfl
    · exact Dispatcher.accept_writeQueues_of_ne _ _ _ (Ne.symm hep)
    · simp [accepted, hep]

end Ledger

/-! ### The end of a flush -/

/-- The last events of a flush: they accept and deliver nothing, and reject exactly the
blamed writes. -/
structure Ending (index : RuntimeIndex) (endpointId : String) (blamed : List PendingWrite)
    (ending : List Event) : Prop where
  accepted : ∀ ep, accepted ep ending = []
  delivered : ∀ ep, delivered ep ending = []
  rejected : ∀ ep, rejected index ep ending = blamed.filter (onEndpoint index ep)
  settled : ∀ write ∈ blamed, Rejected endpointId write ending

theorem Ending.of_ok (index : RuntimeIndex) (ep : String) (r : Result Unit) :
    Ending index ep [] [.flushed ep r] :=
  ⟨fun _ => rfl, fun _ => rfl, fun _ => rfl, by simp⟩

theorem Ending.of_error (index : RuntimeIndex) {ep : String} {attempt : List Event} {event : Event}
    {bad : PendingWrite} (e : Error)
    (ha : attempt = [] ∨ ∃ request carried, attempt = [.call ep (.write request) false carried])
    (hbad : BadPublish bad event) :
    Ending index ep [bad] (attempt ++ ([event] ++ [.flushed ep (.error e)])) := by
  have hsettled : Rejected ep bad (attempt ++ ([event] ++ [.flushed ep (.error e)])) :=
    ⟨attempt, event, e, [], rfl, hbad⟩
  obtain ⟨value, rfl, hq, -⟩ := hbad
  -- neither a failed call nor the note at the end shows up in any of the three lists
  rcases ha with rfl | ⟨request, carried, rfl⟩
  · exact ⟨fun _ => rfl, fun _ => rfl, by simp [Core.rejected, hq, List.filter_cons],
      by simpa using hsettled⟩
  · exact ⟨fun _ => rfl, fun _ => rfl, by simp [Core.rejected, hq, List.filter_cons],
      by simpa using hsettled⟩

/-- The books of all endpoints say that a queue holds writes of its own endpoint. -/
theorem onEndpoint_of_queued {index : RuntimeIndex} {ep : String} {d : Dispatcher}
    (h : Ledger index ep d) {write : PendingWrite} (hw : write ∈ d.writeQueues ep) :
    onEndpoint index ep write := h.known write (h.order.subset hw)

namespace Ledger

variable {index : RuntimeIndex} {ep endpointId : String} {d d' : Dispatcher}
  {sent blamed back : List PendingWrite} {events ending : List Event}

/-- Rounds that deliver the front of the queue, and an ending that blames the next
writes and puts the rest back, keep the books of the endpoint. -/
theorem deliver (h : Ledger index ep d) (hr : Rounds ep sent events)
    (he : Ending index ep blamed ending) (hq : d.writeQueues ep = sent ++ (blamed ++ back))
    (ht : d'.trace = d.trace ++ (events ++ ending)) (hseq : d'.nextSeq = d.nextSeq)
    (hback : d'.writeQueues ep = back) : Ledger index ep d' := by
  have hblamed : blamed.filter (onEndpoint index ep) = blamed := by
    refine List.filter_eq_self.mpr fun write hw => onEndpoint_of_queued h ?_
    rw [hq]
    exact List.mem_append_right _ (List.mem_append_left _ hw)
  have ha' : accepted ep d'.trace = accepted ep d.trace := by
    rw [ht, accepted_append, accepted_append, hr.accepted, he.accepted, List.append_nil,
      List.append_nil]
  have hd' : delivered ep d'.trace = delivered ep d.trace ++ sent := by
    rw [ht, delivered_append, delivered_append, hr.delivered, he.delivered, List.append_nil]
  have hr' : rejected index ep d'.trace = rejected index ep d.trace ++ blamed := by
    rw [ht, rejected_append, rejected_append, hr.rejected, he.rejected, hblamed, List.nil_append]
  refine ⟨?_, ?_, ?_, ?_, ?_, ?_, ?_⟩
  · rw [ha', hseq]
    exact h.numbered
  · rw [ha']
    exact h.increasing
  · rw [ha']
    exact h.known
  · rw [ha', hd', hr', hback]
    have hb := h.balance
    rw [hq] at hb
    refine hb.trans (List.perm_iff_count.mpr fun w => ?_)
    simp only [List.count_append]
    omega
  · rw [ha', hback]
    have ho := h.order
    rw [hq, ← List.append_assoc] at ho
    exact (List.sublist_append_right _ _).trans ho
  · rw [hd', ht]
    intro w hw
    rcases List.mem_append.mp hw with hw | hw
    · exact (h.confirmed w hw).append _
    · exact ((hr.confirmed w hw).append ending).prepend _
  · rw [hr', ht]
    intro w hw
    rcases List.mem_append.mp hw with hw | hw
    · exact (h.settled w hw).append _
    · obtain ⟨before, event, e, after, hw, hb⟩ := he.settled w hw
      exact ⟨d.trace ++ (events ++ before), event, e, after, by simp [hw], hb⟩

/-- They keep the books of every other endpoint too. -/
theorem bystander (h : Ledger index ep d) (hne : ep ≠ endpointId) (hr : Rounds endpointId sent events)
    (he : Ending index endpointId blamed ending)
    (hblamed : ∀ write ∈ blamed, onEndpoint index endpointId write)
    (ht : d'.trace = d.trace ++ (events ++ ending)) (hseq : d'.nextSeq = d.nextSeq)
    (hq : d'.writeQueues ep = d.writeQueues ep) : Ledger index ep d' := by
  have hfilter : blamed.filter (onEndpoint index ep) = [] := by
    refine List.filter_eq_nil_iff.mpr fun write hw hon => ?_
    exact hne (onEndpoint_unique hon (hblamed write hw))
  refine h.frame (events ++ ending) ht hseq.ge hq ?_ ?_ ?_
  · rw [accepted_append, hr.accepted, he.accepted]
    rfl
  · rw [delivered_append, hr.delivered_of_ne (Ne.symm hne), he.delivered]
    rfl
  · rw [rejected_append, hr.rejected, he.rejected, hfilter]
    rfl

end Ledger

/-- A flush of a queue without broken runs sends the front of the queue, then ends. -/
theorem flushWrites_summary {σ : Type} (index : RuntimeIndex) (transport : IModbusTransport σ)
    (endpointId : String) (now : TimestampMs) (w : World σ)
    (hruns : brokenRun index (w.dispatcher.writeQueues endpointId) = false)
    (hknown : ∀ write ∈ w.dispatcher.writeQueues endpointId, index.findById write.tagId ≠ none) :
    ∃ sent blamed back events ending,
      w.dispatcher.writeQueues endpointId = sent ++ (blamed ++ back) ∧
      Rounds endpointId sent events ∧ Ending index endpointId blamed ending ∧
      (flushWrites index transport endpointId now w).2.dispatcher.trace =
        w.dispatcher.trace ++ (events ++ ending) ∧
      (flushWrites index transport endpointId now w).2.dispatcher.nextSeq = w.dispatcher.nextSeq ∧
      (flushWrites index transport endpointId now w).2.dispatcher.writeQueues =
        Function.update w.dispatcher.writeQueues endpointId back := by
  obtain ⟨hq, hf⟩ | ⟨-, e, hf⟩ | ⟨t, r, s, -, hloop, hf⟩ :=
    flushWrites_cases index transport endpointId now w
  · rw [hf]
    refine ⟨[], [], [], [], [.flushed endpointId (.ok ())], hq, .nil, .of_ok index _ _, rfl, rfl, ?_⟩
    rw [← hq, Function.update_eq_self]
    rfl
  · rw [hf]
    refine ⟨[], [], _, [], [.flushed endpointId (.error e)], rfl, .nil, .of_ok index _ _, rfl, rfl, ?_⟩
    exact (Function.update_eq_self _ _).symm
  · rw [hf]
    obtain ⟨sent, events, hr, hseq, hres⟩ :=
      flushLoop_spec index transport endpointId now _ hknown _ _ _ hloop
    rcases hres with ⟨rfl, hsent, ht, hq⟩ | ⟨e, rfl, lost, bad, back, attempt, event, hbatch, hlost,
      hattempt, hbad, ht, hq⟩
    · refine ⟨sent, [], [], events, [.flushed endpointId (.ok ())], by simpa using hsent, hr,
        .of_ok index _ _, ?_, hseq, hq⟩
      exact (congrArg (· ++ [Event.flushed endpointId (.ok ())]) ht).trans (List.append_assoc _ _ _)
    · obtain rfl := hlost hruns
      refine ⟨sent, [bad], back, events, _, hbatch, hr,
        .of_error index e hattempt hbad, ?_, hseq, ?_⟩
      · refine (congrArg (· ++ [Event.flushed endpointId (.error e)]) ht).trans ?_
        simp only [Dispatcher.setQueue, List.append_assoc]
      · refine hq.trans ?_
        simp [Dispatcher.setQueue]

/-- A flush that starts on a queue without broken runs keeps all books. -/
theorem flushWrites_ledger {σ : Type} (index : RuntimeIndex) (transport : IModbusTransport σ)
    (endpointId : String) (now : TimestampMs) (w : World σ)
    (hruns : brokenRun index (w.dispatcher.writeQueues endpointId) = false)
    (h : ∀ ep, Ledger index ep w.dispatcher) (ep : String) :
    Ledger index ep (flushWrites index transport endpointId now w).2.dispatcher := by
  have hknown : ∀ write ∈ w.dispatcher.writeQueues endpointId,
      index.findById write.tagId ≠ none := by
    intro write hw hnone
    have hon := onEndpoint_of_queued (h endpointId) hw
    simp [onEndpoint, hnone] at hon
  obtain ⟨sent, blamed, back, events, ending, hq, hr, he, ht, hseq, hq'⟩ :=
    flushWrites_summary index transport endpointId now w hruns hknown
  by_cases hep : ep = endpointId
  · subst hep
    exact (h ep).deliver hr he hq ht hseq (by rw [hq', Function.update_self])
  · refine (h ep).bystander hep hr he ?_ ht hseq (by rw [hq', Function.update_of_ne hep])
    intro write hw
    refine onEndpoint_of_queued (h endpointId) ?_
    rw [hq]
    exact List.mem_append_right _ (List.mem_append_left _ hw)

/-! ### Whole runs -/

theorem perform_ledger {σ : Type} {index : RuntimeIndex} {transport : IModbusTransport σ}
    {call : Call} {w w' : World σ} (h : ∀ ep, Ledger index ep w.dispatcher)
    (hguard : RunsEncode index call w) (hstep : perform index transport call w = some w')
    (ep : String) : Ledger index ep w'.dispatcher := by
  cases call with
  | enqueue tagId value =>
    cases hstep
    obtain ⟨e, he⟩ | ⟨b, hb, -, -, he⟩ := w.dispatcher.enqueueWrite_cases index tagId value
    · rw [he]
      exact h ep
    · rw [he]
      exact (h ep).accept hb
  | flush endpointId now =>
    cases hstep
    exact flushWrites_ledger index transport endpointId now w hguard h ep

/-- In every state reached by calls whose flushes start on no broken coil run, every
accepted write is accounted for. -/
theorem accepted_writes_accounted {σ : Type} (index : RuntimeIndex)
    (transport : IModbusTransport σ) {w : World σ}
    (h : Reachable (perform index transport) (RunsEncode index) Fresh w) (endpointId : String) :
    WritesAccounted endpointId w.dispatcher := by
  have hledger : ∀ ep, Ledger index ep w.dispatcher := by
    refine Reachable.invariant (fun w => ∀ ep, Ledger index ep w.dispatcher) ?_ ?_ h
    · intro s hs ep
      exact Ledger.of_fresh hs.1 (hs.2 ep)
    · intro s t call _ hs hguard hstep
      exact perform_ledger hs hguard hstep
  exact (hledger endpointId).writesAccounted

end Accounting

/-! ### Two neighbouring coils -/

section Coils

attribute [local instance] exactPlatform

/-- A device with two writable coils at addresses 0 and 1. -/
def coilPair : RuntimeIndex := RuntimeIndex.build
  { endpoints := [{ id := "plc" }],
    devices := [{ id := "dev", endpointId := "plc", tags := [
      { name := "A", area := .coil, address := 0, type := .bool, writable := true },
      { name := "B", area := .coil, address := 1, type := .bool, writable := true }] }] }

/-- A transport that grants every request. -/
def granting : IModbusTransport Unit where
  isConnected _ := true
  connect _ _ s := (.ok (), s)
  readRegisters _ s := (.ok [], s)
  readBits _ s := (.ok [], s)
  write _ s := (.ok (), s)

def coilWorld : World Unit := { transports := fun _ => some () }

/-- Both coil writes encode, and the flush accounts for both. -/
theorem coilPair_writes_accounted :
    ∃ w, run (perform coilPair granting)
        [.enqueue 1 (.bool true), .enqueue 2 (.bool false), .flush "plc" 5] coilWorld = some w ∧
      (accepted "plc" w.dispatcher.trace).length = 2 ∧ WritesAccounted "plc" w.dispatcher := by
  refine ⟨_, rfl, by decide, accepted_writes_accounted coilPair granting ?_ "plc"⟩
  refine .next (a := .flush "plc" 5) ?_ (by simp only [RunsEncode]; decide) rfl
  refine .next (a := .enqueue 2 (.bool false)) ?_ trivial rfl
  refine .next (a := .enqueue 1 (.bool true)) ?_ trivial rfl
  exact .start ⟨rfl, fun _ => rfl⟩

/-- The second write does not encode, and the first one is neither delivered, nor
rejected, nor queued. -/
theorem coil_run_loses_write :
    ¬ ∀ (index : RuntimeIndex) (transport : IModbusTransport Unit) (w : World Unit),
      Reachable (perform index transport) Free Fresh w →
        ∀ ep, WritesAccounted ep w.dispatcher := by
  intro h
  have hfresh : Reachable (perform coilPair granting) Free Fresh coilWorld :=
    .start ⟨rfl, fun _ => rfl⟩
  have hrun := hfresh.of_run [.enqueue 1 (.bool true), .enqueue 2 .monostate, .flush "plc" 5] rfl
  obtain ⟨hone, -, -⟩ := h _ _ _ hrun "plc"
  have hfirst := hone { tagId := 1, value := .bool true, seq := 0 } (by decide)
  rcases hfirst with ⟨hd, -, -⟩ | ⟨-, hr, -⟩ | ⟨-, -, hq⟩
  · exact absurd hd.mem (by decide)
  · exact absurd (hr.mem coilPair (by decide)) (by decide)
  · exact absurd hq (by decide)

end Coils

end OpcServer.Core
