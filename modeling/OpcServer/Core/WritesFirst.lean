import OpcServer.Core.DeviceContents
import OpcServer.Core.PollReads
import OpcServer.Core.QueueBound
import OpcServer.Core.WriteAccounting

/-! Writes are delivered in order and before reads. The first half is about threads
that enqueue and flush, with the flushes of an endpoint one after the other; the
second about `poll_due` and `poll_due_async`, which flush before they read and stop
if the flush fails. A write that fails is reported Bad and dropped, so what the
device and the store show is the last write delivered, not the last one accepted. -/

namespace OpcServer.Core

open Domain Project Transition

def Request.isRead : Request → Bool
  | .registers _ | .bits _ => true
  | _ => false

section First
variable [Platform]

/-! ### Events of a poll -/

/-- No event is a read. -/
def NoReads (events : List Event) : Prop :=
  ∀ ep request ok carried, .call ep request ok carried ∈ events → request.isRead = false

theorem noReads_nil : NoReads [] := by simp [NoReads]

theorem noReads_call (endpointId : String) {request : Request} (ok : Bool)
    (carried : List PendingWrite) (h : request.isRead = false) :
    NoReads [.call endpointId request ok carried] := by
  intro ep request' ok' carried' hm
  cases List.mem_singleton.mp hm
  exact h

theorem noReads_publish (id : TagId) (value : TagValue) (cause : Option PendingWrite) :
    NoReads [.publish id value cause] := by simp [NoReads]

theorem NoReads.append {first second : List Event} (h : NoReads first) (h' : NoReads second) :
    NoReads (first ++ second) := by
  intro ep request ok carried hm
  rcases List.mem_append.mp hm with hm | hm
  · exact h ep request ok carried hm
  · exact h' ep request ok carried hm

theorem Confirms.noReads {writes : List PendingWrite} {events : List Event}
    (h : Confirms writes events) : NoReads events := by
  intro ep request ok carried hm
  obtain ⟨write, value, he, -⟩ := h.only _ hm
  cases he

/-- Before every read, all these writes were carried by successful calls. -/
def WritesFirst (index : RuntimeIndex) (endpointId : String) (queue : List PendingWrite)
    (events : List Event) : Prop :=
  ∀ before ep request ok carried after,
    events = before ++ .call ep request ok carried :: after → request.isRead = true →
      ∀ write ∈ queue, index.findById write.tagId ≠ none → write ∈ delivered endpointId before

/-- Events without reads, which deliver all the writes, may be followed by any others. -/
theorem writesFirst_append {index : RuntimeIndex} {endpointId : String}
    {queue : List PendingWrite} {first : List Event} (h : NoReads first)
    (hsent : ∀ write ∈ queue, index.findById write.tagId ≠ none →
      write ∈ delivered endpointId first) (second : List Event) :
    WritesFirst index endpointId queue (first ++ second) := by
  intro before ep request ok carried after hsplit hread write hw hknown
  obtain ⟨more, rfl, -⟩ | ⟨more, hfirst, hmore⟩ := List.append_eq_append_iff.mp hsplit
  · rw [delivered_append]
    exact List.mem_append_left _ (hsent write hw hknown)
  · cases more with
    | nil =>
      rw [List.append_nil] at hfirst
      rw [← hfirst]
      exact hsent write hw hknown
    | cons event more =>
      -- the read would be one of the first events
      rw [List.cons_append, List.cons.injEq] at hmore
      have hno := h ep request ok carried (by rw [hfirst, ← hmore.1]; simp)
      rw [hno] at hread
      cases hread

theorem NoReads.writesFirst {index : RuntimeIndex} {endpointId : String}
    {queue : List PendingWrite} {events : List Event} (h : NoReads events) :
    WritesFirst index endpointId queue events := by
  intro before ep request ok carried after hsplit hread
  have := h ep request ok carried (by rw [hsplit]; simp)
  rw [this] at hread
  cases hread

section Polls
variable {σ : Type} (index : RuntimeIndex) (transport : IModbusTransport σ) (endpointId : String)
  (now : TimestampMs)

/-- A loop of a flush reads nothing, and delivers all its writes if it succeeds. -/
theorem flushLoop_writesFirst (batch : List PendingWrite) (s s' : Session σ) (r : Result Unit)
    (h : flushLoop index transport endpointId now 0 batch s = (r, s')) :
    ∃ events, s'.dispatcher.trace = s.dispatcher.trace ++ events ∧ NoReads events ∧
      (r = .ok () → ∀ write ∈ batch, index.findById write.tagId ≠ none →
        write ∈ delivered endpointId events) := by
  induction batch using batch_induction index generalizing s with
  | nil =>
    rw [flushLoop_nil] at h
    cases h
    exact ⟨[], (List.append_nil _).symm, noReads_nil, by simp⟩
  | skip write batch hp ih =>
    rw [flushLoop_cons, hp] at h
    obtain ⟨events, ht, hno, hsent⟩ := ih s h
    refine ⟨events, ht, hno, fun hr w hw hknown => ?_⟩
    rcases List.mem_cons.mp hw with rfl | hw
    · exact absurd (plan_eq_skip hp) hknown
    · exact hsent hr w hw hknown
  | unencodable write batch lost bad e rest hp =>
    rw [flushLoop_cons, hp] at h
    cases h
    exact ⟨_, rfl, noReads_publish _ _ _, fun hr => by cases hr⟩
  | send write tail rest request hp ih =>
    rw [flushLoop_cons, hp] at h
    dsimp only at h
    split at h
    · rename_i e s₁ hcall
      cases h
      obtain ⟨-, hd⟩ := callWrite_eq transport endpointId hcall
      rw [hd]
      exact ⟨_, List.append_assoc _ _ _,
        (noReads_call _ _ _ rfl).append (noReads_publish _ _ _), fun hr => by cases hr⟩
    · rename_i s₁ hcall
      obtain ⟨-, hd⟩ := callWrite_eq transport endpointId hcall
      obtain ⟨publishes, hp', hc⟩ := foldl_confirm_trace now (write :: tail) s₁.dispatcher
      obtain ⟨events, ht, hno, hsent⟩ := ih _ h
      refine ⟨[.call endpointId (.write request) true (write :: tail)] ++ (publishes ++ events),
        ?_, (noReads_call _ _ _ rfl).append (hc.noReads.append hno), ?_⟩
      · rw [ht, hp', hd]
        simp [Dispatcher.record, Except.isOk, Except.toBool]
      · intro hr w hw hknown
        rw [delivered_append, delivered_append]
        rw [← List.cons_append] at hw
        rcases List.mem_append.mp hw with hw | hw
        · exact List.mem_append_left _ (by simpa [delivered] using hw)
        · exact List.mem_append_right _ (List.mem_append_right _ (hsent hr w hw hknown))

theorem flushWrites_writesFirst (w : World σ) :
    ∃ events, (flushWrites index transport endpointId now w).2.dispatcher.trace =
        w.dispatcher.trace ++ events ∧ NoReads events ∧
      ((flushWrites index transport endpointId now w).1 = .ok () →
        ∀ write ∈ w.dispatcher.writeQueues endpointId, index.findById write.tagId ≠ none →
          write ∈ delivered endpointId events) := by
  obtain ⟨hq, h⟩ | ⟨-, e, h⟩ | ⟨t, r, s, -, hloop, h⟩ :=
    flushWrites_cases index transport endpointId now w
  · rw [h, hq]
    exact ⟨_, rfl, by simp [NoReads], by simp⟩
  · rw [h]
    exact ⟨_, rfl, by simp [NoReads], fun hr => by cases hr⟩
  · rw [h]
    obtain ⟨events, ht, hno, hsent⟩ := flushLoop_writesFirst index transport endpointId now _ _ _ _
      hloop
    have hflushed : NoReads [.flushed endpointId r] := by simp [NoReads]
    refine ⟨events ++ [.flushed endpointId r], ?_, hno.append hflushed, ?_⟩
    · rw [World.update, Dispatcher.record, ht, List.append_assoc]
      rfl
    · intro hr write hw hknown
      rw [delivered_append]
      exact List.mem_append_left _ (hsent hr write hw hknown)

theorem markEndpointBad_trace (reason : QualityReason) (d : Dispatcher) :
    ∃ events, (Dispatcher.markEndpointBad index endpointId reason now d).trace =
      d.trace ++ events ∧ NoReads events := by
  rw [Dispatcher.markEndpointBad]
  induction index.tags.filter (fun b => b.endpointId == endpointId) generalizing d with
  | nil => exact ⟨[], (List.append_nil _).symm, noReads_nil⟩
  | cons b rest ih =>
    obtain ⟨events, ht, hno⟩ := ih (d.publishQuality b.id .bad reason now)
    exact ⟨_, ht.trans (List.append_assoc _ _ _), (noReads_publish _ _ _).append hno⟩

/-- What comes before the first read of a poll delivers the queue, or the poll ends. -/
theorem prepare_writesFirst (clock : TimestampMs) (w : World σ) :
    ∃ events, (prepare index transport endpointId now clock w).2.dispatcher.trace =
        w.dispatcher.trace ++ events ∧ NoReads events ∧
      ((prepare index transport endpointId now clock w).1 = .ok () →
        ∀ write ∈ w.dispatcher.writeQueues endpointId, index.findById write.tagId ≠ none →
          write ∈ delivered endpointId events) := by
  have hsame : ∃ events, w.dispatcher.trace = w.dispatcher.trace ++ events ∧ NoReads events :=
    ⟨[], (List.append_nil _).symm, noReads_nil⟩
  cases ht : w.transports endpointId with
  | none =>
    obtain ⟨events, he, hno⟩ := hsame
    simp only [prepare, ht]
    exact ⟨events, he, hno, fun hr => by cases hr⟩
  | some t =>
    by_cases hconn : transport.isConnected t = true
    · simp only [prepare, ht, if_pos hconn]
      exact flushWrites_writesFirst index transport endpointId clock w
    · cases hep : index.endpoint endpointId with
      | none =>
        obtain ⟨events, he, hno⟩ := hsame
        simp only [prepare, ht, if_neg hconn, hep]
        exact ⟨events, he, hno, fun hr => by cases hr⟩
      | some ep =>
        simp only [prepare, ht, if_neg hconn, hep, connectEndpoint, World.call_eq endpointId ht]
        cases transport.connect ep.host ep.port t with
        | mk r t' =>
          cases r with
          | error e =>
            obtain ⟨events, he, hno⟩ := markEndpointBad_trace index endpointId now .noCommunication
              (w.dispatcher.record (.call endpointId (.connect ep.host ep.port) false []))
            refine ⟨_, he.trans (List.append_assoc _ _ _), (noReads_call _ _ _ rfl).append hno, ?_⟩
            intro hr
            cases hr
          | ok u =>
            obtain ⟨events, he, hno, hsent⟩ := flushWrites_writesFirst index transport endpointId
              clock ⟨w.dispatcher.record (.call endpointId (.connect ep.host ep.port) true []),
                Function.update w.transports endpointId (some t')⟩
            refine ⟨_, he.trans (List.append_assoc _ _ _), (noReads_call _ _ _ rfl).append hno, ?_⟩
            intro hr write hw hknown
            rw [delivered_append]
            exact List.mem_append_right _ (hsent hr write hw hknown)

/-! ### Reads only add events -/

theorem call_extends {α : Type} (request : Request) (op : σ → Result α × σ) (w : World σ) :
    w.dispatcher.trace <+: (w.call endpointId request op).2.dispatcher.trace := by
  unfold World.call
  split
  · exact List.prefix_refl _
  · exact List.prefix_append _ _

theorem concludeRead_extends (binding : TagBinding) (regs : Result (List UInt16)) (w : World σ) :
    w.dispatcher.trace <+: (concludeRead now binding regs w).2.dispatcher.trace := by
  rw [concludeRead_eq]
  exact List.prefix_append _ _

theorem pollTag_extends (binding : TagBinding) (w : World σ) :
    w.dispatcher.trace <+: (pollTag transport endpointId now binding w).2.dispatcher.trace := by
  have hregs : ∀ request, w.dispatcher.trace <+:
      (pollRegisters transport endpointId now binding request w).2.dispatcher.trace := fun request =>
    (call_extends endpointId (.registers request) (transport.readRegisters request) w).trans
      (concludeRead_extends now binding _ _)
  have hbits : ∀ request, w.dispatcher.trace <+:
      (pollBits transport endpointId now binding request w).2.dispatcher.trace := by
    intro request
    refine (call_extends endpointId (.bits request) (transport.readBits request) w).trans ?_
    rw [pollBits, readBits]
    cases w.call endpointId (.bits request) (transport.readBits request) with
    | mk r w' =>
      cases r with
      | error e => exact List.prefix_append _ _
      | ok bits => exact concludeRead_extends now binding _ _
  unfold pollTag
  dsimp only
  split
  · exact hregs _
  · exact hregs _
  · exact hbits _
  · exact hbits _

theorem pollTags_extends (tags : List TagBinding) (first : Result Unit) (w : World σ) :
    w.dispatcher.trace <+: (pollTags transport endpointId now tags first w).2.dispatcher.trace := by
  induction tags generalizing first w with
  | nil => exact List.prefix_refl _
  | cons b rest ih => exact (pollTag_extends transport endpointId now b w).trans (ih _ _)

theorem pollGroup_extends (group : PollGroup) (w : World σ) :
    w.dispatcher.trace <+:
      (pollGroup index transport endpointId now group w).2.dispatcher.trace := by
  unfold pollGroup
  split
  · exact List.prefix_refl _
  · split
    · split
      · exact List.prefix_refl _
      · exact pollTags_extends transport endpointId now _ _ w
    · exact pollTags_extends transport endpointId now _ _ w

theorem pollGroups_extends (groups : List PollGroup) (first : Result Unit) (w : World σ) :
    w.dispatcher.trace <+:
      (pollGroups index transport endpointId now groups first w).2.dispatcher.trace := by
  induction groups generalizing first w with
  | nil => exact List.prefix_refl _
  | cons group rest ih =>
    rw [pollGroups]
    split
    · exact ih first w
    · refine (pollGroup_extends index transport endpointId now group w).trans ?_
      exact ih _ ((pollGroup index transport endpointId now group w).2.mapDispatcher
        fun d => d.setLastPoll (pollKey endpointId group) now)

theorem foldl_absorb_extends (reason : TagBinding → Error → QualityReason) (as : List Answer)
    (d : Dispatcher) :
    d.trace <+: (as.foldl (Dispatcher.absorb reason endpointId now) d).trace := by
  induction as generalizing d with
  | nil => exact List.prefix_refl _
  | cons a rest ih =>
    refine List.IsPrefix.trans ?_ (ih (d.absorb reason endpointId now a))
    exact (List.prefix_append _ _).trans (List.prefix_append _ _)

/-! ### Whole polls -/

theorem pollDue_writesFirst (clock : TimestampMs) (w : World σ) :
    ∃ events, (pollDue index transport endpointId now clock w).2.dispatcher.trace =
        w.dispatcher.trace ++ events ∧
      WritesFirst index endpointId (w.dispatcher.writeQueues endpointId) events := by
  obtain ⟨first, hfirst, hno, hsent⟩ :=
    prepare_writesFirst index transport endpointId now clock w
  rw [pollDue_eq]
  cases hp : prepare index transport endpointId now clock w with
  | mk r w₁ =>
    rw [hp] at hfirst hsent
    cases r with
    | error e => exact ⟨first, hfirst, hno.writesFirst⟩
    | ok u =>
      obtain ⟨second, hsecond⟩ := pollGroups_extends index transport endpointId now
        (index.groupsForEndpoint endpointId) (.ok ()) w₁
      refine ⟨first ++ second, ?_, writesFirst_append hno (hsent rfl) second⟩
      rw [← List.append_assoc, ← hfirst]
      exact hsecond.symm

theorem pollDueAsync_writesFirst (clock : TimestampMs) (a : Async σ) :
    ∃ events, (pollDueAsync index transport endpointId now clock a).world.dispatcher.trace =
        a.world.dispatcher.trace ++ events ∧
      WritesFirst index endpointId (a.world.dispatcher.writeQueues endpointId) events := by
  obtain ⟨first, hfirst, hno, hsent⟩ :=
    prepare_writesFirst index transport endpointId now clock a.world
  rw [pollDueAsync_eq]
  cases hp : prepare index transport endpointId now clock a.world with
  | mk r w₁ =>
    rw [hp] at hfirst hsent
    cases r with
    | error e => exact ⟨first, hfirst, hno.writesFirst⟩
    | ok u =>
      obtain ⟨t, ht⟩ := prepare_transports index transport endpointId now clock hp
      obtain ⟨tags, times, hdue⟩ := collectDue_eq (σ := σ) index endpointId now
        (index.groupsForEndpoint endpointId) w₁.dispatcher.lastPollMs
      obtain ⟨second, hsecond⟩ := foldl_absorb_extends endpointId now asyncReason
        (answers transport tags t).1 (w₁.dispatcher.setPollTimes times)
      refine ⟨first ++ second, ?_, writesFirst_append hno (hsent rfl) second⟩
      simp only [hdue w₁ rfl]
      rw [next_eq transport endpointId now tags none (t := t) ht, ← List.append_assoc, ← hfirst]
      exact hsecond.symm

end Polls

/-! ### Threads -/

/-- No flush of the endpoint is in progress. -/
def System.Quiet {σ : Type} (s : System σ) (endpointId : String) : Prop :=
  ∀ f ∈ s.flushes, f.endpointId = endpointId → f.pc.isFinished = true

/-- What the trace, the store and the device of a system say about its writes. -/
structure System.OrderedWrites {σ : Type} (index : RuntimeIndex) (transport : IModbusTransport σ)
    (s : System σ) : Prop where
  /-- Once a write is delivered, no write accepted before it is. -/
  order : ∀ ep a b before request carried after,
    [a, b].Sublist (accepted ep s.world.dispatcher.trace) →
    s.world.dispatcher.trace = before ++ .call ep (.write request) true carried :: after →
    b ∈ carried → a ∉ delivered ep after
  /-- Between flushes the store shows the last delivered write to a tag. -/
  stored : ∀ ep, s.Quiet ep → ∀ id w,
    lastWrite id (delivered ep s.world.dispatcher.trace) = some w →
      ∃ v, s.world.dispatcher.tagStore.get id = some v ∧ v.value = w.value
  /-- The device holds what a delivered write encodes to, where no later request went. -/
  device : ∀ memory, Executes transport memory → ∀ ep before request carried after w b regs,
    s.world.dispatcher.trace = before ++ .call ep (.write request) true carried :: after →
    w ∈ carried → index.findById w.tagId = some b → Translator.encode b.tag w.value = .ok regs →
    0 ≤ b.tag.address → b.tag.address < 65536 →
      ∀ c v, (c, v) ∈ b.assignments regs → Untouched ep c after →
        ∃ t, s.world.transports ep = some t ∧ memory t c = v

section Ordered
variable {σ : Type} {index : RuntimeIndex} {transport : IModbusTransport σ} {s : System σ}

theorem System.Orderly.not_delivered_later (h : s.Orderly index) {ep : String} {a b : PendingWrite}
    {before after : List Event} {request : WriteRequest} {carried : List PendingWrite}
    (hab : [a, b].Sublist (accepted ep s.world.dispatcher.trace))
    (htrace : s.world.dispatcher.trace = before ++ .call ep (.write request) true carried :: after)
    (hb : b ∈ carried) : a ∉ delivered ep after := by
  intro ha
  have hba : [b, a].Sublist (delivered ep s.world.dispatcher.trace) := by
    have hcall : delivered ep s.world.dispatcher.trace =
        delivered ep before ++ (carried ++ delivered ep after) := by
      rw [htrace, delivered_append, ← List.singleton_append, delivered_append]
      simp [delivered]
    rw [hcall]
    exact ((List.singleton_sublist.mpr hb).append (List.singleton_sublist.mpr ha)).trans
      (List.sublist_append_right _ _)
  have hdelivered : (delivered ep s.world.dispatcher.trace).Sublist
      (accepted ep s.world.dispatcher.trace) :=
    (List.sublist_append_left _ _).trans (h.order ep)
  have hlt := List.pairwise_pair.mp ((h.increasing ep).sublist hab)
  have hgt := List.pairwise_pair.mp ((h.increasing ep).sublist (hba.trans hdelivered))
  omega

theorem System.Stored.shows_delivered (h : s.Stored index) {ep : String} (hquiet : s.Quiet ep) :
    StoreShows s.world.dispatcher.tagStore (delivered ep s.world.dispatcher.trace) := by
  obtain ⟨settled, hshows, hsplit⟩ := h.shows ep
  have hnone : s.gather FlushPc.pending ep = [] := by
    refine List.flatMap_eq_nil_iff.mpr fun f hf => ?_
    split
    · rename_i hep
      have hfinished := hquiet f hf hep
      cases hpc : f.pc with
      | finished r => rfl
      | _ =>
        rw [hpc] at hfinished
        cases hfinished
    · rfl
  rw [hsplit, hnone, List.append_nil]
  exact hshows

/-- The cells of a write are among those of the request that carries it. -/
theorem assignments_subset {write w : PendingWrite} {batch tail rest : List PendingWrite}
    {request : WriteRequest} (h : plan index write batch = .send request tail rest)
    (hw : w ∈ write :: tail) {b : TagBinding} {regs : List UInt16}
    (hb : index.findById w.tagId = some b) (hregs : Translator.encode b.tag w.value = .ok regs)
    (hlow : 0 ≤ b.tag.address) (hhigh : b.tag.address < 65536) :
    b.assignments regs ⊆ request.assignments := by
  obtain ⟨first, hassign, hfirst⟩ := plan_assignments h
  rw [hassign, ← PendingWrite.assignments_eq hb hregs]
  rcases List.mem_cons.mp hw with rfl | hw
  · rw [hfirst b hb hlow hhigh]
    exact List.subset_append_left _ _
  · intro cv hcv
    exact List.mem_append_right _ (List.mem_flatMap.mpr ⟨w, hw, hcv⟩)

theorem orderedWrites_of_reachable
    (h : Reachable (System.step index transport) Serialised System.Fresh s) :
    s.OrderedWrites index transport where
  order _ _ _ _ _ _ _ hab htrace hb := (orderly_of_reachable h).not_delivered_later hab htrace hb
  stored _ hquiet := (stored_of_reachable h).shows_delivered hquiet
  device memory hdev ep before request carried after w b regs htrace hw hb hregs hlow hhigh c v
      hcv hfree := by
    have hexec := executed_of_reachable hdev h
    obtain ⟨write, tail, rest, rfl, hplan⟩ := hexec.planned ep request true carried
      (by rw [htrace]; simp)
    exact hexec.shows ep before request _ after htrace c v
      (assignments_subset hplan hw hb hregs hlow hhigh hcv) hfree

end Ordered

/-- Writes are delivered in the order of acceptance, the store and the device show the
last ones delivered, and a poll reads only after it has delivered all that was
pending. -/
theorem writes_in_order_before_reads {σ : Type} (index : RuntimeIndex)
    (transport : IModbusTransport σ) :
    (∀ s, Reachable (System.step index transport) Serialised System.Fresh s →
      s.OrderedWrites index transport) ∧
    ∀ (endpointId : String) (now clock : TimestampMs) (w : World σ),
      (∃ events, (pollDue index transport endpointId now clock w).2.dispatcher.trace =
          w.dispatcher.trace ++ events ∧
        WritesFirst index endpointId (w.dispatcher.writeQueues endpointId) events) ∧
      ∃ events, (pollDueAsync index transport endpointId now clock ⟨w, []⟩).world.dispatcher.trace =
          w.dispatcher.trace ++ events ∧
        WritesFirst index endpointId (w.dispatcher.writeQueues endpointId) events :=
  ⟨fun _ h => orderedWrites_of_reachable h, fun endpointId now clock w =>
    ⟨pollDue_writesFirst index transport endpointId now clock w,
      pollDueAsync_writesFirst index transport endpointId now clock ⟨w, []⟩⟩⟩

end First

/-! ### A refused write -/

section Refused

attribute [local instance] exactPlatform

/-- Two writes to one tag in one flush. -/
def overwrite : List Action :=
  [.enqueue 1 (.uint16 10), .enqueue 1 (.uint16 20), .flush "plc" 0] ++
    List.replicate 9 (.advance 0)

theorem overwrite_shows_last :
    ∃ s, run (System.step setpoint granting) overwrite setpointSystem = some s ∧
      ∃ v, s.world.dispatcher.tagStore.get 1 = some v ∧ v.value = .uint16 20 := by
  have hfresh : Reachable (System.step setpoint granting) Serialised System.Fresh
      setpointSystem := .start ⟨rfl, fun _ => rfl, rfl⟩
  have hend : (run (System.step setpoint granting) overwrite setpointSystem).map
      (fun s => (s.flushes.all (·.pc.isFinished), lastWrite 1 (delivered "plc"
        s.world.dispatcher.trace))) = some (true, some ⟨1, .uint16 20, 1⟩) := by decide +kernel
  obtain ⟨s, hrun, hs⟩ := Option.map_eq_some_iff.mp hend
  obtain ⟨hquiet, hlast⟩ := Prod.mk.inj hs
  have hreach := hfresh.of_meets overwrite (by decide +kernel) hrun
  refine ⟨s, hrun, ((writes_in_order_before_reads setpoint granting).1 s hreach).stored "plc"
    (fun f hf _ => List.all_eq_true.mp hquiet f hf) 1 _ hlast⟩

/-- The only write is refused, and a second flush has nothing to do. -/
def refusal : List Action :=
  [.enqueue 1 (.uint16 10), .flush "plc" 0] ++ List.replicate 6 (.advance 0) ++
    [.flush "plc" 1, .advance 1]

/-- The last flush succeeds, and the store does not show the last accepted write. -/
theorem refused_write_not_stored :
    ¬ ∀ (index : RuntimeIndex) (transport : IModbusTransport Unit) (s : System Unit),
      Reachable (System.step index transport) Serialised System.Fresh s →
        ∀ ep, s.world.dispatcher.trace.getLast? = some (.flushed ep (.ok ())) →
          ∀ id w, lastWrite id (accepted ep s.world.dispatcher.trace) = some w →
            ∃ v, s.world.dispatcher.tagStore.get id = some v ∧ v.value = w.value := by
  intro h
  have hfresh : Reachable (System.step setpoint refusing) Serialised System.Fresh
      setpointSystem := .start ⟨rfl, fun _ => rfl, rfl⟩
  have hend : (run (System.step setpoint refusing) refusal setpointSystem).map
      (fun s => (s.world.dispatcher.trace.getLast?,
        lastWrite 1 (accepted "plc" s.world.dispatcher.trace),
        (s.world.dispatcher.tagStore.get 1).map TagValue.value)) =
      some (some (.flushed "plc" (.ok ())), some ⟨1, .uint16 10, 0⟩, some .monostate) := by
    decide +kernel
  obtain ⟨s, hrun, hs⟩ := Option.map_eq_some_iff.mp hend
  obtain ⟨hflushed, hlast, hstored⟩ : _ ∧ _ ∧ _ := by simpa only [Prod.mk.injEq] using hs
  have hreach := hfresh.of_meets refusal (by decide +kernel) hrun
  obtain ⟨v, hv, hvalue⟩ := h setpoint refusing s hreach "plc" hflushed 1 _ hlast
  rw [hv, Option.map_some, hvalue] at hstored
  cases hstored

end Refused

end OpcServer.Core
