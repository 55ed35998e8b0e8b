import OpcServer.App.ConfirmedWrite
import OpcServer.App.OneTransaction
import OpcServer.Core.Isolation
import Mathlib.Algebra.Order.Group.Multiset
import Mathlib.Tactic.Abel

/-! The server timestamps of a tag. A flush publishes at the clock that it reads itself,
and so does the completion of a poll that marks the endpoint; a poll publishes at the
time that its tick has read, however long ago. The timestamps of a tag do not go back as
long as no flush takes a write to it, at a later clock, while a poll that may still
publish the tag is under way.

The strand of one endpoint is run with a clock. What else the server does leaves the tags
of the endpoint alone, by the isolation of endpoints, and is one action. -/

namespace OpcServer.App

open Domain Project OpcServer.Core

section ServerTime
variable [Platform]

/-! ### Published times -/

/-- The server timestamps that some events store for a tag, in order. -/
def serverTimes (id : TagId) (events : List Event) : List TimestampMs :=
  events.filterMap fun
    | .publish other value _ => if other = id then some value.serverTs else none
    | _ => none

/-- A strand and the last reading of the clock. -/
structure TimedStrand where
  strand : EndpointStrand
  clock : TimestampMs

/-- A step of the endpoint's strands, or values published for tags of other endpoints and
the poll times as they are then. -/
inductive TimedAction where
  | strand (action : StrandAction)
  | elsewhere (published : List (TagId × TagValue)) (lastPollMs : String → Option TimestampMs)

/-- The first and the last reading of an action; one without a reading has the clock of
the reading before. -/
def StrandAction.readings (clock : TimestampMs) : StrandAction → TimestampMs × TimestampMs
  | .run now clock => (now, clock)
  | .advance clock => (clock, clock)
  | _ => (clock, clock)

/-- The tag is bound on the endpoint. -/
def isOn (index : RuntimeIndex) (endpointId : String) (id : TagId) : Bool :=
  (index.findById id).any fun b => b.endpointId == endpointId

/-- What a poll under way may still publish at the time of its tick. -/
structure Polling where
  now : TimestampMs
  publishes : TagId → Bool

/-- A poll that connects publishes every tag of the endpoint when the connect fails. -/
def Polling.connecting (now : TimestampMs) : Polling := ⟨now, fun _ => true⟩

def PollChain.polling (chain : PollChain) : Polling :=
  ⟨chain.now, fun id => (chain.binding :: chain.rest).any (·.id == id)⟩

def Transaction.polling? : Transaction → Option Polling
  | .read chain => some chain.polling
  | .write _ => none

def Job.polling? : Job → Option Polling
  | .connect now => some (.connecting now)
  | .transact t => t.polling?

def Task.polling? : Task → Option Polling
  | .connected now _ => some (.connecting now)
  | .completed chain _ => some chain.polling
  | .tick | .flush => none

/-- A flush that opens a poll: the tags of the groups of the endpoint may follow. -/
def Running.polling? (index : RuntimeIndex) (endpointId : String) (f : Running) : Option Polling :=
  f.poll.map fun now => ⟨now, fun id =>
    ((index.groupsForEndpoint endpointId).flatMap (collectGroupTags index)).any (·.id == id)⟩

namespace TimedStrand
variable (index : RuntimeIndex) (endpointId : String)

/-- The clock does not go back from one reading to the next. -/
def step : TimedAction → TimedStrand → Option TimedStrand
  | .strand action, s =>
    let (first, last) := action.readings s.clock
    if s.clock ≤ first ∧ first ≤ last then
      (EndpointStrand.step index endpointId action s.strand).map fun t => ⟨t, last⟩
    else none
  | .elsewhere published lastPollMs, s =>
    if published.any fun p => isOn index endpointId p.1 then none
    else
      let d := published.foldl (fun d p => d.publish p.1 p.2 none) s.strand.dispatcher
      some ⟨s.strand.setDispatcher { d with lastPollMs := lastPollMs }, s.clock⟩

/-- The server has just started. -/
def Fresh (s : TimedStrand) : Prop :=
  s.strand.Fresh ∧ ∀ id, serverTimes id s.strand.dispatcher.trace = []

end TimedStrand

/-- The polls under way, wherever they are. -/
def EndpointStrand.pollings (index : RuntimeIndex) (endpointId : String) (s : EndpointStrand) :
    List Polling :=
  s.transport.posted.filterMap Job.polling? ++ s.transport.connecting.map Polling.connecting ++
    s.transport.outstanding.filterMap Transaction.polling? ++ s.tasks.filterMap Task.polling? ++
    (s.running.bind (Running.polling? index endpointId)).toList

/-- When a flush takes the queue, no poll under way that may still publish a tag in it
was begun before the clock of the flush. -/
def Punctual (index : RuntimeIndex) (endpointId : String) (action : TimedAction)
    (s : TimedStrand) : Prop :=
  match action with
  | .strand (.advance _) => ∀ f ∈ s.strand.running, f.pc = .start →
    ∀ write ∈ s.strand.dispatcher.writeQueues endpointId,
      ∀ p ∈ s.strand.pollings index endpointId, p.publishes write.tagId = true → f.clock ≤ p.now
  | _ => True

instance Punctual.decidable (index : RuntimeIndex) (endpointId : String) (action : TimedAction)
    (s : TimedStrand) : Decidable (Punctual index endpointId action s) :=
  match action with
  | .strand (.advance _) =>
    inferInstanceAs (Decidable (∀ f ∈ s.strand.running, f.pc = .start →
      ∀ write ∈ s.strand.dispatcher.writeQueues endpointId,
        ∀ p ∈ s.strand.pollings index endpointId, p.publishes write.tagId = true → f.clock ≤ p.now))
  | .strand (.enqueue ..) | .strand .postFlush | .strand .tick | .strand (.run ..) | .strand .start
  | .strand (.connectDone ..) | .strand (.finish ..) | .elsewhere .. => isTrue trivial

/-- The timestamps of every tag of the endpoint are in order. -/
def InOrder (index : RuntimeIndex) (endpointId : String) (d : Dispatcher) : Prop :=
  ∀ id, isOn index endpointId id = true → (serverTimes id d.trace).Pairwise (· ≤ ·)

/-! ### Publishing at one time -/

/-- No timestamp of the tag is later. -/
def AtMost (t : TimestampMs) (d : Dispatcher) (id : TagId) : Prop :=
  ∀ x ∈ serverTimes id d.trace, x ≤ t

theorem AtMost.mono {t u : TimestampMs} {d : Dispatcher} {id : TagId} (h : AtMost t d id)
    (hle : t ≤ u) : AtMost u d id := fun x hx => (h x hx).trans hle

theorem serverTimes_append (id : TagId) (events events' : List Event) :
    serverTimes id (events ++ events') = serverTimes id events ++ serverTimes id events' :=
  List.filterMap_append

/-- What happens between two dispatchers are publishes at one time, of some tags. -/
structure PublishesAt (t : TimestampMs) (ids : TagId → Prop) (d d' : Dispatcher) : Prop where
  times : ∀ id, ∃ n, serverTimes id d'.trace = serverTimes id d.trace ++ List.replicate n t
  only : ∀ id, ¬ ids id → serverTimes id d'.trace = serverTimes id d.trace

namespace PublishesAt

variable {t u : TimestampMs} {ids : TagId → Prop} {d d' d'' : Dispatcher} {id : TagId}

theorem of_silent (h : ∀ id, serverTimes id d'.trace = serverTimes id d.trace) :
    PublishesAt t ids d d' :=
  ⟨fun id => ⟨0, by simp [h id]⟩, fun id _ => h id⟩

/-- An event that publishes nothing. -/
theorem of_event {e : Event} (ht : d'.trace = d.trace ++ [e])
    (he : ∀ id value cause, e ≠ .publish id value cause) : PublishesAt t ids d d' := by
  refine .of_silent fun id => ?_
  have hnone : serverTimes id [e] = [] := by
    cases e with
    | publish i v c => exact absurd rfl (he i v c)
    | _ => rfl
  rw [ht, serverTimes_append, hnone, List.append_nil]

theorem publish {value : TagValue} (hvalue : value.serverTs = t) (hid : ids id) (d : Dispatcher)
    (cause : Option PendingWrite) : PublishesAt t ids d (d.publish id value cause) := by
  have htimes : ∀ other, serverTimes other (d.publish id value cause).trace =
      serverTimes other d.trace ++ if id = other then [t] else [] := by
    intro other
    rw [Dispatcher.publish, serverTimes_append]
    by_cases heq : id = other <;> simp [serverTimes, heq, hvalue]
  refine ⟨fun other => ?_, fun other hother => ?_⟩
  · rw [htimes]
    by_cases heq : id = other
    · exact ⟨1, by simp [heq]⟩
    · exact ⟨0, by simp [heq]⟩
  · have hne : id ≠ other := fun heq => hother (heq ▸ hid)
    rw [htimes, if_neg hne, List.append_nil]

theorem trans (h : PublishesAt t ids d d') (h' : PublishesAt t ids d' d'') :
    PublishesAt t ids d d'' := by
  refine ⟨fun id => ?_, fun id hid => (h'.only id hid).trans (h.only id hid)⟩
  obtain ⟨n, hn⟩ := h.times id
  obtain ⟨m, hm⟩ := h'.times id
  exact ⟨n + m, by rw [hm, hn, List.append_assoc, List.replicate_append_replicate]⟩

theorem atMost (h : PublishesAt t ids d d') (hd : AtMost u d id) (hle : ids id → t ≤ u) :
    AtMost u d' id := by
  intro x hx
  by_cases hid : ids id
  · obtain ⟨n, hn⟩ := h.times id
    rw [hn, List.mem_append] at hx
    rcases hx with hx | hx
    · exact hd x hx
    · exact (List.eq_of_mem_replicate hx).le.trans (hle hid)
  · rw [h.only id hid] at hx
    exact hd x hx

theorem inOrder {index : RuntimeIndex} {endpointId : String} (h : PublishesAt t ids d d')
    (hd : InOrder index endpointId d)
    (hle : ∀ id, isOn index endpointId id = true → ids id → AtMost t d id) :
    InOrder index endpointId d' := by
  intro id hon
  by_cases hid : ids id
  · obtain ⟨n, hn⟩ := h.times id
    rw [hn, List.pairwise_append]
    refine ⟨hd id hon, List.pairwise_replicate.mpr (.inr le_rfl), fun x hx y hy => ?_⟩
    rw [List.eq_of_mem_replicate hy]
    exact hle id hon hid x hx
  · rw [h.only id hid]
    exact hd id hon

end PublishesAt

theorem qualityUpdate_serverTs (previous : Option TagValue) (quality : Quality)
    (reason : QualityReason) (now : TimestampMs) (value : Option ScalarValue) :
    (Dispatcher.qualityUpdate previous quality reason now value).serverTs = now := by
  unfold Dispatcher.qualityUpdate
  rw [withQuality_eq]
  cases value <;> rfl

theorem markEndpointBad_publishesAt (index : RuntimeIndex) (endpointId : String)
    (reason : QualityReason) (now : TimestampMs) (d : Dispatcher) :
    PublishesAt now (fun _ => True) d (d.markEndpointBad index endpointId reason now) := by
  unfold Dispatcher.markEndpointBad
  induction index.tags.filter (fun b => b.endpointId == endpointId) generalizing d with
  | nil => exact .of_silent fun _ => rfl
  | cons b rest ih =>
    rw [List.foldl_cons]
    exact (PublishesAt.publish (qualityUpdate_serverTs ..) trivial d none).trans (ih _)

theorem concludeRead_publishesAt {σ : Type} (now : TimestampMs) (binding : TagBinding)
    (regs : Result (List UInt16)) (w : World σ) :
    PublishesAt now (· = binding.id) w.dispatcher
      (concludeRead now binding regs w).2.dispatcher := by
  have hpublish : ∀ value : TagValue, value.serverTs = now →
      PublishesAt now (· = binding.id) w.dispatcher
        (w.dispatcher.publish binding.id value none) := by
    intro value hvalue
    apply PublishesAt.publish hvalue
    rfl
  unfold concludeRead
  split
  · exact hpublish _ (qualityUpdate_serverTs ..)
  · split
    · exact hpublish _ (qualityUpdate_serverTs ..)
    · exact hpublish _ rfl

theorem flushMove_publishesAt {σ : Type} {index : RuntimeIndex} {transport : IModbusTransport σ}
    {endpointId : String} {clock : TimestampMs} {pc pc' : FlushPc} {w w' : World σ}
    (h : FlushMove index transport endpointId clock pc w pc' w') :
    PublishesAt clock (fun id => ∃ write ∈ unpublished pc, write.tagId = id) w.dispatcher
      w'.dispatcher := by
  cases h with
  | put =>
    rename_i previous outcome todo after
    refine .publish ?_ ⟨outcome.write, by simp [unpublished, FlushPc.outcomes], rfl⟩ _ _
    cases outcome <;> exact qualityUpdate_serverTs ..
  | empty | done | refused | granted | requeue => exact .of_event rfl (by simp)
  | _ => exact .of_silent fun _ => rfl

/-! ### The polls under way -/

namespace EndpointStrand

section Pollings
variable (index : RuntimeIndex) (endpointId : String)

/-- The poll of a task is apart from the others. -/
theorem pollings_take {s : EndpointStrand} {task : Task} {rest : List Task}
    (h : s.tasks = task :: rest) :
    (s.pollings index endpointId).Perm
      (task.polling?.toList ++ pollings index endpointId { s with tasks := rest }) := by
  have hcons : s.tasks.filterMap Task.polling? =
      task.polling?.toList ++ rest.filterMap Task.polling? := by
    rw [h, List.filterMap_cons]
    cases task.polling? <;> rfl
  rw [← Multiset.coe_eq_coe]
  simp only [pollings, hcons, ← Multiset.coe_add]
  abel

/-- Delivering a result moves its poll from the transport to the tasks. -/
theorem pollings_deliver (t : Transaction) (answer : Result (List UInt16)) (s : EndpointStrand) :
    ((s.deliver t answer).pollings index endpointId).Perm
      (t.polling?.toList ++ s.pollings index endpointId) := by
  cases t with
  | read chain =>
    rw [← Multiset.coe_eq_coe]
    simp only [pollings, deliver, List.filterMap_append, ← Multiset.coe_add]
    show _ + (_ + ([chain.polling] : Multiset Polling)) + _ = ([chain.polling] : Multiset Polling) + _
    abel
  | write request =>
    refine List.Perm.of_eq ?_
    cases hrun : s.running with
    | none => simp [pollings, deliver, Transaction.polling?, hrun]
    | some f => simp [pollings, deliver, Transaction.polling?, hrun, Running.polling?]

theorem pollings_execute (s : EndpointStrand) (job : Job) :
    ((s.execute job).pollings index endpointId).Perm
      (job.polling?.toList ++ s.pollings index endpointId) := by
  cases job with
  | connect now =>
    rw [← Multiset.coe_eq_coe]
    simp only [pollings, execute, List.map_append, ← Multiset.coe_add]
    show _ + (_ + ([Polling.connecting now] : Multiset Polling)) + _ + _ + _ =
      ([Polling.connecting now] : Multiset Polling) + _
    abel
  | transact t =>
    simp only [execute]
    split
    · exact pollings_deliver index endpointId t _ s
    · have hone : [t].filterMap Transaction.polling? = t.polling?.toList := by
        cases h : t.polling? <;> simp [h]
      rw [← Multiset.coe_eq_coe]
      simp only [pollings, List.filterMap_append, hone, Job.polling?, ← Multiset.coe_add]
      abel

theorem pollings_post (s : EndpointStrand) (job : Job) :
    ((s.post job).pollings index endpointId).Perm
      (job.polling?.toList ++ s.pollings index endpointId) := by
  have hone : [job].filterMap Job.polling? = job.polling?.toList := by
    cases h : job.polling? <;> simp [h]
  rw [← Multiset.coe_eq_coe]
  simp only [pollings, post, ModbusTcpTransport.post, List.filterMap_append, hone,
    ← Multiset.coe_add]
  abel

/-- Running what is posted moves the polls, and keeps the dispatcher and the flag. -/
theorem pollings_close (s : EndpointStrand) :
    (s.close.pollings index endpointId).Perm (s.pollings index endpointId) := by
  have hfold : ∀ (jobs : List Job) (s : EndpointStrand),
      ((jobs.foldl execute s).pollings index endpointId).Perm
        (jobs.filterMap Job.polling? ++ s.pollings index endpointId) := by
    intro jobs
    induction jobs with
    | nil => exact fun s => .refl _
    | cons job rest ih =>
      intro s
      refine (ih (s.execute job)).trans ?_
      have hcons : (job :: rest).filterMap Job.polling? =
          job.polling?.toList ++ rest.filterMap Job.polling? := by
        rw [List.filterMap_cons]
        cases job.polling? <;> rfl
      have hjob := Multiset.coe_eq_coe.mpr (pollings_execute index endpointId s job)
      rw [← Multiset.coe_eq_coe] at *
      simp only [hcons, ← Multiset.coe_add] at hjob ⊢
      rw [hjob]
      abel
  refine (hfold s.transport.posted _).trans (List.Perm.of_eq ?_)
  simp [pollings, List.append_assoc]

end Pollings

/-- The transport's strand works on neither dispatcher nor flag, and hands a flush no more
than an answer. -/
structure Carries (s s' : EndpointStrand) : Prop where
  dispatcher : s'.dispatcher = s.dispatcher
  inflight : s'.inflight = s.inflight
  running : ∀ f ∈ s'.running, ∃ g ∈ s.running, f.clock = g.clock ∧ f.pc = g.pc

theorem Carries.refl (s : EndpointStrand) : Carries s s :=
  ⟨rfl, rfl, fun f hf => ⟨f, hf, rfl, rfl⟩⟩

theorem Carries.trans {s s' s'' : EndpointStrand} (h : Carries s s') (h' : Carries s' s'') :
    Carries s s'' := by
  refine ⟨h'.dispatcher.trans h.dispatcher, h'.inflight.trans h.inflight, fun f hf => ?_⟩
  obtain ⟨g, hg, hclock, hpc⟩ := h'.running f hf
  obtain ⟨k, hk, hclock', hpc'⟩ := h.running g hg
  exact ⟨k, hk, hclock.trans hclock', hpc.trans hpc'⟩

theorem carries_deliver (t : Transaction) (answer : Result (List UInt16)) (s : EndpointStrand) :
    Carries s (s.deliver t answer) := by
  cases t with
  | read chain => exact ⟨rfl, rfl, fun f hf => ⟨f, hf, rfl, rfl⟩⟩
  | write request =>
    refine ⟨rfl, rfl, fun f hf => ?_⟩
    obtain ⟨g, hg, rfl⟩ := Option.map_eq_some_iff.mp hf
    exact ⟨g, hg, rfl, rfl⟩

theorem carries_execute (s : EndpointStrand) (job : Job) : Carries s (s.execute job) := by
  cases job with
  | connect now => exact ⟨rfl, rfl, fun f hf => ⟨f, hf, rfl, rfl⟩⟩
  | transact t =>
    simp only [execute]
    split
    · exact carries_deliver t _ s
    · exact ⟨rfl, rfl, fun f hf => ⟨f, hf, rfl, rfl⟩⟩

theorem carries_close (s : EndpointStrand) : Carries s s.close := by
  have hfold : ∀ (jobs : List Job) (s : EndpointStrand), Carries s (jobs.foldl execute s) := by
    intro jobs
    induction jobs with
    | nil => exact Carries.refl
    | cons job rest ih => exact fun s => (carries_execute s job).trans (ih _)
  have h := hfold s.transport.posted { s with transport := { s.transport with posted := [] } }
  exact ⟨h.dispatcher, h.inflight, h.running⟩

/-! ### The invariant -/

variable {index : RuntimeIndex} {endpointId : String}

/-- One poll is under way at most, and what it may still publish was not published after
its tick; a flush publishes at a clock that no timestamp exceeds, and nothing that a poll
begun before it may still publish. -/
structure Timely (index : RuntimeIndex) (endpointId : String) (clock : TimestampMs)
    (s : EndpointStrand) : Prop where
  single : (s.pollings index endpointId).length ≤ s.inflight.toNat
  inOrder : InOrder index endpointId s.dispatcher
  past : ∀ id, isOn index endpointId id = true → AtMost clock s.dispatcher id
  polls : ∀ p ∈ s.pollings index endpointId, p.now ≤ clock ∧
    ∀ id, isOn index endpointId id = true → p.publishes id = true → AtMost p.now s.dispatcher id
  flush : ∀ f ∈ s.running, f.clock ≤ clock ∧
    (∀ id, isOn index endpointId id = true → AtMost f.clock s.dispatcher id) ∧
    ∀ write ∈ unpublished f.pc, ∀ p ∈ s.pollings index endpointId,
      p.publishes write.tagId = true → f.clock ≤ p.now

/-- The strand is free and no poll is under way. -/
structure Settled (index : RuntimeIndex) (endpointId : String) (clock : TimestampMs)
    (s : EndpointStrand) : Prop where
  running : s.running = none
  pollings : s.pollings index endpointId = []
  inOrder : InOrder index endpointId s.dispatcher
  past : ∀ id, isOn index endpointId id = true → AtMost clock s.dispatcher id

variable {clock clock' : TimestampMs} {s s' : EndpointStrand}

theorem Settled.timely (h : s.Settled index endpointId clock) : s.Timely index endpointId clock := by
  refine ⟨?_, h.inOrder, h.past, ?_, ?_⟩
  · rw [h.pollings]
    exact Nat.zero_le _
  · simp [h.pollings]
  · simp [h.running]

theorem Timely.later (h : s.Timely index endpointId clock) (hle : clock ≤ clock') :
    s.Timely index endpointId clock' where
  single := h.single
  inOrder := h.inOrder
  past id hon := (h.past id hon).mono hle
  polls p hp := ⟨(h.polls p hp).1.trans hle, (h.polls p hp).2⟩
  flush f hf := ⟨(h.flush f hf).1.trans hle, (h.flush f hf).2⟩

/-- Polls that move on, with nothing published for the endpoint. -/
theorem Timely.carry (h : s.Timely index endpointId clock) (hinflight : s'.inflight = s.inflight)
    (hpolls : (s'.pollings index endpointId).Perm (s.pollings index endpointId))
    (htimes : ∀ id, isOn index endpointId id = true →
      serverTimes id s'.dispatcher.trace = serverTimes id s.dispatcher.trace)
    (hrunning : ∀ f ∈ s'.running, ∃ g ∈ s.running, f.clock = g.clock ∧ f.pc = g.pc) :
    s'.Timely index endpointId clock := by
  have hatMost : ∀ {t id}, isOn index endpointId id = true → AtMost t s.dispatcher id →
      AtMost t s'.dispatcher id := by
    intro t id hon hat x hx
    rw [htimes id hon] at hx
    exact hat x hx
  refine ⟨?_, ?_, fun id hon => hatMost hon (h.past id hon), fun p hp => ?_, fun f hf => ?_⟩
  · rw [hpolls.length_eq, hinflight]
    exact h.single
  · intro id hon
    rw [htimes id hon]
    exact h.inOrder id hon
  · obtain ⟨hnow, hpub⟩ := h.polls p (hpolls.subset hp)
    exact ⟨hnow, fun id hon hid => hatMost hon (hpub id hon hid)⟩
  · obtain ⟨g, hg, hclock, hpc⟩ := hrunning f hf
    obtain ⟨hle, hat, hhand⟩ := h.flush g hg
    rw [hclock, hpc]
    exact ⟨hle, fun id hon => hatMost hon (hat id hon),
      fun write hw p hp => hhand write hw p (hpolls.subset hp)⟩

/-! ### The completion of a poll -/

theorem Settled.later (h : s.Settled index endpointId clock) (hle : clock ≤ clock') :
    s.Settled index endpointId clock' :=
  ⟨h.running, h.pollings, h.inOrder, fun id hon => (h.past id hon).mono hle⟩

/-- Publishes at the clock. -/
theorem Settled.publish (h : s.Settled index endpointId clock) {ids : TagId → Prop}
    (hd : PublishesAt clock ids s.dispatcher s'.dispatcher) (hrunning : s'.running = s.running)
    (hpolls : s'.pollings index endpointId = s.pollings index endpointId) :
    s'.Settled index endpointId clock where
  running := hrunning.trans h.running
  pollings := hpolls.trans h.pollings
  inOrder := hd.inOrder h.inOrder fun id hon _ => h.past id hon
  past id hon := hd.atMost (h.past id hon) fun _ => le_rfl

theorem Settled.setDispatcher (h : s.Settled index endpointId clock) {d : Dispatcher}
    (hd : InOrder index endpointId d)
    (hpast : ∀ id, isOn index endpointId id = true → AtMost clock' d id) :
    (s.setDispatcher d).Settled index endpointId clock' :=
  ⟨h.running, h.pollings, hd, hpast⟩

theorem Settled.setPollTimes (h : s.Settled index endpointId clock)
    (times : String → Option TimestampMs) :
    (s.setDispatcher (s.dispatcher.setPollTimes times)).Settled index endpointId clock :=
  ⟨h.running, h.pollings, h.inOrder, h.past⟩

theorem Settled.markLost (h : s.Settled index endpointId clock) :
    (s.markLost index endpointId clock).Settled index endpointId clock :=
  h.publish (markEndpointBad_publishesAt ..) rfl rfl

theorem Settled.close (h : s.Settled index endpointId clock) :
    s.close.Settled index endpointId clock := by
  have hcarries := carries_close s
  refine ⟨?_, ?_, ?_, ?_⟩
  · cases hrun : s.close.running with
    | none => rfl
    | some f =>
      obtain ⟨g, hg, -⟩ := hcarries.running f hrun
      rw [h.running] at hg
      cases hg
  · have hperm := pollings_close index endpointId s
    rw [h.pollings] at hperm
    exact hperm.eq_nil
  · rw [hcarries.dispatcher]
    exact h.inOrder
  · rw [hcarries.dispatcher]
    exact h.past

theorem Settled.done (h : s.Settled index endpointId clock) (r : Result Unit) :
    (s.done index endpointId clock r).Settled index endpointId clock := by
  have hmark : Settled index endpointId clock (if !s.transport.connected then
      EndpointStrand.markLost index endpointId clock { s with inflight := false }
      else { s with inflight := false, nextReconnectMs := 0 }) := by
    have hoff : Settled index endpointId clock { s with inflight := false } :=
      ⟨h.running, h.pollings, h.inOrder, h.past⟩
    split
    · exact hoff.markLost
    · exact ⟨h.running, h.pollings, h.inOrder, h.past⟩
  unfold EndpointStrand.done
  cases r with
  | ok _ => exact hmark
  | error e =>
    dsimp only
    split
    · exact hmark.close.markLost
    · exact hmark

/-- A poll that holds the flag is posted to the transport. -/
theorem Settled.post (h : s.Settled index endpointId clock) (hinflight : s.inflight = true)
    {job : Job} {p : Polling} (hjob : job.polling? = some p) (hnow : p.now ≤ clock)
    (hat : ∀ id, isOn index endpointId id = true → p.publishes id = true →
      AtMost p.now s.dispatcher id) : (s.post job).Timely index endpointId clock := by
  have hpolls : (s.post job).pollings index endpointId = [p] := by
    have hperm := pollings_post index endpointId s job
    rw [h.pollings, hjob] at hperm
    exact List.perm_singleton.mp hperm
  refine ⟨?_, h.inOrder, h.past, fun q hq => ?_, fun f hf => ?_⟩
  · rw [hpolls]
    show 1 ≤ s.inflight.toNat
    rw [hinflight]
    rfl
  · rw [hpolls, List.mem_singleton] at hq
    subst hq
    exact ⟨hnow, hat⟩
  · exact absurd (h.running.symm.trans hf) (by simp)

/-- The poll goes on with tags that were not published after its tick. -/
theorem Settled.next (h : s.Settled index endpointId clock) (hinflight : s.inflight = true)
    {now : TimestampMs} (hnow : now ≤ clock) (firstError : Option Error) {tags : List TagBinding}
    (htags : ∀ b ∈ tags, isOn index endpointId b.id = true → AtMost now s.dispatcher b.id) :
    (s.next index endpointId now clock firstError tags).Timely index endpointId clock := by
  cases tags with
  | nil =>
    simp only [EndpointStrand.next]
    split
    · exact (h.done _).timely
    · exact (h.done _).timely
  | cons b rest =>
    refine h.post hinflight rfl hnow fun id hon hid => ?_
    obtain ⟨b', hb', heq⟩ := List.any_eq_true.mp hid
    rw [beq_iff_eq] at heq
    subst heq
    exact htags b' hb' hon

/-! ### The endpoint's strand -/

/-- A flush may take the free strand. -/
theorem Timely.begin (h : s.Timely index endpointId clock) (hrun : s.running = none) :
    Timely index endpointId clock { s with running := some { poll := none, clock := clock } } := by
  have hpolls : pollings index endpointId
      { s with running := some { poll := none, clock := clock } } = s.pollings index endpointId := by
    simp [EndpointStrand.pollings, hrun, Running.polling?]
  refine ⟨?_, h.inOrder, h.past, ?_, ?_⟩
  · rw [hpolls]
    exact h.single
  · rw [hpolls]
    exact h.polls
  · intro f hf
    cases hf
    exact ⟨le_rfl, h.past, by simp [unpublished, FlushPc.held, FlushPc.outcomes]⟩

/-- A flush that opens a poll takes the flag with it. -/
theorem Settled.open (h : s.Settled index endpointId clock) (hinflight : s.inflight = true)
    {now : TimestampMs} (hnow : now ≤ clock)
    (hat : ∀ id, isOn index endpointId id = true → AtMost now s.dispatcher id) :
    Timely index endpointId clock
      { s with running := some { poll := some now, clock := clock } } := by
  have hpolls : EndpointStrand.pollings index endpointId
      { s with running := some { poll := some now, clock := clock } } =
        (Running.polling? index endpointId { poll := some now, clock := clock }).toList := by
    have hnone := h.pollings
    simp only [EndpointStrand.pollings, h.running, Option.bind_none, Option.toList_none,
      List.append_nil] at hnone ⊢
    rw [hnone]
    rfl
  refine ⟨?_, h.inOrder, h.past, fun p hp => ?_, fun f hf => ?_⟩
  · rw [hpolls]
    show 1 ≤ s.inflight.toNat
    rw [hinflight]
    rfl
  · rw [hpolls] at hp
    obtain rfl := List.mem_singleton.mp hp
    exact ⟨hnow, fun id hon _ => hat id hon⟩
  · cases hf
    exact ⟨le_rfl, h.past, by simp [unpublished, FlushPc.held, FlushPc.outcomes]⟩

/-- A free strand that has taken the poll from where it was holds the only one. -/
theorem Timely.hold (h : s.Timely index endpointId clock) {p : Polling}
    (hperm : (s.pollings index endpointId).Perm (p :: s'.pollings index endpointId))
    (hrun : s'.running = none) (hdispatcher : s'.dispatcher = s.dispatcher) :
    s'.Settled index endpointId clock ∧ s.inflight = true ∧ p.now ≤ clock ∧
      ∀ id, isOn index endpointId id = true → p.publishes id = true →
        AtMost p.now s.dispatcher id := by
  have hsingle := h.single
  rw [hperm.length_eq, List.length_cons] at hsingle
  have hone := Bool.toNat_le s.inflight
  have hnil : s'.pollings index endpointId = [] := List.eq_nil_of_length_eq_zero (by omega)
  obtain ⟨hnow, hpub⟩ := h.polls p (hperm.symm.subset List.mem_cons_self)
  refine ⟨⟨hrun, hnil, ?_, ?_⟩, ?_, hnow, hpub⟩
  · rw [hdispatcher]
    exact h.inOrder
  · rw [hdispatcher]
    exact h.past
  · by_contra hoff
    rw [Bool.eq_false_of_not_eq_true hoff, Bool.toNat_false] at hsingle
    omega

theorem Timely.tickEndpoint (h : s.Timely index endpointId clock) (hrun : s.running = none)
    {now : TimestampMs} (hnow : clock ≤ now) (hclock : now ≤ clock') :
    (s.tickEndpoint index endpointId now clock').Timely index endpointId clock' := by
  have hlater := h.later (hnow.trans hclock)
  unfold EndpointStrand.tickEndpoint
  split
  · exact hlater
  · rename_i hoff
    split
    · exact hlater
    · -- no poll is under way, and every timestamp is from before the tick
      have hsettled : Settled index endpointId clock { s with inflight := true } := by
        refine ⟨hrun, ?_, h.inOrder, h.past⟩
        have hsingle := h.single
        rw [Bool.eq_false_of_not_eq_true hoff] at hsingle
        exact List.eq_nil_of_length_eq_zero (Nat.le_zero.mp hsingle)
      have hat : ∀ id, isOn index endpointId id = true → AtMost now s.dispatcher id :=
        fun id hon => (h.past id hon).mono hnow
      dsimp only
      split
      · split
        · exact ((hsettled.later (hnow.trans hclock)).done _).timely
        · exact (hsettled.later (hnow.trans hclock)).post rfl rfl hclock fun id hon _ => hat id hon
      · exact (hsettled.later (hnow.trans hclock)).open rfl hclock hat

theorem Timely.runTask (h : s.Timely index endpointId clock) (hrun : s.running = none)
    {task : Task} {rest : List Task} (htasks : s.tasks = task :: rest) {now : TimestampMs}
    (hnow : clock ≤ now) (hclock : now ≤ clock') :
    (EndpointStrand.runTask index endpointId now clock' task { s with tasks := rest }).Timely index
      endpointId clock' := by
  have hle := hnow.trans hclock
  have hperm := pollings_take index endpointId htasks
  have hother : task.polling? = none → Timely index endpointId clock { s with tasks := rest } := by
    intro hnone
    rw [hnone] at hperm
    exact h.carry rfl hperm.symm (fun _ _ => rfl) fun f hf => ⟨f, hf, rfl, rfl⟩
  cases task with
  | tick => exact (hother rfl).tickEndpoint hrun hnow hclock
  | flush => exact ((hother rfl).later hle).begin hrun
  | connected began conn =>
    obtain ⟨hsettled, hin, hbegan, hat⟩ := h.hold hperm hrun rfl
    rcases conn with e | ⟨⟩
    · -- every tag is marked at the time of the tick, and then perhaps at the clock
      have hmark := markEndpointBad_publishesAt index endpointId .noCommunication began s.dispatcher
      simp only [EndpointStrand.runTask]
      refine ((hsettled.setDispatcher ?_ ?_).done _).timely
      · exact hmark.inOrder h.inOrder fun id hon _ => hat id hon rfl
      · exact fun id hon => hmark.atMost ((h.past id hon).mono hle) fun _ => hbegan.trans hle
    · exact (hsettled.later hle).open hin (hbegan.trans hle) fun id hon => hat id hon rfl
  | completed chain regs =>
    obtain ⟨hsettled, hin, hbegan, hat⟩ := h.hold hperm hrun rfl
    have hread := concludeRead_publishesAt chain.now chain.binding regs
      (⟨s.dispatcher, fun _ => none⟩ : World Unit)
    have hchain : ∀ b ∈ chain.binding :: chain.rest, isOn index endpointId b.id = true →
        AtMost chain.now s.dispatcher b.id := by
      intro b hb hon
      exact hat b.id hon (List.any_eq_true.mpr ⟨b, hb, beq_self_eq_true _⟩)
    refine (hsettled.setDispatcher ?_ ?_).next hin (hbegan.trans hle) _ ?_
    · refine hread.inOrder h.inOrder fun id hon hid => ?_
      subst hid
      exact hchain _ List.mem_cons_self hon
    · exact fun id hon => hread.atMost ((h.past id hon).mono hle) fun _ => hbegan.trans hle
    · intro b hb hon
      exact hread.atMost (hchain b (List.mem_cons_of_mem _ hb) hon) fun _ => le_rfl

/-- One step of a flush: what it takes is guarded, and what it publishes was. -/
theorem Timely.resume (h : s.Timely index endpointId clock) {f : Running} (hrun : s.running = some f)
    (hguard : f.pc = .start → ∀ write ∈ s.dispatcher.writeQueues endpointId,
      ∀ p ∈ s.pollings index endpointId, p.publishes write.tagId = true → f.clock ≤ p.now)
    {answer : Result Unit} (hstep : s.resume index endpointId f answer = some s') :
    s'.Timely index endpointId clock := by
  obtain ⟨⟨pc, w⟩, hpc, rfl⟩ := Option.map_eq_some_iff.mp hstep
  have hmove := FlushPc.move_of_step hpc
  obtain ⟨hle, hat, hhand⟩ := h.flush f hrun
  have hpub := flushMove_publishesAt hmove
  have hpolls : EndpointStrand.pollings index endpointId
      { s with dispatcher := w.dispatcher, running := some { f with pc := pc, call := .idle } } =
        s.pollings index endpointId := by
    simp [EndpointStrand.pollings, hrun, Running.polling?]
  refine ⟨?_, ?_, ?_, fun p hp => ?_, fun g hg => ?_⟩
  · rw [hpolls]
    exact h.single
  · exact hpub.inOrder h.inOrder fun id hon _ => hat id hon
  · exact fun id hon => hpub.atMost (h.past id hon) fun _ => hle
  · rw [hpolls] at hp
    obtain ⟨hnow, hpast⟩ := h.polls p hp
    refine ⟨hnow, fun id hon hid => hpub.atMost (hpast id hon hid) ?_⟩
    rintro ⟨write, hwrite, rfl⟩
    exact hhand write hwrite p hp hid
  · cases hg
    refine ⟨hle, fun id hon => hpub.atMost (hat id hon) fun _ => le_rfl, fun write hw p hp hid => ?_⟩
    rw [hpolls] at hp
    rcases (FlushMove_unpublished hmove).1 write hw with hw | ⟨hstart, hw⟩
    · exact hhand write hw p hp hid
    · exact hguard hstart write hw p hp hid

/-- The end of a flush: a poll that it opened goes on with the tags of the due groups. -/
theorem Timely.flushed (h : s.Timely index endpointId clock) {f : Running} (hrun : s.running = some f)
    (hle : clock ≤ clock') (r : Result Unit) :
    (EndpointStrand.flushed index endpointId clock' f.poll r
      { s with running := none }).Timely index endpointId clock' := by
  cases hpoll : f.poll with
  | none =>
    refine (h.later hle).carry rfl (.of_eq ?_) (fun _ _ => rfl) fun g hg => by cases hg
    simp [EndpointStrand.flushed, EndpointStrand.pollings, hrun, Running.polling?, hpoll]
  | some now =>
    obtain ⟨p, hp, rfl, hpub⟩ : ∃ p : Polling, Running.polling? index endpointId f = some p ∧
        p.now = now ∧ ∀ g ∈ index.groupsForEndpoint endpointId, ∀ b ∈ collectGroupTags index g,
          p.publishes b.id = true := by
      refine ⟨_, congrArg (Option.map _) hpoll, rfl, fun g hg b hb => ?_⟩
      exact List.any_eq_true.mpr ⟨b, List.mem_flatMap.mpr ⟨g, hg, hb⟩, beq_self_eq_true _⟩
    have hperm : (s.pollings index endpointId).Perm
        (p :: EndpointStrand.pollings index endpointId { s with running := none }) := by
      simp only [EndpointStrand.pollings, hrun, Option.bind_some, hp, Option.bind_none,
        Option.toList_some, Option.toList_none, List.append_nil]
      exact List.perm_append_comm
    obtain ⟨hsettled, hin, hnow, hat⟩ := h.hold hperm rfl rfl
    have hlater := hsettled.later hle
    rcases r with e | ⟨⟩
    · simp only [EndpointStrand.flushed]
      exact (hlater.done _).timely
    · -- choosing the due groups publishes nothing
      simp only [EndpointStrand.flushed]
      rw [collectDue_due]
      refine (hlater.setPollTimes _).next hin (hnow.trans hle) none ?_
      intro b hb hon
      obtain ⟨g, hg, hb⟩ := List.mem_flatMap.mp hb
      exact hat b.id hon (hpub g (dueGroups_subset _ _ _ _ g hg) b hb)

/-- The flush blocks on a write, which is no poll. -/
theorem Timely.block (h : s.Timely index endpointId clock) {f : Running} (hrun : s.running = some f)
    (request : WriteRequest) :
    Timely index endpointId clock { s.post (.transact (.write request)) with
      running := some { f with call := .waiting } } := by
  refine h.carry rfl ?_ (fun _ _ => rfl) fun g hg => ?_
  · have hnone : [Job.transact (.write request)].filterMap Job.polling? = [] := rfl
    simp only [EndpointStrand.pollings, EndpointStrand.post, ModbusTcpTransport.post, hrun,
      List.filterMap_append, hnone, List.append_nil]
    exact .refl _
  · cases hg
    exact ⟨f, hrun, rfl, rfl⟩

theorem Timely.advance (h : s.Timely index endpointId clock) (hle : clock ≤ clock')
    (hguard : ∀ f ∈ s.running, f.pc = .start → ∀ write ∈ s.dispatcher.writeQueues endpointId,
      ∀ p ∈ s.pollings index endpointId, p.publishes write.tagId = true → f.clock ≤ p.now)
    (hstep : s.advance index endpointId clock' = some s') : s'.Timely index endpointId clock' := by
  unfold EndpointStrand.advance at hstep
  split at hstep
  · cases hstep
  · rename_i f hrun
    have hresume : ∀ answer, s.resume index endpointId f answer = some s' →
        s'.Timely index endpointId clock' :=
      fun answer hanswer => (h.resume hrun (hguard f hrun) hanswer).later hle
    split at hstep
    · cases hstep
    · exact hresume _ hstep
    · split at hstep
      · exact hresume _ hstep
      · cases hstep
        exact (h.later hle).block hrun _
    · split at hstep
      · cases hstep
        exact h.flushed hrun hle _
      · exact hresume _ hstep

/-! ### The transport's strand -/

theorem Timely.start (h : s.Timely index endpointId clock) {job : Job} {rest : List Job}
    (hposted : s.transport.posted = job :: rest) :
    (EndpointStrand.execute { s with transport := { s.transport with posted := rest } } job).Timely
      index endpointId clock := by
  have hcarries := carries_execute { s with transport := { s.transport with posted := rest } } job
  refine h.carry hcarries.inflight ((pollings_execute ..).trans (.of_eq ?_)) (fun _ _ => ?_)
    hcarries.running
  · have hcons : s.transport.posted.filterMap Job.polling? =
        job.polling?.toList ++ rest.filterMap Job.polling? := by
      rw [hposted, List.filterMap_cons]
      cases job.polling? <;> rfl
    simp only [EndpointStrand.pollings, hcons, List.append_assoc]
  · rw [hcarries.dispatcher]

theorem Timely.connectDone (h : s.Timely index endpointId clock) {attempt : ℕ} {now : TimestampMs}
    (hget : s.transport.connecting[attempt]? = some now) (r : Result Unit) :
    Timely index endpointId clock { s with
      tasks := s.tasks ++ [.connected now r]
      transport := { s.transport with
        connected := r.isOk, connecting := s.transport.connecting.eraseIdx attempt } } := by
  refine h.carry rfl ?_ (fun _ _ => rfl) fun f hf => ⟨f, hf, rfl, rfl⟩
  have hperm : (s.transport.connecting.map Polling.connecting).Perm
      ([Polling.connecting now] ++
        (s.transport.connecting.eraseIdx attempt).map Polling.connecting) := by
    obtain ⟨hlt, rfl⟩ := List.getElem?_eq_some_iff.mp hget
    exact (List.getElem_cons_eraseIdx_perm hlt).symm.map Polling.connecting
  have hcoe := Multiset.coe_eq_coe.mpr hperm
  rw [← Multiset.coe_add] at hcoe
  rw [← Multiset.coe_eq_coe]
  simp only [EndpointStrand.pollings, List.filterMap_append, ← Multiset.coe_add]
  rw [hcoe]
  show _ + _ + _ + (_ + ([Polling.connecting now] : Multiset Polling)) + _ = _
  abel

theorem Timely.finish (h : s.Timely index endpointId clock) {call : ℕ} {t : Transaction}
    (hget : s.transport.outstanding[call]? = some t) (answer : Result (List UInt16)) :
    (EndpointStrand.deliver t answer { s with transport := { s.transport with
      connected := s.transport.connected && !Adapters.disconnects answer
      outstanding := s.transport.outstanding.eraseIdx call } }).Timely index endpointId clock := by
  have hcarries := carries_deliver t answer { s with transport := { s.transport with
      connected := s.transport.connected && !Adapters.disconnects answer
      outstanding := s.transport.outstanding.eraseIdx call } }
  refine h.carry hcarries.inflight ((pollings_deliver ..).trans ?_) (fun _ _ => ?_)
    hcarries.running
  · have hperm : (s.transport.outstanding.filterMap Transaction.polling?).Perm
        (t.polling?.toList ++
          (s.transport.outstanding.eraseIdx call).filterMap Transaction.polling?) := by
      obtain ⟨hlt, rfl⟩ := List.getElem?_eq_some_iff.mp hget
      refine ((List.getElem_cons_eraseIdx_perm hlt).symm.filterMap Transaction.polling?).trans ?_
      rw [List.filterMap_cons]
      cases (s.transport.outstanding[call]).polling? <;> exact .refl _
    have hcoe := Multiset.coe_eq_coe.mpr hperm
    rw [← Multiset.coe_add] at hcoe
    rw [← Multiset.coe_eq_coe]
    simp only [EndpointStrand.pollings, ← Multiset.coe_add]
    rw [hcoe]
    abel
  · rw [hcarries.dispatcher]

/-- What is published for other endpoints leaves the tags of this one. -/
theorem Timely.elsewhere (h : s.Timely index endpointId clock) {published : List (TagId × TagValue)}
    (hother : ∀ p ∈ published, isOn index endpointId p.1 = false)
    (lastPollMs : String → Option TimestampMs) :
    (s.setDispatcher { published.foldl (fun d p => d.publish p.1 p.2 none) s.dispatcher with
      lastPollMs := lastPollMs }).Timely index endpointId clock := by
  refine h.carry rfl (.refl _) (fun id hon => ?_) fun f hf => ⟨f, hf, rfl, rfl⟩
  show serverTimes id (published.foldl (fun d p => d.publish p.1 p.2 none) s.dispatcher).trace = _
  generalize s.dispatcher = d
  induction published generalizing d with
  | nil => rfl
  | cons p rest ih =>
    rw [List.forall_mem_cons] at hother
    rw [List.foldl_cons, ih hother.2]
    have hpublish : PublishesAt p.2.serverTs (p.1 = ·) d (d.publish p.1 p.2 none) :=
      .publish rfl rfl d none
    refine hpublish.only id ?_
    rintro rfl
    rw [hother.1] at hon
    cases hon

theorem Timely.of_fresh (h : s.Fresh) (htimes : ∀ id, serverTimes id s.dispatcher.trace = [])
    (clock : TimestampMs) : s.Timely index endpointId clock := by
  obtain ⟨htasks, hrun, -, hposted, hconnecting, houtstanding⟩ := h
  refine Settled.timely ⟨hrun, ?_, fun id _ => ?_, fun id _ x hx => ?_⟩
  · simp [EndpointStrand.pollings, htasks, hrun, hposted, hconnecting, houtstanding]
  · rw [htimes id]
    exact .nil
  · rw [htimes id] at hx
    cases hx

theorem step_timely {action : StrandAction} (h : s.Timely index endpointId clock)
    (hfirst : clock ≤ (action.readings clock).1)
    (hlast : (action.readings clock).1 ≤ (action.readings clock).2)
    (hguard : Punctual index endpointId (.strand action) ⟨s, clock⟩)
    (hstep : step index endpointId action s = some s') :
    s'.Timely index endpointId (action.readings clock).2 := by
  cases action with
  | enqueue tagId value =>
    obtain rfl := Option.some.inj hstep
    refine h.carry rfl (.refl _) (fun id _ => ?_) fun f hf => ⟨f, hf, rfl, rfl⟩
    show serverTimes id (s.dispatcher.enqueueWrite index tagId value).2.trace = _
    obtain ⟨e, he⟩ | ⟨b, -, -, -, he⟩ :=
      Dispatcher.enqueueWrite_cases index tagId value s.dispatcher
    · rw [he]
    · rw [he]
      exact (serverTimes_append ..).trans (List.append_nil _)
  | postFlush =>
    obtain ⟨n, -, rfl⟩ := step_postFlush hstep
    refine h.carry rfl (.of_eq ?_) (fun _ _ => rfl) fun f hf => ⟨f, hf, rfl, rfl⟩
    simp [EndpointStrand.pollings, Task.polling?]
  | tick =>
    cases hstep
    refine h.carry rfl (.of_eq ?_) (fun _ _ => rfl) fun f hf => ⟨f, hf, rfl, rfl⟩
    simp [EndpointStrand.pollings, Task.polling?]
  | run now clock =>
    obtain ⟨task, rest, hrun, htasks, rfl⟩ := step_run hstep
    exact h.runTask hrun htasks hfirst hlast
  | advance clock => exact h.advance hfirst hguard hstep
  | start =>
    obtain ⟨job, rest, hposted, rfl⟩ := step_start hstep
    exact h.start hposted
  | connectDone attempt r =>
    obtain ⟨now, hget, rfl⟩ := step_connectDone hstep
    exact h.connectDone hget r
  | finish call answer =>
    obtain ⟨t, hget, rfl⟩ := step_finish hstep
    exact h.finish hget answer

end EndpointStrand

theorem TimedStrand.step_timely {index : RuntimeIndex} {endpointId : String} {action : TimedAction}
    {s s' : TimedStrand} (h : s.strand.Timely index endpointId s.clock)
    (hguard : Punctual index endpointId action s)
    (hstep : TimedStrand.step index endpointId action s = some s') :
    s'.strand.Timely index endpointId s'.clock := by
  cases action with
  | strand action =>
    simp only [TimedStrand.step] at hstep
    split at hstep
    · rename_i hreadings
      obtain ⟨t, ht, rfl⟩ := Option.map_eq_some_iff.mp hstep
      exact EndpointStrand.step_timely h hreadings.1 hreadings.2 hguard ht
    · cases hstep
  | elsewhere published lastPollMs =>
    simp only [TimedStrand.step] at hstep
    split at hstep
    · cases hstep
    · rename_i hother
      cases hstep
      refine h.elsewhere (fun p hp => ?_) lastPollMs
      by_contra hon
      exact hother (List.any_eq_true.mpr ⟨p, hp, eq_true_of_ne_false hon⟩)

/-- In every run with a clock that does not go back, in which no flush takes a write at a
later clock than that of a poll under way that may still publish its tag, the server
timestamps of every tag of the endpoint are in order. -/
theorem server_times_in_order {index : RuntimeIndex} {endpointId : String} {s : TimedStrand}
    (h : Transition.Reachable (TimedStrand.step index endpointId) (Punctual index endpointId)
      TimedStrand.Fresh s) : InOrder index endpointId s.strand.dispatcher := by
  have htimely : s.strand.Timely index endpointId s.clock := by
    refine h.invariant (fun s => s.strand.Timely index endpointId s.clock) ?_ ?_
    · exact fun s hs => .of_fresh hs.1 hs.2 s.clock
    · exact fun s t action _ hs hguard hstep => TimedStrand.step_timely hs hguard hstep
  exact htimely.inOrder

end ServerTime

section Level

attribute [local instance] exactPlatform

/-- A write is queued while a poll connects. The flush that opens the poll delivers it at
1005; then the tag is read, and published at the time of the tick. -/
def writeWhileConnecting : List StrandAction :=
  [.tick, .run 1000 1000, .start, .enqueue 1 (.uint16 10), .connectDone 0 (.ok ()),
    .run 1005 1005, .advance 1005, .advance 1005, .advance 1005, .start, .finish 0 (.ok []),
    .advance 1006, .advance 1006, .advance 1006, .advance 1006, .advance 1006, .start,
    .finish 0 (.ok [10]), .run 1010 1010]

theorem writeWhileConnecting_out_of_order : ¬ ∀ s : TimedStrand,
    Transition.Reachable (TimedStrand.step level "plc") Transition.Free TimedStrand.Fresh s →
      InOrder level "plc" s.strand.dispatcher := by
  intro h
  have hend : (Transition.run (TimedStrand.step level "plc") (writeWhileConnecting.map .strand)
      ⟨{}, 1000⟩).map (fun s => serverTimes 1 s.strand.dispatcher.trace) = some [1005, 1000] := by
    decide +kernel
  obtain ⟨s, hrun, hs⟩ := Option.map_eq_some_iff.mp hend
  have hfresh : TimedStrand.Fresh ⟨{}, 1000⟩ := ⟨⟨rfl, rfl, rfl, rfl, rfl, rfl⟩, fun _ => rfl⟩
  have horder := h s ((Transition.Reachable.start hfresh).of_run _ hrun) 1 (by decide +kernel)
  rw [hs] at horder
  exact absurd horder (by decide)

/-- The write is queued while the tag is read, and its flush runs once the poll is
complete. -/
def writeAfterPoll : List StrandAction :=
  pollActions ++ [.enqueue 1 (.uint16 10), .finish 0 (.ok [7]), .run 1003 1004, .postFlush,
    .run 1005 1005, .advance 1005, .advance 1005, .advance 1005, .start, .finish 0 (.ok []),
    .advance 1006, .advance 1006, .advance 1006, .advance 1006, .advance 1006]

theorem writeAfterPoll_in_order : ∃ s, Transition.run (TimedStrand.step level "plc")
    (writeAfterPoll.map .strand) ⟨{}, 1000⟩ = some s ∧
      serverTimes 1 s.strand.dispatcher.trace = [1000, 1005] ∧
      InOrder level "plc" s.strand.dispatcher := by
  have hend : (Transition.run (TimedStrand.step level "plc") (writeAfterPoll.map .strand)
      ⟨{}, 1000⟩).map (fun s => serverTimes 1 s.strand.dispatcher.trace) = some [1000, 1005] := by
    decide +kernel
  obtain ⟨s, hrun, hs⟩ := Option.map_eq_some_iff.mp hend
  have hfresh : TimedStrand.Fresh ⟨{}, 1000⟩ := ⟨⟨rfl, rfl, rfl, rfl, rfl, rfl⟩, fun _ => rfl⟩
  have hmeets : Transition.Meets (TimedStrand.step level "plc") (Punctual level "plc")
      (writeAfterPoll.map .strand) ⟨{}, 1000⟩ := by decide +kernel
  have hreach := (Transition.Reachable.start hfresh).of_meets _ hmeets hrun
  exact ⟨s, hrun, hs, server_times_in_order hreach⟩

end Level

end OpcServer.App
