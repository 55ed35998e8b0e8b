import OpcServer.Core.AcceptedIndex
import OpcServer.Core.Effects
import OpcServer.Core.Ledger
import OpcServer.Lib.Transition

/-! Operations on one endpoint leave the others alone. Tags are selected by names and
devices, and writes by the binding they had when they were queued; in an accepted
project both lead to the endpoint of the operation. The queues carry the invariant
that every write in them belongs to their endpoint.

The system has all commands of the dispatcher and asynchronous polls that wait for
their transports, in any order. -/

namespace OpcServer.Core

open Domain Project

section Isolation

variable [Platform]

/-! ### The system -/

/-- The dispatcher with the polls that wait for a transport, each with its endpoint. -/
structure Gateway (σ : Type) where
  world : World σ
  polls : List (String × Awaiting) := []

inductive GatewayAction (σ : Type) where
  | command (c : Command σ)
  | startPoll (endpointId : String) (now clock : TimestampMs)
  | connectionDone (poll : ℕ) (r : Result Unit)
  | registersDone (poll : ℕ) (regs : Result (List UInt16))

namespace Gateway
variable {σ : Type} (index : RuntimeIndex) (transport : IModbusTransport σ)

/-- A poll that waits again is kept. -/
def put (polls : List (String × Awaiting)) (endpointId : String) (r : Progress × World σ) :
    Gateway σ :=
  match r with
  | (.done _, w) => ⟨w, polls⟩
  | (.waiting a, w) => ⟨w, polls ++ [(endpointId, a)]⟩

def step : GatewayAction σ → Gateway σ → Option (Gateway σ)
  | .command c, s => (execute index transport c s.world).map fun w => ⟨w, s.polls⟩
  | .startPoll endpointId now clock, s =>
    some (put s.polls endpointId (startPoll index transport endpointId now clock s.world))
  | .connectionDone poll r, s =>
    match s.polls[poll]? with
    | some (endpointId, .connection now clock) => some (put (s.polls.eraseIdx poll) endpointId
        (Core.connectionDone index transport endpointId now clock r s.world))
    | _ => none
  | .registersDone poll regs, s =>
    match s.polls[poll]? with
    | some (endpointId, .registers now binding rest first) =>
      some (put (s.polls.eraseIdx poll) endpointId
        (Core.registersDone endpointId now binding rest first regs s.world))
    | _ => none

/-- Nothing is queued and no poll waits. -/
def Fresh (s : Gateway σ) : Prop :=
  (∀ ep, s.world.dispatcher.writeQueues ep = []) ∧ s.polls = []

end Gateway

/-- The endpoint a command is on: its own, or that of the tag it writes. -/
def Command.On {σ : Type} (index : RuntimeIndex) (endpointId : String) : Command σ → Prop
  | .pollDue ep _ _ | .pollDueAsync ep _ _ | .flushWrites ep _ | .markEndpointBad ep _ _
  | .setTransport ep _ => ep = endpointId
  | .enqueueWrite tagId _ => ∃ b, index.findById tagId = some b ∧ b.endpointId = endpointId
  | .markStaleBefore _ _ => False

/-- The endpoint an action is on; a completion is on the endpoint of its poll. -/
def GatewayAction.On {σ : Type} (index : RuntimeIndex) (endpointId : String) (s : Gateway σ) :
    GatewayAction σ → Prop
  | .command c => c.On index endpointId
  | .startPoll ep _ _ => ep = endpointId
  | .connectionDone poll _ | .registersDone poll _ => ∃ a, s.polls[poll]? = some (endpointId, a)

/-! ### What is left alone -/

/-- The stored values of an endpoint's tags, its write queue, its transport and its
waiting polls are as before, and no call of its transport was made. -/
structure Spares {σ : Type} (index : RuntimeIndex) (endpointId : String) (s s' : Gateway σ) :
    Prop where
  tagStore : ∀ b ∈ index.tags, b.endpointId = endpointId →
    s'.world.dispatcher.tagStore.get b.id = s.world.dispatcher.tagStore.get b.id
  queue : s'.world.dispatcher.writeQueues endpointId = s.world.dispatcher.writeQueues endpointId
  transport : s'.world.transports endpointId = s.world.transports endpointId
  polls : s'.polls.filter (·.1 == endpointId) = s.polls.filter (·.1 == endpointId)
  calls : ∃ events, s'.world.dispatcher.trace = s.world.dispatcher.trace ++ events ∧
    ∀ request ok carried, .call endpointId request ok carried ∉ events

/-- The tag of an id is bound on an endpoint. -/
def TagOn (index : RuntimeIndex) (endpointId : String) (id : TagId) : Prop :=
  ∃ b, index.findById id = some b ∧ b.endpointId = endpointId

/-- An effect stays on an endpoint. -/
def Effect.Within (index : RuntimeIndex) (endpointId : String) : Effect → Prop
  | .publish id _ | .quality id _ _ _ _ _ => TagOn index endpointId id
  | .requeue writes => ∀ write ∈ writes, TagOn index endpointId write.tagId
  | _ => True

/-- The part of `Spares` that a dispatcher shows. -/
structure SparesDispatcher (index : RuntimeIndex) (endpointId : String) (d d' : Dispatcher) :
    Prop where
  tagStore : ∀ id, TagOn index endpointId id → d'.tagStore.get id = d.tagStore.get id
  queue : d'.writeQueues endpointId = d.writeQueues endpointId
  calls : ∃ events, d'.trace = d.trace ++ events ∧
    ∀ request ok carried, .call endpointId request ok carried ∉ events

namespace SparesDispatcher

variable {index : RuntimeIndex} {ep other : String} {d d' d'' : Dispatcher}

theorem refl (d : Dispatcher) : SparesDispatcher index ep d d :=
  ⟨fun _ _ => rfl, rfl, [], by simp, by simp⟩

theorem trans (h : SparesDispatcher index ep d d') (h' : SparesDispatcher index ep d' d'') :
    SparesDispatcher index ep d d'' where
  tagStore id hid := (h'.tagStore id hid).trans (h.tagStore id hid)
  queue := h'.queue.trans h.queue
  calls := by
    obtain ⟨events, ht, hno⟩ := h.calls
    obtain ⟨events', ht', hno'⟩ := h'.calls
    refine ⟨events ++ events', by rw [ht', ht, List.append_assoc], ?_⟩
    intro request ok carried hmem
    rcases List.mem_append.mp hmem with hmem | hmem
    · exact hno _ _ _ hmem
    · exact hno' _ _ _ hmem

/-- A trace that grows by an event which is no call of the endpoint. -/
theorem of_event {e : Event} (hstore : ∀ id, TagOn index ep id → d'.tagStore.get id = d.tagStore.get id)
    (hqueue : d'.writeQueues ep = d.writeQueues ep) (ht : d'.trace = d.trace ++ [e])
    (hne : ∀ request ok carried, e ≠ .call ep request ok carried) :
    SparesDispatcher index ep d d' := by
  refine ⟨hstore, hqueue, [e], ht, ?_⟩
  intro request ok carried hmem
  exact hne _ _ _ (List.mem_singleton.mp hmem).symm

theorem publish {id : TagId} (hid : TagOn index other id) (hne : other ≠ ep) (value : TagValue)
    (cause : Option PendingWrite) : SparesDispatcher index ep d (d.publish id value cause) := by
  refine .of_event ?_ rfl rfl (by simp)
  intro id' hid'
  have hneq : id' ≠ id := by
    rintro rfl
    obtain ⟨b, hb, rfl⟩ := hid
    obtain ⟨b', hb', rfl⟩ := hid'
    rw [hb] at hb'
    cases hb'
    exact hne rfl
  exact TagStore.get_publish_of_ne _ _ hneq

theorem effect {e : Effect} (h : e.Within index other) (hne : other ≠ ep) :
    SparesDispatcher index ep d (d.effect other e) := by
  cases e with
  | call request ok carried =>
    refine .of_event (fun _ _ => rfl) rfl rfl ?_
    intro request' ok' carried' he
    cases he
    exact hne rfl
  | publish id value => exact publish h hne value none
  | quality id q r now value cause => exact publish h hne _ cause
  | swapOut =>
    exact ⟨fun _ _ => rfl, Function.update_of_ne hne.symm _ _, [], by simp [Dispatcher.effect,
      Dispatcher.setQueue], by simp⟩
  | requeue writes =>
    exact ⟨fun _ _ => rfl, Function.update_of_ne hne.symm _ _, [], by simp [Dispatcher.effect,
      Dispatcher.requeue, Dispatcher.setQueue], by simp⟩
  | flushed result => exact .of_event (fun _ _ => rfl) rfl rfl (by simp)
  | pollTimes times => exact ⟨fun _ _ => rfl, rfl, [], by simp [Dispatcher.effect,
      Dispatcher.setPollTimes], by simp⟩

theorem script {effects : List Effect} (h : ∀ e ∈ effects, e.Within index other)
    (hne : other ≠ ep) : SparesDispatcher index ep d (d.script other effects) := by
  induction effects generalizing d with
  | nil => exact refl d
  | cons e rest ih =>
    have hfirst : SparesDispatcher index ep d (d.effect other e) :=
      effect (h e List.mem_cons_self) hne
    exact hfirst.trans (ih fun e' he' => h e' (List.mem_cons_of_mem _ he'))

end SparesDispatcher

/-! ### Tags of an endpoint -/

section Tags
variable {project : Project}

theorem tagOn_of_mem {b : TagBinding} (h : b ∈ (RuntimeIndex.build project).tags) :
    TagOn (RuntimeIndex.build project) b.endpointId b.id :=
  ⟨b, RuntimeIndex.findById_of_mem h, rfl⟩

/-- A binding of a device is on the endpoint of the device. -/
theorem endpointId_of_deviceId (hc : project.Consistent) {b : TagBinding} {d : Device}
    (hb : b ∈ (RuntimeIndex.build project).tags)
    (hd : (RuntimeIndex.build project).device b.deviceId = some d) :
    b.endpointId = d.endpointId := by
  obtain ⟨d', hd', -, hid, hep, -⟩ := RuntimeIndex.mem_bindDevices hb
  rw [hid, device_of_mem hc hd'] at hd
  cases hd
  exact hep

/-- The tags of a group are on the endpoint of its device, whether it names them or not. -/
theorem collectGroupTags_on (hc : project.Consistent) {endpointId : String} {g : PollGroup}
    (hg : g ∈ (RuntimeIndex.build project).groupsForEndpoint endpointId) :
    ∀ b ∈ collectGroupTags (RuntimeIndex.build project) g,
      TagOn (RuntimeIndex.build project) endpointId b.id := by
  obtain ⟨hmem, d, hdev, rfl⟩ := mem_groupsForEndpoint.mp hg
  have hdevice : ∀ b ∈ (RuntimeIndex.build project).tags, b.deviceId = g.deviceId →
      TagOn (RuntimeIndex.build project) d.endpointId b.id := by
    intro b hb hid
    rw [← endpointId_of_deviceId hc hb (hid ▸ hdev)]
    exact tagOn_of_mem hb
  intro b hb
  unfold collectGroupTags at hb
  split at hb
  · obtain ⟨name, hname, hfind⟩ := List.mem_filterMap.mp hb
    obtain ⟨d', hd', hdev', hnames, -⟩ := group_device hc hmem
    rw [hdev] at hdev'
    cases hdev'
    obtain ⟨t, ht, rfl⟩ := hnames name hname
    obtain ⟨b', hb', rfl, -, hep⟩ := RuntimeIndex.exists_binding 1 hd' ht
    rw [findByName_of_mem hc hb'] at hfind
    cases hfind
    exact hep ▸ tagOn_of_mem hb'
  · unfold unnamedTags at hb
    dsimp only at hb
    split at hb
    · obtain ⟨htag, hcond⟩ := List.mem_filter.mp hb
      simp only [Bool.and_eq_true, beq_iff_eq] at hcond
      exact hdevice b htag hcond.1
    · obtain ⟨htag, hcond⟩ := List.mem_filter.mp hb
      simp only [Bool.and_eq_true, beq_iff_eq] at hcond
      exact hdevice b htag hcond.1

theorem collectDue_subset {σ : Type} (index : RuntimeIndex) (endpointId : String)
    (now : TimestampMs) (groups : List PollGroup) (w : World σ) :
    ∀ b ∈ (collectDue index endpointId now groups w).1,
      ∃ g ∈ groups, b ∈ collectGroupTags index g := by
  induction groups generalizing w with
  | nil => simp [collectDue]
  | cons group rest ih =>
    intro b hb
    rw [collectDue] at hb
    split at hb
    · obtain ⟨g, hg, h⟩ := ih w b hb
      exact ⟨g, List.mem_cons_of_mem _ hg, h⟩
    · rcases List.mem_append.mp hb with hb | hb
      · exact ⟨group, List.mem_cons_self, hb⟩
      · obtain ⟨g, hg, h⟩ := ih _ b hb
        exact ⟨g, List.mem_cons_of_mem _ hg, h⟩

theorem collectDue_on (hc : project.Consistent) {σ : Type} (endpointId : String)
    (now : TimestampMs) (w : World σ) :
    ∀ b ∈ (collectDue (RuntimeIndex.build project) endpointId now
        ((RuntimeIndex.build project).groupsForEndpoint endpointId) w).1,
      TagOn (RuntimeIndex.build project) endpointId b.id := by
  intro b hb
  obtain ⟨g, hg, hbg⟩ := collectDue_subset _ endpointId now _ w b hb
  exact collectGroupTags_on hc hg b hbg

theorem answers_bindings {σ : Type} (transport : IModbusTransport σ) (tags : List TagBinding)
    (t : σ) : (answers transport tags t).1.map Answer.binding = tags := by
  induction tags generalizing t with
  | nil => rfl
  | cons b rest ih => rw [answers, List.map_cons, ih]

theorem pollAnswers_on (hc : project.Consistent) {σ : Type} (transport : IModbusTransport σ)
    (endpointId : String) (now clock : TimestampMs) (w : World σ) :
    ∀ a ∈ pollAnswers (RuntimeIndex.build project) transport endpointId now clock w,
      TagOn (RuntimeIndex.build project) endpointId a.binding.id := by
  intro a ha
  unfold pollAnswers at ha
  split at ha
  · cases ha
  · split at ha
    · cases ha
    · rename_i w' _ _ t _
      have hb := List.mem_map_of_mem (f := Answer.binding) ha
      rw [answers_bindings] at hb
      exact collectDue_on hc endpointId now w' _ hb

end Tags

/-! ### Scripts stay on their endpoint -/

section Within
variable {index : RuntimeIndex} {endpointId : String}

theorem within_holdsOfFlush {batch : List PendingWrite}
    (hbatch : ∀ write ∈ batch, TagOn index endpointId write.tagId) :
    HoldsOfFlush batch (Effect.Within index endpointId) where
  call _ _ _ := trivial
  quality write hw _ _ _ _ := hbatch write hw
  swapOut := trivial
  requeue _ hback := fun write hw => hbatch write (hback write hw)
  flushed _ := trivial

theorem lostEffects_within {project : Project} (endpointId : String) (reason : QualityReason)
    (now : TimestampMs) :
    ∀ e ∈ lostEffects (RuntimeIndex.build project) endpointId reason now,
      e.Within (RuntimeIndex.build project) endpointId := by
  intro e he
  obtain ⟨b, hb, rfl⟩ := List.mem_map.mp he
  obtain ⟨hmem, hep⟩ := List.mem_filter.mp hb
  rw [← (beq_iff_eq.mp hep : b.endpointId = endpointId)]
  exact tagOn_of_mem hmem

theorem answer_within {now : TimestampMs} {reason : TagBinding → Error → QualityReason}
    {a : Answer} (h : TagOn index endpointId a.binding.id) :
    ∀ e ∈ a.effects reason now, e.Within index endpointId := by
  intro e he
  rcases List.mem_cons.mp he with rfl | he
  · trivial
  · obtain rfl := List.mem_singleton.mp he
    cases a.regs with
    | error e => exact h
    | ok regs =>
      dsimp only
      cases Translator.decode a.binding.tag regs <;> exact h

theorem readEffects_within {now : TimestampMs} {reason : TagBinding → Error → QualityReason}
    {times : String → Option TimestampMs} {as : List Answer}
    (h : ∀ a ∈ as, TagOn index endpointId a.binding.id) :
    ∀ e ∈ readEffects now reason times as, e.Within index endpointId := by
  intro e he
  rcases List.mem_cons.mp he with rfl | he
  · trivial
  · obtain ⟨a, ha, he⟩ := List.mem_flatMap.mp he
    exact answer_within (h a ha) e he

end Within

/-! ### One step -/

/-- Every queued write and every tag that a poll waits for belongs to the endpoint it is
kept under. -/
structure Gateway.Routed {σ : Type} (index : RuntimeIndex) (s : Gateway σ) : Prop where
  queues : ∀ ep, ∀ write ∈ s.world.dispatcher.writeQueues ep, TagOn index ep write.tagId
  polls : ∀ ep now binding rest first, (ep, .registers now binding rest first) ∈ s.polls →
    ∀ b ∈ binding :: rest, TagOn index ep b.id

section Step
variable {σ : Type} {index : RuntimeIndex} {transport : IModbusTransport σ}
  {endpointId other : String}

theorem effect_routed {e : Effect} (h : e.Within index endpointId) {d : Dispatcher}
    (hd : ∀ ep, ∀ write ∈ d.writeQueues ep, TagOn index ep write.tagId) :
    ∀ ep, ∀ write ∈ (d.effect endpointId e).writeQueues ep, TagOn index ep write.tagId := by
  intro ep write hw
  cases e with
  | swapOut =>
    simp only [Dispatcher.effect, Dispatcher.setQueue, Function.update_apply] at hw
    split at hw
    · cases hw
    · exact hd ep write hw
  | requeue writes =>
    simp only [Dispatcher.effect, Dispatcher.requeue, Dispatcher.setQueue,
      Function.update_apply] at hw
    split at hw
    · rename_i heq
      subst heq
      rcases List.mem_append.mp hw with hw | hw
      · exact h write hw
      · exact hd ep write hw
    · exact hd ep write hw
  | _ => exact hd ep write hw

theorem script_routed {effects : List Effect} (h : ∀ e ∈ effects, e.Within index endpointId)
    {d : Dispatcher} (hd : ∀ ep, ∀ write ∈ d.writeQueues ep, TagOn index ep write.tagId) :
    ∀ ep, ∀ write ∈ (d.script endpointId effects).writeQueues ep, TagOn index ep write.tagId := by
  induction effects generalizing d with
  | nil => exact hd
  | cons e rest ih =>
    exact ih (fun e' he' => h e' (List.mem_cons_of_mem _ he'))
      (effect_routed (h e List.mem_cons_self) hd)

/-- A move of an operation on an endpoint: it keeps the writes where they belong, and
spares every other endpoint. -/
structure Local (index : RuntimeIndex) (endpointId : String) (w w' : World σ) : Prop where
  queues : (∀ ep, ∀ write ∈ w.dispatcher.writeQueues ep, TagOn index ep write.tagId) →
    ∀ ep, ∀ write ∈ w'.dispatcher.writeQueues ep, TagOn index ep write.tagId
  spares : ∀ ep, endpointId ≠ ep → SparesDispatcher index ep w.dispatcher w'.dispatcher
  transports : ∀ ep, endpointId ≠ ep → w'.transports ep = w.transports ep

theorem Local.of_performs {effects : List Effect} {w w' : World σ}
    (hp : Performs endpointId effects w w') (h : ∀ e ∈ effects, e.Within index endpointId) :
    Local index endpointId w w' where
  queues hq := by
    rw [hp.dispatcher]
    exact script_routed h hq
  spares ep hne := by
    rw [hp.dispatcher]
    exact .script h hne
  transports ep hne := hp.transports ep hne.symm

theorem Local.trans {w w' w'' : World σ} (h : Local index endpointId w w')
    (h' : Local index endpointId w' w'') : Local index endpointId w w'' where
  queues hq := h'.queues (h.queues hq)
  spares ep hne := (h.spares ep hne).trans (h'.spares ep hne)
  transports ep hne := (h'.transports ep hne).trans (h.transports ep hne)

theorem Local.refl (w : World σ) : Local index endpointId w w :=
  ⟨fun hq => hq, fun _ _ => .refl _, fun _ _ => rfl⟩

theorem IsPoll.isLocal {now : TimestampMs} {reason : TagBinding → Error → QualityReason}
    {as : List Answer} {before : List Effect} {w w₁ w' : World σ}
    (h : IsPoll endpointId now reason as before w w₁ w')
    (hbefore : ∀ e ∈ before, e.Within index endpointId)
    (has : ∀ a ∈ as, TagOn index endpointId a.binding.id) : Local index endpointId w w' := by
  obtain ⟨hp, ⟨-, rfl⟩ | ⟨times, hp'⟩⟩ := h
  · exact .of_performs hp hbefore
  · exact (Local.of_performs hp hbefore).trans (.of_performs hp' (readEffects_within has))

theorem Local.enqueueWrite {b : TagBinding} {tagId : TagId}
    (hfind : index.findById tagId = some b) (value : ScalarValue) (w : World σ) :
    Local index b.endpointId w
      (w.mapDispatcher fun d => (d.enqueueWrite index tagId value).2) := by
  obtain ⟨e, he⟩ | ⟨b', hb', -, -, he⟩ :=
    Dispatcher.enqueueWrite_cases index tagId value w.dispatcher
  · refine ⟨fun hq => ?_, fun ep _ => ?_, fun _ _ => rfl⟩
    · simpa only [World.mapDispatcher, he] using hq
    · simpa only [World.mapDispatcher, he] using .refl _
  · rw [hfind] at hb'
    cases hb'
    refine ⟨fun hq => ?_, fun ep hne => ?_, fun _ _ => rfl⟩
    · simp only [World.mapDispatcher, he]
      intro ep write hw
      by_cases heq : ep = b.endpointId
      · subst heq
        rw [Dispatcher.accept_writeQueues] at hw
        rcases List.mem_append.mp hw with hw | hw
        · exact hq _ write hw
        · obtain rfl := List.mem_singleton.mp hw
          exact ⟨b, hfind, rfl⟩
      · rw [Dispatcher.accept_writeQueues_of_ne _ _ _ heq] at hw
        exact hq ep write hw
    · simp only [World.mapDispatcher, he]
      exact .of_event (fun _ _ => rfl) (Dispatcher.accept_writeQueues_of_ne _ _ _ hne.symm) rfl
        (by simp)

end Step

section Project
variable {σ : Type} {project : Project} {transport : IModbusTransport σ}

/-- Every command on an endpoint is a local move there. -/
theorem execute_local (hcons : project.Consistent) (hchecked : project.Checked)
    {endpointId : String} {c : Command σ} (hon : c.On (RuntimeIndex.build project) endpointId)
    {w w' : World σ}
    (hq : ∀ ep, ∀ write ∈ w.dispatcher.writeQueues ep,
      TagOn (RuntimeIndex.build project) ep write.tagId)
    (h : execute (RuntimeIndex.build project) transport c w = some w') :
    Local (RuntimeIndex.build project) endpointId w w' := by
  have hread := fun now clock => pollAnswers_on hcons transport endpointId now clock w
  cases c with
  | pollDue ep now clock =>
    cases hon
    cases h
    obtain ⟨sent, before, hs, hp⟩ :=
      pollDue_script (RuntimeIndex.build project) transport endpointId now clock w
    rw [syncAnswers_eq _ _ _ _ _ fun g hg => resolved_of_checked hchecked hg] at hp
    exact hp.isLocal (hs.forall_effects (within_holdsOfFlush (hq _))
      (lostEffects_within endpointId .noCommunication now)) (hread now clock)
  | pollDueAsync ep now clock =>
    cases hon
    cases h
    obtain ⟨sent, before, hs, hp⟩ :=
      pollDueAsync_script (RuntimeIndex.build project) transport endpointId now clock w
    exact hp.isLocal (hs.forall_effects (within_holdsOfFlush (hq _))
      (lostEffects_within endpointId .noCommunication now)) (hread now clock)
  | flushWrites ep clock =>
    cases hon
    cases h
    obtain ⟨sent, effects, hf, hp⟩ :=
      flushWrites_performs (RuntimeIndex.build project) transport endpointId clock w
    exact .of_performs hp (hf.forall_effects (within_holdsOfFlush (hq _)))
  | markEndpointBad ep reason now =>
    cases hon
    cases h
    exact .of_performs (.mapDispatcher (script_lost _ _ _ _ _).symm)
      (lostEffects_within endpointId reason now)
  | enqueueWrite tagId value =>
    obtain ⟨b, hb, rfl⟩ := hon
    cases h
    exact .enqueueWrite hb value w
  | markStaleBefore cutoff reason => exact hon.elim
  | setTransport ep t =>
    cases hon
    cases h
    exact ⟨fun hq => hq, fun _ _ => .refl _, fun ep hne => Function.update_of_ne hne.symm _ _⟩

/-! ### Polls that wait -/

/-- The tags a poll waits for are on an endpoint. -/
def Progress.On (index : RuntimeIndex) (endpointId : String) : Progress → Prop
  | .waiting (.registers _ binding rest _) => ∀ b ∈ binding :: rest, TagOn index endpointId b.id
  | _ => True

theorem askNext_on {index : RuntimeIndex} {endpointId : String} {tags : List TagBinding}
    (h : ∀ b ∈ tags, TagOn index endpointId b.id) (now : TimestampMs) (first : Option Error) :
    (askNext now tags first).On index endpointId := by
  cases tags with
  | nil => trivial
  | cons b rest => exact h

theorem startReads_local (transport : IModbusTransport σ) (hcons : project.Consistent)
    (endpointId : String)
    (now clock : TimestampMs) {w : World σ}
    (hq : ∀ ep, ∀ write ∈ w.dispatcher.writeQueues ep,
      TagOn (RuntimeIndex.build project) ep write.tagId) :
    (startReads (RuntimeIndex.build project) transport endpointId now clock w).1.On
        (RuntimeIndex.build project) endpointId ∧
      Local (RuntimeIndex.build project) endpointId w
        (startReads (RuntimeIndex.build project) transport endpointId now clock w).2 := by
  obtain ⟨sent, effects, hf, hp⟩ :=
    flushWrites_performs (RuntimeIndex.build project) transport endpointId clock w
  have hflush : Local (RuntimeIndex.build project) endpointId w _ :=
    .of_performs hp (hf.forall_effects (within_holdsOfFlush (hq _)))
  unfold startReads
  cases hr : flushWrites (RuntimeIndex.build project) transport endpointId clock w with
  | mk r w' =>
    rw [hr] at hflush
    cases r with
    | error e => exact ⟨trivial, hflush⟩
    | ok u =>
      obtain ⟨tags, times, hdue⟩ := collectDue_eq (σ := σ) (RuntimeIndex.build project) endpointId
        now ((RuntimeIndex.build project).groupsForEndpoint endpointId) w'.dispatcher.lastPollMs
      have hon := collectDue_on hcons endpointId now w'
      dsimp only
      rw [hdue w' rfl] at hon ⊢
      have htimes : Performs endpointId [.pollTimes times] w'
          (w'.mapDispatcher fun d => d.setPollTimes times) := .mapDispatcher rfl
      refine ⟨askNext_on hon now none, hflush.trans (.of_performs htimes ?_)⟩
      intro e he
      obtain rfl := List.mem_singleton.mp he
      trivial

theorem startPoll_local (transport : IModbusTransport σ) (hcons : project.Consistent)
    (endpointId : String)
    (now clock : TimestampMs) {w : World σ}
    (hq : ∀ ep, ∀ write ∈ w.dispatcher.writeQueues ep,
      TagOn (RuntimeIndex.build project) ep write.tagId) :
    (startPoll (RuntimeIndex.build project) transport endpointId now clock w).1.On
        (RuntimeIndex.build project) endpointId ∧
      Local (RuntimeIndex.build project) endpointId w
        (startPoll (RuntimeIndex.build project) transport endpointId now clock w).2 := by
  unfold startPoll
  split
  · exact ⟨trivial, .refl w⟩
  · split
    · exact startReads_local transport hcons endpointId now clock hq
    · split
      · exact ⟨trivial, .refl w⟩
      · exact ⟨trivial, .refl w⟩

theorem connectionDone_local (transport : IModbusTransport σ) (hcons : project.Consistent)
    (endpointId : String)
    (now clock : TimestampMs) (r : Result Unit) {w : World σ}
    (hq : ∀ ep, ∀ write ∈ w.dispatcher.writeQueues ep,
      TagOn (RuntimeIndex.build project) ep write.tagId) :
    (connectionDone (RuntimeIndex.build project) transport endpointId now clock r w).1.On
        (RuntimeIndex.build project) endpointId ∧
      Local (RuntimeIndex.build project) endpointId w
        (connectionDone (RuntimeIndex.build project) transport endpointId now clock r w).2 := by
  cases r with
  | error e =>
    exact ⟨trivial, .of_performs (.mapDispatcher (script_lost _ _ _ _ _).symm)
      (lostEffects_within endpointId .noCommunication now)⟩
  | ok u => exact startReads_local transport hcons endpointId now clock hq

theorem registersDone_local {index : RuntimeIndex} {endpointId : String} (now : TimestampMs)
    {binding : TagBinding} {rest : List TagBinding}
    (hon : ∀ b ∈ binding :: rest, TagOn index endpointId b.id) (first : Option Error)
    (regs : Result (List UInt16)) (w : World σ) :
    (registersDone endpointId now binding rest first regs w).1.On index endpointId ∧
      Local index endpointId w (registersDone endpointId now binding rest first regs w).2 := by
  unfold registersDone
  simp only [concludeRead_eq]
  refine ⟨askNext_on (fun b hb => hon b (List.mem_cons_of_mem _ hb)) now _, ?_⟩
  have hp : Performs endpointId (Answer.effects asyncReason now ⟨binding, regs⟩) w
      (w.mapDispatcher fun d => d.absorb asyncReason endpointId now ⟨binding, regs⟩) :=
    .mapDispatcher (script_answer _ _ _ _ _).symm
  exact .of_performs hp (answer_within (hon binding List.mem_cons_self))

end Project

/-! ### Runs -/

omit [Platform] in
theorem filter_eraseIdx {α : Type} {p : α → Bool} {l : List α} {i : ℕ} {a : α}
    (h : l[i]? = some a) (hp : p a = false) : (l.eraseIdx i).filter p = l.filter p := by
  induction l generalizing i with
  | nil => rfl
  | cons b rest ih =>
    cases i with
    | zero =>
      obtain rfl : b = a := by simpa using h
      rw [List.eraseIdx_cons_zero, List.filter_cons_of_neg (by simp [hp])]
    | succ i =>
      rw [List.eraseIdx_cons_succ, List.filter_cons, List.filter_cons, ih (by simpa using h)]

section Runs
variable {σ : Type} {project : Project} {transport : IModbusTransport σ}

theorem Local.spares_put {index : RuntimeIndex} {endpointId other : String} {s : Gateway σ}
    {polls : List (String × Awaiting)} {r : Progress × World σ}
    (h : Local index endpointId s.world r.2) (hne : endpointId ≠ other)
    (hbuild : ∀ b ∈ index.tags, index.findById b.id = some b)
    (hpolls : polls.filter (·.1 == other) = s.polls.filter (·.1 == other)) :
    Spares index other s (Gateway.put polls endpointId r) := by
  obtain ⟨progress, w⟩ := r
  have hspares := h.spares other hne
  have hstore : ∀ b ∈ index.tags, b.endpointId = other →
      w.dispatcher.tagStore.get b.id = s.world.dispatcher.tagStore.get b.id :=
    fun b hb hep => hspares.tagStore b.id ⟨b, hbuild b hb, hep⟩
  cases progress with
  | done result => exact ⟨hstore, hspares.queue, h.transports other hne, hpolls, hspares.calls⟩
  | waiting a =>
    refine ⟨hstore, hspares.queue, h.transports other hne, ?_, hspares.calls⟩
    change (polls ++ [(endpointId, a)]).filter _ = _
    rw [List.filter_append, hpolls, List.filter_cons_of_neg (by simpa using hne)]
    simp

theorem Local.routed_put {index : RuntimeIndex} {endpointId : String} {s : Gateway σ}
    {polls : List (String × Awaiting)} {r : Progress × World σ}
    (h : Local index endpointId s.world r.2) (hr : s.Routed index)
    (hon : r.1.On index endpointId) (hpolls : ∀ p ∈ polls, p ∈ s.polls) :
    (Gateway.put polls endpointId r).Routed index := by
  obtain ⟨progress, w⟩ := r
  have hq := h.queues hr.queues
  cases progress with
  | done result => exact ⟨hq, fun ep now b rest first hm => hr.polls ep now b rest first (hpolls _ hm)⟩
  | waiting a =>
    refine ⟨hq, fun ep now b rest first hm => ?_⟩
    rcases List.mem_append.mp hm with hm | hm
    · exact hr.polls ep now b rest first (hpolls _ hm)
    · cases List.mem_singleton.mp hm
      exact hon

/-- A command that is on no endpoint leaves the queues alone. -/
theorem execute_queues {index : RuntimeIndex} {c : Command σ} {w w' : World σ}
    (hon : ¬ ∃ ep, c.On index ep) (h : execute index transport c w = some w') :
    w'.dispatcher.writeQueues = w.dispatcher.writeQueues := by
  cases c with
  | pollDue ep | pollDueAsync ep | flushWrites ep | markEndpointBad ep | setTransport ep =>
    exact absurd ⟨ep, rfl⟩ hon
  | markStaleBefore cutoff reason =>
    cases h
    rfl
  | enqueueWrite tagId value =>
    cases h
    obtain ⟨e, he⟩ | ⟨b, hb, -⟩ := Dispatcher.enqueueWrite_cases index tagId value w.dispatcher
    · simp only [World.mapDispatcher, he]
    · exact absurd ⟨b.endpointId, b, hb, rfl⟩ hon

/-- A step keeps every write and every waiting tag under its endpoint, and a step on one
endpoint spares the others. -/
theorem step_isolated (hcons : project.Consistent) (hchecked : project.Checked)
    {action : GatewayAction σ} {s s' : Gateway σ} (hr : s.Routed (RuntimeIndex.build project))
    (h : Gateway.step (RuntimeIndex.build project) transport action s = some s') :
    s'.Routed (RuntimeIndex.build project) ∧
      ∀ ep other, action.On (RuntimeIndex.build project) ep s → ep ≠ other →
        Spares (RuntimeIndex.build project) other s s' := by
  have hbuild : ∀ b ∈ (RuntimeIndex.build project).tags,
      (RuntimeIndex.build project).findById b.id = some b :=
    fun b hb => RuntimeIndex.findById_of_mem hb
  cases action with
  | command c =>
    obtain ⟨w, hw, rfl⟩ := Option.map_eq_some_iff.mp h
    have hlocal : ∀ ep, c.On (RuntimeIndex.build project) ep →
        Local (RuntimeIndex.build project) ep s.world w :=
      fun ep hon => execute_local hcons hchecked hon hr.queues hw
    refine ⟨⟨?_, hr.polls⟩, ?_⟩
    · by_cases hon : ∃ ep, c.On (RuntimeIndex.build project) ep
      · obtain ⟨ep, hon⟩ := hon
        exact (hlocal ep hon).queues hr.queues
      · exact execute_queues hon hw ▸ hr.queues
    · intro ep other hon hne
      exact (hlocal ep hon).spares_put (r := (.done (.ok ()), w)) hne hbuild rfl
  | startPoll ep now clock =>
    cases h
    obtain ⟨hon, hlocal⟩ := startPoll_local transport hcons ep now clock hr.queues
    refine ⟨hlocal.routed_put hr hon fun p hp => hp, ?_⟩
    rintro _ other rfl hne
    exact hlocal.spares_put hne hbuild rfl
  | connectionDone poll r =>
    simp only [Gateway.step] at h
    split at h
    · rename_i ep now clock hpoll
      cases h
      obtain ⟨hon, hlocal⟩ :=
        connectionDone_local transport hcons ep now clock r hr.queues
      refine ⟨hlocal.routed_put hr hon fun p hp => List.mem_of_mem_eraseIdx hp, ?_⟩
      rintro ep' other ⟨a, ha⟩ hne
      rw [hpoll] at ha
      cases ha
      exact hlocal.spares_put hne hbuild (filter_eraseIdx hpoll (by simpa using hne))
    · cases h
  | registersDone poll regs =>
    simp only [Gateway.step] at h
    split at h
    · rename_i ep now binding rest first hpoll
      cases h
      have htags := hr.polls ep now binding rest first (List.mem_of_getElem? hpoll)
      obtain ⟨hon, hlocal⟩ := registersDone_local now htags first regs s.world
      refine ⟨hlocal.routed_put hr hon fun p hp => List.mem_of_mem_eraseIdx hp, ?_⟩
      rintro ep' other ⟨a, ha⟩ hne
      rw [hpoll] at ha
      cases ha
      exact hlocal.spares_put hne hbuild (filter_eraseIdx hpoll (by simpa using hne))
    · cases h

theorem routed_of_reachable (hcons : project.Consistent) (hchecked : project.Checked)
    {s : Gateway σ} (hs : Transition.Reachable
      (Gateway.step (RuntimeIndex.build project) transport) Transition.Free Gateway.Fresh s) :
    s.Routed (RuntimeIndex.build project) := by
  apply hs.invariant
  · rintro s ⟨hq, hp⟩
    exact ⟨by simp [hq], by simp [hp]⟩
  · intro s t action _ hr _ h
    exact (step_isolated hcons hchecked hr h).1

/-- Endpoints are isolated: in every state that an accepted project can get to, an
action on one endpoint spares every other endpoint. -/
theorem endpoints_isolated {lib : JsonLibrary} (hlib : lib.ReportsViolations)
    {text sourceName : String} (hok : (loadJsonText lib text sourceName).ok = true)
    (transport : IModbusTransport σ) {s s' : Gateway σ} {action : GatewayAction σ}
    {endpointId other : String} (hne : endpointId ≠ other) :
    let index := RuntimeIndex.build (loadJsonText lib text sourceName).project
    Transition.Reachable (Gateway.step index transport) Transition.Free Gateway.Fresh s →
      action.On index endpointId s → Gateway.step index transport action s = some s' →
      Spares index other s s' := by
  intro index hs hon hstep
  have hcons := loadJsonText_consistent hlib hok
  have hchecked := loadJsonText_checked hlib hok
  have hr := routed_of_reachable hcons hchecked hs
  exact (step_isolated hcons hchecked hr hstep).2 endpointId other hon hne

end Runs

end Isolation

/-! ### Two lines -/

attribute [local instance] exactPlatform

/-- Two endpoints with one coil each. -/
def twoLines : LoadResult := loadDocument (plantDocument ["north", "south"]
  [("valve", "north", [tagDocument "open" "coil" "bool" 0 true]),
    ("pump", "south", [tagDocument "running" "coil" "bool" 0 true])]
  [("valves", "valve", 100), ("pumps", "pump", 100)])

/-- Both lines are connected, and every bit read fails. -/
def deafLines : Gateway Unit := { world := { transports := fun _ => some () } }

def pollNorth : GatewayAction Unit := .command (.pollDue "north" 1000 1000)

/-- The failed poll of one line marks its coil Bad and spares the other line. -/
theorem north_spares_south : twoLines.ok = true ∧
    ∃ s, Gateway.step (RuntimeIndex.build twoLines.project) (answering (.error {})) pollNorth
        deafLines = some s ∧
      (s.world.dispatcher.tagStore.get 1).map TagValue.quality = some .bad ∧
      Spares (RuntimeIndex.build twoLines.project) "south" deafLines s := by
  have hok : twoLines.ok = true := by decide +kernel
  have hend : (Gateway.step (RuntimeIndex.build twoLines.project) (answering (.error {})) pollNorth
      deafLines).map (fun s => (s.world.dispatcher.tagStore.get 1).map TagValue.quality) =
        some (some .bad) := by decide +kernel
  obtain ⟨s, hstep, hbad⟩ := Option.map_eq_some_iff.mp hend
  have hfresh : Gateway.Fresh deafLines := ⟨fun _ => rfl, rfl⟩
  have hon : pollNorth.On (RuntimeIndex.build twoLines.project) "north" deafLines := rfl
  exact ⟨hok, s, hstep, hbad, endpoints_isolated (JsonLibrary.reading_reports _) hok _
    (show "north" ≠ "south" by decide) (.start hfresh) hon hstep⟩

end OpcServer.Core
