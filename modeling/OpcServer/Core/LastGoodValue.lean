import OpcServer.Core.AddressBase
import OpcServer.Core.Effects
import OpcServer.Core.Ledger
import OpcServer.Core.PollSchedule

/-! The last good value of a tag. A history records, for every tag, the value and the
time of its last successful read or device write, told from what the transport
answered: registers that decode, and write requests that it took. In every run the
store holds the value and source timestamp of the history; what fails changes the
quality, the reason and the server timestamp only. -/

namespace OpcServer.Core

open Domain Project

section History

variable [Platform]

/-- A success of a tag: its value and its source timestamp. -/
abbrev Success := TagId × ScalarValue × TimestampMs

/-- The value and source timestamp of every tag; empty and zero without a success. -/
abbrev History := TagId → ScalarValue × TimestampMs

def History.note (h : History) (s : Success) : History := Function.update h s.1 s.2

def History.notes (h : History) (successes : List Success) : History := successes.foldl note h

/-- A read whose registers arrived and decode. -/
def Answer.success? (now : TimestampMs) (a : Answer) : Option Success :=
  match a.regs with
  | .error _ => none
  | .ok regs =>
    match Translator.decode a.binding.tag regs with
    | .error _ => none
    | .ok value => some (a.binding.id, value, now)

/-- The writes that the transport of an endpoint took between two worlds. -/
def writesTaken {σ : Type} (endpointId : String) (w w' : World σ) : List PendingWrite :=
  delivered endpointId (w'.dispatcher.trace.drop w.dispatcher.trace.length)

def PendingWrite.success (clock : TimestampMs) (write : PendingWrite) : Success :=
  (write.tagId, write.value, clock)

/-- The successes of a command, in order: the writes of its flush, then its reads. -/
def successes {σ : Type} (index : RuntimeIndex) (transport : IModbusTransport σ) (w : World σ) :
    Command σ → List Success
  | .pollDue ep now clock =>
    (writesTaken ep w (prepare index transport ep now clock w).2).map
      (PendingWrite.success clock) ++
      (syncAnswers index transport ep now clock w).filterMap (Answer.success? now)
  | .pollDueAsync ep now clock =>
    (writesTaken ep w (prepare index transport ep now clock w).2).map
      (PendingWrite.success clock) ++
      (pollAnswers index transport ep now clock w).filterMap (Answer.success? now)
  | .flushWrites ep clock =>
    (writesTaken ep w (flushWrites index transport ep clock w).2).map (PendingWrite.success clock)
  | _ => []

/-! ### Scripts and the store -/

/-- What an effect leaves as the last good value of a tag. -/
def Effect.success? : Effect → Option Success
  | .publish id value => some (id, value.value, value.sourceTs)
  | .quality id _ _ now (some value) _ => some (id, value, now)
  | _ => none

/-- The writes of a call that the transport took. -/
def Effect.taken : Effect → List PendingWrite
  | .call _ true carried => carried
  | _ => []

/-- The value and source timestamp of an entry; empty and zero without one. -/
def lastGood (entry : Option TagValue) : ScalarValue × TimestampMs :=
  ((entry.getD {}).value, (entry.getD {}).sourceTs)

/-- The store holds the last good values of a history. -/
def History.Shown (h : History) (store : TagStore) : Prop := ∀ id, lastGood (store.get id) = h id

/-- An entry with its quality gone Bad: only quality, reason and server timestamp differ. -/
def degraded (entry : Option TagValue) (reason : QualityReason) (now : TimestampMs) : TagValue :=
  { entry.getD {} with quality := .bad, reason := reason, serverTs := now }

/-- Published values that lead from one store to another. Each is the next of the
successes, with Good quality, or it degrades the entry it replaces. -/
inductive Updates : TagStore → List Event → List Success → TagStore → Prop
  | nil (store : TagStore) : Updates store [] [] store
  | success {store final : TagStore} {events : List Event} {successes : List Success} (id : TagId)
      (value : TagValue) (cause : Option PendingWrite) : value.quality = .good →
      Updates (store.publish id value) events successes final →
      Updates store (.publish id value cause :: events)
        ((id, value.value, value.sourceTs) :: successes) final
  | degrade {store final : TagStore} {events : List Event} {successes : List Success} (id : TagId)
      (reason : QualityReason) (now : TimestampMs) (cause : Option PendingWrite) :
      Updates (store.publish id (degraded (store.get id) reason now)) events successes final →
      Updates store (.publish id (degraded (store.get id) reason now) cause :: events) successes
        final

theorem Updates.append {store middle final : TagStore} {events events' : List Event}
    {successes successes' : List Success} (h : Updates store events successes middle)
    (h' : Updates middle events' successes' final) :
    Updates store (events ++ events') (successes ++ successes') final := by
  induction h with
  | nil => exact h'
  | success id value cause hgood _ ih => exact .success id value cause hgood (ih h')
  | degrade id reason now cause _ ih => exact .degrade id reason now cause (ih h')

theorem History.Shown.publish {h : History} {store : TagStore} (hs : h.Shown store) (id : TagId)
    (value : TagValue) :
    (h.note (id, value.value, value.sourceTs)).Shown (store.publish id value) := by
  intro other
  by_cases heq : other = id
  · subst heq
    simp [lastGood, History.note]
  · rw [TagStore.get_publish_of_ne _ _ heq, hs other]
    exact (Function.update_of_ne heq _ _).symm

theorem History.Shown.degrade {h : History} {store : TagStore} (hs : h.Shown store) (id : TagId)
    (reason : QualityReason) (now : TimestampMs) :
    h.Shown (store.publish id (degraded (store.get id) reason now)) := by
  intro other
  by_cases heq : other = id
  · subst heq
    rw [TagStore.get_publish_self, ← hs other]
    rfl
  · rw [TagStore.get_publish_of_ne _ _ heq]
    exact hs other

/-- The last good values after some updates are those of the successes among them. -/
theorem Updates.shown {store final : TagStore} {events : List Event} {successes : List Success}
    (hu : Updates store events successes final) {h : History} (hs : h.Shown store) :
    (h.notes successes).Shown final := by
  induction hu generalizing h with
  | nil => exact hs
  | success id value cause _ _ ih => exact ih (hs.publish id value)
  | degrade id reason now cause _ ih => exact ih (hs.degrade id reason now)

/-- An effect on the store is Good with a value, or Bad without one. -/
def Effect.Marks : Effect → Prop
  | .publish _ value => value.quality = .good
  | .quality _ q _ _ value _ => q = if value.isSome then .good else .bad
  | _ => True

theorem effect_updates (endpointId : String) {e : Effect} (he : e.Marks) (d : Dispatcher) :
    ∃ events, (d.effect endpointId e).trace = d.trace ++ events ∧
      Updates d.tagStore (publishes events) e.success?.toList (d.effect endpointId e).tagStore := by
  cases e with
  | call request ok carried => exact ⟨_, rfl, .nil _⟩
  | flushed result => exact ⟨_, rfl, .nil _⟩
  | swapOut | requeue | pollTimes => exact ⟨[], (List.append_nil _).symm, .nil _⟩
  | publish id value => exact ⟨_, rfl, .success id value none he (.nil _)⟩
  | quality id q r now value cause =>
    refine ⟨_, rfl, ?_⟩
    cases value with
    | some v =>
      have hgood : (Dispatcher.qualityUpdate (d.tagStore.get id) q r now (some v)).quality = .good := by
        rw [Dispatcher.qualityUpdate, withQuality_eq]
        exact he
      exact .success id _ cause hgood (.nil _)
    | none =>
      have hbad : Dispatcher.qualityUpdate (d.tagStore.get id) q r now none =
          degraded (d.tagStore.get id) r now := by
        rw [Dispatcher.qualityUpdate, withQuality_eq, show q = .bad from he]
        rfl
      rw [hbad]
      change Updates _ _ [] (d.tagStore.publish id
        (Dispatcher.qualityUpdate (d.tagStore.get id) q r now none))
      rw [hbad]
      exact .degrade id r now cause (.nil _)

theorem publishes_append (a b : List Event) : publishes (a ++ b) = publishes a ++ publishes b :=
  List.filter_append ..

theorem script_updates (endpointId : String) {effects : List Effect}
    (h : ∀ e ∈ effects, e.Marks) (d : Dispatcher) :
    ∃ events, (d.script endpointId effects).trace = d.trace ++ events ∧
      Updates d.tagStore (publishes events) (effects.filterMap Effect.success?)
        (d.script endpointId effects).tagStore := by
  induction effects generalizing d with
  | nil => exact ⟨[], (List.append_nil _).symm, .nil _⟩
  | cons e rest ih =>
    obtain ⟨before, hb, hfirst⟩ := effect_updates endpointId (h e List.mem_cons_self) d
    obtain ⟨events, ht, hrest⟩ := ih (fun e' he' => h e' (List.mem_cons_of_mem _ he'))
      (d.effect endpointId e)
    refine ⟨before ++ events, ?_, ?_⟩
    · rw [← List.append_assoc, ← hb, ← ht]
      rfl
    · have hall := hfirst.append hrest
      rw [← publishes_append] at hall
      rw [List.filterMap_cons]
      cases hs : e.success? with
      | none =>
        rw [hs] at hall
        exact hall
      | some s =>
        rw [hs] at hall
        exact hall

/-! ### Successes of the scripts -/

/-- What a script says of the last good values: the successes it leaves, the writes its
calls took, and that each effect is Good with a value or Bad without one. -/
structure Leaves (successes : List Success) (taken : List PendingWrite) (effects : List Effect) :
    Prop where
  successes : effects.filterMap Effect.success? = successes
  taken : effects.flatMap Effect.taken = taken
  marks : ∀ e ∈ effects, e.Marks

namespace Leaves

variable {successes successes' : List Success} {taken taken' : List PendingWrite}
  {effects effects' : List Effect}

theorem nil : Leaves [] [] [] := ⟨rfl, rfl, by simp⟩

theorem append (h : Leaves successes taken effects) (h' : Leaves successes' taken' effects') :
    Leaves (successes ++ successes') (taken ++ taken') (effects ++ effects') where
  successes := by rw [List.filterMap_append, h.successes, h'.successes]
  taken := by rw [List.flatMap_append, h.taken, h'.taken]
  marks e he := by
    rcases List.mem_append.mp he with he | he
    · exact h.marks e he
    · exact h'.marks e he

/-- An effect in front that neither succeeds nor takes a write. -/
theorem cons {e : Effect} (hs : e.success? = none) (ht : e.taken = []) (hd : e.Marks)
    (h : Leaves successes taken effects) : Leaves successes taken (e :: effects) where
  successes := by rw [List.filterMap_cons, hs, h.successes]
  taken := by rw [List.flatMap_cons, ht, h.taken, List.nil_append]
  marks e' he' := by
    rcases List.mem_cons.mp he' with rfl | he'
    · exact hd
    · exact h.marks e' he'

/-- A call that took writes. -/
theorem call (request : Request) (carried : List PendingWrite)
    (h : Leaves successes taken effects) :
    Leaves successes (carried ++ taken) (.call request true carried :: effects) where
  successes := h.successes
  taken := by rw [List.flatMap_cons, Effect.taken, h.taken]
  marks e' he' := by
    rcases List.mem_cons.mp he' with rfl | he'
    · trivial
    · exact h.marks e' he'

theorem confirms (now : TimestampMs) (writes : List PendingWrite) :
    Leaves (writes.map (PendingWrite.success now)) [] (writes.map (confirmEffect now)) := by
  induction writes with
  | nil => exact nil
  | cons write rest ih =>
    refine ⟨?_, ih.taken, ?_⟩
    · exact congrArg (write.success now :: ·) ih.successes
    · rintro e (_ | ⟨_, he⟩)
      · trivial
      · exact ih.marks e he

end Leaves

theorem FlushScript.leaves {now : TimestampMs} {batch sent : List PendingWrite} {r : Result Unit}
    {effects : List Effect} (h : FlushScript now batch sent r effects) :
    Leaves (sent.map (PendingWrite.success now)) sent effects := by
  induction h with
  | done => exact .nil
  | unencodable e _ => exact .cons rfl rfl rfl (.cons rfl rfl trivial .nil)
  | refused request e _ =>
    exact .cons rfl rfl trivial (.cons rfl rfl rfl (.cons rfl rfl trivial .nil))
  | round request _ _ ih =>
    rw [List.map_append]
    exact .call (.write request) _ ((Leaves.confirms now _).append ih)

theorem IsFlush.leaves {clock : TimestampMs} {batch sent : List PendingWrite}
    {effects : List Effect} (h : IsFlush clock batch sent effects) :
    Leaves (sent.map (PendingWrite.success clock)) sent effects := by
  obtain ⟨r, loop, ending, hs, rfl, hend⟩ := h
  have hending : Leaves [] [] ending := by
    rcases hend with ⟨r', rfl⟩ | ⟨r', rfl⟩
    · exact .cons rfl rfl trivial .nil
    · exact .cons rfl rfl trivial (.cons rfl rfl trivial .nil)
  have hall := hs.leaves.append hending
  rw [List.append_nil, List.append_nil] at hall
  exact .cons rfl rfl trivial hall

theorem lostEffects_leaves (index : RuntimeIndex) (endpointId : String) (reason : QualityReason)
    (now : TimestampMs) : Leaves [] [] (lostEffects index endpointId reason now) := by
  unfold lostEffects
  induction index.tags.filter fun b => b.endpointId == endpointId with
  | nil => exact .nil
  | cons b rest ih => exact .cons rfl rfl rfl ih

theorem PrepareScript.leaves {index : RuntimeIndex} {endpointId : String} {now clock : TimestampMs}
    {batch sent : List PendingWrite} {effects : List Effect}
    (h : PrepareScript index endpointId now clock batch sent effects) :
    Leaves (sent.map (PendingWrite.success clock)) sent effects := by
  cases h with
  | unbound => exact .nil
  | lost host port =>
    exact .cons rfl rfl trivial (lostEffects_leaves index endpointId .noCommunication now)
  | flush hf => exact hf.leaves
  | connected host port hf => exact .call (.connect host port) [] hf.leaves

/-- One answer is one success, or degrades. -/
theorem answer_leaves (now : TimestampMs) (reason : TagBinding → Error → QualityReason)
    (a : Answer) : Leaves (a.success? now).toList [] (a.effects reason now) := by
  obtain ⟨b, regs⟩ := a
  have hcall : Effect.taken (.call (readRequest b) regs.isOk []) = [] := by
    cases regs.isOk <;> rfl
  refine .cons rfl hcall trivial ?_
  cases regs with
  | error e => exact .cons rfl rfl rfl .nil
  | ok regs =>
    simp only [Answer.success?]
    cases Translator.decode b.tag regs with
    | error e => exact .cons rfl rfl rfl .nil
    | ok value => exact ⟨rfl, rfl, by simp [Effect.Marks]⟩

theorem readEffects_leaves (now : TimestampMs) (reason : TagBinding → Error → QualityReason)
    (times : String → Option TimestampMs) (as : List Answer) :
    Leaves (as.filterMap (Answer.success? now)) [] (readEffects now reason times as) := by
  refine .cons rfl rfl trivial ?_
  induction as with
  | nil => exact .nil
  | cons a rest ih =>
    have hall := (answer_leaves now reason a).append ih
    rw [List.flatMap_cons, List.filterMap_cons]
    cases hs : a.success? now with
    | none =>
      rw [hs] at hall
      exact hall
    | some s =>
      rw [hs] at hall
      exact hall

/-! ### Commands -/

/-- The calls of a script are in the trace. -/
theorem script_delivered (endpointId : String) (effects : List Effect) (d : Dispatcher) :
    ∃ events, (d.script endpointId effects).trace = d.trace ++ events ∧
      delivered endpointId events = effects.flatMap Effect.taken := by
  induction effects generalizing d with
  | nil => exact ⟨[], by simp [Dispatcher.script], rfl⟩
  | cons e rest ih =>
    obtain ⟨events, ht, hdel⟩ := ih (d.effect endpointId e)
    have hfirst : ∃ before, (d.effect endpointId e).trace = d.trace ++ before ∧
        delivered endpointId before = e.taken := by
      cases e with
      | call request ok carried =>
        refine ⟨_, rfl, ?_⟩
        cases ok <;> simp [delivered, Effect.taken]
      | publish id value => exact ⟨_, rfl, rfl⟩
      | quality id q r now value cause => exact ⟨_, rfl, rfl⟩
      | flushed result => exact ⟨_, rfl, rfl⟩
      | swapOut | requeue | pollTimes => exact ⟨[], (List.append_nil _).symm, rfl⟩
    obtain ⟨before, hb, htaken⟩ := hfirst
    refine ⟨before ++ events, ?_, ?_⟩
    · rw [← List.append_assoc, ← hb, ← ht]
      rfl
    · rw [delivered_append, hdel, htaken, List.flatMap_cons]

theorem writesTaken_eq {σ : Type} {endpointId : String} {effects : List Effect} {w w' : World σ}
    {successes : List Success} {taken : List PendingWrite}
    (hp : Performs endpointId effects w w') (hl : Leaves successes taken effects) :
    writesTaken endpointId w w' = taken := by
  obtain ⟨events, ht, hdel⟩ := script_delivered endpointId effects w.dispatcher
  rw [writesTaken, hp.dispatcher, ht, List.drop_left, hdel, hl.taken]

/-- What was published between two worlds leads from store to store with some successes. -/
def Follows {σ : Type} (successes : List Success) (w w' : World σ) : Prop :=
  Updates w.dispatcher.tagStore
    (publishes (w'.dispatcher.trace.drop w.dispatcher.trace.length)) successes
    w'.dispatcher.tagStore

section Commands
variable {σ : Type} {endpointId : String} {successes' : List Success}

theorem Follows.of_performs {effects : List Effect} {w w' : World σ} {taken : List PendingWrite}
    (hp : Performs endpointId effects w w') (hl : Leaves successes' taken effects) :
    Follows successes' w w' := by
  obtain ⟨events, ht, hu⟩ := script_updates endpointId hl.marks w.dispatcher
  rw [Follows, hp.dispatcher, ht, List.drop_left, ← hl.successes]
  exact hu

/-- Events that publish nothing leave the store. -/
theorem Follows.of_tagStore {w w' : World σ} (events : List Event)
    (h : w'.dispatcher.tagStore = w.dispatcher.tagStore)
    (ht : w'.dispatcher.trace = w.dispatcher.trace ++ events) (hno : publishes events = []) :
    Follows [] w w' := by
  rw [Follows, ht, List.drop_left, hno, h]
  exact .nil _

theorem IsPoll.follows {now : TimestampMs} {reason : TagBinding → Error → QualityReason}
    {as : List Answer} {before : List Effect} {w w₁ w' : World σ}
    (h : IsPoll endpointId now reason as before w w₁ w') {taken : List PendingWrite}
    (hl : Leaves successes' taken before) :
    Follows (successes' ++ as.filterMap (Answer.success? now)) w w' := by
  obtain ⟨hp, ⟨rfl, rfl⟩ | ⟨times, hp'⟩⟩ := h
  · rw [List.filterMap_nil, List.append_nil]
    exact .of_performs hp hl
  · exact .of_performs (hp.trans hp') (hl.append (readEffects_leaves now reason times as))

variable (index : RuntimeIndex) (transport : IModbusTransport σ)

/-- Every command but the stale mark follows its successes. -/
theorem execute_follows {c : Command σ} {w w' : World σ}
    (h : execute index transport c w = some w')
    (hc : ∀ cutoff reason, c ≠ .markStaleBefore cutoff reason) :
    Follows (successes index transport w c) w w' := by
  cases c with
  | pollDue ep now clock =>
    cases h
    obtain ⟨sent, before, hs, hp⟩ := pollDue_script index transport ep now clock w
    rw [successes, writesTaken_eq hp.1 hs.leaves]
    exact hp.follows hs.leaves
  | pollDueAsync ep now clock =>
    cases h
    obtain ⟨sent, before, hs, hp⟩ := pollDueAsync_script index transport ep now clock w
    rw [successes, writesTaken_eq hp.1 hs.leaves]
    exact hp.follows hs.leaves
  | flushWrites ep clock =>
    cases h
    obtain ⟨sent, effects, hf, hp⟩ := flushWrites_performs index transport ep clock w
    rw [successes, writesTaken_eq hp hf.leaves]
    exact .of_performs hp hf.leaves
  | markEndpointBad ep reason now =>
    cases h
    exact .of_performs (.mapDispatcher (script_lost _ _ _ _ _).symm)
      (lostEffects_leaves index ep reason now)
  | enqueueWrite tagId value =>
    cases h
    obtain ⟨e, he⟩ | ⟨b, -, -, -, he⟩ := Dispatcher.enqueueWrite_cases index tagId value w.dispatcher
    · refine .of_tagStore [] ?_ ?_ rfl
      · simp only [World.mapDispatcher, he]
      · simp only [World.mapDispatcher, he, List.append_nil]
    · refine .of_tagStore [.accepted b.endpointId ⟨tagId, value, w.dispatcher.nextSeq⟩] ?_ ?_ rfl
      · simp only [World.mapDispatcher, he]
        rfl
      · simp only [World.mapDispatcher, he]
        rfl
  | markStaleBefore cutoff reason => exact absurd rfl (hc cutoff reason)
  | setTransport ep t =>
    cases h
    exact .of_tagStore [] rfl (List.append_nil _).symm rfl

end Commands

/-! ### What a poll reports -/

/-- The published values of some events are one for each answer, Good exactly for the
successes. -/
def Reported (now : TimestampMs) (as : List Answer) (events : List Event) : Prop :=
  List.Forall₂ (fun a e => ∃ value, e = .publish a.binding.id value none ∧
    (value.quality = .good ↔ (a.success? now).isSome) ∧ value.serverTs = now) as (publishes events)

theorem published_good (reason : TagBinding → Error → QualityReason) (now : TimestampMs) (a : Answer)
    (previous : Option TagValue) :
    ((a.published reason now previous).quality = .good ↔ (a.success? now).isSome) ∧
      (a.published reason now previous).serverTs = now := by
  obtain ⟨b, regs⟩ := a
  cases regs with
  | error e => simp [Answer.published, Answer.success?, Dispatcher.qualityUpdate, withQuality_eq]
  | ok regs =>
    simp only [Answer.published, Answer.success?]
    cases Translator.decode b.tag regs <;> simp [Dispatcher.qualityUpdate, withQuality_eq]

theorem answers_reported (reason : TagBinding → Error → QualityReason) (endpointId : String)
    (now : TimestampMs) (as : List Answer) (d : Dispatcher) :
    ∃ events, (as.foldl (Dispatcher.absorb reason endpointId now) d).trace = d.trace ++ events ∧
      Reported now as events := by
  induction as generalizing d with
  | nil => exact ⟨[], by simp, .nil⟩
  | cons a rest ih =>
    obtain ⟨events, ht, hr⟩ := ih (d.absorb reason endpointId now a)
    obtain ⟨hgood, hts⟩ := published_good reason now a (d.tagStore.get a.binding.id)
    refine ⟨.call endpointId (readRequest a.binding) a.regs.isOk [] ::
      .publish a.binding.id (a.published reason now (d.tagStore.get a.binding.id)) none :: events,
      ?_, ?_⟩
    · rw [List.foldl_cons, ht]
      simp [Dispatcher.absorb, Dispatcher.record, Dispatcher.publish]
    · exact .cons ⟨_, rfl, hgood, hts⟩ hr

theorem IsPoll.reported {σ : Type} {endpointId : String} {now : TimestampMs}
    {reason : TagBinding → Error → QualityReason} {as : List Answer} {before : List Effect}
    {w w₁ w' : World σ} (h : IsPoll endpointId now reason as before w w₁ w') :
    Reported now as (w'.dispatcher.trace.drop w₁.dispatcher.trace.length) := by
  obtain ⟨-, ⟨rfl, rfl⟩ | ⟨times, hp⟩⟩ := h
  · rw [List.drop_length]
    exact .nil
  · obtain ⟨events, ht, hr⟩ := answers_reported reason endpointId now as
      (w₁.dispatcher.setPollTimes times)
    have htrace : w'.dispatcher.trace = w₁.dispatcher.trace ++ events := by
      rw [hp.dispatcher]
      change ((w₁.dispatcher.setPollTimes times).script endpointId _).trace = _
      rw [script_answers, ht]
      rfl
    rw [htrace, List.drop_left]
    exact hr

/-- The tags that a poll reads for a group; both polls read the listed tags of a group
whose names are all found. -/
def Command.reads {σ : Type} (index : RuntimeIndex) : Command σ → PollGroup → List TagBinding
  | .pollDueAsync _ _ _ => collectGroupTags index
  | _ => groupReads index

/-- The groups of a poll, and the answers to its reads. -/
def Command.asked {σ : Type} (index : RuntimeIndex) (transport : IModbusTransport σ) (w : World σ) :
    Command σ → List PollGroup × List Answer
  | .pollDue ep now clock => (polledGroups index transport ep now clock w,
      syncAnswers index transport ep now clock w)
  | .pollDueAsync ep now clock => (collectedGroups index transport ep now clock w,
      pollAnswers index transport ep now clock w)
  | _ => ([], [])

/-- The world that a poll starts its reads in. -/
def Command.prepared {σ : Type} (index : RuntimeIndex) (transport : IModbusTransport σ)
    (w : World σ) : Command σ → World σ
  | .pollDue ep now clock | .pollDueAsync ep now clock =>
    (prepare index transport ep now clock w).2
  | _ => w

section Reports
variable {σ : Type} (index : RuntimeIndex) (transport : IModbusTransport σ)

/-- A poll reads the tags of its groups in order, and publishes one value for each read. -/
theorem execute_reported {c : Command σ} {endpointId : String} {now : TimestampMs}
    (hc : c.poll? = some (endpointId, now)) {w w' : World σ}
    (h : execute index transport c w = some w') :
    (c.asked index transport w).2.map Answer.binding =
        (c.asked index transport w).1.flatMap (c.reads index) ∧
      Reported now (c.asked index transport w).2
        (w'.dispatcher.trace.drop (c.prepared index transport w).dispatcher.trace.length) := by
  cases c with
  | pollDue ep now' clock =>
    cases hc
    cases h
    obtain ⟨sent, before, -, hp⟩ := pollDue_script index transport endpointId now clock w
    refine ⟨?_, hp.reported⟩
    simp only [Command.asked, Command.reads, polledGroups_eq, collectedGroups, syncAnswers]
    cases hprep : prepare index transport endpointId now clock w with
    | mk r w₁ =>
      cases r with
      | error e => rfl
      | ok u =>
        obtain ⟨t, ht⟩ := prepare_transports index transport endpointId now clock hprep
        simp only [ht, answers_bindings]
  | pollDueAsync ep now' clock =>
    cases hc
    cases h
    obtain ⟨sent, before, -, hp⟩ := pollDueAsync_script index transport endpointId now clock w
    refine ⟨?_, hp.reported⟩
    simp only [Command.asked, Command.reads, collectedGroups, pollAnswers]
    cases hprep : prepare index transport endpointId now clock w with
    | mk r w₁ =>
      cases r with
      | error e => rfl
      | ok u =>
        obtain ⟨t, ht⟩ := prepare_transports index transport endpointId now clock hprep
        simp only [ht, answers_bindings, collectDue_due]
  | _ => cases hc

end Reports

/-! ### Runs -/

/-- The world with the history of its tags. -/
structure Watched (σ : Type) where
  world : World σ
  history : History := fun _ => (.monostate, 0)

namespace Watched
variable {σ : Type} (index : RuntimeIndex) (transport : IModbusTransport σ)

def step (c : Command σ) (s : Watched σ) : Option (Watched σ) :=
  (execute index transport c s.world).map fun w =>
    ⟨w, s.history.notes (successes index transport s.world c)⟩

/-- Nothing is stored, and there was no success. -/
def Fresh (s : Watched σ) : Prop :=
  s.world.dispatcher.tagStore = {} ∧ s.history = fun _ => (.monostate, 0)

end Watched

/-- An entry after a stale mark: as it was, or with another quality and reason. -/
def Staled (reason : QualityReason) (before after : Option TagValue) : Prop :=
  after = before ∨ ∃ value, before = some value ∧
    after = some { value with quality := .uncertain, reason := reason }

/-- What a command does to the store: a stale mark changes qualities and reasons, and
anything else follows its successes. -/
def Preserves {σ : Type} (index : RuntimeIndex) (transport : IModbusTransport σ) (w w' : World σ) :
    Command σ → Prop
  | .markStaleBefore _ reason => ∀ id,
    Staled reason (w.dispatcher.tagStore.get id) (w'.dispatcher.tagStore.get id)
  | c => Follows (successes index transport w c) w w'

theorem markStaleBefore_staled (store : TagStore) (cutoff : TimestampMs) (reason : QualityReason)
    (id : TagId) : Staled reason (store.get id) ((store.markStaleBefore cutoff reason).get id) := by
  change Staled reason (store.get id) ((store.get id).map (TagStore.markStale cutoff reason))
  cases store.get id with
  | none => exact .inl rfl
  | some value =>
    rw [Option.map_some, TagStore.markStale]
    split
    · exact .inr ⟨value, rfl, rfl⟩
    · exact .inl rfl

theorem Staled.lastGood {reason : QualityReason} {before after : Option TagValue}
    (h : Staled reason before after) : Core.lastGood after = Core.lastGood before := by
  rcases h with rfl | ⟨value, rfl, rfl⟩
  · rfl
  · rfl

section Runs
variable {σ : Type} {index : RuntimeIndex} {transport : IModbusTransport σ}

theorem execute_preserves {c : Command σ} {w w' : World σ}
    (h : execute index transport c w = some w') : Preserves index transport w w' c := by
  cases c with
  | markStaleBefore cutoff reason =>
    cases h
    exact markStaleBefore_staled w.dispatcher.tagStore cutoff reason
  | _ => exact execute_follows index transport h (fun _ _ heq => by cases heq)

/-- A command that keeps to its successes takes the history along. -/
theorem Preserves.shown {c : Command σ} {w w' : World σ} (h : Preserves index transport w w' c)
    {history : History} (hs : history.Shown w.dispatcher.tagStore) :
    (history.notes (successes index transport w c)).Shown w'.dispatcher.tagStore := by
  cases c with
  | markStaleBefore cutoff reason =>
    intro id
    rw [(h id).lastGood]
    exact hs id
  | _ => exact Updates.shown h hs

theorem shown_of_reachable {s : Watched σ} (hs : Transition.Reachable
    (Watched.step index transport) Transition.Free Watched.Fresh s) :
    s.history.Shown s.world.dispatcher.tagStore := by
  apply hs.invariant
  · rintro s ⟨hstore, hhistory⟩ id
    rw [hstore, hhistory]
    rfl
  · intro s t c _ hshown _ h
    obtain ⟨w, hw, rfl⟩ := Option.map_eq_some_iff.mp h
    exact (execute_preserves hw).shown hshown

/-- In every run, the store holds the value and source timestamp of the last success of
every tag; what a command publishes are its successes and changes of quality; and a poll
publishes one value for each tag that it reads, Good exactly if its own read and decode
succeeded. -/
theorem last_good_values {s : Watched σ} (hs : Transition.Reachable
    (Watched.step index transport) Transition.Free Watched.Fresh s) :
    s.history.Shown s.world.dispatcher.tagStore ∧
    ∀ c w', execute index transport c s.world = some w' →
      Preserves index transport s.world w' c ∧
      ∀ endpointId now, c.poll? = some (endpointId, now) →
        (c.asked index transport s.world).2.map Answer.binding =
            (c.asked index transport s.world).1.flatMap (c.reads index) ∧
          Reported now (c.asked index transport s.world).2 (w'.dispatcher.trace.drop
            (c.prepared index transport s.world).dispatcher.trace.length) ∧
          ∀ g, Resolved index g → c.reads index g = collectGroupTags index g := by
  refine ⟨shown_of_reachable hs, fun c w' h => ⟨execute_preserves h, fun endpointId now hc => ?_⟩⟩
  obtain ⟨hreads, hreported⟩ := execute_reported index transport hc h
  refine ⟨hreads, hreported, fun g hg => ?_⟩
  cases c with
  | pollDueAsync => rfl
  | _ => exact groupReads_of_resolved index hg

end Runs

end History

/-! ### A lost line -/

attribute [local instance] exactPlatform

/-- A transport that answers bit reads with its state. -/
def wired : IModbusTransport (Result (List Bool)) where
  isConnected _ := true
  connect _ _ t := (.ok (), t)
  readRegisters _ t := (.ok [], t)
  readBits _ t := (t, t)
  write _ t := (.ok (), t)

def lostLine : List (Command (Result (List Bool))) :=
  [.pollDue "north" 1000 1000, .setTransport "north" (some (.error {})), .pollDue "north" 2000 2000,
    .markEndpointBad "north" .noCommunication 3000]

/-- After a good read and two failures, the coil shows the value it was read with. -/
theorem lostLine_keeps_value : twoLines.ok = true ∧
    ∃ s, Transition.run (Watched.step (RuntimeIndex.build twoLines.project) wired) lostLine
        { world := { transports := fun _ => some (.ok [true]) } } = some s ∧
      s.history 1 = (.bool true, 1000) ∧
      (s.world.dispatcher.tagStore.get 1).map (fun v => (v.quality, v.serverTs)) =
        some (.bad, 3000) ∧
      s.history.Shown s.world.dispatcher.tagStore := by
  have hend : (Transition.run (Watched.step (RuntimeIndex.build twoLines.project) wired) lostLine
      { world := { transports := fun _ => some (.ok [true]) } }).map (fun s => (s.history 1,
        (s.world.dispatcher.tagStore.get 1).map fun v => (v.quality, v.serverTs))) =
      some ((.bool true, 1000), some (.bad, 3000)) := by decide +kernel
  obtain ⟨s, hrun, hs⟩ := Option.map_eq_some_iff.mp hend
  obtain ⟨hhistory, hentry⟩ := Prod.mk.inj hs
  have hfresh : Watched.Fresh ({ world := { transports := fun _ => some (.ok [true]) } } :
      Watched (Result (List Bool))) := ⟨rfl, rfl⟩
  have hreach := (Transition.Reachable.start hfresh).of_run lostLine hrun
  exact ⟨by decide +kernel, s, hrun, hhistory, hentry, (last_good_values hreach).1⟩

/-- A group that names its tag twice. -/
def repeatedDocument : Json := .object
  [("schemaVersion", .int 1), ("name", .string "site"),
    ("endpoints", .array [.object [("id", .string "plc"), ("host", .string "10.0.0.2"),
      ("port", .int 502), ("transport", .string "tcp")]]),
    ("devices", .array [.object [("id", .string "pump"), ("endpointId", .string "plc"),
      ("unitId", .int 1), ("tags", .array [tagDocument "open" "coil" "bool" 0 false])]]),
    ("pollGroups", .array [.object [("id", .string "main"), ("periodMs", .int 100),
      ("priority", .string "fast"), ("deviceId", .string "pump"),
      ("tagNames", .array [.string "open", .string "open"])]])]

def repeatedIndex : RuntimeIndex := .build (loadDocument repeatedDocument).project

/-- One poll of the group publishes its tag twice. -/
theorem repeated_tag_published_twice : (loadDocument repeatedDocument).ok = true ∧
    let w : World Unit := { transports := fun _ => some () }
    let w' := (pollDue repeatedIndex (answering (.ok [true])) "plc" 1000 1000 w).2
    (polledGroups repeatedIndex (answering (.ok [true])) "plc" 1000 1000 w).map PollGroup.id =
        ["main"] ∧
      ((publishes w'.dispatcher.trace).map fun
        | .publish id value _ => some (id, value.quality)
        | _ => none) = [some (1, .good), some (1, .good)] := by
  decide +kernel

end OpcServer.Core
