import OpcServer.Adapters.DataSource
import OpcServer.App.ConfirmedWrite
import OpcServer.Core.Isolation

/-! The value stored for a tag is empty or has the type of the tag, and is not empty when
it is Good. Values come from the decoder and from UA clients, whose variants are checked
before they are queued; every other publish keeps the value that it has read.

Calls that overlap are cut into atomic steps, with reading and publishing apart: the
flushes, the completions of reads, the marking of an endpoint, and the UA writes. Calls
that run alone, and polls that wait for a transport, are those of the gateway. -/

namespace OpcServer.App

open Domain Project OpcServer.Core Adapters

section TypedValues
variable [Platform]

/-! ### Values of the tag's type -/

/-- A value of the type of a tag. -/
def HoldsFor (index : RuntimeIndex) (id : TagId) (value : ScalarValue) : Prop :=
  ∃ b, index.findById id = some b ∧ holds b.tag.type value = true

/-- An entry of the store: empty or of the type of the tag, and not empty when Good. -/
def FitsTag (index : RuntimeIndex) (id : TagId) (entry : TagValue) : Prop :=
  ∃ b, index.findById id = some b ∧
    (entry.value = .monostate ∨ holds b.tag.type entry.value = true) ∧
    (entry.quality = .good → entry.value ≠ .monostate)

/-- Everything stored fits its tag, and so does every value queued. -/
structure Typed (index : RuntimeIndex) (d : Dispatcher) : Prop where
  stored : ∀ id entry, d.tagStore.get id = some entry → FitsTag index id entry
  queued : ∀ endpointId, ∀ write ∈ d.writeQueues endpointId,
    HoldsFor index write.tagId write.value

section Entries
variable {index : RuntimeIndex} {id : TagId} {entry : TagValue} {d d' : Dispatcher}

theorem FitsTag.of_holds (h : HoldsFor index id entry.value) : FitsTag index id entry := by
  obtain ⟨b, hb, hholds⟩ := h
  exact ⟨b, hb, .inr hholds, fun _ => ne_monostate_of_holds hholds⟩

/-- A quality that is not Good keeps the value that was read, if any. -/
theorem FitsTag.withQuality {previous : Option TagValue} {b : TagBinding}
    (hb : index.findById id = some b) (hprevious : ∀ p ∈ previous, FitsTag index id p)
    {quality : Quality} (hquality : quality ≠ .good) (reason : QualityReason)
    (now : TimestampMs) : FitsTag index id (Domain.withQuality previous quality reason now) := by
  rw [withQuality_eq]
  cases previous with
  | none => exact ⟨b, hb, .inl rfl, fun hgood => absurd hgood hquality⟩
  | some p =>
    obtain ⟨b', hb', hvalue, -⟩ := hprevious p rfl
    exact ⟨b', hb', hvalue, fun hgood => absurd hgood hquality⟩

/-- An update with a value of the type, or without one and not Good. -/
theorem FitsTag.qualityUpdate {previous : Option TagValue} {b : TagBinding}
    (hb : index.findById id = some b) (hprevious : ∀ p ∈ previous, FitsTag index id p)
    {quality : Quality} {value : Option ScalarValue} (hvalue : ∀ v ∈ value, HoldsFor index id v)
    (hquality : value = none → quality ≠ .good) (reason : QualityReason) (now : TimestampMs) :
    FitsTag index id (Dispatcher.qualityUpdate previous quality reason now value) := by
  cases value with
  | none => exact .withQuality hb hprevious (hquality rfl) reason now
  | some v => exact .of_holds (hvalue v rfl)

theorem Typed.publish (h : Typed index d) (hentry : FitsTag index id entry)
    (hstore : d'.tagStore = d.tagStore.publish id entry) (hqueues : d'.writeQueues = d.writeQueues) :
    Typed index d' := by
  refine ⟨fun other e he => ?_, hqueues ▸ h.queued⟩
  rw [hstore] at he
  by_cases heq : other = id
  · subst heq
    rw [TagStore.get_publish_self] at he
    cases he
    exact hentry
  · rw [TagStore.get_publish_of_ne _ _ heq] at he
    exact h.stored other e he

theorem Typed.setQueue (h : Typed index d) (endpointId : String) {queue : List PendingWrite}
    (hqueue : ∀ write ∈ queue, HoldsFor index write.tagId write.value) :
    Typed index (d.setQueue endpointId queue) := by
  refine ⟨h.stored, fun ep write hwrite => ?_⟩
  by_cases heq : ep = endpointId
  · subst heq
    simp only [Dispatcher.setQueue, Function.update_self] at hwrite
    exact hqueue write hwrite
  · simp only [Dispatcher.setQueue, Function.update_of_ne heq] at hwrite
    exact h.queued ep write hwrite

theorem Typed.markStaleBefore (h : Typed index d) (cutoff : TimestampMs) (reason : QualityReason) :
    Typed index { d with tagStore := d.tagStore.markStaleBefore cutoff reason } := by
  refine ⟨fun id entry hentry => ?_, h.queued⟩
  obtain ⟨old, hold, rfl⟩ := Option.map_eq_some_iff.mp hentry
  obtain ⟨b, hb, hvalue, hgood⟩ := h.stored id old hold
  unfold TagStore.markStale
  split
  · exact ⟨b, hb, hvalue, fun hq => by cases hq⟩
  · exact ⟨b, hb, hvalue, hgood⟩

theorem Typed.enqueueWrite (h : Typed index d) {value : ScalarValue}
    (hvalue : HoldsFor index id value) : Typed index (d.enqueueWrite index id value).2 := by
  obtain ⟨e, he⟩ | ⟨b, -, -, -, he⟩ := Dispatcher.enqueueWrite_cases index id value d
  · rw [he]
    exact h
  · have hback : Typed index (d.setQueue b.endpointId
        (d.writeQueues b.endpointId ++ [⟨id, value, d.nextSeq⟩])) := by
      refine h.setQueue b.endpointId fun write hwrite => ?_
      rcases List.mem_append.mp hwrite with hwrite | hwrite
      · exact h.queued b.endpointId write hwrite
      · obtain rfl := List.mem_singleton.mp hwrite
        exact hvalue
    rw [he]
    exact ⟨hback.stored, hback.queued⟩

/-- What the decoder returns has the type of the tag. -/
theorem holds_of_decode {tag : Tag} {registers : List UInt16} {value : ScalarValue}
    (h : Translator.decode tag registers = .ok value) : holds tag.type value = true := by
  unfold Translator.decode Translator.decodeM at h
  split at h
  · cases h
  · cases htype : tag.type with
    | bool =>
      simp only [htype] at h
      cases h
      rfl
    | uint16 | int16 =>
      simp only [htype] at h
      obtain ⟨_, -, h⟩ := Traverse.bind_eq_ok h
      obtain ⟨_, -, h⟩ := Traverse.bind_eq_ok h
      cases h
      rfl
    | uint32 | int32 =>
      simp only [htype] at h
      split at h
      · cases h
      · obtain ⟨_, -, h⟩ := Traverse.bind_eq_ok h
        obtain ⟨_, -, h⟩ := Traverse.bind_eq_ok h
        cases h
        rfl
    | float32 =>
      simp only [htype] at h
      split at h
      · cases h
      · obtain ⟨_, -, h⟩ := Traverse.bind_eq_ok h
        cases h
        rfl
    | float64 =>
      simp only [htype] at h
      cases h
      rfl

end Entries

/-! ### Calls that run alone -/

/-- An effect that puts only values of the tag's type into store and queue. -/
def Effect.Fits (index : RuntimeIndex) : Effect → Prop
  | .publish id value => FitsTag index id value
  | .quality id quality _ _ value _ => (∃ b, index.findById id = some b) ∧
      (∀ v ∈ value, HoldsFor index id v) ∧ (value = none → quality ≠ .good)
  | .requeue writes => ∀ write ∈ writes, HoldsFor index write.tagId write.value
  | _ => True

section Scripts
variable {index : RuntimeIndex}

theorem Typed.effect {d : Dispatcher} (h : Typed index d) (endpointId : String) {e : Effect}
    (he : Effect.Fits index e) : Typed index (d.effect endpointId e) := by
  cases e with
  | call | flushed | pollTimes => exact ⟨h.stored, h.queued⟩
  | publish id value => exact h.publish he rfl rfl
  | quality id quality reason now value cause =>
    obtain ⟨⟨b, hb⟩, hvalue, hquality⟩ := he
    exact h.publish (.qualityUpdate hb (h.stored id) hvalue hquality reason now) rfl rfl
  | swapOut => exact h.setQueue endpointId (by simp)
  | requeue writes =>
    refine h.setQueue endpointId fun write hwrite => ?_
    exact (List.mem_append.mp hwrite).elim (he write) (h.queued endpointId write)

theorem Typed.performs {σ : Type} {w w' : World σ} (h : Typed index w.dispatcher)
    {endpointId : String} {effects : List Effect} (hp : Performs endpointId effects w w')
    (he : ∀ e ∈ effects, Effect.Fits index e) : Typed index w'.dispatcher := by
  rw [hp.dispatcher]
  clear hp
  generalize w.dispatcher = d at h
  induction effects generalizing d with
  | nil => exact h
  | cons e rest ih =>
    rw [List.forall_mem_cons] at he
    exact ih he.2 _ (h.effect endpointId he.1)

theorem confirmEffect_fits {now : TimestampMs} {write : PendingWrite}
    (h : HoldsFor index write.tagId write.value) : Effect.Fits index (confirmEffect now write) := by
  refine ⟨h.imp fun b hb => hb.1, fun v hv => ?_, fun hnone => by cases hnone⟩
  cases hv
  exact h

theorem bad_fits {id : TagId} {b : TagBinding} (hb : index.findById id = some b)
    (reason : QualityReason) (now : TimestampMs) (cause : Option PendingWrite) :
    Effect.Fits index (.quality id .bad reason now none cause) := by
  refine ⟨⟨b, hb⟩, ?_, fun _ => by decide⟩
  intro v hv
  cases hv

theorem rejectEffect_fits {now : TimestampMs} {reason : QualityReason} {write : PendingWrite}
    (h : HoldsFor index write.tagId write.value) :
    Effect.Fits index (rejectEffect now reason write) := by
  obtain ⟨b, hb, -⟩ := h
  exact bad_fits hb reason now (some write)

theorem FlushScript_fits {now : TimestampMs} {batch sent : List PendingWrite} {r : Result Unit}
    {effects : List Effect} (h : FlushScript now batch sent r effects)
    (hbatch : ∀ write ∈ batch, HoldsFor index write.tagId write.value) :
    ∀ e ∈ effects, Effect.Fits index e := by
  induction h with
  | done => simp
  | unencodable e hb =>
    rw [List.forall_mem_cons, List.forall_mem_singleton]
    have hall := fun write hw => hbatch write (hb write hw)
    exact ⟨rejectEffect_fits (hall _ List.mem_cons_self), (List.forall_mem_cons.mp hall).2⟩
  | refused request e hb =>
    rw [List.forall_mem_cons, List.forall_mem_cons, List.forall_mem_singleton]
    have hall := fun write hw => hbatch write (hb write hw)
    exact ⟨trivial, rejectEffect_fits (hall _ List.mem_cons_self), (List.forall_mem_cons.mp hall).2⟩
  | round request hcarried _ ih =>
    rw [List.forall_mem_cons, List.forall_mem_append, List.forall_mem_map]
    exact ⟨trivial, fun write hw => confirmEffect_fits (hbatch write (hcarried write hw)), ih⟩

theorem IsFlush_fits {clock : TimestampMs} {batch sent : List PendingWrite} {effects : List Effect}
    (h : IsFlush clock batch sent effects)
    (hbatch : ∀ write ∈ batch, HoldsFor index write.tagId write.value) :
    ∀ e ∈ effects, Effect.Fits index e := by
  obtain ⟨r, loop, ending, hs, rfl, hend⟩ := h
  rw [List.forall_mem_cons, List.forall_mem_append]
  refine ⟨trivial, FlushScript_fits hs hbatch, ?_⟩
  rcases hend with ⟨r', rfl⟩ | ⟨r', rfl⟩
  · rw [List.forall_mem_singleton]
    trivial
  · rw [List.forall_mem_cons, List.forall_mem_singleton]
    exact ⟨hbatch, trivial⟩

end Scripts

section Project
variable {project : Project}

theorem lostEffects_fits (endpointId : String) (reason : QualityReason) (now : TimestampMs) :
    ∀ e ∈ lostEffects (RuntimeIndex.build project) endpointId reason now,
      Effect.Fits (RuntimeIndex.build project) e := by
  intro e he
  obtain ⟨b, hb, rfl⟩ := List.mem_map.mp he
  exact bad_fits (RuntimeIndex.findById_of_mem (List.mem_of_mem_filter hb)) reason now none

theorem PrepareScript_fits {endpointId : String} {now clock : TimestampMs}
    {batch sent : List PendingWrite} {effects : List Effect}
    (h : PrepareScript (RuntimeIndex.build project) endpointId now clock batch sent effects)
    (hbatch : ∀ write ∈ batch, HoldsFor (RuntimeIndex.build project) write.tagId write.value) :
    ∀ e ∈ effects, Effect.Fits (RuntimeIndex.build project) e := by
  cases h with
  | unbound => simp
  | lost host port => exact List.forall_mem_cons.mpr ⟨trivial, lostEffects_fits _ _ _⟩
  | flush hf => exact IsFlush_fits hf hbatch
  | connected host port hf => exact List.forall_mem_cons.mpr ⟨trivial, IsFlush_fits hf hbatch⟩

theorem answer_fits {a : Answer} (h : a.binding ∈ (RuntimeIndex.build project).tags)
    (reason : TagBinding → Error → QualityReason) (now : TimestampMs) :
    ∀ e ∈ a.effects reason now, Effect.Fits (RuntimeIndex.build project) e := by
  have hfind := RuntimeIndex.findById_of_mem h
  rw [Answer.effects, List.forall_mem_cons, List.forall_mem_singleton]
  refine ⟨trivial, ?_⟩
  split
  · exact bad_fits hfind _ now none
  · split
    · exact bad_fits hfind _ now none
    · rename_i hdecode
      exact .of_holds ⟨_, hfind, holds_of_decode hdecode⟩

theorem Typed.isPoll {σ : Type} {endpointId : String} {now : TimestampMs}
    {reason : TagBinding → Error → QualityReason} {as : List Answer} {before : List Effect}
    {w w₁ w' : World σ} (h : Typed (RuntimeIndex.build project) w.dispatcher)
    (hp : IsPoll endpointId now reason as before w w₁ w')
    (hbefore : ∀ e ∈ before, Effect.Fits (RuntimeIndex.build project) e)
    (has : ∀ a ∈ as, a.binding ∈ (RuntimeIndex.build project).tags) :
    Typed (RuntimeIndex.build project) w'.dispatcher := by
  obtain ⟨hfirst, ⟨-, rfl⟩ | ⟨times, hrest⟩⟩ := hp
  · exact h.performs hfirst hbefore
  · refine (h.performs hfirst hbefore).performs hrest ?_
    rw [readEffects, List.forall_mem_cons]
    refine ⟨trivial, fun e he => ?_⟩
    obtain ⟨a, ha, he⟩ := List.mem_flatMap.mp he
    exact answer_fits (has a ha) reason now e he

theorem collectGroupTags_mem {group : PollGroup} :
    ∀ b ∈ collectGroupTags (RuntimeIndex.build project) group,
      b ∈ (RuntimeIndex.build project).tags := by
  intro b hb
  unfold collectGroupTags at hb
  split at hb
  · obtain ⟨name, -, hname⟩ := List.mem_filterMap.mp hb
    exact List.mem_of_find?_eq_some hname
  · unfold unnamedTags at hb
    dsimp only at hb
    split at hb
    · exact List.mem_of_mem_filter hb
    · exact List.mem_of_mem_filter hb

variable {σ : Type} {transport : IModbusTransport σ}

theorem collectDue_mem (endpointId : String) (now : TimestampMs) (w : World σ) :
    ∀ b ∈ (collectDue (RuntimeIndex.build project) endpointId now
        ((RuntimeIndex.build project).groupsForEndpoint endpointId) w).1,
      b ∈ (RuntimeIndex.build project).tags := by
  intro b hb
  obtain ⟨g, -, hbg⟩ := collectDue_subset _ endpointId now _ w b hb
  exact collectGroupTags_mem b hbg

theorem pollAnswers_mem (endpointId : String) (now clock : TimestampMs) (w : World σ) :
    ∀ a ∈ pollAnswers (RuntimeIndex.build project) transport endpointId now clock w,
      a.binding ∈ (RuntimeIndex.build project).tags := by
  intro a ha
  unfold pollAnswers at ha
  split at ha
  · cases ha
  · split at ha
    · cases ha
    · rename_i w' _ _ t _
      have hb := List.mem_map_of_mem (f := Answer.binding) ha
      rw [answers_bindings] at hb
      exact collectDue_mem endpointId now w' _ hb

/-- The commands that do not queue a write. -/
theorem execute_typed (hchecked : project.Checked) {c : Command σ} {w w' : World σ}
    (hc : ∀ tagId value, c ≠ .enqueueWrite tagId value)
    (h : Typed (RuntimeIndex.build project) w.dispatcher)
    (hstep : execute (RuntimeIndex.build project) transport c w = some w') :
    Typed (RuntimeIndex.build project) w'.dispatcher := by
  cases c with
  | pollDue ep now clock =>
    cases hstep
    obtain ⟨sent, before, hs, hp⟩ :=
      pollDue_script (RuntimeIndex.build project) transport ep now clock w
    rw [syncAnswers_eq _ _ _ _ _ fun g hg => resolved_of_checked hchecked hg] at hp
    exact h.isPoll hp (PrepareScript_fits hs (h.queued ep)) (pollAnswers_mem ep now clock w)
  | pollDueAsync ep now clock =>
    cases hstep
    obtain ⟨sent, before, hs, hp⟩ :=
      pollDueAsync_script (RuntimeIndex.build project) transport ep now clock w
    exact h.isPoll hp (PrepareScript_fits hs (h.queued ep)) (pollAnswers_mem ep now clock w)
  | flushWrites ep clock =>
    cases hstep
    obtain ⟨sent, effects, hf, hp⟩ :=
      flushWrites_performs (RuntimeIndex.build project) transport ep clock w
    exact h.performs hp (IsFlush_fits hf (h.queued ep))
  | markEndpointBad ep reason now =>
    cases hstep
    exact h.performs (.mapDispatcher (script_lost _ _ _ _ _).symm) (lostEffects_fits ep reason now)
  | enqueueWrite tagId value => exact absurd rfl (hc tagId value)
  | markStaleBefore cutoff reason =>
    cases hstep
    exact h.markStaleBefore cutoff reason
  | setTransport ep t =>
    cases hstep
    exact h

/-! ### Polls that wait -/

/-- A poll that waits reads tags of the index. -/
def Progress.InTags (index : RuntimeIndex) : Progress → Prop
  | .waiting (.registers _ binding rest _) => ∀ b ∈ binding :: rest, b ∈ index.tags
  | _ => True

theorem askNext_inTags {index : RuntimeIndex} {tags : List TagBinding}
    (h : ∀ b ∈ tags, b ∈ index.tags) (now : TimestampMs) (first : Option Error) :
    Progress.InTags index (askNext now tags first) := by
  cases tags with
  | nil => trivial
  | cons b rest => exact h

theorem startReads_typed {endpointId : String} {now clock : TimestampMs} {w : World σ}
    (h : Typed (RuntimeIndex.build project) w.dispatcher) :
    Progress.InTags (RuntimeIndex.build project)
        (startReads (RuntimeIndex.build project) transport endpointId now clock w).1 ∧
      Typed (RuntimeIndex.build project)
        (startReads (RuntimeIndex.build project) transport endpointId now clock w).2.dispatcher := by
  obtain ⟨sent, effects, hf, hp⟩ :=
    flushWrites_performs (RuntimeIndex.build project) transport endpointId clock w
  have hflush := h.performs hp (IsFlush_fits hf (h.queued endpointId))
  unfold startReads
  cases hr : flushWrites (RuntimeIndex.build project) transport endpointId clock w with
  | mk r w' =>
    rw [hr] at hflush
    cases r with
    | error e => exact ⟨trivial, hflush⟩
    | ok u =>
      have htags : ∀ b ∈ (collectDue (RuntimeIndex.build project) endpointId now
          ((RuntimeIndex.build project).groupsForEndpoint endpointId) w').1,
          b ∈ (RuntimeIndex.build project).tags := collectDue_mem endpointId now w'
      dsimp only
      rw [collectDue_due] at htags ⊢
      exact ⟨askNext_inTags htags now none, hflush.stored, hflush.queued⟩

theorem startPoll_typed {endpointId : String} {now clock : TimestampMs} {w : World σ}
    (h : Typed (RuntimeIndex.build project) w.dispatcher) :
    Progress.InTags (RuntimeIndex.build project)
        (startPoll (RuntimeIndex.build project) transport endpointId now clock w).1 ∧
      Typed (RuntimeIndex.build project)
        (startPoll (RuntimeIndex.build project) transport endpointId now clock w).2.dispatcher := by
  unfold startPoll
  split
  · exact ⟨trivial, h⟩
  · split
    · exact startReads_typed h
    · split
      · exact ⟨trivial, h⟩
      · exact ⟨trivial, h⟩

theorem connectionDone_typed {endpointId : String} {now clock : TimestampMs} (r : Result Unit)
    {w : World σ} (h : Typed (RuntimeIndex.build project) w.dispatcher) :
    Progress.InTags (RuntimeIndex.build project)
        (connectionDone (RuntimeIndex.build project) transport endpointId now clock r w).1 ∧
      Typed (RuntimeIndex.build project) (connectionDone (RuntimeIndex.build project) transport
        endpointId now clock r w).2.dispatcher := by
  cases r with
  | error e =>
    exact ⟨trivial, h.performs (.mapDispatcher (script_lost _ _ _ _ _).symm)
      (lostEffects_fits endpointId .noCommunication now)⟩
  | ok u => exact startReads_typed h

theorem registersDone_typed {endpointId : String} {now : TimestampMs} {binding : TagBinding}
    {rest : List TagBinding} (hmem : ∀ b ∈ binding :: rest, b ∈ (RuntimeIndex.build project).tags)
    (first : Option Error) (regs : Result (List UInt16)) {w : World σ}
    (h : Typed (RuntimeIndex.build project) w.dispatcher) :
    Progress.InTags (RuntimeIndex.build project)
        (registersDone endpointId now binding rest first regs w).1 ∧
      Typed (RuntimeIndex.build project)
        (registersDone endpointId now binding rest first regs w).2.dispatcher := by
  unfold registersDone
  simp only [concludeRead_eq]
  refine ⟨askNext_inTags (List.forall_mem_cons.mp hmem).2 now _, ?_⟩
  have hp : Performs endpointId (Answer.effects asyncReason now ⟨binding, regs⟩) w
      (w.mapDispatcher fun d => d.absorb asyncReason endpointId now ⟨binding, regs⟩) :=
    .mapDispatcher (script_answer _ _ _ _ _).symm
  exact h.performs hp (answer_fits (hmem binding List.mem_cons_self) asyncReason now)

end Project

/-! ### The system -/

/-- The gateway with the calls that overlap: strands at work, each with its endpoint, and
UA threads whose write was queued. `statuses` is what the clients were answered. -/
structure Serving (σ : Type) where
  gateway : Gateway σ
  strands : List (String × Occupant) := []
  calls : List UaWrite := []
  statuses : List UaStatus := []

inductive ServingAction (σ : Type) where
  | gateway (action : GatewayAction σ)
  /-- `data_source_write` on the node of a tag, up to the return of the write handler. -/
  | write (binding : TagBinding) (data : Option (Option UaVariant))
  | get (call : ℕ)
  | publish (call : ℕ) (clock : TimestampMs)
  | flush (endpointId : String) (clock : TimestampMs)
  /-- Registers, or an error, for a tag that was read. -/
  | read (binding : TagBinding) (now : TimestampMs) (regs : Result (List UInt16))
  | lost (endpointId : String) (reason : QualityReason) (now : TimestampMs)
  | advance (strand : ℕ)

namespace Serving
variable {σ : Type} (index : RuntimeIndex) (transport : IModbusTransport σ)

def world (s : Serving σ) : World σ := s.gateway.world

def setWorld (w : World σ) (s : Serving σ) : Serving σ :=
  { s with gateway := { s.gateway with world := w } }

def occupy (endpointId : String) (o : Occupant) (s : Serving σ) : Serving σ :=
  { s with strands := s.strands ++ [(endpointId, o)] }

def answer (status : UaStatus) (s : Serving σ) : Serving σ :=
  { s with statuses := s.statuses ++ [status] }

/-- Writes come from UA clients only, and reads and nodes are those of bound tags. -/
def step : ServingAction σ → Serving σ → Option (Serving σ)
  | .gateway (.command (.enqueueWrite _ _)), _ => none
  | .gateway action, s =>
    (Gateway.step index transport action s.gateway).map fun g => { s with gateway := g }
  | .write binding data, s =>
    if binding ∉ index.tags then none
    else
      match checkWrite (nodeContext binding) data with
      | .error status => some (s.answer status)
      | .ok value =>
        let write : PendingWrite := ⟨binding.id, value, s.world.dispatcher.nextSeq⟩
        match s.world.dispatcher.enqueueWrite index binding.id value with
        | (.error e, _) => some (s.answer (mapErrorToStatus e))
        | (.ok (), d) => some { s.setWorld ⟨d, s.world.transports⟩ with
            calls := s.calls ++ [{ write := write }] }
  | .get call, s =>
    match s.calls[call]? with
    | some ⟨write, .queued⟩ => some { s with
        calls := s.calls.set call ⟨write, .read (s.world.dispatcher.tagStore.get write.tagId)⟩ }
    | _ => none
  | .publish call clock, s =>
    match s.calls[call]? with
    | some ⟨write, .read previous⟩ =>
      let w := s.world.mapDispatcher fun d => d.publish write.tagId
        (withQuality previous .uncertain .writePending clock) none
      some ({ s.setWorld w with calls := s.calls.set call ⟨write, .finished⟩ }.answer .good)
    | _ => none
  | .flush endpointId clock, s => some (s.occupy endpointId (.flush clock .start))
  | .read binding now regs, s =>
    if binding ∉ index.tags then none
    else some (s.occupy binding.endpointId (.reports [readReport now binding regs]))
  | .lost endpointId reason now, s =>
    some (s.occupy endpointId (.reports (lostReports index endpointId reason now)))
  | .advance strand, s =>
    match s.strands[strand]? with
    | none => none
    | some (endpointId, o) =>
      (o.step index transport endpointId s.world).map fun (o', w) =>
        { s.setWorld w with strands :=
            match o' with
            | some o' => s.strands.set strand (endpointId, o')
            | none => s.strands.eraseIdx strand }

/-- Nothing is stored, queued or under way. -/
def Fresh (s : Serving σ) : Prop :=
  (∀ id, s.world.dispatcher.tagStore.get id = none) ∧
    (∀ endpointId, s.world.dispatcher.writeQueues endpointId = []) ∧ s.gateway.polls = [] ∧
    s.strands = [] ∧ s.calls = []

end Serving

/-! ### Calls that overlap -/

section Overlap
variable {index : RuntimeIndex}

def Report.Fits (index : RuntimeIndex) : Report → Prop
  | .good id value _ => HoldsFor index id value
  | .bad id _ _ => ∃ b, index.findById id = some b

/-- The values that a strand at work has taken or read. -/
def Occupant.Fits (index : RuntimeIndex) : Occupant → Prop
  | .flush _ pc => (∀ write ∈ unpublished pc, HoldsFor index write.tagId write.value) ∧
      ∀ previous outcome todo after, pc = .put previous outcome todo after →
        ∀ p ∈ previous, FitsTag index outcome.write.tagId p
  | .reports todo => ∀ r ∈ todo, r.Fits index
  | .put previous report todo =>
    (∀ p ∈ previous, FitsTag index report.tagId p) ∧ ∀ r ∈ report :: todo, r.Fits index

theorem Report.Fits.update {r : Report} (h : r.Fits index) {previous : Option TagValue}
    (hprevious : ∀ p ∈ previous, FitsTag index r.tagId p) :
    FitsTag index r.tagId (r.update previous) := by
  cases r with
  | good id value now => exact .of_holds h
  | bad id reason now =>
    obtain ⟨b, hb⟩ := h
    exact .qualityUpdate hb hprevious (fun v hv => by cases hv) (fun _ => by decide) reason now

theorem FlushMove_typed {σ : Type} {transport : IModbusTransport σ} {endpointId : String}
    {clock : TimestampMs} {pc pc' : FlushPc} {w w' : World σ}
    (hmove : FlushMove index transport endpointId clock pc w pc' w')
    (h : Typed index w.dispatcher) (hpc : Occupant.Fits index (.flush clock pc)) :
    Occupant.Fits index (.flush clock pc') ∧ Typed index w'.dispatcher := by
  obtain ⟨hwrites, hprevious⟩ := hpc
  obtain ⟨hpass, hback⟩ := FlushMove_unpublished hmove
  have hqueued : ∀ ep, ∀ write ∈ w'.dispatcher.writeQueues ep,
      HoldsFor index write.tagId write.value := by
    intro ep write hwrite
    by_cases heq : ep = endpointId
    · subst heq
      exact (hback write hwrite).elim (hwrites write) (h.queued ep write)
    · rw [hmove.writeQueues_other heq] at hwrite
      exact h.queued ep write hwrite
  have hstored : ∀ id entry, w'.dispatcher.tagStore.get id = some entry →
      FitsTag index id entry := by
    obtain ⟨hsame, -⟩ | ⟨previous, outcome, todo, after, rfl, -, -, hstore⟩ := hmove.store_cases
    · rw [hsame]
      exact h.stored
    · have hholds := hwrites outcome.write List.mem_cons_self
      obtain ⟨b, hb⟩ := hholds.imp fun b hb => hb.1
      have hentry : FitsTag index outcome.write.tagId (outcome.update clock previous) := by
        have hread := hprevious previous outcome todo after rfl
        cases outcome with
        | good write => exact .of_holds hholds
        | bad reason write =>
          exact .qualityUpdate hb hread (fun v hv => by cases hv) (fun _ => by decide) reason clock
      have hpublished : Typed index (w.dispatcher.publish outcome.write.tagId
        (outcome.update clock previous) none) := h.publish hentry rfl rfl
      rw [hstore]
      exact hpublished.stored
  refine ⟨⟨fun write hwrite => ?_, fun previous outcome todo after heq p hp => ?_⟩, hstored, hqueued⟩
  · exact (hpass write hwrite).elim (hwrites write) fun hq => h.queued endpointId write hq.2
  · rw [hmove.reads heq] at hp
    exact hstored _ p hp

theorem Occupant.step_typed {σ : Type} {transport : IModbusTransport σ} {endpointId : String}
    {o : Occupant} {o' : Option Occupant} {w w' : World σ}
    (hstep : o.step index transport endpointId w = some (o', w'))
    (h : Typed index w.dispatcher) (ho : o.Fits index) :
    (∀ p ∈ o', p.Fits index) ∧ Typed index w'.dispatcher := by
  cases o with
  | flush clock pc =>
    cases hfinished : pc.isFinished with
    | true =>
      cases pc with
      | finished r =>
        cases hstep
        exact ⟨by simp, h⟩
      | _ => cases hfinished
    | false =>
      rw [Occupant.step_flush clock hfinished] at hstep
      obtain ⟨⟨pc', w''⟩, hpc, heq⟩ := Option.map_eq_some_iff.mp hstep
      cases heq
      obtain ⟨hfits, htyped⟩ := FlushMove_typed (FlushPc.move_of_step hpc) h ho
      refine ⟨fun p hp => ?_, htyped⟩
      cases hp
      exact hfits
  | reports todo =>
    cases todo with
    | nil =>
      cases hstep
      exact ⟨by simp, h⟩
    | cons r rest =>
      obtain ⟨hr, hrest⟩ := List.forall_mem_cons.mp ho
      cases r with
      | good id value now =>
        cases hstep
        have hentry : FitsTag index id ((Report.good id value now).update none) := .of_holds hr
        refine ⟨fun p hp => ?_, h.publish hentry rfl rfl⟩
        cases hp
        exact hrest
      | bad id reason now =>
        cases hstep
        refine ⟨fun p hp => ?_, h⟩
        cases hp
        exact ⟨h.stored id, ho⟩
  | put previous report todo =>
    cases hstep
    obtain ⟨hprevious, hall⟩ := ho
    obtain ⟨hreport, htodo⟩ := List.forall_mem_cons.mp hall
    refine ⟨fun p hp => ?_, h.publish (hreport.update hprevious) rfl rfl⟩
    cases hp
    exact htodo

end Overlap

namespace Serving
variable {σ : Type} {project : Project} {transport : IModbusTransport σ} {s s' : Serving σ}

/-- The values in the store, in the queues and in the hands of the calls under way. -/
structure Typed (index : RuntimeIndex) (s : Serving σ) : Prop where
  dispatcher : App.Typed index s.world.dispatcher
  polls : ∀ p ∈ s.gateway.polls, Progress.InTags index (.waiting p.2)
  strands : ∀ p ∈ s.strands, p.2.Fits index
  calls : ∀ c ∈ s.calls, HoldsFor index c.write.tagId c.write.value ∧
    ∀ previous, c.stage = .read previous → ∀ p ∈ previous, FitsTag index c.write.tagId p

theorem Typed.of_fresh {index : RuntimeIndex} (h : s.Fresh) : s.Typed index := by
  obtain ⟨hstore, hqueues, hpolls, hstrands, hcalls⟩ := h
  refine ⟨⟨?_, ?_⟩, ?_, ?_, ?_⟩
  · simp [hstore]
  · simp [hqueues]
  · simp [hpolls]
  · simp [hstrands]
  · simp [hcalls]

/-- A poll goes on, and perhaps waits again. -/
theorem Typed.put {index : RuntimeIndex} (h : s.Typed index) {polls : List (String × Awaiting)}
    (hpolls : ∀ p ∈ polls, p ∈ s.gateway.polls) (endpointId : String) {r : Progress × World σ}
    (hr : Progress.InTags index r.1 ∧ App.Typed index r.2.dispatcher) :
    Typed index { s with gateway := Gateway.put polls endpointId r } := by
  obtain ⟨progress, w⟩ := r
  cases progress with
  | done result => exact ⟨hr.2, fun p hp => h.polls p (hpolls p hp), h.strands, h.calls⟩
  | waiting a =>
    refine ⟨hr.2, fun p hp => ?_, h.strands, h.calls⟩
    rcases List.mem_append.mp hp with hp | hp
    · exact h.polls p (hpolls p hp)
    · obtain rfl := List.mem_singleton.mp hp
      exact hr.1

theorem Typed.gateway (hchecked : project.Checked) (h : s.Typed (RuntimeIndex.build project))
    {action : GatewayAction σ}
    (haction : ∀ tagId value, action ≠ .command (.enqueueWrite tagId value))
    {g : Gateway σ}
    (hstep : Gateway.step (RuntimeIndex.build project) transport action s.gateway = some g) :
    Typed (RuntimeIndex.build project) { s with gateway := g } := by
  cases action with
  | command c =>
    obtain ⟨w, hw, rfl⟩ := Option.map_eq_some_iff.mp hstep
    have htyped := execute_typed hchecked (fun tagId value heq =>
      haction tagId value (congrArg GatewayAction.command heq)) h.dispatcher hw
    exact ⟨htyped, h.polls, h.strands, h.calls⟩
  | startPoll endpointId now clock =>
    cases hstep
    exact h.put (fun p hp => hp) endpointId (startPoll_typed h.dispatcher)
  | connectionDone poll r =>
    simp only [Gateway.step] at hstep
    split at hstep
    · cases hstep
      exact h.put (fun p hp => List.mem_of_mem_eraseIdx hp) _ (connectionDone_typed r h.dispatcher)
    · cases hstep
  | registersDone poll regs =>
    simp only [Gateway.step] at hstep
    split at hstep
    · rename_i endpointId now binding rest first hpoll
      cases hstep
      have htags := h.polls _ (List.mem_of_getElem? hpoll)
      exact h.put (fun p hp => List.mem_of_mem_eraseIdx hp) _
        (registersDone_typed htags first regs h.dispatcher)
    · cases hstep

theorem Typed.occupy {index : RuntimeIndex} (h : s.Typed index) (endpointId : String)
    {o : Occupant} (ho : o.Fits index) : (s.occupy endpointId o).Typed index := by
  refine ⟨h.dispatcher, h.polls, fun p hp => ?_, h.calls⟩
  rcases List.mem_append.mp hp with hp | hp
  · exact h.strands p hp
  · obtain rfl := List.mem_singleton.mp hp
    exact ho

theorem Typed.write (h : s.Typed (RuntimeIndex.build project)) {binding : TagBinding}
    {data : Option (Option UaVariant)}
    (hstep : Serving.step (RuntimeIndex.build project) transport (.write binding data) s = some s') :
    s'.Typed (RuntimeIndex.build project) := by
  simp only [Serving.step] at hstep
  split at hstep
  · cases hstep
  · rename_i hmem
    split at hstep
    · cases hstep
      exact ⟨h.dispatcher, h.polls, h.strands, h.calls⟩
    · rename_i value hcheck
      have hfind := RuntimeIndex.findById_of_mem (not_not.mp hmem)
      have hvalue : HoldsFor (RuntimeIndex.build project) binding.id value :=
        ⟨binding, hfind, holds_of_checkWrite hcheck⟩
      have hqueue := h.dispatcher.enqueueWrite hvalue
      split at hstep
      · cases hstep
        exact ⟨h.dispatcher, h.polls, h.strands, h.calls⟩
      · rename_i d hd
        rw [hd] at hqueue
        cases hstep
        refine ⟨hqueue, h.polls, h.strands, fun c hc => ?_⟩
        rcases List.mem_append.mp hc with hc | hc
        · exact h.calls c hc
        · obtain rfl := List.mem_singleton.mp hc
          exact ⟨hvalue, fun previous hstage => by cases hstage⟩

theorem Typed.setCall {index : RuntimeIndex} (h : s.Typed index) {call : ℕ} {c : UaWrite}
    (hcall : s.calls[call]? = some c) {stage : Stage}
    (hstage : ∀ previous, stage = .read previous →
      ∀ p ∈ previous, FitsTag index c.write.tagId p) :
    Typed index { s with calls := s.calls.set call ⟨c.write, stage⟩ } := by
  refine ⟨h.dispatcher, h.polls, h.strands, fun c' hc' => ?_⟩
  rcases List.mem_or_eq_of_mem_set hc' with hc' | rfl
  · exact h.calls c' hc'
  · exact ⟨(h.calls c (List.mem_of_getElem? hcall)).1, hstage⟩

theorem Typed.advance {index : RuntimeIndex} (h : s.Typed index) {strand : ℕ}
    (hstep : Serving.step index transport (.advance strand) s = some s') : s'.Typed index := by
  simp only [Serving.step] at hstep
  split at hstep
  · cases hstep
  · rename_i endpointId o hstrand
    obtain ⟨⟨o', w⟩, hw, rfl⟩ := Option.map_eq_some_iff.mp hstep
    obtain ⟨ho', htyped⟩ := Occupant.step_typed hw h.dispatcher
      (h.strands _ (List.mem_of_getElem? hstrand))
    refine ⟨htyped, h.polls, fun p hp => ?_, h.calls⟩
    cases o' with
    | none => exact h.strands p (List.mem_of_mem_eraseIdx hp)
    | some o' =>
      rcases List.mem_or_eq_of_mem_set hp with hp | rfl
      · exact h.strands p hp
      · exact ho' o' rfl

theorem step_typed (hchecked : project.Checked) {action : ServingAction σ}
    (h : s.Typed (RuntimeIndex.build project))
    (hstep : Serving.step (RuntimeIndex.build project) transport action s = some s') :
    s'.Typed (RuntimeIndex.build project) := by
  cases action with
  | gateway action =>
    by_cases hqueues : ∃ tagId value, action = .command (.enqueueWrite tagId value)
    · obtain ⟨_, _, rfl⟩ := hqueues
      cases hstep
    · have hother : ∀ tagId value, action ≠ .command (.enqueueWrite tagId value) :=
        fun tagId value heq => hqueues ⟨tagId, value, heq⟩
      rw [Serving.step] at hstep
      · obtain ⟨g, hg, rfl⟩ := Option.map_eq_some_iff.mp hstep
        exact h.gateway hchecked hother hg
      · exact hother
  | write binding data => exact h.write hstep
  | get call =>
    simp only [Serving.step] at hstep
    split at hstep
    · rename_i write hcall
      cases hstep
      refine h.setCall hcall fun previous hprevious => ?_
      cases hprevious
      exact h.dispatcher.stored write.tagId
    · cases hstep
  | publish call clock =>
    simp only [Serving.step] at hstep
    split at hstep
    · rename_i write previous hcall
      cases hstep
      obtain ⟨⟨b, hb, -⟩, hread⟩ := h.calls _ (List.mem_of_getElem? hcall)
      have hentry : FitsTag (RuntimeIndex.build project) write.tagId
          (withQuality previous .uncertain .writePending clock) :=
        .withQuality hb (hread previous rfl) (by decide) .writePending clock
      have hcalls : Typed (RuntimeIndex.build project)
          { s with calls := s.calls.set call ⟨write, .finished⟩ } :=
        h.setCall hcall fun previous hprevious => by cases hprevious
      exact ⟨h.dispatcher.publish hentry rfl rfl, h.polls, h.strands, hcalls.calls⟩
    · cases hstep
  | flush endpointId clock =>
    cases hstep
    exact h.occupy endpointId ⟨fun write hwrite => absurd hwrite List.not_mem_nil,
      fun _ _ _ _ heq => by cases heq⟩
  | read binding now regs =>
    simp only [Serving.step] at hstep
    split at hstep
    · cases hstep
    · rename_i hmem
      cases hstep
      have hfind := RuntimeIndex.findById_of_mem (not_not.mp hmem)
      refine h.occupy _ (List.forall_mem_singleton.mpr ?_)
      unfold readReport
      split
      · exact ⟨binding, hfind⟩
      · split
        · exact ⟨binding, hfind⟩
        · rename_i hdecode
          exact ⟨binding, hfind, holds_of_decode hdecode⟩
  | lost endpointId reason now =>
    cases hstep
    refine h.occupy endpointId fun r hr => ?_
    obtain ⟨b, hb, rfl⟩ := List.mem_map.mp hr
    exact ⟨b, RuntimeIndex.findById_of_mem (List.mem_of_mem_filter hb)⟩
  | advance strand => exact h.advance hstep

end Serving

/-! ### Reads of the nodes -/

/-- A node whose entry fits the tag answers Good with a value only. -/
theorem dataSourceRead_of_fits {index : RuntimeIndex} {store : TagStore} {b : TagBinding}
    (hb : index.findById b.id = some b)
    (h : ∀ entry, store.get b.id = some entry → FitsTag index b.id entry)
    {includeSourceTimestamp : Bool}
    (hgood : (dataSourceRead (nodeContext b) includeSourceTimestamp store).status = .good) :
    (dataSourceRead (nodeContext b) includeSourceTimestamp store).value.isSome = true := by
  cases hentry : store.get b.id with
  | none => simp [dataSourceRead, nodeContext, hentry] at hgood
  | some entry =>
    obtain ⟨b', hb', hvalue, hne⟩ := h entry hentry
    obtain rfl := Option.some.inj (hb.symm.trans hb')
    simp only [dataSourceRead, nodeContext, hentry] at hgood ⊢
    have hfull := hne (qualityToStatus_eq_good.mp hgood)
    rw [if_pos hfull, fillVariant_isSome]
    exact hvalue.resolve_left hfull

/-- In every run of an accepted project, every entry of the store is empty or has the
type of its tag and is not empty when it is Good; so `fill_variant` succeeds on every
entry that is not empty, and no node answers Good without a value. -/
theorem stored_values_typed {lib : JsonLibrary} (hlib : lib.ReportsViolations)
    {text sourceName : String} (hok : (loadJsonText lib text sourceName).ok = true) {σ : Type}
    (transport : IModbusTransport σ) {s : Serving σ} :
    let index := RuntimeIndex.build (loadJsonText lib text sourceName).project
    Transition.Reachable (Serving.step index transport) Transition.Free Serving.Fresh s →
      (∀ id entry, s.world.dispatcher.tagStore.get id = some entry → ∃ b ∈ index.tags, b.id = id ∧
        (entry.value = .monostate ∨ holds b.tag.type entry.value = true) ∧
        (entry.quality = .good → entry.value ≠ .monostate) ∧
        (entry.value ≠ .monostate → (fillVariant b.tag.type entry.value).isSome = true)) ∧
      ∀ b ∈ index.tags, ∀ includeSourceTimestamp,
        (dataSourceRead (nodeContext b) includeSourceTimestamp s.world.dispatcher.tagStore).status =
            .good →
          (dataSourceRead (nodeContext b) includeSourceTimestamp
            s.world.dispatcher.tagStore).value.isSome = true := by
  intro index hs
  have hchecked := loadJsonText_checked hlib hok
  have htyped : s.Typed index := by
    apply hs.invariant
    · exact fun s hs => .of_fresh hs
    · exact fun s t action _ h _ hstep => Serving.step_typed hchecked h hstep
  refine ⟨fun id entry hentry => ?_, fun b hb includeSourceTimestamp => ?_⟩
  · obtain ⟨b, hb, hvalue, hgood⟩ := htyped.dispatcher.stored id entry hentry
    have hid := List.find?_some hb
    refine ⟨b, List.mem_of_find?_eq_some hb, beq_iff_eq.mp hid, hvalue, hgood, fun hne => ?_⟩
    rw [fillVariant_isSome]
    exact hvalue.resolve_left hne
  · exact dataSourceRead_of_fits (RuntimeIndex.findById_of_mem hb) (htyped.dispatcher.stored b.id)

end TypedValues

/-! ### A write during a poll -/

attribute [local instance] exactPlatform

/-- The coil of the north line. -/
def northCoil : TagBinding :=
  ((RuntimeIndex.build twoLines.project).findById 1).getD {}

/-- A client closes the valve while the line is polled; its pending write is published
over the flushed value. -/
def closingValve : List (ServingAction Unit) :=
  [.gateway (.command (.pollDue "north" 1000 1000)), .write northCoil (some (some (.boolean false))),
    .get 0, .flush "north" 1001, .advance 0, .advance 0, .advance 0, .advance 0, .advance 0,
    .advance 0, .publish 0 1002, .advance 0, .read northCoil 1003 (.ok [0]), .advance 0, .advance 0]

/-- What the last read stores. -/
def closedValve : TagValue :=
  { value := .bool false, quality := .good, reason := .none, sourceTs := 1003, serverTs := 1003 }

theorem closingValve_typed : twoLines.ok = true ∧
    ∃ s, Transition.run (Serving.step (RuntimeIndex.build twoLines.project)
        (answering (.ok [true]))) closingValve
        { gateway := { world := { transports := fun _ => some () } } } = some s ∧
      s.statuses = [.good] ∧
      s.world.dispatcher.tagStore.get 1 = some closedValve ∧
      (dataSourceRead (nodeContext northCoil) true s.world.dispatcher.tagStore).status = .good ∧
      (dataSourceRead (nodeContext northCoil) true s.world.dispatcher.tagStore).value.isSome =
        true := by
  have hok : twoLines.ok = true := by decide +kernel
  have hend : (Transition.run (Serving.step (RuntimeIndex.build twoLines.project)
      (answering (.ok [true]))) closingValve
      { gateway := { world := { transports := fun _ => some () } } }).map (fun s => (s.statuses,
        s.world.dispatcher.tagStore.get 1,
        (dataSourceRead (nodeContext northCoil) true s.world.dispatcher.tagStore).status)) =
      some ([.good], some closedValve, .good) := by decide +kernel
  obtain ⟨s, hrun, hs⟩ := Option.map_eq_some_iff.mp hend
  obtain ⟨hstatuses, hs⟩ := Prod.mk.inj hs
  obtain ⟨hentry, hgood⟩ := Prod.mk.inj hs
  have hfresh : Serving.Fresh ({ gateway := { world := { transports := fun _ => some () } } } :
      Serving Unit) := ⟨fun _ => rfl, fun _ => rfl, rfl, rfl, rfl⟩
  have hreach := (Transition.Reachable.start hfresh).of_run closingValve hrun
  have hmem : northCoil ∈ (RuntimeIndex.build twoLines.project).tags := by decide +kernel
  obtain ⟨-, hread⟩ := stored_values_typed (JsonLibrary.reading_reports _) hok _ hreach
  exact ⟨hok, s, hrun, hstatuses, hentry, hgood, hread northCoil hmem true hgood⟩

end OpcServer.App
