import OpcServer.Core.Operations

/-! What the operations on one endpoint do to the dispatcher, as scripts of primitive
effects. The control flow of an operation depends on its transport and on the index,
never on the store, so each operation is a script applied to the dispatcher; what it
may touch, and what it leaves in the store, is read off the script. -/

namespace OpcServer.Core

open Domain Project

variable [Platform]

inductive Effect where
  | call (request : Request) (ok : Bool) (carried : List PendingWrite)
  | publish (id : TagId) (value : TagValue)
  | quality (id : TagId) (quality : Quality) (reason : QualityReason) (now : TimestampMs)
      (value : Option ScalarValue) (cause : Option PendingWrite)
  | swapOut
  | requeue (writes : List PendingWrite)
  | flushed (result : Result Unit)
  | pollTimes (times : String → Option TimestampMs)

/-- One effect of an operation on an endpoint. -/
def Dispatcher.effect (endpointId : String) (d : Dispatcher) : Effect → Dispatcher
  | .call request ok carried => d.record (.call endpointId request ok carried)
  | .publish id value => d.publish id value none
  | .quality id quality reason now value cause =>
    d.publishQuality id quality reason now value cause
  | .swapOut => d.setQueue endpointId []
  | .requeue writes => d.requeue endpointId writes
  | .flushed result => d.record (.flushed endpointId result)
  | .pollTimes times => d.setPollTimes times

/-- A script of effects on an endpoint. -/
def Dispatcher.script (endpointId : String) (effects : List Effect) (d : Dispatcher) : Dispatcher :=
  effects.foldl (Dispatcher.effect endpointId) d

theorem script_append (endpointId : String) (first second : List Effect) (d : Dispatcher) :
    d.script endpointId (first ++ second) =
      (d.script endpointId first).script endpointId second := List.foldl_append

/-- A script leads from one world to another, and only the transport of its endpoint
may have moved. -/
structure Performs {σ : Type} (endpointId : String) (effects : List Effect) (w w' : World σ) :
    Prop where
  dispatcher : w'.dispatcher = w.dispatcher.script endpointId effects
  transports : ∀ ep, ep ≠ endpointId → w'.transports ep = w.transports ep

namespace Performs

variable {σ : Type} {ep : String} {effects effects' : List Effect} {w w' w'' : World σ}

theorem refl (w : World σ) : Performs ep [] w w := ⟨rfl, fun _ _ => rfl⟩

theorem trans (h : Performs ep effects w w') (h' : Performs ep effects' w' w'') :
    Performs ep (effects ++ effects') w w'' where
  dispatcher := by rw [script_append, ← h.dispatcher, h'.dispatcher]
  transports other hne := (h'.transports other hne).trans (h.transports other hne)

theorem mapDispatcher {f : Dispatcher → Dispatcher}
    (h : f w.dispatcher = w.dispatcher.script ep effects) :
    Performs ep effects w (w.mapDispatcher f) := ⟨h, fun _ _ => rfl⟩

end Performs

/-! ### A flush -/

def confirmEffect (now : TimestampMs) (write : PendingWrite) : Effect :=
  .quality write.tagId .good .none now (some write.value) (some write)

def rejectEffect (now : TimestampMs) (reason : QualityReason) (write : PendingWrite) : Effect :=
  .quality write.tagId .bad reason now none (some write)

/-- The scripts of the loop: rounds that deliver some writes, then the end of the batch
or a failed write, with the writes behind it put back. -/
inductive FlushScript (now : TimestampMs) : List PendingWrite → List PendingWrite → Result Unit →
    List Effect → Prop
  | done (batch : List PendingWrite) : FlushScript now batch [] (.ok ()) []
  | unencodable {batch back : List PendingWrite} {bad : PendingWrite} (e : Error) :
      (∀ write ∈ bad :: back, write ∈ batch) →
      FlushScript now batch [] (.error e)
        [rejectEffect now .decodingError bad, .requeue back]
  | refused {batch back carried : List PendingWrite} {bad : PendingWrite} (request : WriteRequest)
      (e : Error) : (∀ write ∈ bad :: back, write ∈ batch) →
      FlushScript now batch [] (.error e)
        [.call (.write request) false carried, rejectEffect now .writeRejected bad, .requeue back]
  | round {batch carried sent : List PendingWrite} {r : Result Unit} {effects : List Effect}
      (request : WriteRequest) : (∀ write ∈ carried, write ∈ batch) →
      FlushScript now batch sent r effects →
      FlushScript now batch (carried ++ sent) r
        (.call (.write request) true carried :: (carried.map (confirmEffect now) ++ effects))

theorem FlushScript.mono {now : TimestampMs} {batch batch' sent : List PendingWrite}
    {r : Result Unit} {effects : List Effect} (h : FlushScript now batch sent r effects)
    (hsub : ∀ write ∈ batch, write ∈ batch') : FlushScript now batch' sent r effects := by
  induction h with
  | done => exact .done _
  | unencodable e hb => exact .unencodable e fun w hw => hsub w (hb w hw)
  | refused request e hb => exact .refused request e fun w hw => hsub w (hb w hw)
  | round request hc _ ih => exact .round request (fun w hw => hsub w (hc w hw)) ih

theorem script_confirms (endpointId : String) (now : TimestampMs) (writes : List PendingWrite)
    (d : Dispatcher) : d.script endpointId (writes.map (confirmEffect now)) =
      writes.foldl (Dispatcher.confirm now) d := by
  induction writes generalizing d with
  | nil => rfl
  | cons write rest ih => exact ih (d.confirm now write)

section Flush
variable {σ : Type} (index : RuntimeIndex) (transport : IModbusTransport σ) (endpointId : String)
  (now : TimestampMs)

theorem flushLoop_script (batch : List PendingWrite) (s : Session σ) :
    ∃ sent effects,
      FlushScript now batch sent (flushLoop index transport endpointId now 0 batch s).1 effects ∧
      (flushLoop index transport endpointId now 0 batch s).2.dispatcher =
        s.dispatcher.script endpointId effects := by
  induction batch using batch_induction index generalizing s with
  | nil =>
    rw [flushLoop_nil]
    exact ⟨[], [], .done [], rfl⟩
  | skip write batch hp ih =>
    rw [flushLoop_cons, hp]
    obtain ⟨sent, effects, hs, hd⟩ := ih s
    exact ⟨sent, effects, hs.mono fun w hw => List.mem_cons_of_mem _ hw, hd⟩
  | unencodable write batch lost bad e rest hp =>
    rw [flushLoop_cons, hp]
    refine ⟨[], [rejectEffect now .decodingError bad, .requeue rest], .unencodable e ?_, rfl⟩
    rw [plan_eq_unencodable hp]
    exact fun w hw => List.mem_append_right _ hw
  | send write tail rest request hp ih =>
    rw [flushLoop_cons, hp]
    dsimp only
    cases hc : callWrite transport endpointId request (write :: tail) s with
    | mk r s' =>
      obtain ⟨-, hd⟩ := callWrite_eq transport endpointId hc
      cases r with
      | error e =>
        refine ⟨[], [.call (.write request) false (write :: tail),
          rejectEffect now .writeRejected write, .requeue (tail ++ rest)],
          .refused request e fun w hw => hw, ?_⟩
        dsimp only
        rw [hd]
        rfl
      | ok u =>
        obtain ⟨sent, effects, hs, hdisp⟩ := ih ⟨s'.transport,
          (write :: tail).foldl (Dispatcher.confirm now) s'.dispatcher⟩
        refine ⟨(write :: tail) ++ sent, _, .round request ?_
          (hs.mono fun w hw => by simp [hw]), ?_⟩
        · intro w hw
          rw [← List.cons_append]
          exact List.mem_append_left _ hw
        · dsimp only
          rw [hdisp, ← script_confirms endpointId now, hd, ← script_append]
          rfl

/-- A flush is a script on its endpoint, whatever happens. -/
theorem flushWrites_script (w : World σ) :
    ∃ sent r effects ending,
      FlushScript now (w.dispatcher.writeQueues endpointId) sent r effects ∧
      Performs endpointId (.swapOut :: (effects ++ ending)) w
        (flushWrites index transport endpointId now w).2 ∧
      (ending = [.flushed (flushWrites index transport endpointId now w).1] ∨
        ending = [.requeue (w.dispatcher.writeQueues endpointId),
          .flushed (flushWrites index transport endpointId now w).1]) := by
  obtain ⟨hq, heq⟩ | ⟨-, e, heq⟩ | ⟨t, r, s, -, hloop, heq⟩ :=
    flushWrites_cases index transport endpointId now w
  · refine ⟨[], .ok (), [], _, .done _, ?_, .inl rfl⟩
    rw [heq]
    refine ⟨?_, fun _ _ => rfl⟩
    simp [Dispatcher.script, Dispatcher.effect, Dispatcher.setQueue, Dispatcher.record, ← hq]
  · refine ⟨[], .ok (), [], _, .done _, ?_, .inr rfl⟩
    rw [heq]
    refine ⟨?_, fun _ _ => rfl⟩
    simp [Dispatcher.script, Dispatcher.effect, Dispatcher.setQueue, Dispatcher.record,
      Dispatcher.requeue]
  · obtain ⟨sent, effects, hs, hd⟩ := flushLoop_script index transport endpointId now
      (w.dispatcher.writeQueues endpointId) ⟨t, w.dispatcher.setQueue endpointId []⟩
    rw [hloop] at hs hd
    refine ⟨sent, r, effects, [.flushed r], hs, ?_, .inl (by rw [heq])⟩
    rw [heq]
    refine ⟨?_, fun ep hne => Function.update_of_ne hne _ _⟩
    change s.dispatcher.record (.flushed endpointId r) = _
    rw [hd, ← List.cons_append, script_append]
    rfl

end Flush

/-! ### Polls -/

/-- The effects of one answer: its call, and what is published for it. -/
def Answer.effects (reason : TagBinding → Error → QualityReason) (now : TimestampMs) (a : Answer) :
    List Effect :=
  [.call (readRequest a.binding) a.regs.isOk [],
    match a.regs with
    | .error e => .quality a.binding.id .bad (reason a.binding e) now none none
    | .ok regs =>
      match Translator.decode a.binding.tag regs with
      | .error _ => .quality a.binding.id .bad .decodingError now none none
      | .ok value => .publish a.binding.id
          { value := value, quality := .good, reason := .none, serverTs := now, sourceTs := now }]

theorem script_answer (reason : TagBinding → Error → QualityReason) (endpointId : String)
    (now : TimestampMs) (a : Answer) (d : Dispatcher) :
    d.script endpointId (a.effects reason now) = d.absorb reason endpointId now a := by
  obtain ⟨b, regs⟩ := a
  cases regs with
  | error e => rfl
  | ok regs =>
    simp only [Answer.effects, Dispatcher.absorb, Answer.published]
    cases Translator.decode b.tag regs <;> rfl

theorem script_answers (reason : TagBinding → Error → QualityReason) (endpointId : String)
    (now : TimestampMs) (as : List Answer) (d : Dispatcher) :
    d.script endpointId (as.flatMap (Answer.effects reason now)) =
      as.foldl (Dispatcher.absorb reason endpointId now) d := by
  induction as generalizing d with
  | nil => rfl
  | cons a rest ih => rw [List.flatMap_cons, script_append, script_answer, ih, List.foldl_cons]

/-- The effects of `mark_endpoint_bad`. -/
def lostEffects (index : RuntimeIndex) (endpointId : String) (reason : QualityReason)
    (now : TimestampMs) : List Effect :=
  (index.tags.filter fun b => b.endpointId == endpointId).map fun b =>
    .quality b.id .bad reason now none none

theorem script_lost (index : RuntimeIndex) (endpointId : String) (reason : QualityReason)
    (now : TimestampMs) (d : Dispatcher) :
    d.script endpointId (lostEffects index endpointId reason now) =
      d.markEndpointBad index endpointId reason now := by
  rw [lostEffects, Dispatcher.script, List.foldl_map]
  rfl

section Polls
variable {σ : Type} (index : RuntimeIndex) (transport : IModbusTransport σ) (endpointId : String)
  (now clock : TimestampMs)

/-- The scripts of a flush, with the writes it delivers. -/
def IsFlush (batch sent : List PendingWrite) (effects : List Effect) : Prop :=
  ∃ r loop ending, FlushScript clock batch sent r loop ∧ effects = .swapOut :: (loop ++ ending) ∧
    ((∃ r', ending = [.flushed r']) ∨ ∃ r', ending = [.requeue batch, .flushed r'])

theorem flushWrites_performs (w : World σ) :
    ∃ sent effects, IsFlush clock (w.dispatcher.writeQueues endpointId) sent effects ∧
      Performs endpointId effects w (flushWrites index transport endpointId clock w).2 := by
  obtain ⟨sent, r, loop, ending, hs, hp, hend⟩ :=
    flushWrites_script index transport endpointId clock w
  exact ⟨sent, _, ⟨r, loop, ending, hs, rfl, hend.imp (fun h => ⟨_, h⟩) fun h => ⟨_, h⟩⟩, hp⟩

/-- The scripts of a poll before its first read: nothing, a failed connect, or a flush,
perhaps after a connect. -/
inductive PrepareScript (batch : List PendingWrite) : List PendingWrite → List Effect → Prop
  | unbound : PrepareScript batch [] []
  | lost (host : String) (port : UInt16) : PrepareScript batch []
      (.call (.connect host port) false [] :: lostEffects index endpointId .noCommunication now)
  | flush {sent : List PendingWrite} {effects : List Effect} :
      IsFlush clock batch sent effects → PrepareScript batch sent effects
  | connected (host : String) (port : UInt16) {sent : List PendingWrite} {effects : List Effect} :
      IsFlush clock batch sent effects →
      PrepareScript batch sent (.call (.connect host port) true [] :: effects)

end Polls

/-- A property of all the effects that a flush of the batch can have. -/
structure HoldsOfFlush (batch : List PendingWrite) (P : Effect → Prop) : Prop where
  call : ∀ request ok carried, P (.call request ok carried)
  quality : ∀ write ∈ batch, ∀ quality reason now value,
    P (.quality write.tagId quality reason now value (some write))
  swapOut : P .swapOut
  requeue : ∀ back : List PendingWrite, (∀ write ∈ back, write ∈ batch) → P (.requeue back)
  flushed : ∀ result, P (.flushed result)

theorem FlushScript.forall_effects {now : TimestampMs} {batch sent : List PendingWrite}
    {r : Result Unit} {effects : List Effect} (h : FlushScript now batch sent r effects)
    {P : Effect → Prop} (hP : HoldsOfFlush batch P) : ∀ e ∈ effects, P e := by
  induction h with
  | done => simp
  | unencodable e hb =>
    rw [List.forall_mem_cons, List.forall_mem_singleton]
    exact ⟨hP.quality _ (hb _ List.mem_cons_self) .., hP.requeue _ (List.forall_mem_cons.mp hb).2⟩
  | refused request e hb =>
    rw [List.forall_mem_cons, List.forall_mem_cons, List.forall_mem_singleton]
    exact ⟨hP.call .., hP.quality _ (hb _ List.mem_cons_self) ..,
      hP.requeue _ (List.forall_mem_cons.mp hb).2⟩
  | round request hcarried _ ih =>
    rw [List.forall_mem_cons, List.forall_mem_append, List.forall_mem_map]
    exact ⟨hP.call .., fun write hw => hP.quality write (hcarried write hw) .., ih⟩

theorem IsFlush.forall_effects {clock : TimestampMs} {batch sent : List PendingWrite}
    {effects : List Effect} (h : IsFlush clock batch sent effects) {P : Effect → Prop}
    (hP : HoldsOfFlush batch P) : ∀ e ∈ effects, P e := by
  obtain ⟨r, loop, ending, hs, rfl, hend⟩ := h
  rw [List.forall_mem_cons, List.forall_mem_append]
  refine ⟨hP.swapOut, hs.forall_effects hP, ?_⟩
  rcases hend with ⟨r', rfl⟩ | ⟨r', rfl⟩
  · rw [List.forall_mem_singleton]
    exact hP.flushed r'
  · rw [List.forall_mem_cons, List.forall_mem_singleton]
    exact ⟨hP.requeue batch fun _ hw => hw, hP.flushed r'⟩

theorem PrepareScript.forall_effects {index : RuntimeIndex} {endpointId : String}
    {now clock : TimestampMs} {batch sent : List PendingWrite} {effects : List Effect}
    (h : PrepareScript index endpointId now clock batch sent effects) {P : Effect → Prop}
    (hP : HoldsOfFlush batch P) (hlost : ∀ e ∈ lostEffects index endpointId .noCommunication now, P e) :
    ∀ e ∈ effects, P e := by
  cases h with
  | unbound => simp
  | lost host port => exact List.forall_mem_cons.mpr ⟨hP.call .., hlost⟩
  | flush hf => exact hf.forall_effects hP
  | connected host port hf => exact List.forall_mem_cons.mpr ⟨hP.call .., hf.forall_effects hP⟩

section Preparation
variable {σ : Type} (index : RuntimeIndex) (transport : IModbusTransport σ) (endpointId : String)
  (now clock : TimestampMs)

theorem prepare_script (w : World σ) :
    ∃ sent effects,
      PrepareScript index endpointId now clock (w.dispatcher.writeQueues endpointId) sent effects ∧
      Performs endpointId effects w (prepare index transport endpointId now clock w).2 := by
  unfold prepare
  split
  · exact ⟨[], [], .unbound, .refl w⟩
  · rename_i t ht
    split
    · obtain ⟨sent, effects, hf, hp⟩ := flushWrites_performs index transport endpointId clock w
      exact ⟨sent, effects, .flush hf, hp⟩
    · split
      · exact ⟨[], [], .unbound, .refl w⟩
      · rename_i ep _
        rw [connectEndpoint, World.call_eq endpointId ht]
        cases hr : (transport.connect ep.host ep.port t).1 with
        | error e =>
          refine ⟨[], _, .lost ep.host ep.port, ?_, fun other hne => Function.update_of_ne hne _ _⟩
          change _ = (w.dispatcher.record _).script endpointId _
          rw [script_lost]
          rfl
        | ok u =>
          dsimp only
          obtain ⟨sent, effects, hf, hp⟩ := flushWrites_performs index transport endpointId clock
            ⟨w.dispatcher.record (.call endpointId (.connect ep.host ep.port) true []),
              Function.update w.transports endpointId (some (transport.connect ep.host ep.port t).2)⟩
          refine ⟨sent, _, .connected ep.host ep.port hf, hp.dispatcher, ?_⟩
          intro other hne
          rw [← Function.update_of_ne hne (some (transport.connect ep.host ep.port t).2) w.transports]
          exact hp.transports other hne

/-- The effects of the reads of a poll. -/
def readEffects (reason : TagBinding → Error → QualityReason) (times : String → Option TimestampMs)
    (as : List Answer) : List Effect :=
  .pollTimes times :: as.flatMap (Answer.effects reason now)

theorem absorb_performs (reason : TagBinding → Error → QualityReason)
    (times : String → Option TimestampMs) (w : World σ) (as : List Answer) (t : σ) :
    Performs endpointId (readEffects now reason times as) w
      ((w.mapDispatcher fun d => d.setPollTimes times).absorb endpointId now reason (as, t)) where
  dispatcher := (script_answers reason endpointId now as _).symm
  transports _ hne := Function.update_of_ne hne _ _

/-- The answers to the reads of a synchronous poll, in order. -/
def syncAnswers (w : World σ) : List Answer :=
  match prepare index transport endpointId now clock w with
  | (.error _, _) => []
  | (.ok (), w) =>
    match w.transports endpointId with
    | none => []
    | some t => (answers transport ((dueGroups endpointId now (index.groupsForEndpoint endpointId)
        w.dispatcher.lastPollMs).1.flatMap (groupReads index)) t).1

/-- The scripts of a poll: nothing after a failure to prepare, else its answers. -/
def IsPoll (reason : TagBinding → Error → QualityReason) (as : List Answer) (before : List Effect)
    (w w₁ w' : World σ) : Prop :=
  Performs endpointId before w w₁ ∧
    ((as = [] ∧ w' = w₁) ∨ ∃ times, Performs endpointId (readEffects now reason times as) w₁ w')

theorem pollDue_script (w : World σ) :
    ∃ sent before,
      PrepareScript index endpointId now clock (w.dispatcher.writeQueues endpointId) sent before ∧
      IsPoll endpointId now syncReason (syncAnswers index transport endpointId now clock w) before w
        (prepare index transport endpointId now clock w).2
        (pollDue index transport endpointId now clock w).2 := by
  obtain ⟨sent, before, hs, hp⟩ := prepare_script index transport endpointId now clock w
  refine ⟨sent, before, hs, hp, ?_⟩
  rw [pollDue_eq, syncAnswers]
  cases hprep : prepare index transport endpointId now clock w with
  | mk r w₁ =>
    cases r with
    | error e => exact .inl ⟨rfl, rfl⟩
    | ok u =>
      obtain ⟨t, ht⟩ := prepare_transports index transport endpointId now clock hprep
      refine .inr ⟨(dueGroups endpointId now (index.groupsForEndpoint endpointId)
        w₁.dispatcher.lastPollMs).2, ?_⟩
      dsimp only
      rw [pollGroups_absorb index transport endpointId now _ _ ht, ht]
      exact absorb_performs endpointId now syncReason _ w₁ _ _

theorem pollDueAsync_script (w : World σ) :
    ∃ sent before,
      PrepareScript index endpointId now clock (w.dispatcher.writeQueues endpointId) sent before ∧
      IsPoll endpointId now asyncReason (pollAnswers index transport endpointId now clock w) before w
        (prepare index transport endpointId now clock w).2
        (pollDueAsync index transport endpointId now clock ⟨w, []⟩).world := by
  obtain ⟨sent, before, hs, hp⟩ := prepare_script index transport endpointId now clock w
  refine ⟨sent, before, hs, hp, ?_⟩
  rw [pollDueAsync_eq, pollAnswers]
  cases hprep : prepare index transport endpointId now clock w with
  | mk r w₁ =>
    cases r with
    | error e => exact .inl ⟨rfl, rfl⟩
    | ok u =>
      obtain ⟨t, ht⟩ := prepare_transports index transport endpointId now clock hprep
      refine .inr ⟨(dueGroups endpointId now (index.groupsForEndpoint endpointId)
        w₁.dispatcher.lastPollMs).2, ?_⟩
      dsimp only
      rw [ht, collectDue_due, next_eq transport endpointId now _ none ht]
      exact absorb_performs endpointId now asyncReason _ w₁ _ _

/-- Where all groups resolve, both polls get the same answers. -/
theorem syncAnswers_eq (hgroups : ∀ g ∈ index.groupsForEndpoint endpointId, Resolved index g)
    (w : World σ) : syncAnswers index transport endpointId now clock w =
      pollAnswers index transport endpointId now clock w := by
  unfold syncAnswers pollAnswers
  cases prepare index transport endpointId now clock w with
  | mk r w₁ =>
    cases r with
    | error e => rfl
    | ok u =>
      have hreads : ∀ g ∈ (dueGroups endpointId now (index.groupsForEndpoint endpointId)
          w₁.dispatcher.lastPollMs).1, groupReads index g = collectGroupTags index g :=
        fun g hg => groupReads_of_resolved index
          (hgroups g (dueGroups_subset endpointId now _ _ g hg))
      dsimp only
      cases w₁.transports endpointId with
      | none => rfl
      | some t => rw [collectDue_due, List.flatMap_congr hreads]

end Preparation

end OpcServer.Core
