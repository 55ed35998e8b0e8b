import OpcServer.Core.PollDueAsync

/-! Both polls in closed form. A poll that gets past the connect and the flush puts
one question to the transport for each due tag. The answers depend on the transport
alone; the dispatcher records each call and publishes one value for each answer. The
loop of the synchronous poll and the completion chain of the asynchronous one differ
in the reason they publish for an error, and in nothing else, as long as every name
of a group is found. -/

namespace OpcServer.Core

open Domain Project

variable [Platform]

/-! ### Answers -/

/-- A due tag with what the transport answered to its read, coils as registers. -/
structure Answer where
  binding : TagBinding
  regs : Result (List UInt16)

def readRequest (binding : TagBinding) : Request :=
  let qty := UInt16.ofInt (regsFor binding.tag)
  let addr := UInt16.ofInt binding.tag.address
  match binding.tag.area with
  | .holding => .registers (.readHoldingRegisters binding.unitId addr qty)
  | .input => .registers (.readInputRegisters binding.unitId addr qty)
  | .coil => .bits (.readCoils binding.unitId addr qty)
  | .discrete => .bits (.readDiscreteInputs binding.unitId addr qty)

/-- The reason published by the synchronous poll. -/
def syncReason (binding : TagBinding) (e : Error) : QualityReason :=
  match binding.tag.area with
  | .holding | .input => readReason e
  | .coil | .discrete => .noCommunication

/-- The reason published by the asynchronous poll. -/
def asyncReason (_ : TagBinding) (e : Error) : QualityReason := readReason e

/-- What a poll reports for an answer. -/
def Answer.outcome (a : Answer) : Result Unit :=
  match a.regs with
  | .error e => .error (transportError e)
  | .ok regs => (Translator.decode a.binding.tag regs).map fun _ => ()

/-- What a poll publishes for an answer over the previous value. -/
def Answer.published (reason : TagBinding → Error → QualityReason) (now : TimestampMs) (a : Answer)
    (previous : Option TagValue) : TagValue :=
  match a.regs with
  | .error e => Dispatcher.qualityUpdate previous .bad (reason a.binding e) now none
  | .ok regs =>
    match Translator.decode a.binding.tag regs with
    | .error _ => Dispatcher.qualityUpdate previous .bad .decodingError now none
    | .ok value =>
      { value := value, quality := .good, reason := .none, serverTs := now, sourceTs := now }

/-- Record the call of an answer and publish its value. -/
def Dispatcher.absorb (reason : TagBinding → Error → QualityReason) (endpointId : String)
    (now : TimestampMs) (d : Dispatcher) (a : Answer) : Dispatcher :=
  (d.record (.call endpointId (readRequest a.binding) a.regs.isOk [])).publish a.binding.id
    (a.published reason now (d.tagStore.get a.binding.id)) none

/-- The first error of a list of answers, after an earlier one. -/
def outcomes (first : Result Unit) (as : List Answer) : Result Unit :=
  as.foldl (fun r a => firstError r a.outcome) first

section Ask
variable {σ : Type} (transport : IModbusTransport σ)

/-- Put the read of a tag to a transport. -/
def ask (binding : TagBinding) (t : σ) : Result (List UInt16) × σ :=
  let qty := UInt16.ofInt (regsFor binding.tag)
  let addr := UInt16.ofInt binding.tag.address
  match binding.tag.area with
  | .holding => transport.readRegisters (.readHoldingRegisters binding.unitId addr qty) t
  | .input => transport.readRegisters (.readInputRegisters binding.unitId addr qty) t
  | .coil => (transport.readBits (.readCoils binding.unitId addr qty) t).map (·.map asRegs) id
  | .discrete =>
    (transport.readBits (.readDiscreteInputs binding.unitId addr qty) t).map (·.map asRegs) id

/-- The answers to the reads of some tags, and the transport after them. -/
def answers : List TagBinding → σ → List Answer × σ
  | [], t => ([], t)
  | binding :: rest, t =>
    let (regs, t) := ask transport binding t
    let (as, t) := answers rest t
    (⟨binding, regs⟩ :: as, t)

theorem answers_append (first second : List TagBinding) (t : σ) :
    answers transport (first ++ second) t =
      ((answers transport first t).1 ++ (answers transport second (answers transport first t).2).1,
        (answers transport second (answers transport first t).2).2) := by
  induction first generalizing t with
  | nil => rfl
  | cons b rest ih => simp [answers, ih]

end Ask

/-! ### Frames -/

section Absorb
variable (reason : TagBinding → Error → QualityReason) (endpointId : String) (now : TimestampMs)

/-- Replace the table of poll times. -/
def Dispatcher.setPollTimes (d : Dispatcher) (times : String → Option TimestampMs) : Dispatcher :=
  { d with lastPollMs := times }

theorem setPollTimes_setLastPoll (d : Dispatcher) (key : String)
    (times : String → Option TimestampMs) :
    (d.setLastPoll key now).setPollTimes times = d.setPollTimes times := rfl

theorem foldl_absorb_setPollTimes (as : List Answer) (times : String → Option TimestampMs)
    (d : Dispatcher) :
    as.foldl (Dispatcher.absorb reason endpointId now) (d.setPollTimes times) =
      (as.foldl (Dispatcher.absorb reason endpointId now) d).setPollTimes times := by
  induction as generalizing d with
  | nil => rfl
  | cons a rest ih => exact ih (d.absorb reason endpointId now a)

theorem foldl_absorb_frame (as : List Answer) (d : Dispatcher) :
    (as.foldl (Dispatcher.absorb reason endpointId now) d).lastPollMs = d.lastPollMs ∧
      (as.foldl (Dispatcher.absorb reason endpointId now) d).writeQueues = d.writeQueues := by
  induction as generalizing d with
  | nil => exact ⟨rfl, rfl⟩
  | cons a rest ih => exact ih _

end Absorb

/-! ### One tag -/

section PollTag
variable {σ : Type} (transport : IModbusTransport σ) (endpointId : String) (now : TimestampMs)

/-- The world after the answers to some reads. -/
def World.absorb (reason : TagBinding → Error → QualityReason) (w : World σ) (r : List Answer × σ) :
    World σ :=
  ⟨r.1.foldl (Dispatcher.absorb reason endpointId now) w.dispatcher,
    Function.update w.transports endpointId (some r.2)⟩

theorem World.call_eq {α : Type} {w : World σ} {t : σ} (ht : w.transports endpointId = some t)
    (request : Request) (op : σ → Result α × σ) :
    w.call endpointId request op = ((op t).1,
      ⟨w.dispatcher.record (.call endpointId request (op t).1.isOk []),
        Function.update w.transports endpointId (some (op t).2)⟩) := by
  rw [World.call, ht]

theorem concludeRead_eq (binding : TagBinding) (regs : Result (List UInt16)) (w : World σ) :
    concludeRead now binding regs w = (Answer.outcome ⟨binding, regs⟩,
      w.mapDispatcher fun d => d.publish binding.id (Answer.published asyncReason now
        ⟨binding, regs⟩ (d.tagStore.get binding.id)) none) := by
  cases regs with
  | error e => rfl
  | ok regs => cases hd : Translator.decode binding.tag regs <;>
      simp [concludeRead, Answer.outcome, Answer.published, hd, Except.map,
        Dispatcher.publishQuality]

/-- Answers are published alike where the reasons are the same. -/
theorem published_congr {reason reason' : TagBinding → Error → QualityReason} (a : Answer)
    (h : reason a.binding = reason' a.binding) (previous : Option TagValue) :
    a.published reason now previous = a.published reason' now previous := by
  unfold Answer.published
  rw [h]

/-- A register read in the synchronous poll: the reasons are those of the asynchronous
one. -/
theorem pollRegisters_eq {binding : TagBinding} (harea : syncReason binding = asyncReason binding)
    {request : RegisterRead} (hreq : readRequest binding = .registers request)
    (hask : ask transport binding = transport.readRegisters request) {w : World σ} {t : σ}
    (ht : w.transports endpointId = some t) :
    pollRegisters transport endpointId now binding request w =
      (Answer.outcome ⟨binding, (ask transport binding t).1⟩,
        w.absorb endpointId now syncReason
          ([⟨binding, (ask transport binding t).1⟩], (ask transport binding t).2)) := by
  rw [pollRegisters, readRegisters, World.call_eq endpointId ht, hask]
  have hpub := published_congr now ⟨binding, (transport.readRegisters request t).1⟩ harea.symm
  simp only [concludeRead_eq, hpub, World.mapDispatcher, World.absorb, List.foldl_cons, List.foldl_nil,
    Dispatcher.absorb, hreq, Dispatcher.record]

/-- A bit read in the synchronous poll. -/
theorem pollBits_eq {binding : TagBinding} (harea : ∀ e, syncReason binding e = .noCommunication)
    {request : BitRead} (hreq : readRequest binding = .bits request)
    (hask : ask transport binding = fun t => (transport.readBits request t).map (·.map asRegs) id)
    {w : World σ} {t : σ} (ht : w.transports endpointId = some t) :
    pollBits transport endpointId now binding request w =
      (Answer.outcome ⟨binding, (ask transport binding t).1⟩,
        w.absorb endpointId now syncReason
          ([⟨binding, (ask transport binding t).1⟩], (ask transport binding t).2)) := by
  rw [pollBits, readBits, World.call_eq endpointId ht, hask]
  dsimp only
  cases hr : transport.readBits request t with
  | mk r t' =>
    cases r with
    | error e =>
      simp only [Prod.map, Except.map, World.mapDispatcher, World.absorb, List.foldl_cons,
        List.foldl_nil, Dispatcher.absorb, Answer.outcome, Answer.published, harea, hreq,
        Dispatcher.publishQuality, Dispatcher.record, Except.isOk, Except.toBool, id]
    | ok bits =>
      simp only [concludeRead_eq]
      simp only [Prod.map, Except.map, World.mapDispatcher, World.absorb, List.foldl_cons,
        List.foldl_nil, Dispatcher.absorb, Answer.published, hreq, Dispatcher.record, Except.isOk,
        Except.toBool, id]

theorem pollTag_eq (binding : TagBinding) {w : World σ} {t : σ}
    (ht : w.transports endpointId = some t) :
    pollTag transport endpointId now binding w =
      (Answer.outcome ⟨binding, (ask transport binding t).1⟩,
        w.absorb endpointId now syncReason
          ([⟨binding, (ask transport binding t).1⟩], (ask transport binding t).2)) := by
  cases harea : binding.tag.area with
  | holding | input =>
    simp only [pollTag, harea]
    refine pollRegisters_eq transport endpointId now ?_ ?_ ?_ ht
    · funext e
      simp only [syncReason, harea, asyncReason]
    · simp only [readRequest, harea]
    · funext t
      simp only [ask, harea]
  | coil | discrete =>
    simp only [pollTag, harea]
    refine pollBits_eq transport endpointId now ?_ ?_ ?_ ht
    · intro e
      simp only [syncReason, harea]
    · simp only [readRequest, harea]
    · funext t
      simp only [ask, harea]

theorem pollTagAsync_eq (binding : TagBinding) (handler : Completion σ Unit) {a : Async σ} {t : σ}
    (ht : a.world.transports endpointId = some t) :
    pollTagAsync transport endpointId now binding handler a =
      handler (Answer.outcome ⟨binding, (ask transport binding t).1⟩)
        ⟨a.world.absorb endpointId now asyncReason
          ([⟨binding, (ask transport binding t).1⟩], (ask transport binding t).2), a.completed⟩ := by
  cases harea : binding.tag.area with
  | holding | input =>
    simp only [pollTagAsync, harea, asyncReadRegisters, readRegisters, World.call_eq endpointId ht,
      finishRegs, concludeRead_eq]
    simp only [ask, readRequest, harea, World.mapDispatcher, World.absorb, List.foldl_cons,
      List.foldl_nil, Dispatcher.absorb, Dispatcher.record]
  | coil | discrete =>
    simp only [pollTagAsync, harea, asyncReadBits, readBits, World.call_eq endpointId ht, finishBits,
      finishRegs, concludeRead_eq, ask]
    cases hr : transport.readBits _ t with
    | mk r t' =>
      cases r <;>
        simp only [readRequest, harea, World.mapDispatcher, World.absorb, List.foldl_cons,
          List.foldl_nil, Dispatcher.absorb, Dispatcher.record, Prod.map, Except.map, Except.isOk,
          Except.toBool, id]

/-! ### All due tags -/

theorem World.absorb_cons (reason : TagBinding → Error → QualityReason) (w : World σ) (a : Answer)
    (t : σ) (r : List Answer × σ) :
    (w.absorb endpointId now reason ([a], t)).absorb endpointId now reason r =
      w.absorb endpointId now reason (a :: r.1, r.2) := by
  simp [World.absorb]

theorem World.absorb_nil (reason : TagBinding → Error → QualityReason) {w : World σ} {t : σ}
    (ht : w.transports endpointId = some t) : w.absorb endpointId now reason ([], t) = w := by
  rw [World.absorb, ← ht, Function.update_eq_self, List.foldl_nil]

theorem World.absorb_transports (reason : TagBinding → Error → QualityReason) (w : World σ)
    (r : List Answer × σ) :
    (w.absorb endpointId now reason r).transports endpointId = some r.2 := by
  simp [World.absorb]

/-- The answers leave the poll times alone, and the poll of a group sets its own. -/
theorem World.absorb_lastPollMs (reason : TagBinding → Error → QualityReason) (w : World σ)
    (r : List Answer × σ) (group : PollGroup) :
    ((w.absorb endpointId now reason r).mapDispatcher
        fun d => d.setLastPoll (pollKey endpointId group) now).dispatcher.lastPollMs =
      Function.update w.dispatcher.lastPollMs (pollKey endpointId group) (some now) := by
  rw [← (foldl_absorb_frame reason endpointId now r.1 w.dispatcher).1]
  rfl

theorem pollTags_eq (tags : List TagBinding) (first : Result Unit) {w : World σ} {t : σ}
    (ht : w.transports endpointId = some t) :
    pollTags transport endpointId now tags first w =
      (outcomes first (answers transport tags t).1,
        w.absorb endpointId now syncReason (answers transport tags t)) := by
  induction tags generalizing first w t with
  | nil => rw [pollTags, answers, World.absorb_nil endpointId now syncReason ht, outcomes,
      List.foldl_nil]
  | cons b rest ih =>
    rw [pollTags, pollTag_eq transport endpointId now b ht]
    dsimp only
    rw [ih _ (World.absorb_transports ..), World.absorb_cons]
    rfl

/-- The error a chain holds, as the result of the answers so far. -/
def held : Option Error → Result Unit
  | none => .ok ()
  | some e => .error e

theorem next_eq (tags : List TagBinding) (first : Option Error) {a : Async σ} {t : σ}
    (ht : a.world.transports endpointId = some t) :
    next transport endpointId now tags first a =
      ⟨a.world.absorb endpointId now asyncReason (answers transport tags t),
        a.completed ++ [outcomes (held first) (answers transport tags t).1]⟩ := by
  induction tags generalizing first a t with
  | nil =>
    rw [answers, World.absorb_nil endpointId now asyncReason ht]
    cases first <;> rfl
  | cons b rest ih =>
    have step : ∀ first', held first' =
        firstError (held first) (Answer.outcome ⟨b, (ask transport b t).1⟩) →
        next transport endpointId now rest first'
          ⟨a.world.absorb endpointId now asyncReason
            ([⟨b, (ask transport b t).1⟩], (ask transport b t).2), a.completed⟩ =
        ⟨a.world.absorb endpointId now asyncReason (answers transport (b :: rest) t),
          a.completed ++ [outcomes (held first) (answers transport (b :: rest) t).1]⟩ := by
      intro first' hfirst
      rw [ih first' (World.absorb_transports ..), World.absorb_cons, hfirst]
      rfl
    rw [next, pollTagAsync_eq transport endpointId now b _ ht]
    -- the handler keeps the first error, as `firstError` does
    cases hr : Answer.outcome ⟨b, (ask transport b t).1⟩ with
    | ok u => cases first <;> exact step _ (by rw [hr]; rfl)
    | error e =>
      cases first with
      | none => exact step (some e) (by rw [hr]; rfl)
      | some e' => exact step (some e') rfl

theorem outcomes_error (e : Error) (as : List Answer) : outcomes (.error e) as = .error e := by
  induction as with
  | nil => rfl
  | cons a rest ih => exact ih

theorem outcomes_append (first : Result Unit) (as as' : List Answer) :
    outcomes first (as ++ as') = outcomes (firstError first (outcomes (.ok ()) as)) as' := by
  have hfirst : outcomes first as = firstError first (outcomes (.ok ()) as) := by
    cases first with
    | ok u => rfl
    | error e => exact outcomes_error e as
  rw [← hfirst, outcomes, List.foldl_append]
  rfl

end PollTag

/-! ### Due groups -/

/-- The device of a group is there, and so are the tags it names. -/
def Resolved (index : RuntimeIndex) (group : PollGroup) : Prop :=
  (index.device group.deviceId).isSome ∧ ∀ name ∈ group.tagNames, (index.findByName name).isSome

theorem namedTags_eq {index : RuntimeIndex} {names : List String}
    (h : ∀ name ∈ names, (index.findByName name).isSome) :
    namedTags index names = .ok (names.filterMap index.findByName) := by
  induction names with
  | nil => rfl
  | cons name rest ih =>
    obtain ⟨b, hb⟩ := Option.isSome_iff_exists.mp (h name List.mem_cons_self)
    have hrest := ih fun n hn => h n (List.mem_cons_of_mem _ hn)
    simp only [namedTags, hb, hrest, Except.map, List.filterMap_cons]

section Due
variable {σ : Type} (index : RuntimeIndex) (transport : IModbusTransport σ) (endpointId : String)
  (now : TimestampMs)

theorem pollGroup_eq {group : PollGroup} (h : Resolved index group) (w : World σ) :
    pollGroup index transport endpointId now group w =
      pollTags transport endpointId now (collectGroupTags index group) (.ok ()) w := by
  obtain ⟨d, hd⟩ := Option.isSome_iff_exists.mp h.1
  simp only [pollGroup, hd, namedTags_eq h.2, collectGroupTags]
  split <;> rfl

/-- What is due depends on the table of poll times alone, and only that table changes. -/
theorem collectDue_eq (groups : List PollGroup) (times : String → Option TimestampMs) :
    ∃ tags times', ∀ w : World σ, w.dispatcher.lastPollMs = times →
      collectDue index endpointId now groups w =
        (tags, w.mapDispatcher fun d => d.setPollTimes times') := by
  induction groups generalizing times with
  | nil =>
    refine ⟨[], times, ?_⟩
    rintro w rfl
    rfl
  | cons group rest ih =>
    by_cases hrecent : recentlyPolled endpointId now group { lastPollMs := times } = true
    · obtain ⟨tags, times', h⟩ := ih times
      refine ⟨tags, times', ?_⟩
      rintro w rfl
      have : recentlyPolled endpointId now group w.dispatcher = true := hrecent
      rw [collectDue, if_pos this]
      exact h w rfl
    · obtain ⟨tags, times', h⟩ := ih (Function.update times (pollKey endpointId group) (some now))
      refine ⟨collectGroupTags index group ++ tags, times', ?_⟩
      rintro w rfl
      have : ¬ recentlyPolled endpointId now group w.dispatcher = true := hrecent
      rw [collectDue, if_neg this, h _ rfl]
      rfl

/-- The loop over the groups polls the tags that the asynchronous poll collects. -/
theorem pollGroups_eq {groups : List PollGroup} (hgroups : ∀ g ∈ groups, Resolved index g)
    (first : Result Unit) {w : World σ} {t : σ} (ht : w.transports endpointId = some t) :
    pollGroups index transport endpointId now groups first w =
      pollTags transport endpointId now (collectDue index endpointId now groups w).1 first
        (collectDue index endpointId now groups w).2 := by
  induction groups generalizing first w t with
  | nil => rfl
  | cons group rest ih =>
    have hrest := fun g hg => hgroups g (List.mem_cons_of_mem _ hg)
    by_cases hrecent : recentlyPolled endpointId now group w.dispatcher = true
    · rw [pollGroups, if_pos hrecent, ih hrest first ht, collectDue, if_pos hrecent]
    · -- the rest collects the same tags before and after the polls of this group
      obtain ⟨tags, times, hdue⟩ := collectDue_eq (σ := σ) index endpointId now rest
        (Function.update w.dispatcher.lastPollMs (pollKey endpointId group) (some now))
      let own := answers transport (collectGroupTags index group) t
      let polled := (w.absorb endpointId now syncReason own).mapDispatcher
        fun d => d.setLastPoll (pollKey endpointId group) now
      have hpolled : polled.transports endpointId = some own.2 :=
        World.absorb_transports endpointId now syncReason w own
      have htimes : polled.dispatcher.lastPollMs = Function.update w.dispatcher.lastPollMs
          (pollKey endpointId group) (some now) :=
        World.absorb_lastPollMs endpointId now syncReason w own group
      rw [pollGroups, if_neg hrecent, pollGroup_eq index transport endpointId now
        (hgroups group List.mem_cons_self), pollTags_eq transport endpointId now _ _ ht]
      refine (ih hrest _ hpolled).trans ?_
      rw [collectDue, if_neg hrecent, hdue polled htimes, hdue _ rfl]
      have hleft := pollTags_eq transport endpointId now tags
        (firstError first (outcomes (.ok ()) own.1))
        (w := polled.mapDispatcher fun d => d.setPollTimes times) hpolled
      have hright := pollTags_eq transport endpointId now (collectGroupTags index group ++ tags) first
        (w := (w.mapDispatcher fun d => d.setLastPoll (pollKey endpointId group) now).mapDispatcher
          fun d => d.setPollTimes times) ht
      refine hleft.trans (Eq.trans ?_ hright.symm)
      rw [answers_append, outcomes_append]
      refine congrArg (Prod.mk _) ?_
      simp only [World.absorb, World.mapDispatcher, List.foldl_append, Function.update_idem, polled,
        setPollTimes_setLastPoll]
      simp only [foldl_absorb_setPollTimes, own]

/-! ### Whole polls -/

/-- The part of a poll before its first read: connect if needed, then flush. -/
def prepare (clock : TimestampMs) (w : World σ) : Result Unit × World σ :=
  match w.transports endpointId with
  | none => (.error (coreErr .notFound "transport not bound"), w)
  | some t =>
    if transport.isConnected t then flushWrites index transport endpointId clock w
    else
      match index.endpoint endpointId with
      | none => (.error (coreErr .notFound "endpoint missing"), w)
      | some ep =>
        match connectEndpoint index transport endpointId now ep w with
        | (.error e, w) => (.error e, w)
        | (.ok (), w) => flushWrites index transport endpointId clock w

theorem flushWrites_transports (clock : TimestampMs) {w : World σ} {t : σ}
    (ht : w.transports endpointId = some t) :
    ∃ t', (flushWrites index transport endpointId clock w).2.transports endpointId = some t' := by
  obtain ⟨-, h⟩ | ⟨hn, -⟩ | ⟨_, r, s, -, -, h⟩ :=
    flushWrites_cases index transport endpointId clock w
  · rw [h]
    exact ⟨t, ht⟩
  · rw [ht] at hn
    cases hn
  · rw [h]
    exact ⟨s.transport, by simp [World.update]⟩

theorem connectEndpoint_eq (ep : Endpoint) {w : World σ} {t : σ}
    (ht : w.transports endpointId = some t) :
    ∃ w', w'.transports endpointId = some (transport.connect ep.host ep.port t).2 ∧
      w.call endpointId (.connect ep.host ep.port) (transport.connect ep.host ep.port) =
        ((transport.connect ep.host ep.port t).1, w') :=
  ⟨_, by simp, World.call_eq endpointId ht _ _⟩

/-- The transport stays bound up to the first read. -/
theorem prepare_transports (clock : TimestampMs) {w w' : World σ}
    (h : prepare index transport endpointId now clock w = (.ok (), w')) :
    ∃ t, w'.transports endpointId = some t := by
  unfold prepare at h
  split at h
  · cases h
  · rename_i t ht
    split at h
    · obtain ⟨t', ht'⟩ := flushWrites_transports index transport endpointId clock ht
      exact ⟨t', by rw [h] at ht'; exact ht'⟩
    · split at h
      · cases h
      · rename_i ep _
        split at h
        · cases h
        · rename_i w₁ hc
          obtain ⟨w₂, ht₂, hcall⟩ := connectEndpoint_eq transport endpointId ep ht
          rw [connectEndpoint, hcall] at hc
          cases hr : (transport.connect ep.host ep.port t).1 with
          | error e =>
            rw [hr] at hc
            cases hc
          | ok u =>
            rw [hr] at hc
            cases hc
            obtain ⟨t', ht'⟩ := flushWrites_transports index transport endpointId clock ht₂
            exact ⟨t', by rw [h] at ht'; exact ht'⟩

theorem pollDue_eq (clock : TimestampMs) (w : World σ) :
    pollDue index transport endpointId now clock w =
      match prepare index transport endpointId now clock w with
      | (.error e, w) => (.error e, w)
      | (.ok (), w) => pollGroups index transport endpointId now
          (index.groupsForEndpoint endpointId) (.ok ()) w := by
  cases ht : w.transports endpointId with
  | none => simp only [pollDue, prepare, ht]
  | some t =>
    by_cases hconn : transport.isConnected t = true
    · cases hf : flushWrites index transport endpointId clock w with
      | mk r w => cases r <;> simp only [pollDue, prepare, ht, if_pos hconn, flushAndPoll, hf]
    · cases hep : index.endpoint endpointId with
      | none => simp only [pollDue, prepare, ht, if_neg hconn, hep]
      | some ep =>
        simp only [pollDue, prepare, ht, if_neg hconn, hep, flushAndPoll]
        cases connectEndpoint index transport endpointId now ep w with
        | mk r w => cases r <;> rfl

theorem pollDueAsync_eq (clock : TimestampMs) (a : Async σ) :
    pollDueAsync index transport endpointId now clock a =
      match prepare index transport endpointId now clock a.world with
      | (.error e, w) => ⟨w, a.completed ++ [.error e]⟩
      | (.ok (), w) =>
        next transport endpointId now
          (collectDue index endpointId now (index.groupsForEndpoint endpointId) w).1 none
          ⟨(collectDue index endpointId now (index.groupsForEndpoint endpointId) w).2,
            a.completed⟩ := by
  have hrun : ∀ a : Async σ, runPolls index transport endpointId now clock a =
      match flushWrites index transport endpointId clock a.world with
      | (.error e, w) => ⟨w, a.completed ++ [.error e]⟩
      | (.ok (), w) =>
        next transport endpointId now
          (collectDue index endpointId now (index.groupsForEndpoint endpointId) w).1 none
          ⟨(collectDue index endpointId now (index.groupsForEndpoint endpointId) w).2,
            a.completed⟩ := by
    intro a
    unfold runPolls
    cases flushWrites index transport endpointId clock a.world with
    | mk r w => cases r <;> rfl
  cases ht : a.world.transports endpointId with
  | none => simp only [pollDueAsync, prepare, ht, done]
  | some t =>
    by_cases hconn : transport.isConnected t = true
    · simp only [pollDueAsync, prepare, ht, if_pos hconn]
      exact hrun a
    · cases hep : index.endpoint endpointId with
      | none => simp only [pollDueAsync, prepare, ht, if_neg hconn, hep, done]
      | some ep =>
        simp only [pollDueAsync, prepare, ht, if_neg hconn, hep, asyncConnect, connectEndpoint]
        cases hc : a.world.call endpointId (.connect ep.host ep.port)
            (transport.connect ep.host ep.port) with
        | mk r w =>
          cases r with
          | error e => rfl
          | ok u => exact hrun ⟨w, a.completed⟩

/-- The answers to the reads of a poll, in order. -/
def pollAnswers (clock : TimestampMs) (w : World σ) : List Answer :=
  match prepare index transport endpointId now clock w with
  | (.error _, _) => []
  | (.ok (), w) =>
    match w.transports endpointId with
    | none => []
    | some t => (answers transport (collectDue index endpointId now
        (index.groupsForEndpoint endpointId) w).1 t).1

/-- Either both polls end before the first read, or they absorb the same answers. -/
theorem polls_eq (hgroups : ∀ g ∈ index.groupsForEndpoint endpointId, Resolved index g)
    (clock : TimestampMs) (w : World σ) :
    (∃ e w', pollAnswers index transport endpointId now clock w = [] ∧
      pollDue index transport endpointId now clock w = (.error e, w') ∧
      pollDueAsync index transport endpointId now clock ⟨w, []⟩ = ⟨w', [.error e]⟩) ∨
    ∃ (w' : World σ) (t' : σ), let as := pollAnswers index transport endpointId now clock w
      pollDue index transport endpointId now clock w =
        (outcomes (.ok ()) as, w'.absorb endpointId now syncReason (as, t')) ∧
      pollDueAsync index transport endpointId now clock ⟨w, []⟩ =
        ⟨w'.absorb endpointId now asyncReason (as, t'), [outcomes (.ok ()) as]⟩ := by
  rw [pollDue_eq, pollDueAsync_eq, pollAnswers]
  cases hp : prepare index transport endpointId now clock w with
  | mk r w₁ =>
    cases r with
    | error e => exact .inl ⟨e, w₁, rfl, rfl, rfl⟩
    | ok u =>
      obtain ⟨t, ht⟩ := prepare_transports index transport endpointId now clock hp
      obtain ⟨tags, times, hdue⟩ := collectDue_eq (σ := σ) index endpointId now
        (index.groupsForEndpoint endpointId) w₁.dispatcher.lastPollMs
      refine .inr ⟨w₁.mapDispatcher fun d => d.setPollTimes times, (answers transport tags t).2, ?_⟩
      simp only [pollGroups_eq index transport endpointId now hgroups _ ht, ht, hdue w₁ rfl]
      exact ⟨pollTags_eq transport endpointId now tags (.ok ()) ht,
        next_eq transport endpointId now tags none
          (a := ⟨w₁.mapDispatcher fun d => d.setPollTimes times, []⟩) ht⟩

end Due

end OpcServer.Core
