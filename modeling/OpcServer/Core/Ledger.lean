import OpcServer.Core.FlushWrites
import Mathlib.Data.List.Perm.Basic

/-! Reading the trace of a dispatcher: which writes an endpoint accepted, which a
successful transport call carried, and which were reported Bad. `flushLoop_spec`
says in these terms what a run of the flush loop adds to the trace and puts back
into the queue. -/

namespace OpcServer.Core

open Domain Project

variable [Platform]

/-- Writes accepted for an endpoint, in the order of acceptance. -/
def accepted (endpointId : String) (trace : List Event) : List PendingWrite :=
  trace.flatMap fun
    | .accepted ep write => if ep = endpointId then [write] else []
    | _ => []

/-- Writes carried by successful calls on an endpoint, in the order of the calls. -/
def delivered (endpointId : String) (trace : List Event) : List PendingWrite :=
  trace.flatMap fun
    | .call ep _ true carried => if ep = endpointId then carried else []
    | _ => []

/-- The tag of a write is bound on an endpoint. -/
def onEndpoint (index : RuntimeIndex) (endpointId : String) (write : PendingWrite) : Bool :=
  (index.findById write.tagId).any fun b => b.endpointId == endpointId

theorem onEndpoint_unique {index : RuntimeIndex} {ep ep' : String} {write : PendingWrite}
    (h : onEndpoint index ep write) (h' : onEndpoint index ep' write) : ep = ep' := by
  simp only [onEndpoint, Option.any_eq_true, beq_iff_eq] at h h'
  obtain ⟨b, hb, rfl⟩ := h
  obtain ⟨b', hb', rfl⟩ := h'
  exact congrArg TagBinding.endpointId (Option.some.inj (hb.symm.trans hb'))

/-- Writes on an endpoint that a Bad publish concludes. -/
def rejected (index : RuntimeIndex) (endpointId : String) (trace : List Event) :
    List PendingWrite :=
  trace.flatMap fun
    | .publish _ value (some write) =>
      if value.quality = .bad ∧ onEndpoint index endpointId write then [write] else []
    | _ => []

@[simp] theorem accepted_append (ep : String) (t u : List Event) :
    accepted ep (t ++ u) = accepted ep t ++ accepted ep u := List.flatMap_append

@[simp] theorem delivered_append (ep : String) (t u : List Event) :
    delivered ep (t ++ u) = delivered ep t ++ delivered ep u := List.flatMap_append

@[simp] theorem rejected_append (index : RuntimeIndex) (ep : String) (t u : List Event) :
    rejected index ep (t ++ u) = rejected index ep t ++ rejected index ep u :=
  List.flatMap_append

theorem delivered_record (ep : String) (d : Dispatcher) (e : Event) :
    delivered ep (d.record e).trace = delivered ep d.trace ++ delivered ep [e] :=
  delivered_append ep d.trace [e]

theorem delivered_publish (ep : String) (d : Dispatcher) (id : TagId) (value : TagValue)
    (cause : Option PendingWrite) :
    delivered ep (d.publish id value cause).trace = delivered ep d.trace :=
  (delivered_append ep d.trace _).trans (List.append_nil _)

theorem accepted_accept (ep : String) (d : Dispatcher) (endpointId : String) (tagId : TagId)
    (value : ScalarValue) : accepted ep (d.accept endpointId tagId value).trace =
      accepted ep d.trace ++ if endpointId = ep then [⟨tagId, value, d.nextSeq⟩] else [] := by
  refine (accepted_append ep d.trace _).trans (congrArg _ ?_)
  simp [accepted]

theorem delivered_accept (ep : String) (d : Dispatcher) (endpointId : String) (tagId : TagId)
    (value : ScalarValue) :
    delivered ep (d.accept endpointId tagId value).trace = delivered ep d.trace :=
  (delivered_append ep d.trace _).trans (List.append_nil _)

/-! ### Confirmed writes -/

/-- Publishes that report each of some writes Good with its value, and nothing else. -/
structure Confirms (writes : List PendingWrite) (events : List Event) : Prop where
  each : ∀ write ∈ writes, ∃ value, .publish write.tagId value (some write) ∈ events ∧
    value.quality = .good ∧ value.value = write.value
  only : ∀ event ∈ events, ∃ write value, event = .publish write.tagId value (some write) ∧
    value.quality = .good

theorem Confirms.accepted {writes : List PendingWrite} {events : List Event}
    (h : Confirms writes events) (ep : String) : accepted ep events = [] := by
  refine List.flatMap_eq_nil_iff.mpr fun event hm => ?_
  obtain ⟨write, value, rfl, -⟩ := h.only event hm
  rfl

theorem Confirms.delivered {writes : List PendingWrite} {events : List Event}
    (h : Confirms writes events) (ep : String) : delivered ep events = [] := by
  refine List.flatMap_eq_nil_iff.mpr fun event hm => ?_
  obtain ⟨write, value, rfl, -⟩ := h.only event hm
  rfl

theorem Confirms.rejected {writes : List PendingWrite} {events : List Event}
    (h : Confirms writes events) (index : RuntimeIndex) (ep : String) :
    rejected index ep events = [] := by
  refine List.flatMap_eq_nil_iff.mpr fun event hm => ?_
  obtain ⟨write, value, rfl, hq⟩ := h.only event hm
  simp [hq]

/-- Confirming writes only touches the store and the trace. -/
theorem foldl_confirm_frame (now : TimestampMs) (writes : List PendingWrite) (d : Dispatcher) :
    (writes.foldl (Dispatcher.confirm now) d).writeQueues = d.writeQueues ∧
      (writes.foldl (Dispatcher.confirm now) d).nextSeq = d.nextSeq := by
  induction writes generalizing d with
  | nil => exact ⟨rfl, rfl⟩
  | cons write rest ih => exact ih (d.confirm now write)

theorem foldl_confirm_trace (now : TimestampMs) (writes : List PendingWrite) (d : Dispatcher) :
    ∃ events, (writes.foldl (Dispatcher.confirm now) d).trace = d.trace ++ events ∧
      Confirms writes events := by
  induction writes generalizing d with
  | nil => exact ⟨[], by simp, by simp, by simp⟩
  | cons write rest ih =>
    obtain ⟨events, ht, hc⟩ := ih (d.confirm now write)
    obtain ⟨value, hp, hw, hv⟩ : ∃ value : TagValue,
        (d.confirm now write).trace = d.trace ++ [.publish write.tagId value (some write)] ∧
          value.quality = .good ∧ value.value = write.value := by
      refine ⟨_, rfl, ?_, rfl⟩
      simp [Dispatcher.qualityUpdate, withQuality_eq]
    refine ⟨.publish write.tagId value (some write) :: events, ?_, ?_, ?_⟩
    · rw [List.foldl_cons, ht, hp, List.append_assoc, List.singleton_append]
    · intro other hm
      rcases List.mem_cons.mp hm with rfl | hm
      · exact ⟨value, List.mem_cons_self, hw, hv⟩
      · obtain ⟨value, hv, hq⟩ := hc.each other hm
        exact ⟨value, List.mem_cons_of_mem _ hv, hq⟩
    · intro event hm
      rcases List.mem_cons.mp hm with rfl | hm
      · exact ⟨write, value, rfl, hw⟩
      · exact hc.only event hm

/-! ### The rounds of a flush -/

/-- The events of rounds that all succeeded, delivering some writes in order. -/
inductive Rounds (endpointId : String) : List PendingWrite → List Event → Prop
  | nil : Rounds endpointId [] []
  | round {request : WriteRequest} {carried sent : List PendingWrite}
      {publishes events : List Event} : Confirms carried publishes → Rounds endpointId sent events →
      Rounds endpointId (carried ++ sent)
        (.call endpointId (.write request) true carried :: (publishes ++ events))

/-- A successful call carried the write, and its tag was then published Good with its
value. -/
def Delivered (endpointId : String) (write : PendingWrite) (trace : List Event) : Prop :=
  ∃ before request carried after value,
    trace = before ++ .call endpointId (.write request) true carried :: after ∧
      write ∈ carried ∧ .publish write.tagId value (some write) ∈ after ∧
      value.quality = .good ∧ value.value = write.value

theorem Delivered.append {ep : String} {write : PendingWrite} {trace : List Event}
    (h : Delivered ep write trace) (more : List Event) : Delivered ep write (trace ++ more) := by
  obtain ⟨before, request, carried, after, value, rfl, hm, hp, hv⟩ := h
  refine ⟨before, request, carried, after ++ more, value, ?_, hm, ?_, hv⟩
  · rw [List.append_assoc, List.cons_append]
  · exact List.mem_append_left _ hp

theorem Delivered.prepend {ep : String} {write : PendingWrite} {trace : List Event}
    (h : Delivered ep write trace) (less : List Event) : Delivered ep write (less ++ trace) := by
  obtain ⟨before, request, carried, after, value, rfl, hm⟩ := h
  exact ⟨less ++ before, request, carried, after, value, (List.append_assoc _ _ _).symm, hm⟩

theorem Delivered.mem {ep : String} {write : PendingWrite} {trace : List Event}
    (h : Delivered ep write trace) : write ∈ delivered ep trace := by
  obtain ⟨before, request, carried, after, value, rfl, hm, -⟩ := h
  exact List.mem_flatMap.mpr ⟨.call ep (.write request) true carried, by simp, by simpa using hm⟩

namespace Rounds

variable {endpointId : String} {sent : List PendingWrite} {events : List Event}

theorem accepted (h : Rounds endpointId sent events) (ep : String) :
    accepted ep events = [] := by
  induction h with
  | nil => rfl
  | round hc _ ih =>
    rw [← List.singleton_append, accepted_append, accepted_append, hc.accepted, ih]
    rfl

theorem delivered (h : Rounds endpointId sent events) : delivered endpointId events = sent := by
  induction h with
  | nil => rfl
  | round hc _ ih =>
    rw [← List.singleton_append, delivered_append, delivered_append, hc.delivered, ih]
    simp [Core.delivered]

theorem delivered_of_ne (h : Rounds endpointId sent events) {ep : String} (hne : endpointId ≠ ep) :
    Core.delivered ep events = [] := by
  induction h with
  | nil => rfl
  | round hc _ ih =>
    rw [← List.singleton_append, delivered_append, delivered_append, hc.delivered, ih]
    simp [Core.delivered, hne]

theorem rejected (h : Rounds endpointId sent events) (index : RuntimeIndex) (ep : String) :
    rejected index ep events = [] := by
  induction h with
  | nil => rfl
  | round hc _ ih =>
    rw [← List.singleton_append, rejected_append, rejected_append, hc.rejected, ih]
    rfl

/-- Every write sent was confirmed after its call. -/
theorem confirmed (h : Rounds endpointId sent events) :
    ∀ write ∈ sent, Delivered endpointId write events := by
  induction h with
  | nil => simp
  | @round request carried sent publishes events hc _ ih =>
    intro write hm
    rcases List.mem_append.mp hm with hm | hm
    · obtain ⟨value, hp, hv⟩ := hc.each write hm
      exact ⟨[], request, carried, publishes ++ events, value, rfl, hm,
        List.mem_append_left _ hp, hv⟩
    · have := (ih write hm).prepend (.call endpointId (.write request) true carried :: publishes)
      rwa [List.cons_append] at this

end Rounds

/-! ### Broken coil runs -/

/-- Behind a coil write, the writes that continue its run reach one that does not
encode. -/
def breaksRun (index : RuntimeIndex) (unit : UInt8) : ℤ → List PendingWrite → Bool
  | _, [] => false
  | nextAddr, write :: rest =>
    match continues index unit nextAddr write with
    | none => false
    | some next =>
      match Translator.encode next.tag write.value with
      | .error _ => true
      | .ok regs => breaksRun index unit (nextAddr + regs.length) rest

/-- A write to a coil tag that encodes starts a run that breaks. -/
def startsBrokenRun (index : RuntimeIndex) (write : PendingWrite) (rest : List PendingWrite) :
    Bool :=
  match index.findById write.tagId with
  | none => false
  | some binding =>
    match Translator.encode binding.tag write.value with
    | .error _ => false
    | .ok regs => binding.tag.area = .coil &&
      breaksRun index binding.unitId ((UInt16.ofInt binding.tag.address).toNat + regs.length) rest

/-- Some write of the queue starts a run that breaks. -/
def brokenRun (index : RuntimeIndex) : List PendingWrite → Bool
  | [] => false
  | write :: rest => startsBrokenRun index write rest || brokenRun index rest

theorem breaksRun_iff (index : RuntimeIndex) (unit : UInt8) (nextAddr : ℤ) (bits : List UInt8)
    (batch : List PendingWrite) :
    breaksRun index unit nextAddr batch = true ↔
      ∃ taken bad e rest, coalesce index unit nextAddr bits batch = .failed taken bad e rest := by
  induction batch generalizing nextAddr bits with
  | nil => simp [breaksRun, coalesce]
  | cons write batch ih =>
    cases hn : continues index unit nextAddr write with
    | none => simp [breaksRun, coalesce, hn]
    | some next =>
      cases he : Translator.encode next.tag write.value with
      | error e => simp [breaksRun, coalesce, hn, he]
      | ok regs =>
        simp only [breaksRun, coalesce, hn, he]
        rw [ih (nextAddr + regs.length) (bits ++ coilBits regs)]
        constructor
        · rintro ⟨taken, bad, e, rest, h⟩
          exact ⟨write :: taken, bad, e, rest, by rw [h]; rfl⟩
        · rintro ⟨taken, bad, e, rest, h⟩
          obtain ⟨t, h, -⟩ := join_eq_failed h
          exact ⟨t, bad, e, rest, h⟩

/-- A round loses writes exactly when its first write starts a run that breaks. -/
theorem startsBrokenRun_iff (index : RuntimeIndex) (write : PendingWrite)
    (batch : List PendingWrite) :
    startsBrokenRun index write batch = true ↔
      ∃ lost bad e rest, plan index write batch = .unencodable lost bad e rest ∧ lost ≠ [] := by
  cases hb : index.findById write.tagId with
  | none => simp [startsBrokenRun, plan, hb]
  | some binding =>
    cases he : Translator.encode binding.tag write.value with
    | error e => simp [startsBrokenRun, plan, hb, he]
    | ok encoded =>
      by_cases harea : binding.tag.area = .coil
      · simp only [startsBrokenRun, plan, hb, he, harea, decide_true, Bool.true_and, if_true]
        rw [breaksRun_iff index _ _ (coilBits encoded), coilBits_length]
        cases coalesce index binding.unitId _ (coilBits encoded) batch <;> simp
      · simp [startsBrokenRun, plan, hb, he, harea]

theorem brokenRun_append (index : RuntimeIndex) (before rest : List PendingWrite)
    (h : brokenRun index (before ++ rest) = false) : brokenRun index rest = false := by
  induction before with
  | nil => exact h
  | cons write before ih =>
    simp only [List.cons_append, brokenRun, Bool.or_eq_false_iff] at h
    exact ih h.2

/-! ### What the loop does -/

/-- A Bad publish that concludes a write of a flush. -/
def BadPublish (write : PendingWrite) (event : Event) : Prop :=
  ∃ value, event = .publish write.tagId value (some write) ∧ value.quality = .bad ∧
    (value.reason = .decodingError ∨ value.reason = .writeRejected)

theorem reject_trace (now : TimestampMs) {reason : QualityReason} (d : Dispatcher)
    (write : PendingWrite) (h : reason = .decodingError ∨ reason = .writeRejected) :
    ∃ event, (d.reject now reason write).trace = d.trace ++ [event] ∧ BadPublish write event := by
  refine ⟨_, rfl, _, rfl, ?_, ?_⟩
  · simp [Dispatcher.qualityUpdate, withQuality_eq]
  · simpa [Dispatcher.qualityUpdate, withQuality_eq] using h

/-- A loop that sent its whole batch. -/
def Completes (batch sent : List PendingWrite) (events : List Event) (d d' : Dispatcher) : Prop :=
  batch = sent ∧ d'.trace = d.trace ++ events ∧ d'.writeQueues = d.writeQueues

/-- A loop that failed, after at most one failed call, with a Bad publish. The writes
of the batch were sent, lost, blamed or put back, in this order. -/
def Fails (index : RuntimeIndex) (endpointId : String) (batch sent : List PendingWrite)
    (events : List Event) (d d' : Dispatcher) : Prop :=
  ∃ lost bad back attempt event,
    batch = sent ++ (lost ++ bad :: back) ∧ (brokenRun index batch = false → lost = []) ∧
      (attempt = [] ∨ ∃ request carried,
        attempt = [.call endpointId (.write request) false carried]) ∧
      BadPublish bad event ∧ d'.trace = d.trace ++ (events ++ (attempt ++ [event])) ∧
      d'.writeQueues = Function.update d.writeQueues endpointId (back ++ d.writeQueues endpointId)

/-- The loop sends its batch round by round, up to its end or to a failure. -/
theorem flushLoop_spec {σ : Type} (index : RuntimeIndex) (transport : IModbusTransport σ)
    (endpointId : String) (now : TimestampMs) (batch : List PendingWrite)
    (hknown : ∀ write ∈ batch, index.findById write.tagId ≠ none) (s s' : Session σ)
    (r : Result Unit) (h : flushLoop index transport endpointId now 0 batch s = (r, s')) :
    ∃ sent events, Rounds endpointId sent events ∧
      s'.dispatcher.nextSeq = s.dispatcher.nextSeq ∧
      (r = .ok () ∧ Completes batch sent events s.dispatcher s'.dispatcher ∨
        ∃ e, r = .error e ∧ Fails index endpointId batch sent events s.dispatcher s'.dispatcher) := by
  induction batch using batch_induction index generalizing s with
  | nil =>
    rw [flushLoop_nil] at h
    cases h
    exact ⟨[], [], .nil, rfl, .inl ⟨rfl, rfl, by simp, rfl⟩⟩
  | skip write batch hp => exact absurd (plan_eq_skip hp) (hknown write (by simp))
  | unencodable write batch lost bad e rest hp =>
    rw [flushLoop_cons, hp] at h
    cases h
    obtain ⟨event, ht, hbad⟩ := reject_trace now s.dispatcher bad (.inl rfl)
    refine ⟨[], [], .nil, rfl, .inr ⟨e, rfl, lost, bad, rest, [], event, plan_eq_unencodable hp, ?_,
      .inl rfl, hbad, ht, rfl⟩⟩
    intro hbroken
    by_contra hlost
    have := (startsBrokenRun_iff index write batch).mpr ⟨lost, bad, e, rest, hp, hlost⟩
    simp [brokenRun, this] at hbroken
  | send write tail rest request hp ih =>
    rw [flushLoop_cons, hp] at h
    dsimp only at h
    split at h
    · -- the transport refused the request: only its first write is blamed
      rename_i e s₁ hcall
      cases h
      obtain ⟨-, hd⟩ := callWrite_eq transport endpointId hcall
      obtain ⟨event, ht, hbad⟩ := reject_trace now s₁.dispatcher write (.inr rfl)
      rw [hd] at ht ⊢
      refine ⟨[], [], .nil, rfl, .inr ⟨e, rfl, [], write, tail ++ rest, _, event, rfl, fun _ => rfl,
        .inr ⟨request, write :: tail, rfl⟩, hbad, ?_, rfl⟩⟩
      rw [List.nil_append, ← List.append_assoc]
      exact ht
    · -- the transport took the request: the rounds go on with the rest
      rename_i s₁ hcall
      obtain ⟨-, hd⟩ := callWrite_eq transport endpointId hcall
      obtain ⟨publishes, ht, hc⟩ := foldl_confirm_trace now (write :: tail) s₁.dispatcher
      obtain ⟨hq, hn⟩ := foldl_confirm_frame now (write :: tail) s₁.dispatcher
      obtain ⟨sent, events, hr, hseq, hres⟩ := ih (fun w hw => hknown w (by simp [hw])) _ h
      dsimp only at hseq hres
      rw [hd] at ht hq hn hseq hres
      refine ⟨(write :: tail) ++ sent, .call endpointId (.write request) true (write :: tail) ::
        (publishes ++ events), .round hc hr, hseq.trans hn, ?_⟩
      have hprefix : ∀ more, s.dispatcher.trace ++
          (.call endpointId (.write request) true (write :: tail) :: (publishes ++ events) ++ more) =
          (s.dispatcher.record (.call endpointId (.write request) true (write :: tail))).trace ++
            publishes ++ (events ++ more) := by
        intro more
        simp [Dispatcher.record]
      refine hres.imp ?_ ?_
      · rintro ⟨hok, rfl, htr, hqs⟩
        have hend := hprefix []
        rw [List.append_nil, List.append_nil] at hend
        exact ⟨hok, rfl, (htr.trans (by rw [ht]; rfl)).trans hend.symm, hqs.trans hq⟩
      · rintro ⟨e, he, lost, bad, back, attempt, event, rfl, hlost, ha, hbad, htr, hqs⟩
        refine ⟨e, he, lost, bad, back, attempt, event, by simp, ?_, ha, hbad, ?_, ?_⟩
        · intro hbroken
          exact hlost (brokenRun_append index (write :: tail) _ hbroken)
        · rw [htr, ht, hprefix]
          rfl
        · rw [hqs, hq]
          rfl

end OpcServer.Core
