import OpcServer.Adapters.FrameReplay
import OpcServer.Core.PollAgreement
import OpcServer.Project.Consistency

/-! The index of an accepted project at run time. Names and ids lead to the same
binding, every poll group hangs on one endpoint, and no lookup of a poll fails. What
is left of NotFound in a poll is an error that the transport itself answers, as the
replay of a journal does once its frames are used up. -/

namespace OpcServer.Core

open Domain Project

section Coherence

variable [Platform]

/-! ### Lookups -/

namespace RuntimeIndex

theorem bindTags_tags (device : Device) (next : TagId) (tags : List Tag) :
    (bindTags device next tags).map TagBinding.tag = tags := by
  induction tags generalizing next with
  | nil => rfl
  | cons tag rest ih => rw [bindTags, List.map_cons, ih]

theorem bindDevices_tags (next : TagId) (devices : List Device) :
    (bindDevices next devices).map TagBinding.tag = devices.flatMap Device.tags := by
  induction devices generalizing next with
  | nil => rfl
  | cons d rest ih => rw [bindDevices, List.map_append, bindTags_tags, ih, List.flatMap_cons]

/-- The binding of a tag of a device. -/
theorem exists_binding (next : TagId) {devices : List Device} {d : Device} {tag : Tag}
    (hd : d ∈ devices) (ht : tag ∈ d.tags) :
    ∃ b ∈ bindDevices next devices, b.tag = tag ∧ b.deviceId = d.id ∧
      b.endpointId = d.endpointId := by
  induction devices generalizing next with
  | nil => cases hd
  | cons d' rest ih =>
    rcases List.mem_cons.mp hd with rfl | hd
    · obtain ⟨b, hb, rfl⟩ := exists_mem_bindTags d next ht
      obtain ⟨-, hid, hep, -⟩ := mem_bindTags hb
      exact ⟨b, List.mem_append_left _ hb, rfl, hid, hep⟩
    · obtain ⟨b, hb, h⟩ := ih (next + d'.tags.length) hd
      exact ⟨b, List.mem_append_right _ hb, h⟩

end RuntimeIndex

section Lookups
variable {project : Project}

theorem findByName_of_mem (h : project.Consistent) {b : TagBinding}
    (hb : b ∈ (RuntimeIndex.build project).tags) :
    (RuntimeIndex.build project).findByName b.tag.name = some b := by
  have hnodup : ((RuntimeIndex.build project).tags.map fun b => b.tag.name).Nodup := by
    have := h.tagNames.1
    rw [← RuntimeIndex.bindDevices_tags 1, List.map_map] at this
    exact this
  exact find?_of_nodup (fun b : TagBinding => b.tag.name) hnodup hb

theorem device_of_mem (h : project.Consistent) {d : Device} (hd : d ∈ project.devices) :
    (RuntimeIndex.build project).device d.id = some d :=
  find?_of_nodup Device.id h.deviceIds.1 hd

theorem endpoint_isSome {ep : Endpoint} (h : ep ∈ project.endpoints) :
    ((RuntimeIndex.build project).endpoint ep.id).isSome := by
  rw [RuntimeIndex.endpoint, List.find?_isSome]
  exact ⟨ep, h, by simp⟩

/-- The device of a group, with the endpoint it is on. -/
theorem group_device (h : project.Consistent) {g : PollGroup} (hg : g ∈ project.pollGroups) :
    ∃ d ∈ project.devices, (RuntimeIndex.build project).device g.deviceId = some d ∧
      (∀ name ∈ g.tagNames, ∃ t ∈ d.tags, t.name = name) ∧
      ∃ ep ∈ project.endpoints, ep.id = d.endpointId := by
  obtain ⟨d, hd, hid, hnames⟩ := h.groups g hg
  exact ⟨d, hd, hid ▸ device_of_mem h hd, hnames, h.endpoints d hd⟩

theorem mem_groupsForEndpoint {index : RuntimeIndex} {g : PollGroup} {endpointId : String} :
    g ∈ index.groupsForEndpoint endpointId ↔ g ∈ index.project.pollGroups ∧
      ∃ d, index.device g.deviceId = some d ∧ d.endpointId = endpointId := by
  rw [RuntimeIndex.groupsForEndpoint, List.mem_filter]
  cases index.device g.deviceId <;> simp

end Lookups

/-- The lookups of an index agree with its project: every tag is found under its name
and under its id, ids count from one, and every group is on one endpoint. -/
structure RuntimeIndex.Coherent (index : RuntimeIndex) : Prop where
  tags : ∀ d ∈ index.project.devices, ∀ t ∈ d.tags, ∃ b, b.tag = t ∧ b.deviceId = d.id ∧
    b.endpointId = d.endpointId ∧ index.findByName t.name = some b ∧
    index.findById b.id = some b
  ids : index.tags.map TagBinding.id = List.range' 1 index.tags.length
  count : index.tags.map TagBinding.tag = index.project.devices.flatMap Device.tags
  groups : ∀ g ∈ index.project.pollGroups,
    ∃! ep, ep ∈ index.project.endpoints ∧ g ∈ index.groupsForEndpoint ep.id

theorem build_coherent {project : Project} (h : project.Consistent) :
    (RuntimeIndex.build project).Coherent where
  ids := RuntimeIndex.bindDevices_ids 1 project.devices
  count := RuntimeIndex.bindDevices_tags 1 project.devices
  tags := by
    intro d hd t ht
    obtain ⟨b, hb, rfl, hid, hep⟩ := RuntimeIndex.exists_binding 1 hd ht
    exact ⟨b, rfl, hid, hep, findByName_of_mem h hb, RuntimeIndex.findById_of_mem hb⟩
  groups := by
    intro g hg
    obtain ⟨d, -, hdev, -, ep, hep, hid⟩ := group_device h hg
    refine ⟨ep, ⟨hep, mem_groupsForEndpoint.mpr ⟨hg, d, hdev, hid.symm⟩⟩, ?_⟩
    rintro ep' ⟨hep', hg'⟩
    obtain ⟨-, d', hdev', hid'⟩ := mem_groupsForEndpoint.mp hg'
    rw [hdev] at hdev'
    cases hdev'
    exact List.inj_on_of_nodup_map h.endpointIds.1 hep' hep (hid'.symm.trans hid.symm)

/-! ### NotFound -/

/-- The result is not a NotFound error. -/
def Found {α : Type} (r : Result α) : Prop := ∀ e, r = .error e → e.code ≠ .notFound

section Found

omit [Platform]
variable {α β : Type}

theorem Found.ok (a : α) : Found (.ok a : Result α) := by
  intro e h
  cases h

theorem Found.error {e : Error} (h : e.code ≠ .notFound) : Found (.error e : Result α) := by
  intro e' he
  cases he
  exact h

theorem Found.bind {x : Result α} {f : α → Result β} (hx : Found x) (hf : ∀ a, Found (f a)) :
    Found (x >>= f) := by
  cases x with
  | error e => exact .error (hx e rfl)
  | ok a => exact hf a

theorem Found.map {x : Result α} (f : α → β) (hx : Found x) : Found (x.map f) := by
  cases x with
  | error e => exact .error (hx e rfl)
  | ok a => exact .ok (f a)

theorem transportError_code (e : Error) : (transportError e).code = e.code := by
  unfold transportError
  split <;> rfl

end Found

namespace Translator

theorem found_scalarToDouble (value : ScalarValue) : Found (scalarToDouble value) := by
  cases value with
  | monostate => exact .error (by decide)
  | _ => exact .ok _

theorem found_invertScale (eng : Double) (tag : Tag) : Found (invertScale eng tag) := by
  unfold invertScale
  dsimp only
  split_ifs <;> first | exact .ok _ | exact .error (by decide)

theorem found_checkedIntegral (lowest highest : ℤ) (value : Double) :
    Found (checkedIntegral lowest highest value) := by
  unfold checkedIntegral
  dsimp only
  split_ifs <;> first | exact .ok _ | exact .error (by decide)

omit [Platform] in
theorem found_reorderU16 (raw : UInt16) (order : String) : Found (reorderU16 raw order) := by
  unfold reorderU16
  split_ifs <;> first | exact .ok _ | exact .error (by decide)

omit [Platform] in
theorem found_permute (order : String) (bytes : Bytes4) : Found (permute order bytes) := by
  unfold permute
  dsimp only
  split_ifs <;> first | exact .ok _ | exact .error (by decide)

theorem found_encode (tag : Tag) (value : ScalarValue) : Found (encode tag value) := by
  unfold encode
  cases tag.type with
  | bool =>
    cases value with
    | bool b => exact .ok _
    | _ => exact .error (by decide)
  | uint16 =>
    refine (found_scalarToDouble value).bind fun v => (found_invertScale v tag).bind fun raw => ?_
    exact ((found_checkedIntegral _ _ raw).map _).bind fun n =>
      (found_reorderU16 n _).bind fun r => .ok _
  | int16 =>
    refine (found_scalarToDouble value).bind fun v => (found_invertScale v tag).bind fun raw => ?_
    exact ((found_checkedIntegral _ _ raw).map _).bind fun n =>
      (found_reorderU16 _ _).bind fun r => .ok _
  | uint32 | int32 =>
    refine (found_scalarToDouble value).bind fun v => (found_invertScale v tag).bind fun raw => ?_
    exact ((found_checkedIntegral _ _ raw).map _).bind fun n =>
      ((found_permute _ _).map _).bind fun r => .ok _
  | float32 =>
    refine (found_scalarToDouble value).bind fun v => (found_invertScale v tag).bind fun raw => ?_
    dsimp only
    split
    · exact .error (by decide)
    · exact ((found_permute _ _).map _).bind fun r => .ok _
  | float64 =>
    exact (found_scalarToDouble value).bind fun v => (found_invertScale v tag).bind fun raw => .ok _

theorem found_decode (tag : Tag) (registers : List UInt16) : Found (decode tag registers) := by
  unfold decode decodeM
  unfold ensureCount
  split
  · rename_i e h
    split at h
    · cases h
      exact .error (by decide)
    · cases h
  · cases tag.type with
    | bool => exact .ok _
    | uint16 | int16 =>
      exact (found_reorderU16 _ _).bind fun raw =>
        ((found_checkedIntegral _ _ _).map _).bind fun n => .ok _
    | uint32 | int32 =>
      dsimp only
      split
      · exact .error (by decide)
      · exact (found_permute _ _).bind fun bytes =>
          ((found_checkedIntegral _ _ _).map _).bind fun n => .ok _
    | float32 =>
      dsimp only
      split
      · exact .error (by decide)
      · exact (found_permute _ _).bind fun bytes => .ok _
    | float64 => exact .ok _

end Translator

/-! ### The calls of a transport -/

section Calls
variable {σ : Type} (transport : IModbusTransport σ)

/-- The request of a call of the endpoint's transport. -/
def Event.request? (endpointId : String) : Event → Option Request
  | .call ep request _ _ => if ep = endpointId then some request else none
  | _ => none

/-- The calls of the endpoint's transport in a trace. -/
def requests (endpointId : String) (trace : List Event) : List Request :=
  trace.filterMap (Event.request? endpointId)

/-- The error a call answers with, if any, and the transport after it. -/
def IModbusTransport.reply (request : Request) (t : σ) : Option Error × σ :=
  match request with
  | .connect host port => (error? (transport.connect host port t).1, (transport.connect host port t).2)
  | .registers r => (error? (transport.readRegisters r t).1, (transport.readRegisters r t).2)
  | .bits r => (error? (transport.readBits r t).1, (transport.readBits r t).2)
  | .write r => (error? (transport.write r t).1, (transport.write r t).2)
where
  error? {α : Type} : Result α → Option Error
    | .error e => some e
    | .ok _ => none

/-- The errors of some calls, made one after another, and the transport after them. -/
def IModbusTransport.serve : List Request → σ → List (Option Error) × σ
  | [], t => ([], t)
  | request :: rest, t =>
    ((transport.reply request t).1 :: (serve rest (transport.reply request t).2).1,
      (serve rest (transport.reply request t).2).2)

omit [Platform] in
theorem serve_append (first second : List Request) (t : σ) :
    transport.serve (first ++ second) t =
      ((transport.serve first t).1 ++ (transport.serve second (transport.serve first t).2).1,
        (transport.serve second (transport.serve first t).2).2) := by
  induction first generalizing t with
  | nil => rfl
  | cons request rest ih => simp [IModbusTransport.serve, ih]

/-- A result that is NotFound only by one of some calls, whose answer it hands on, with the
component of the dispatcher where the transport gave none. -/
def HandsOn (made : List Request) (t : σ) (r : Result Unit) : Prop :=
  ∀ e, r = .error e → e.code = .notFound → ∃ e', some e' ∈ (transport.serve made t).1 ∧
    (e = e' ∨ e = transportError e')

/-- A part of a poll makes some calls, and hands on an answer of one of them if it fails
with NotFound. -/
structure Stage (endpointId : String) (made : List Request) (d d' : Dispatcher) (t t' : σ)
    (r : Result Unit) : Prop where
  calls : requests endpointId d'.trace = requests endpointId d.trace ++ made
  served : (transport.serve made t).2 = t'
  handsOn : HandsOn transport made t r

variable {transport}

omit [Platform] in
theorem HandsOn.of_found {made : List Request} {t : σ} {r : Result Unit} (h : Found r) :
    HandsOn transport made t r := by
  intro e he hcode
  exact absurd hcode (h e he)

namespace Stage

variable {endpointId : String} {made made' : List Request} {d d' d'' : Dispatcher} {t t' t'' : σ}
  {r r' : Result Unit}

/-- A part that makes no call. -/
theorem quiet (hcalls : requests endpointId d'.trace = requests endpointId d.trace) (h : Found r) :
    Stage transport endpointId [] d d' t t r where
  calls := by rw [hcalls, List.append_nil]
  served := rfl
  handsOn := .of_found h

/-- The part after one that succeeded. -/
theorem trans (h : Stage transport endpointId made d d' t t' r)
    (h' : Stage transport endpointId made' d' d'' t' t'' r') :
    Stage transport endpointId (made ++ made') d d'' t t'' r' where
  calls := by rw [h'.calls, h.calls, List.append_assoc]
  served := by rw [serve_append, h.served, h'.served]
  handsOn := by
    intro e he hcode
    obtain ⟨e', hmem, heq⟩ := h'.handsOn e he hcode
    refine ⟨e', ?_, heq⟩
    rw [serve_append, h.served]
    exact List.mem_append_right _ hmem

/-- A part seen from dispatchers with the same calls. -/
theorem congr {b b' : Dispatcher} (h : Stage transport endpointId made d d' t t' r)
    (hbefore : requests endpointId d.trace = requests endpointId b.trace)
    (hafter : requests endpointId b'.trace = requests endpointId d'.trace) :
    Stage transport endpointId made b b' t t' r where
  calls := by rw [hafter, h.calls, hbefore]
  served := h.served
  handsOn := h.handsOn

/-- One call whose error is handed on. -/
theorem call {request : Request} (h : transport.reply request t = (IModbusTransport.reply.error? r, t'))
    (ok : Bool) (carried : List PendingWrite)
    (hd : d'.trace = d.trace ++ [.call endpointId request ok carried]) :
    Stage transport endpointId [request] d d' t t' r where
  calls := by simp [requests, hd, Event.request?]
  served := by simp [IModbusTransport.serve, h]
  handsOn := by
    rintro e rfl -
    exact ⟨e, by simp [IModbusTransport.serve, h, IModbusTransport.reply.error?], .inl rfl⟩

end Stage

/-! ### What is no call -/

section Quiet
variable (endpointId : String) (d : Dispatcher)

theorem requests_record {e : Event} (h : e.request? endpointId = none) :
    requests endpointId (d.record e).trace = requests endpointId d.trace := by
  simp [requests, Dispatcher.record, h]

theorem requests_publish (id : TagId) (value : TagValue) (cause : Option PendingWrite) :
    requests endpointId (d.publish id value cause).trace = requests endpointId d.trace := by
  simp [requests, Dispatcher.publish, Event.request?]

/-- Publishing for one thing after another makes no call. -/
theorem requests_foldl {α : Type} (f : Dispatcher → α → Dispatcher)
    (hf : ∀ d a, requests endpointId (f d a).trace = requests endpointId d.trace) (as : List α) :
    requests endpointId (as.foldl f d).trace = requests endpointId d.trace := by
  induction as generalizing d with
  | nil => rfl
  | cons a rest ih => rw [List.foldl_cons, ih, hf]

theorem requests_confirm (now : TimestampMs) (writes : List PendingWrite) :
    requests endpointId (writes.foldl (Dispatcher.confirm now) d).trace =
      requests endpointId d.trace :=
  requests_foldl endpointId d _ (fun d _ => requests_publish endpointId d _ _ _) writes

theorem requests_reject (now : TimestampMs) (reason : QualityReason) (write : PendingWrite)
    (ep : String) (back : List PendingWrite) :
    requests endpointId ((d.reject now reason write).requeue ep back).trace =
      requests endpointId d.trace := requests_publish endpointId d _ _ _

theorem requests_markEndpointBad (index : RuntimeIndex) (ep : String) (reason : QualityReason)
    (now : TimestampMs) : requests endpointId (d.markEndpointBad index ep reason now).trace =
      requests endpointId d.trace :=
  requests_foldl endpointId d _ (fun d _ => requests_publish endpointId d _ _ _) _

/-- Each answer adds the call that asked for it. -/
theorem requests_absorb (reason : TagBinding → Error → QualityReason) (now : TimestampMs)
    (as : List Answer) : requests endpointId
      (as.foldl (Dispatcher.absorb reason endpointId now) d).trace =
        requests endpointId d.trace ++ (as.map Answer.binding).map readRequest := by
  induction as generalizing d with
  | nil => simp
  | cons a rest ih =>
    rw [List.foldl_cons, ih]
    simp [Dispatcher.absorb, requests, Dispatcher.publish, Dispatcher.record, Event.request?]

end Quiet

/-! ### The reads -/

/-- A read is answered as the call that asks for it. -/
theorem reply_readRequest (b : TagBinding) (t : σ) : transport.reply (readRequest b) t =
    (IModbusTransport.reply.error? (ask transport b t).1, (ask transport b t).2) := by
  have hbits : ∀ r : Result (List Bool),
      IModbusTransport.reply.error? (r.map asRegs) = IModbusTransport.reply.error? r := by
    rintro (_ | _) <;> rfl
  unfold readRequest ask
  cases b.tag.area with
  | holding | input => rfl
  | coil | discrete => simp only [IModbusTransport.reply, Prod.map, hbits, id]

theorem serve_reads (tags : List TagBinding) (t : σ) :
    transport.serve (tags.map readRequest) t =
      ((answers transport tags t).1.map fun a => IModbusTransport.reply.error? a.regs,
        (answers transport tags t).2) := by
  induction tags generalizing t with
  | nil => rfl
  | cons b rest ih =>
    simp only [List.map_cons, IModbusTransport.serve, reply_readRequest, ih, answers]

theorem answers_tags (tags : List TagBinding) (t : σ) :
    (answers transport tags t).1.map Answer.binding = tags := by
  induction tags generalizing t with
  | nil => rfl
  | cons b rest ih => simp [answers, ih]

/-- An answer is reported with NotFound if it was a NotFound itself. -/
theorem outcome_notFound {a : Answer} {e : Error} (h : a.outcome = .error e)
    (hcode : e.code = .notFound) : ∃ e', a.regs = .error e' ∧ e = transportError e' := by
  obtain ⟨b, regs⟩ := a
  cases regs with
  | error e' =>
    cases h
    exact ⟨e', rfl, rfl⟩
  | ok regs => exact absurd hcode ((Translator.found_decode b.tag regs).map _ e h)

theorem outcomes_notFound {as : List Answer} {first : Result Unit} (hfirst : Found first) {e : Error}
    (h : outcomes first as = .error e) (hcode : e.code = .notFound) :
    ∃ a ∈ as, ∃ e', a.regs = .error e' ∧ e = transportError e' := by
  induction as generalizing first with
  | nil => exact absurd hcode (hfirst e h)
  | cons a rest ih =>
    change outcomes (firstError first a.outcome) rest = .error e at h
    by_cases hfound : Found (firstError first a.outcome)
    · obtain ⟨a', ha', hregs⟩ := ih hfound h
      exact ⟨a', List.mem_cons_of_mem _ ha', hregs⟩
    · -- this answer is the first error, and stays it
      obtain ⟨e', he', hcode'⟩ : ∃ e', firstError first a.outcome = .error e' ∧
          e'.code = .notFound := by simpa [Found] using hfound
      cases first with
      | error e'' => exact absurd hcode' (hfirst e' he')
      | ok u =>
        rw [he', outcomes_error] at h
        obtain rfl := Except.error.inj h
        obtain ⟨e'', hregs, heq⟩ := outcome_notFound he' hcode
        exact ⟨a, List.mem_cons_self, e'', hregs, heq⟩

/-- The reads of a poll, with what it reports for them. -/
theorem reads_stage (endpointId : String) (reason : TagBinding → Error → QualityReason)
    (now : TimestampMs) (tags : List TagBinding) (d : Dispatcher) (t : σ) :
    Stage transport endpointId (tags.map readRequest) d
      ((answers transport tags t).1.foldl (Dispatcher.absorb reason endpointId now) d) t
      (answers transport tags t).2 (outcomes (.ok ()) (answers transport tags t).1) where
  calls := by
    rw [requests_absorb, answers_tags]
  served := by rw [serve_reads]
  handsOn := by
    intro e he hcode
    obtain ⟨a, ha, e', hregs, heq⟩ := outcomes_notFound (.ok ()) he hcode
    refine ⟨e', ?_, .inr heq⟩
    rw [serve_reads, List.mem_map]
    exact ⟨a, ha, by rw [hregs]; rfl⟩

end Calls

/-! ### The writes -/

theorem coalesce_failed_found {index : RuntimeIndex} {unit : UInt8} {nextAddr : ℤ}
    {bits : List UInt8} {batch taken rest : List PendingWrite} {write : PendingWrite} {e : Error}
    (h : coalesce index unit nextAddr bits batch = .failed taken write e rest) :
    e.code ≠ .notFound := by
  induction batch generalizing nextAddr bits taken with
  | nil => cases h
  | cons first batch ih =>
    simp only [coalesce] at h
    split at h
    · cases h
    · split at h
      · rename_i he
        cases h
        exact Translator.found_encode _ _ e he
      · obtain ⟨t, hc, rfl⟩ := join_eq_failed h
        exact ih hc

/-- A write that does not encode fails with an error of the encoder. -/
theorem found_unencodable {index : RuntimeIndex} {write bad : PendingWrite} {e : Error}
    {batch lost rest : List PendingWrite}
    (h : plan index write batch = .unencodable lost bad e rest) : e.code ≠ .notFound := by
  unfold plan at h
  split at h
  · cases h
  · split at h
    · rename_i he
      cases h
      exact Translator.found_encode _ _ e he
    · dsimp only at h
      split at h
      · split at h
        · rename_i hc
          cases h
          exact coalesce_failed_found hc
        · cases h
      · cases h

section Poll
variable {σ : Type} (index : RuntimeIndex) (transport : IModbusTransport σ) (endpointId : String)

theorem flushLoop_stage (clock : TimestampMs) (batch : List PendingWrite) (s : Session σ) :
    ∃ made, Stage transport endpointId made s.dispatcher
      (flushLoop index transport endpointId clock 0 batch s).2.dispatcher s.transport
      (flushLoop index transport endpointId clock 0 batch s).2.transport
      (flushLoop index transport endpointId clock 0 batch s).1 := by
  induction batch using batch_induction index generalizing s with
  | nil =>
    rw [flushLoop_nil]
    exact ⟨[], .quiet rfl (.ok ())⟩
  | skip write batch hp ih =>
    rw [flushLoop_cons, hp]
    exact ih s
  | unencodable write batch lost bad e rest hp =>
    rw [flushLoop_cons, hp]
    exact ⟨[], .quiet (requests_reject ..) (.error (found_unencodable hp))⟩
  | send write tail rest request hp ih =>
    rw [flushLoop_cons, hp]
    dsimp only
    cases hc : callWrite transport endpointId request (write :: tail) s with
    | mk r s' =>
      obtain ⟨hw, hd⟩ := callWrite_eq transport endpointId hc
      have hcall : Stage transport endpointId [.write request] s.dispatcher s'.dispatcher s.transport
          s'.transport r :=
        .call (by rw [IModbusTransport.reply, hw]) r.isOk (write :: tail) (by rw [hd]; rfl)
      cases r with
      | error e => exact ⟨_, hcall.congr rfl (requests_reject ..)⟩
      | ok u =>
        obtain ⟨made, hrest⟩ := ih ⟨s'.transport,
          (write :: tail).foldl (Dispatcher.confirm clock) s'.dispatcher⟩
        exact ⟨_, hcall.trans (hrest.congr (requests_confirm ..) rfl)⟩

/-- The part of a poll that leads from one world to another, over the endpoint's transport. -/
def Leads (w : World σ) (t : σ) (r : Result Unit × World σ) : Prop :=
  ∃ made t', r.2.transports endpointId = some t' ∧
    Stage transport endpointId made w.dispatcher r.2.dispatcher t t' r.1

theorem flushWrites_leads (clock : TimestampMs) {w : World σ} {t : σ}
    (ht : w.transports endpointId = some t) :
    Leads transport endpointId w t (flushWrites index transport endpointId clock w) := by
  obtain ⟨-, heq⟩ | ⟨hnone, -⟩ | ⟨t', r, s, ht', hloop, heq⟩ :=
    flushWrites_cases index transport endpointId clock w
  · rw [heq]
    exact ⟨[], t, ht, .quiet (requests_record endpointId _ rfl) (.ok ())⟩
  · rw [ht] at hnone
    cases hnone
  · rw [ht] at ht'
    cases ht'
    obtain ⟨made, hstage⟩ := flushLoop_stage index transport endpointId clock
      (w.dispatcher.writeQueues endpointId) ⟨t, w.dispatcher.setQueue endpointId []⟩
    rw [hloop] at hstage
    rw [heq]
    exact ⟨made, s.transport, by simp [World.update],
      hstage.congr rfl (requests_record endpointId _ rfl)⟩

theorem prepare_leads (now clock : TimestampMs) {w : World σ} {t : σ}
    (ht : w.transports endpointId = some t) (hep : (index.endpoint endpointId).isSome) :
    Leads transport endpointId w t (prepare index transport endpointId now clock w) := by
  obtain ⟨ep, hfind⟩ := Option.isSome_iff_exists.mp hep
  unfold prepare
  simp only [ht, hfind]
  split
  · exact flushWrites_leads index transport endpointId clock ht
  · rw [connectEndpoint, World.call_eq endpointId ht]
    have hcall : Stage transport endpointId [.connect ep.host ep.port] w.dispatcher
        (w.dispatcher.record (.call endpointId (.connect ep.host ep.port)
          (transport.connect ep.host ep.port t).1.isOk [])) t
        (transport.connect ep.host ep.port t).2 (transport.connect ep.host ep.port t).1 :=
      .call rfl _ [] rfl
    cases hr : (transport.connect ep.host ep.port t).1 with
    | error e =>
      rw [hr] at hcall
      exact ⟨_, _, by simp [World.mapDispatcher], hcall.congr rfl (requests_markEndpointBad ..)⟩
    | ok u =>
      rw [hr] at hcall
      obtain ⟨made, t', ht', hflush⟩ := flushWrites_leads index transport endpointId clock
        (w := ⟨w.dispatcher.record (.call endpointId (.connect ep.host ep.port) (Except.ok u).isOk []),
          Function.update w.transports endpointId (some (transport.connect ep.host ep.port t).2)⟩)
        (t := (transport.connect ep.host ep.port t).2) (by simp)
      exact ⟨_, t', ht', hcall.trans hflush⟩

/-- Where every group of the endpoint finds its device and tags, a poll that fails with
NotFound hands on the answer of a call it made. -/
theorem pollDue_leads (now clock : TimestampMs) {w : World σ} {t : σ}
    (ht : w.transports endpointId = some t) (hep : (index.endpoint endpointId).isSome)
    (hgroups : ∀ g ∈ index.groupsForEndpoint endpointId, Resolved index g) :
    Leads transport endpointId w t (pollDue index transport endpointId now clock w) := by
  obtain ⟨made, t', ht', hprepare⟩ := prepare_leads index transport endpointId now clock ht hep
  rw [pollDue_eq]
  cases hp : prepare index transport endpointId now clock w with
  | mk r w' =>
    rw [hp] at ht' hprepare
    cases r with
    | error e => exact ⟨made, t', ht', hprepare⟩
    | ok u =>
      obtain ⟨tags, times, hdue⟩ := collectDue_eq (σ := σ) index endpointId now
        (index.groupsForEndpoint endpointId) w'.dispatcher.lastPollMs
      have hpoll := pollTags_eq transport endpointId now tags (.ok ())
        (w := w'.mapDispatcher fun d => d.setPollTimes times) ht'
      simp only [pollGroups_eq index transport endpointId now hgroups _ ht', hdue w' rfl, hpoll]
      have hreads : Stage transport endpointId (tags.map readRequest)
          (w'.dispatcher.setPollTimes times) _ t' _ _ :=
        reads_stage endpointId syncReason now tags _ t'
      exact ⟨_, _, World.absorb_transports .., hprepare.trans (hreads.congr rfl rfl)⟩

end Poll

/-! ### Accepted projects -/

/-- An accepted project is consistent, its index is coherent, and a poll of one of its
endpoints that fails with NotFound hands on the answer of a call that it made of its
transport. -/
theorem accepted_project_coherent {lib : JsonLibrary} (hlib : lib.ReportsViolations)
    {text sourceName : String} (hok : (loadJsonText lib text sourceName).ok = true) :
    let project := (loadJsonText lib text sourceName).project
    let index := RuntimeIndex.build project
    project.Consistent ∧ index.Coherent ∧
      ∀ ep ∈ project.endpoints, ∀ {σ : Type} (transport : IModbusTransport σ)
        (now clock : TimestampMs) (w : World σ) (t : σ), w.transports ep.id = some t →
        let poll := pollDue index transport ep.id now clock w
        ∃ made, requests ep.id poll.2.dispatcher.trace = requests ep.id w.dispatcher.trace ++ made ∧
          poll.2.transports ep.id = some (transport.serve made t).2 ∧
          ∀ e, poll.1 = .error e → e.code = .notFound →
            ∃ e', some e' ∈ (transport.serve made t).1 ∧ (e = e' ∨ e = transportError e') := by
  intro project index
  have hcons : project.Consistent := loadJsonText_consistent hlib hok
  have hchecked : project.Checked := loadJsonText_checked hlib hok
  refine ⟨hcons, build_coherent hcons, ?_⟩
  intro ep hep σ transport now clock w t ht
  obtain ⟨made, t', ht', hstage⟩ := pollDue_leads index transport ep.id now clock ht
    (endpoint_isSome hep) fun g hg => resolved_of_checked hchecked hg
  exact ⟨made, hstage.calls, by rw [ht', hstage.served], hstage.handsOn⟩

end Coherence

/-! ### A journal played to its end -/

attribute [local instance] exactPlatform

/-- A level that is polled every 100 ms. -/
def levelSite : LoadResult :=
  loadDocument (siteDocument 0 [tagDocument "level" "holding" "uint16" 0 false])

/-- A connected replay without a frame left. -/
def exhausted : Adapters.ReplayModbusTransport := { frames := [], connected := true }

def replayPoll : Result Unit × World Adapters.ReplayModbusTransport :=
  pollDue (RuntimeIndex.build levelSite.project) Adapters.ReplayModbusTransport.port "plc" 1000 1000
    { transports := fun _ => some exhausted }

theorem levelSite_coherent : levelSite.ok = true ∧ levelSite.project.Consistent ∧
    (RuntimeIndex.build levelSite.project).Coherent ∧
    ∃ made, requests "plc" replayPoll.2.dispatcher.trace = made ∧
      ∃ e, some e ∈ (Adapters.ReplayModbusTransport.port.serve made exhausted).1 ∧
        e.code = .notFound := by
  have hok : levelSite.ok = true := by decide +kernel
  obtain ⟨hcons, hcoherent, hpoll⟩ :=
    accepted_project_coherent (JsonLibrary.reading_reports _) hok
  have hmem : { id := "plc", host := "10.0.0.2" } ∈ levelSite.project.endpoints := by
    decide +kernel
  have herr : replayPoll.1 = .error (Adapters.replayErr .notFound "replay exhausted") := by
    decide +kernel
  obtain ⟨made, hmade, -, hanswer⟩ := hpoll _ hmem Adapters.ReplayModbusTransport.port 1000 1000
    { transports := fun _ => some exhausted } exhausted rfl
  obtain ⟨e, he, heq⟩ := hanswer _ herr rfl
  refine ⟨hok, hcons, hcoherent, made, hmade, e, he, ?_⟩
  rcases heq with rfl | heq
  · rfl
  · exact (transportError_code e).symm.trans (congrArg Error.code heq.symm)

theorem exhausted_replay_not_found : levelSite.ok = true ∧
    (∃ ep ∈ levelSite.project.endpoints, ep.id = "plc") ∧
    ∃ e, replayPoll.1 = .error e ∧ e.code = .notFound := by
  refine ⟨by decide +kernel, ⟨{ id := "plc", host := "10.0.0.2" }, by decide +kernel, rfl⟩,
    Adapters.replayErr .notFound "replay exhausted", by decide +kernel, rfl⟩

end OpcServer.Core
