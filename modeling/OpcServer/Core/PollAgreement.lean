import OpcServer.Core.PollReads
import OpcServer.Project.LoadText
import Mathlib.Data.List.Induction

/-! Agreement of the asynchronous poll with the synchronous one on accepted projects.
Both absorb the same answers, so they differ at most in the reasons they publish: a
coil or discrete read that ends in a timeout or in a Modbus exception is published
as NoCommunication by the one and under its own reason by the other. A later read of
the same tag in the same poll hides the difference. -/

namespace OpcServer.Core

open Domain Project

section Agreement
variable [Platform]

/-- The transport calls among some events. -/
def calls (events : List Event) : List Event :=
  events.filter fun
    | .call .. => true
    | _ => false

/-- An asynchronous poll ended as a synchronous one did: `done` was called once with its
result, and the dispatcher is in the same state after the same calls. -/
structure Agrees {σ : Type} (sync : Result Unit × World σ) (async : Async σ) : Prop where
  completed : async.completed = [sync.1]
  tagStore : async.world.dispatcher.tagStore = sync.2.dispatcher.tagStore
  writeQueues : async.world.dispatcher.writeQueues = sync.2.dispatcher.writeQueues
  lastPollMs : async.world.dispatcher.lastPollMs = sync.2.dispatcher.lastPollMs
  calls : calls async.world.dispatcher.trace = calls sync.2.dispatcher.trace

/-- A coil or discrete read that failed with an error that has a reason of its own. -/
def Answer.misreported (a : Answer) : Bool :=
  match a.regs with
  | .ok _ => false
  | .error e => (a.binding.tag.area == .coil || a.binding.tag.area == .discrete) &&
      (e.code == .timeout || e.code == .modbusException)

/-- The last answer for a tag. -/
def lastRead (id : TagId) (as : List Answer) : Option Answer :=
  as.reverse.find? fun a => a.binding.id == id

theorem mem_of_lastRead {id : TagId} {as : List Answer} {a : Answer} (h : a ∈ lastRead id as) :
    a ∈ as :=
  List.mem_reverse.mp (List.mem_of_find?_eq_some h)

/-! ### Published values -/

def eraseReason (v : TagValue) : TagValue := { v with reason := .none }

theorem syncReason_eq_iff (b : TagBinding) (e : Error) :
    syncReason b e = asyncReason b e ↔ (Answer.mk b (.error e)).misreported = false := by
  cases harea : b.tag.area <;> cases hcode : e.code <;>
    simp [syncReason, asyncReason, readReason, Answer.misreported, harea, hcode]

theorem qualityUpdate_erase {previous previous' : Option TagValue}
    (h : previous.map eraseReason = previous'.map eraseReason) (reason : QualityReason)
    (now : TimestampMs) :
    Dispatcher.qualityUpdate previous .bad reason now none =
      Dispatcher.qualityUpdate previous' .bad reason now none := by
  simp only [Dispatcher.qualityUpdate, withQuality_eq]
  cases previous with
  | none =>
    rw [Option.map_none, eq_comm, Option.map_eq_none_iff] at h
    rw [h]
  | some v =>
    cases previous' with
    | none => cases h
    | some v' =>
      simp only [Option.map_some, Option.some.injEq, eraseReason, TagValue.mk.injEq] at h
      obtain ⟨hvalue, -, -, hsource, -, hepoch⟩ := h
      simp only [Option.getD_some, hvalue, hsource, hepoch]

theorem published_agree {a : Answer} {previous previous' : Option TagValue}
    (h : previous.map eraseReason = previous'.map eraseReason) (now : TimestampMs) :
    eraseReason (a.published syncReason now previous) =
        eraseReason (a.published asyncReason now previous') ∧
      (a.published asyncReason now previous' = a.published syncReason now previous ↔
        a.misreported = false) := by
  obtain ⟨b, regs⟩ := a
  cases regs with
  | error e =>
    simp only [Answer.published, qualityUpdate_erase h]
    constructor
    · simp [Dispatcher.qualityUpdate, withQuality_eq, eraseReason]
    · rw [← syncReason_eq_iff]
      simp [Dispatcher.qualityUpdate, withQuality_eq, eq_comm]
  | ok regs =>
    simp only [Answer.published, Answer.misreported, iff_true]
    cases Translator.decode b.tag regs with
    | error e => simp only [qualityUpdate_erase h, and_self]
    | ok value => exact ⟨rfl, rfl⟩

/-! ### Whole lists of answers -/

section Absorb
variable (endpointId : String) (now : TimestampMs)

/-- The stored values agree but for reasons, and agree in full for a tag whose last read
was not misreported. -/
theorem foldl_absorb_get (as : List Answer) (d : Dispatcher) (id : TagId) :
    let sync := (as.foldl (Dispatcher.absorb syncReason endpointId now) d).tagStore.get id
    let async := (as.foldl (Dispatcher.absorb asyncReason endpointId now) d).tagStore.get id
    sync.map eraseReason = async.map eraseReason ∧
      (async = sync ↔ ∀ a ∈ lastRead id as, a.misreported = false) := by
  induction as using List.reverseRecOn with
  | nil => simp [lastRead]
  | append_singleton rest a ih =>
    obtain ⟨herase, hiff⟩ := ih
    simp only [List.foldl_append, List.foldl_cons, List.foldl_nil, lastRead, List.reverse_append,
      List.reverse_cons, List.reverse_nil, List.nil_append, List.singleton_append,
      List.find?_cons]
    by_cases hid : a.binding.id = id
    · subst hid
      simp only [Dispatcher.absorb, Dispatcher.publish, Dispatcher.record, beq_self_eq_true,
        TagStore.get_publish_self, Option.map_some, Option.some.injEq, Option.mem_def,
        forall_eq']
      exact published_agree herase now
    · have hne : (a.binding.id == id) = false := by simpa using hid
      simp only [Dispatcher.absorb, Dispatcher.publish, Dispatcher.record, hne,
        TagStore.get_publish_of_ne _ _ (Ne.symm hid)]
      exact ⟨herase, hiff⟩

theorem foldl_absorb_calls (reason reason' : TagBinding → Error → QualityReason) (as : List Answer)
    {d d' : Dispatcher} (h : calls d.trace = calls d'.trace) :
    calls (as.foldl (Dispatcher.absorb reason endpointId now) d).trace =
      calls (as.foldl (Dispatcher.absorb reason' endpointId now) d').trace := by
  induction as generalizing d d' with
  | nil => exact h
  | cons a rest ih =>
    refine ih ?_
    simpa [calls, Dispatcher.absorb, Dispatcher.publish, Dispatcher.record] using h

/-- Two worlds that absorb the same answers agree exactly when no tag is left with a
misreported error. -/
theorem absorb_agrees_iff {σ : Type} (w : World σ) (as : List Answer) (t : σ) (r : Result Unit) :
    Agrees (r, w.absorb endpointId now syncReason (as, t))
        ⟨w.absorb endpointId now asyncReason (as, t), [r]⟩ ↔
      ∀ id, ∀ a ∈ lastRead id as, a.misreported = false := by
  have hget := foldl_absorb_get endpointId now as w.dispatcher
  have hsync := foldl_absorb_frame syncReason endpointId now as w.dispatcher
  have hasync := foldl_absorb_frame asyncReason endpointId now as w.dispatcher
  constructor
  · intro h id
    exact (hget id).2.mp (congrArg (TagStore.get · id) h.tagStore)
  · intro h
    refine ⟨rfl, TagStore.ext fun id => (hget id).2.mpr (h id), ?_, ?_, ?_⟩
    · exact hasync.2.trans hsync.2.symm
    · exact hasync.1.trans hsync.1.symm
    · exact foldl_absorb_calls endpointId now asyncReason syncReason as rfl

end Absorb

/-! ### Accepted projects -/

/-- In an accepted project every group that is polled finds its device and its tags. -/
theorem resolved_of_checked {project : Project} (h : project.Checked) {endpointId : String}
    {group : PollGroup} (hg : group ∈ (RuntimeIndex.build project).groupsForEndpoint endpointId) :
    Resolved (RuntimeIndex.build project) group := by
  obtain ⟨hmem, hdev⟩ := List.mem_filter.mp hg
  cases hd : (RuntimeIndex.build project).device group.deviceId with
  | none =>
    rw [hd] at hdev
    cases hdev
  | some dev =>
    refine ⟨by rw [hd]; rfl, ?_⟩
    intro name hname
    have hfind : project.devices.find? (fun d => d.id == group.deviceId) = some dev := hd
    have hby : devicesById project group.deviceId = some dev := by
      rw [devicesById, if_neg (h.deviceIds group hmem), hfind]
    obtain ⟨tag, htag, rfl⟩ := (h.groups group hmem).tagNames dev hby name hname
    exact RuntimeIndex.findByName_isSome (List.mem_of_find?_eq_some hfind) htag

/-- On an accepted project the asynchronous poll agrees with the synchronous one exactly
when no tag's last read is a coil or discrete read that the transport answers with a
timeout or a Modbus exception. -/
theorem poll_due_async_agrees_iff {lib : JsonLibrary} (hlib : lib.ReportsViolations)
    {text sourceName : String} (hok : (loadJsonText lib text sourceName).ok = true) {σ : Type}
    (transport : IModbusTransport σ) (endpointId : String) (now clock : TimestampMs)
    (w : World σ) :
    let index := RuntimeIndex.build (loadJsonText lib text sourceName).project
    Agrees (pollDue index transport endpointId now clock w)
        (pollDueAsync index transport endpointId now clock ⟨w, []⟩) ↔
      ∀ id, ∀ a ∈ lastRead id (pollAnswers index transport endpointId now clock w),
        a.misreported = false := by
  intro index
  have hchecked := loadJsonText_checked hlib hok
  have hgroups : ∀ g ∈ index.groupsForEndpoint endpointId, Resolved index g :=
    fun g hg => resolved_of_checked hchecked hg
  rcases polls_eq index transport endpointId now hgroups clock w with
    ⟨e, w', has, hs, ha⟩ | ⟨w', t', hs, ha⟩
  · rw [hs, ha, has]
    exact ⟨fun _ id a h => (by cases h), fun _ => ⟨rfl, rfl, rfl, rfl, rfl⟩⟩
  · rw [hs, ha]
    exact absorb_agrees_iff endpointId now w' _ t' _

end Agreement

/-! ### A coil that times out -/

section Coil

attribute [local instance] exactPlatform

/-- A project with one coil. -/
def coilDocument : Json := siteDocument 0 [tagDocument "running" "coil" "bool" 0 false]

/-- A connected transport that answers every bit read alike. -/
def answering (bits : Result (List Bool)) : IModbusTransport Unit where
  isConnected _ := true
  connect _ _ t := (.ok (), t)
  readRegisters _ t := (.ok [], t)
  readBits _ t := (bits, t)
  write _ t := (.ok (), t)

def coilIndex : RuntimeIndex := .build (loadDocument coilDocument).project

def boundWorld : World Unit := { transports := fun _ => some () }

theorem coil_answer_agrees :
    (loadDocument coilDocument).ok = true ∧
      Agrees (pollDue coilIndex (answering (.ok [true])) "plc" 1000 1000 boundWorld)
        (pollDueAsync coilIndex (answering (.ok [true])) "plc" 1000 1000 ⟨boundWorld, []⟩) := by
  have hok : (loadDocument coilDocument).ok = true := by
    decide +kernel
  refine ⟨hok, (poll_due_async_agrees_iff (JsonLibrary.reading_reports _) hok
    (answering (.ok [true])) "plc" 1000 1000 boundWorld).mpr ?_⟩
  have hall : (pollAnswers coilIndex (answering (.ok [true])) "plc" 1000 1000 boundWorld).all
      (fun a => !a.misreported) = true := by decide +kernel
  intro id a ha
  simpa using List.all_eq_true.mp hall a (mem_of_lastRead ha)

theorem coil_timeout_disagrees :
    (loadDocument coilDocument).ok = true ∧
      ¬ Agrees (pollDue coilIndex (answering (.error { code := .timeout })) "plc" 1000 1000 boundWorld)
        (pollDueAsync coilIndex (answering (.error { code := .timeout })) "plc" 1000 1000
          ⟨boundWorld, []⟩) := by
  refine ⟨by decide +kernel, fun h => ?_⟩
  have hreason := congrArg (fun s : TagStore => (s.get 1).map TagValue.reason) h.tagStore
  revert hreason
  decide +kernel

end Coil

end OpcServer.Core
