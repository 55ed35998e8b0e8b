import OpcServer.Core.RuntimeIndex
import OpcServer.Core.Translator
import Mathlib.Logic.Function.Basic

/-! State of the dispatcher and the port it drives. A transport is a state machine
over an arbitrary state type: every call returns a result and the next state, so
that any pattern of failures and any device is an instance.

The mutable members of the dispatcher are the tag store, the per-group poll times
and the per-endpoint write queues. Three further pieces are ghost, read by no
definition below: the number a pending write carries, the counter it comes from,
and the trace of accepted writes, transport calls, publishes and completed flushes. -/

namespace OpcServer.Core

open Domain Project

/-! ### The transport port -/

inductive RegisterRead where
  | readHoldingRegisters (unit : UInt8) (address quantity : UInt16)
  | readInputRegisters (unit : UInt8) (address quantity : UInt16)
  deriving DecidableEq, Repr

inductive BitRead where
  | readCoils (unit : UInt8) (address quantity : UInt16)
  | readDiscreteInputs (unit : UInt8) (address quantity : UInt16)
  deriving DecidableEq, Repr

inductive WriteRequest where
  | writeSingleRegister (unit : UInt8) (address value : UInt16)
  | writeMultipleRegisters (unit : UInt8) (address : UInt16) (values : List UInt16)
  | writeSingleCoil (unit : UInt8) (address : UInt16) (value : Bool)
  | writeMultipleCoils (unit : UInt8) (address : UInt16) (values : List UInt8)
  deriving DecidableEq, Repr

inductive Request where
  | connect (host : String) (port : UInt16)
  | registers (r : RegisterRead)
  | bits (r : BitRead)
  | write (w : WriteRequest)
  deriving DecidableEq, Repr

/-- The synchronous operations of `IModbusTransport` over a transport state. -/
structure IModbusTransport (σ : Type) where
  isConnected : σ → Bool
  connect : String → UInt16 → σ → Result Unit × σ
  readRegisters : RegisterRead → σ → Result (List UInt16) × σ
  readBits : BitRead → σ → Result (List Bool) × σ
  write : WriteRequest → σ → Result Unit × σ

variable [Platform]

/-! ### The tag store -/

structure TagStore where
  values : TagId → Option TagValue := fun _ => none

namespace TagStore

def get (store : TagStore) (id : TagId) : Option TagValue := store.values id

def publish (store : TagStore) (id : TagId) (value : TagValue) : TagStore :=
  ⟨Function.update store.values id (some value)⟩

/-- A Good value from before the cutoff becomes Uncertain; nothing else of it changes. -/
def markStale (cutoff : TimestampMs) (reason : QualityReason) (value : TagValue) : TagValue :=
  if value.quality = .good ∧ value.serverTs < cutoff then
    { value with quality := .uncertain, reason := reason }
  else value

def markStaleBefore (store : TagStore) (cutoff : TimestampMs) (reason : QualityReason) : TagStore :=
  ⟨fun id => (store.values id).map (markStale cutoff reason)⟩

@[simp] theorem get_publish_self (store : TagStore) (id : TagId) (value : TagValue) :
    (store.publish id value).get id = some value := by simp [get, publish]

@[simp] theorem get_publish_of_ne (store : TagStore) {id other : TagId} (value : TagValue)
    (h : other ≠ id) : (store.publish id value).get other = store.get other := by
  simp [get, publish, h]

@[ext] theorem ext {s t : TagStore} (h : ∀ id, s.get id = t.get id) : s = t := by
  cases s
  cases t
  exact congrArg TagStore.mk (funext h)

end TagStore

/-! ### The dispatcher -/

/-- A queued write. `seq` is ghost: its place in the order of acceptance. -/
structure PendingWrite where
  tagId : TagId := 0
  value : ScalarValue := .monostate
  seq : ℕ := 0
  deriving DecidableEq

/-- What an observer of the dispatcher sees. A write call lists the queued writes it
carries, and a publish the queued write it concludes, if any. -/
inductive Event where
  | accepted (endpoint : String) (write : PendingWrite)
  | call (endpoint : String) (request : Request) (ok : Bool) (carried : List PendingWrite)
  | publish (id : TagId) (value : TagValue) (cause : Option PendingWrite)
  | flushed (endpoint : String) (result : Result Unit)
  deriving DecidableEq

structure Dispatcher where
  tagStore : TagStore := {}
  lastPollMs : String → Option TimestampMs := fun _ => none
  writeQueues : String → List PendingWrite := fun _ => []
  trace : List Event := []
  nextSeq : ℕ := 0

def kMaxWriteQueueDepth : ℕ := 1024

def coreErr (code : ErrorCode) (message : String) (retryable : Bool := false) : Error :=
  { code := code, message := message, component := "core.dispatcher", retryable := retryable }

def transportError (e : Error) : Error :=
  if e.component = "" then { e with component := "core.dispatcher" } else e

namespace Dispatcher

def record (d : Dispatcher) (e : Event) : Dispatcher := { d with trace := d.trace ++ [e] }

def publish (d : Dispatcher) (id : TagId) (value : TagValue) (cause : Option PendingWrite) :
    Dispatcher :=
  { d with tagStore := d.tagStore.publish id value, trace := d.trace ++ [.publish id value cause] }

/-- The value `publish_quality` stores over a previous one. -/
def qualityUpdate (previous : Option TagValue) (quality : Quality) (reason : QualityReason)
    (now : TimestampMs) (value : Option ScalarValue) : TagValue :=
  let next := withQuality previous quality reason now
  match value with
  | some v => { next with value := v, sourceTs := now }
  | none => next

def publishQuality (d : Dispatcher) (id : TagId) (quality : Quality) (reason : QualityReason)
    (now : TimestampMs) (value : Option ScalarValue := none)
    (cause : Option PendingWrite := none) : Dispatcher :=
  d.publish id (qualityUpdate (d.tagStore.get id) quality reason now value) cause

/-- Publish Bad for every tag on the endpoint. -/
def markEndpointBad (index : RuntimeIndex) (endpointId : String) (reason : QualityReason)
    (now : TimestampMs) (d : Dispatcher) : Dispatcher :=
  (index.tags.filter (fun b => b.endpointId == endpointId)).foldl
    (fun d b => d.publishQuality b.id .bad reason now) d

def setQueue (d : Dispatcher) (endpointId : String) (queue : List PendingWrite) : Dispatcher :=
  { d with writeQueues := Function.update d.writeQueues endpointId queue }

def setLastPoll (d : Dispatcher) (key : String) (now : TimestampMs) : Dispatcher :=
  { d with lastPollMs := Function.update d.lastPollMs key (some now) }

/-- Put writes back in front of the endpoint's queue. -/
def requeue (d : Dispatcher) (endpointId : String) (writes : List PendingWrite) : Dispatcher :=
  d.setQueue endpointId (writes ++ d.writeQueues endpointId)

/-- Push a write to the back of the endpoint's queue. -/
def accept (d : Dispatcher) (endpointId : String) (tagId : TagId) (value : ScalarValue) :
    Dispatcher :=
  let write := { tagId := tagId, value := value, seq := d.nextSeq }
  { (d.setQueue endpointId (d.writeQueues endpointId ++ [write])).record
      (.accepted endpointId write) with nextSeq := d.nextSeq + 1 }

theorem accept_writeQueues (d : Dispatcher) (endpointId : String) (tagId : TagId)
    (value : ScalarValue) : (d.accept endpointId tagId value).writeQueues endpointId =
      d.writeQueues endpointId ++ [⟨tagId, value, d.nextSeq⟩] := by
  simp [accept, setQueue, record]

theorem accept_writeQueues_of_ne (d : Dispatcher) {endpointId ep : String} (tagId : TagId)
    (value : ScalarValue) (h : ep ≠ endpointId) :
    (d.accept endpointId tagId value).writeQueues ep = d.writeQueues ep :=
  Function.update_of_ne h _ _

def enqueueWrite (index : RuntimeIndex) (tagId : TagId) (value : ScalarValue) (d : Dispatcher) :
    Result Unit × Dispatcher :=
  match index.findById tagId with
  | none => (.error (coreErr .notFound "unknown tag"), d)
  | some binding =>
    if !binding.tag.writable then (.error (coreErr .permission "tag not writable"), d)
    else if (d.writeQueues binding.endpointId).length ≥ kMaxWriteQueueDepth then
      (.error (coreErr .queueFull ("write queue full for endpoint " ++ binding.endpointId) true), d)
    else (.ok (), d.accept binding.endpointId tagId value)

/-- An enqueue is refused and changes nothing, or appends to a queue with room. -/
theorem enqueueWrite_cases (index : RuntimeIndex) (tagId : TagId) (value : ScalarValue)
    (d : Dispatcher) :
    (∃ e, d.enqueueWrite index tagId value = (.error e, d)) ∨
      ∃ b, index.findById tagId = some b ∧ b.tag.writable = true ∧
        (d.writeQueues b.endpointId).length < kMaxWriteQueueDepth ∧
        d.enqueueWrite index tagId value = (.ok (), d.accept b.endpointId tagId value) := by
  unfold enqueueWrite
  split
  · exact .inl ⟨_, rfl⟩
  · rename_i b hb
    split
    · exact .inl ⟨_, rfl⟩
    · rename_i hw
      split
      · exact .inl ⟨_, rfl⟩
      · rename_i hl
        exact .inr ⟨b, hb, by simpa using hw, not_le.mp hl, rfl⟩

end Dispatcher

/-- The dispatcher with the state of one endpoint's transport, during an operation on
that endpoint. -/
structure Session (σ : Type) where
  transport : σ
  dispatcher : Dispatcher

/-- The dispatcher with the states of all bound transports. -/
structure World (σ : Type) where
  dispatcher : Dispatcher := {}
  transports : String → Option σ := fun _ => none

/-- Close a session on an endpoint. -/
def World.update {σ : Type} (w : World σ) (endpointId : String) (s : Session σ) : World σ :=
  { dispatcher := s.dispatcher,
    transports := Function.update w.transports endpointId (some s.transport) }

end OpcServer.Core
