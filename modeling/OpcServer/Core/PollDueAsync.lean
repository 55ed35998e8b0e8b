import OpcServer.Core.PollDue

/-! The asynchronous poll over a transport with the default `async_*` operations,
which make the synchronous call and invoke the handler inline. A handler is a
function on the state, so that it may run any number of times; the completions of
the caller's `done` are collected in the order they happen. -/

namespace OpcServer.Core

open Domain Project

variable [Platform]

/-- The state of an asynchronous poll: the world, and the results `done` was called
with. -/
structure Async (σ : Type) where
  world : World σ
  completed : List (Result Unit) := []

/-- A `ModbusCompletion<α>`. -/
abbrev Completion (σ α : Type) := Result α → Async σ → Async σ

/-- The caller's completion. -/
def done {σ : Type} : Completion σ Unit := fun r a => ⟨a.world, a.completed ++ [r]⟩

/-! ### Default asynchronous operations -/

section Default
variable {σ : Type} (transport : IModbusTransport σ) (endpointId : String)

def asyncConnect (ep : Endpoint) (handler : Completion σ Unit) (a : Async σ) : Async σ :=
  match a.world.call endpointId (.connect ep.host ep.port) (transport.connect ep.host ep.port) with
  | (r, w) => handler r ⟨w, a.completed⟩

def asyncReadRegisters (request : RegisterRead) (handler : Completion σ (List UInt16))
    (a : Async σ) : Async σ :=
  match readRegisters transport endpointId request a.world with
  | (r, w) => handler r ⟨w, a.completed⟩

def asyncReadBits (request : BitRead) (handler : Completion σ (List Bool)) (a : Async σ) :
    Async σ :=
  match readBits transport endpointId request a.world with
  | (r, w) => handler r ⟨w, a.completed⟩

end Default

/-! ### The chain of reads -/

/-- Tags of a group; names that are not found are left out. -/
def collectGroupTags (index : RuntimeIndex) (group : PollGroup) : List TagBinding :=
  if !group.tagNames.isEmpty then group.tagNames.filterMap index.findByName
  else unnamedTags index group

section PollAsync
variable {σ : Type} (index : RuntimeIndex) (transport : IModbusTransport σ) (endpointId : String)
  (now : TimestampMs)

/-- The lambda `finish_regs`. -/
def finishRegs (binding : TagBinding) (handler : Completion σ Unit) :
    Completion σ (List UInt16) := fun regs a =>
  match concludeRead now binding regs a.world with
  | (r, w) => handler r ⟨w, a.completed⟩

/-- The lambda that turns coils into registers for `finish_regs`. -/
def finishBits (binding : TagBinding) (handler : Completion σ Unit) : Completion σ (List Bool) :=
  fun bits a =>
    match bits with
    | .error e => finishRegs now binding handler (.error e) a
    | .ok bits => finishRegs now binding handler (.ok (asRegs bits)) a

def pollTagAsync (binding : TagBinding) (handler : Completion σ Unit) (a : Async σ) : Async σ :=
  let qty := UInt16.ofInt (regsFor binding.tag)
  let addr := UInt16.ofInt binding.tag.address
  match binding.tag.area with
  | .holding => asyncReadRegisters transport endpointId
      (.readHoldingRegisters binding.unitId addr qty) (finishRegs now binding handler) a
  | .input => asyncReadRegisters transport endpointId
      (.readInputRegisters binding.unitId addr qty) (finishRegs now binding handler) a
  | .coil => asyncReadBits transport endpointId
      (.readCoils binding.unitId addr qty) (finishBits now binding handler) a
  | .discrete => asyncReadBits transport endpointId
      (.readDiscreteInputs binding.unitId addr qty) (finishBits now binding handler) a

/-- `PollChain::next` with the tags from its index on and the error it holds. -/
def next : List TagBinding → Option Error → Async σ → Async σ
  | [], some e, a => done (.error e) a
  | [], none, a => done (.ok ()) a
  | binding :: rest, firstError, a =>
    pollTagAsync transport endpointId now binding (fun r a =>
      match r, firstError with
      | .error e, none => next rest (some e) a
      | _, _ => next rest firstError a) a

/-- The tags of all groups that are due; the groups count as polled from here on. -/
def collectDue : List PollGroup → World σ → List TagBinding × World σ
  | [], w => ([], w)
  | group :: rest, w =>
    if recentlyPolled endpointId now group w.dispatcher then collectDue rest w
    else
      let (tags, w) := collectDue rest
        (w.mapDispatcher fun d => d.setLastPoll (pollKey endpointId group) now)
      (collectGroupTags index group ++ tags, w)

/-- The lambda `run_polls`. -/
def runPolls (clock : TimestampMs) (a : Async σ) : Async σ :=
  match flushWrites index transport endpointId clock a.world with
  | (.error e, w) => done (.error e) ⟨w, a.completed⟩
  | (.ok (), w) =>
    match collectDue index endpointId now (index.groupsForEndpoint endpointId) w with
    | (tags, w) => next transport endpointId now tags none ⟨w, a.completed⟩

def pollDueAsync (clock : TimestampMs) (a : Async σ) : Async σ :=
  match a.world.transports endpointId with
  | none => done (.error (coreErr .notFound "transport not bound")) a
  | some t =>
    if transport.isConnected t then runPolls index transport endpointId now clock a
    else
      match index.endpoint endpointId with
      | none => done (.error (coreErr .notFound "endpoint missing")) a
      | some ep =>
        asyncConnect transport endpointId ep (fun conn a =>
          match conn with
          | .error e => done (.error e) ⟨a.world.mapDispatcher
              (Dispatcher.markEndpointBad index endpointId .noCommunication now), a.completed⟩
          | .ok () => runPolls index transport endpointId now clock a) a

end PollAsync

end OpcServer.Core
