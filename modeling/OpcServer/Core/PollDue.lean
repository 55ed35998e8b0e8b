import OpcServer.Core.FlushWrites

/-! The synchronous poll. `pollDue` connects if needed, flushes the pending writes,
and then reads the tags of every group that is due, one request for each tag. The
clock that a flush reads is an argument of its own, beside the time of the poll. -/

namespace OpcServer.Core

open Domain Project

/-- Coils and discrete inputs as register values. -/
def asRegs (bits : List Bool) : List UInt16 := bits.map fun b => if b then 1 else 0

def firstError (first next : Result Unit) : Result Unit :=
  match first with
  | .ok () => next
  | .error e => .error e

/-- The quality reason that a failed register read is published with. -/
def readReason (e : Error) : QualityReason :=
  match e.code with
  | .timeout => .timeout
  | .modbusException => .modbusException
  | _ => .noCommunication

variable [Platform]

section World
variable {σ : Type}

def World.mapDispatcher (w : World σ) (f : Dispatcher → Dispatcher) : World σ :=
  ⟨f w.dispatcher, w.transports⟩

/-- A call through the transport bound to an endpoint. Polls make it after they have
looked the transport up, so that the first branch is never taken. -/
def World.call {α : Type} (w : World σ) (endpointId : String) (request : Request)
    (op : σ → Result α × σ) : Result α × World σ :=
  match w.transports endpointId with
  | none => (.error {}, w)
  | some t =>
    let (r, t') := op t
    (r, ⟨w.dispatcher.record (.call endpointId request r.isOk []),
      Function.update w.transports endpointId (some t')⟩)

end World

/-! ### One tag -/

section PollTag
variable {σ : Type} (transport : IModbusTransport σ) (endpointId : String) (now : TimestampMs)

/-- What is published for the registers read, or for the error in their place. -/
def concludeRead (binding : TagBinding) (regs : Result (List UInt16)) (w : World σ) :
    Result Unit × World σ :=
  match regs with
  | .error e => (.error (transportError e),
      w.mapDispatcher fun d => d.publishQuality binding.id .bad (readReason e) now)
  | .ok regs =>
    match Translator.decode binding.tag regs with
    | .error e => (.error e,
        w.mapDispatcher fun d => d.publishQuality binding.id .bad .decodingError now)
    | .ok value => (.ok (), w.mapDispatcher fun d => d.publish binding.id
        { value := value, quality := .good, reason := .none, serverTs := now, sourceTs := now } none)

def readRegisters (request : RegisterRead) (w : World σ) : Result (List UInt16) × World σ :=
  w.call endpointId (.registers request) (transport.readRegisters request)

def readBits (request : BitRead) (w : World σ) : Result (List Bool) × World σ :=
  w.call endpointId (.bits request) (transport.readBits request)

/-- The coil and discrete branches of `poll_tag`: every error is published as
NoCommunication. -/
def pollBits (binding : TagBinding) (request : BitRead) (w : World σ) : Result Unit × World σ :=
  match readBits transport endpointId request w with
  | (.error e, w) => (.error (transportError e),
      w.mapDispatcher fun d => d.publishQuality binding.id .bad .noCommunication now)
  | (.ok bits, w) => concludeRead now binding (.ok (asRegs bits)) w

def pollRegisters (binding : TagBinding) (request : RegisterRead) (w : World σ) :
    Result Unit × World σ :=
  match readRegisters transport endpointId request w with
  | (regs, w) => concludeRead now binding regs w

def pollTag (binding : TagBinding) (w : World σ) : Result Unit × World σ :=
  let qty := UInt16.ofInt (regsFor binding.tag)
  let addr := UInt16.ofInt binding.tag.address
  match binding.tag.area with
  | .holding => pollRegisters transport endpointId now binding
      (.readHoldingRegisters binding.unitId addr qty) w
  | .input => pollRegisters transport endpointId now binding
      (.readInputRegisters binding.unitId addr qty) w
  | .coil => pollBits transport endpointId now binding (.readCoils binding.unitId addr qty) w
  | .discrete => pollBits transport endpointId now binding
      (.readDiscreteInputs binding.unitId addr qty) w

/-- Poll tags in order and keep the first error. -/
def pollTags : List TagBinding → Result Unit → World σ → Result Unit × World σ
  | [], first, w => (first, w)
  | binding :: rest, first, w =>
    let (r, w) := pollTag transport endpointId now binding w
    pollTags rest (firstError first r) w

end PollTag

/-! ### Groups -/

def inBlock (binding : TagBinding) (block : RegisterBlock) : Bool :=
  binding.tag.area == block.area && binding.tag.address ≥ block.start &&
    binding.tag.address + regsFor binding.tag ≤ block.start + block.count

/-- The tags of a group that lists no names: those of its device that belong to the
group or to none, else those inside its blocks. -/
def unnamedTags (index : RuntimeIndex) (group : PollGroup) : List TagBinding :=
  let own := index.tags.filter fun b =>
    b.deviceId == group.deviceId && (b.tag.group == "" || b.tag.group == group.id)
  if own.isEmpty && !group.blocks.isEmpty then
    index.tags.filter fun b => b.deviceId == group.deviceId && group.blocks.any (inBlock b)
  else own

/-- The bindings of some tag names, or an error for the first unknown one. -/
def namedTags (index : RuntimeIndex) : List String → Result (List TagBinding)
  | [] => .ok []
  | name :: rest =>
    match index.findByName name with
    | none => .error (coreErr .notFound ("tag not found: " ++ name))
    | some binding => (namedTags index rest).map (binding :: ·)

/-- The key of a group in the table of poll times. -/
def pollKey (endpointId : String) (group : PollGroup) : String := endpointId ++ "|" ++ group.id

/-- The group was polled less than a period ago. -/
def recentlyPolled (endpointId : String) (now : TimestampMs) (group : PollGroup)
    (d : Dispatcher) : Bool :=
  let last := (d.lastPollMs (pollKey endpointId group)).getD 0
  last ≠ 0 && now - last < group.periodMs

section PollDue
variable {σ : Type} (index : RuntimeIndex) (transport : IModbusTransport σ) (endpointId : String)
  (now : TimestampMs)

def pollGroup (group : PollGroup) (w : World σ) : Result Unit × World σ :=
  match index.device group.deviceId with
  | none => (.error (coreErr .notFound "device missing"), w)
  | some _ =>
    if !group.tagNames.isEmpty then
      match namedTags index group.tagNames with
      | .error e => (.error e, w)
      | .ok tags => pollTags transport endpointId now tags (.ok ()) w
    else pollTags transport endpointId now (unnamedTags index group) (.ok ()) w

/-- The loop over the groups of an endpoint. -/
def pollGroups : List PollGroup → Result Unit → World σ → Result Unit × World σ
  | [], first, w => (first, w)
  | group :: rest, first, w =>
    if recentlyPolled endpointId now group w.dispatcher then pollGroups rest first w
    else
      let (r, w) := pollGroup index transport endpointId now group w
      pollGroups rest (firstError first r)
        (w.mapDispatcher fun d => d.setLastPoll (pollKey endpointId group) now)

/-- Connect the transport of an endpoint, marking its tags Bad if that fails. -/
def connectEndpoint (ep : Endpoint) (w : World σ) : Result Unit × World σ :=
  match w.call endpointId (.connect ep.host ep.port) (transport.connect ep.host ep.port) with
  | (.error e, w) =>
    (.error e, w.mapDispatcher (Dispatcher.markEndpointBad index endpointId .noCommunication now))
  | (.ok (), w) => (.ok (), w)

/-- What follows once the transport is connected: writes first, then the due groups. -/
def flushAndPoll (clock : TimestampMs) (w : World σ) : Result Unit × World σ :=
  match flushWrites index transport endpointId clock w with
  | (.error e, w) => (.error e, w)
  | (.ok (), w) =>
    pollGroups index transport endpointId now (index.groupsForEndpoint endpointId) (.ok ()) w

/-- `poll_due`, with the clock showing `clock` to the flush. -/
def pollDue (clock : TimestampMs) (w : World σ) : Result Unit × World σ :=
  match w.transports endpointId with
  | none => (.error (coreErr .notFound "transport not bound"), w)
  | some t =>
    if transport.isConnected t then flushAndPoll index transport endpointId now clock w
    else
      match index.endpoint endpointId with
      | none => (.error (coreErr .notFound "endpoint missing"), w)
      | some ep =>
        match connectEndpoint index transport endpointId now ep w with
        | (.error e, w) => (.error e, w)
        | (.ok (), w) => flushAndPoll index transport endpointId now clock w

end PollDue

end OpcServer.Core
