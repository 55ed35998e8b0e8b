import OpcServer.Core.DueGroups

/-! The public operations of the dispatcher and its store, as commands. A command may
also set the transport of an endpoint, which stands for `bind_transport` and for
whatever happens to a transport outside the dispatcher.

A transport with its own asynchronous operations answers later than it is asked. A
poll then waits, for its connection or for the registers of one tag, while other
commands run. -/

namespace OpcServer.Core

open Domain Project

variable [Platform]

inductive Command (σ : Type) where
  | pollDue (endpointId : String) (now clock : TimestampMs)
  | pollDueAsync (endpointId : String) (now clock : TimestampMs)
  | flushWrites (endpointId : String) (clock : TimestampMs)
  | markEndpointBad (endpointId : String) (reason : QualityReason) (now : TimestampMs)
  | enqueueWrite (tagId : TagId) (value : ScalarValue)
  | markStaleBefore (cutoff : TimestampMs) (reason : QualityReason)
  | setTransport (endpointId : String) (t : Option σ)

section Execute
variable {σ : Type} (index : RuntimeIndex) (transport : IModbusTransport σ)

/-- The world after a command whose completions run inline. -/
def execute : Command σ → World σ → Option (World σ)
  | .pollDue endpointId now clock, w => some (pollDue index transport endpointId now clock w).2
  | .pollDueAsync endpointId now clock, w =>
    some (pollDueAsync index transport endpointId now clock ⟨w, []⟩).world
  | .flushWrites endpointId clock, w => some (flushWrites index transport endpointId clock w).2
  | .markEndpointBad endpointId reason now, w =>
    some (w.mapDispatcher (Dispatcher.markEndpointBad index endpointId reason now))
  | .enqueueWrite tagId value, w =>
    some (w.mapDispatcher fun d => (d.enqueueWrite index tagId value).2)
  | .markStaleBefore cutoff reason, w => some (w.mapDispatcher fun d =>
      { d with tagStore := d.tagStore.markStaleBefore cutoff reason })
  | .setTransport endpointId t, w =>
    some { w with transports := Function.update w.transports endpointId t }

/-! ### Polls that wait -/

/-- What an asynchronous poll waits for: its connection, or the registers of a tag,
with the tags after it and the first error so far. -/
inductive Awaiting where
  | connection (now clock : TimestampMs)
  | registers (now : TimestampMs) (binding : TagBinding) (rest : List TagBinding)
      (first : Option Error)

/-- A poll after a step: done, or waiting again. -/
inductive Progress where
  | done (result : Result Unit)
  | waiting (for_ : Awaiting)

/-- `PollChain::next`, up to the read it starts. -/
def askNext (now : TimestampMs) : List TagBinding → Option Error → Progress
  | [], first => .done (held first)
  | binding :: rest, first => .waiting (.registers now binding rest first)

/-- The lambda `run_polls`, up to its first read. -/
def startReads (endpointId : String) (now clock : TimestampMs) (w : World σ) :
    Progress × World σ :=
  match flushWrites index transport endpointId clock w with
  | (.error e, w) => (.done (.error e), w)
  | (.ok (), w) =>
    match collectDue index endpointId now (index.groupsForEndpoint endpointId) w with
    | (tags, w) => (askNext now tags none, w)

/-- `poll_due_async`, up to the first call it makes of its transport. -/
def startPoll (endpointId : String) (now clock : TimestampMs) (w : World σ) :
    Progress × World σ :=
  match w.transports endpointId with
  | none => (.done (.error (coreErr .notFound "transport not bound")), w)
  | some t =>
    if transport.isConnected t then startReads index transport endpointId now clock w
    else
      match index.endpoint endpointId with
      | none => (.done (.error (coreErr .notFound "endpoint missing")), w)
      | some _ => (.waiting (.connection now clock), w)

/-- The completion of the connect, with its result. -/
def connectionDone (endpointId : String) (now clock : TimestampMs) (r : Result Unit)
    (w : World σ) : Progress × World σ :=
  match r with
  | .error e => (.done (.error e),
      w.mapDispatcher (Dispatcher.markEndpointBad index endpointId .noCommunication now))
  | .ok () => startReads index transport endpointId now clock w

omit [Platform] in
/-- The error a chain holds after the result of one tag. -/
def keepFirst (first : Option Error) (r : Result Unit) : Option Error :=
  match r, first with
  | .error e, none => some e
  | _, _ => first

/-- The completion of a read, with the registers or an error. -/
def registersDone (endpointId : String) (now : TimestampMs) (binding : TagBinding)
    (rest : List TagBinding) (first : Option Error) (regs : Result (List UInt16)) (w : World σ) :
    Progress × World σ :=
  let w := w.mapDispatcher fun d =>
    d.record (.call endpointId (readRequest binding) regs.isOk [])
  match concludeRead now binding regs w with
  | (r, w) => (askNext now rest (keepFirst first r), w)

end Execute

end OpcServer.Core
