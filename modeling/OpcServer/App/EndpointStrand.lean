import OpcServer.Adapters.Transact
import OpcServer.Core.FlushSteps
import OpcServer.Core.PollDueAsync
import OpcServer.Lib.Transition

/-! One endpoint of the running server: the endpoint's strand, on which timer ticks,
completions and flushes run one after the other, and the strand of its
`ModbusTcpTransport`, on which requests are sent and answered.

An asynchronous call posts a job to the transport's strand and lets the endpoint's
strand go on; its completion is a task posted back. A synchronous call, which only a
flush makes, posts its job and blocks the endpoint's strand until the job is answered.
The peer is an input: a transaction may end at any time with any result. -/

namespace OpcServer.App

open Domain Project OpcServer.Core Adapters

/-- The PDU of a write, or the refusal to build one. -/
def requestPdu : WriteRequest → Result (List UInt8)
  | .writeSingleRegister _ address value => .ok (makeWriteSingleRegisterPdu address value)
  | .writeMultipleRegisters _ address values => .ok (makeWriteMultipleRegistersPdu address values)
  | .writeSingleCoil _ address value => .ok (makeWriteSingleCoilPdu address value)
  | .writeMultipleCoils _ address values => makeWriteMultipleCoilsPdu address values

section Strands
variable [Platform]

/-! ### The transport's strand -/

/-- The read a `PollChain` waits for, with the tags behind it and the first error so
far. -/
structure PollChain where
  now : TimestampMs
  binding : TagBinding
  rest : List TagBinding := []
  firstError : Option Error := none
  deriving DecidableEq

inductive Transaction where
  | read (chain : PollChain)
  | write (request : WriteRequest)
  deriving DecidableEq

/-- What is posted to the transport's strand: a connect of the poll begun at `now`, or
the body of `async_transact`. -/
inductive Job where
  | connect (now : TimestampMs)
  | transact (t : Transaction)
  deriving DecidableEq

/-- The transport between two handlers of its strand. A transaction is outstanding from
the moment its request is sent until its response, error or timeout is handled. -/
structure ModbusTcpTransport where
  connected : Bool := false
  posted : List Job := []
  connecting : List TimestampMs := []
  outstanding : List Transaction := []
  deriving DecidableEq

def ModbusTcpTransport.post (t : ModbusTcpTransport) (job : Job) : ModbusTcpTransport :=
  { t with posted := t.posted ++ [job] }

/-! ### The endpoint's strand -/

/-- What is posted to the endpoint's strand. -/
inductive Task where
  | tick
  | flush
  | connected (now : TimestampMs) (conn : Result Unit)
  | completed (chain : PollChain) (regs : Result (List UInt16))
  deriving DecidableEq

/-- The synchronous call of a flush. -/
inductive Call where
  | idle
  | waiting
  | answered (r : Result Unit)
  deriving DecidableEq

/-- A flush that occupies the endpoint's strand; `poll` is the time of the poll whose
`run_polls` it belongs to, and `none` for the task of a UA write. -/
structure Running where
  poll : Option TimestampMs
  clock : TimestampMs
  pc : FlushPc := .start
  call : Call := .idle
  deriving DecidableEq

/-- `unposted` counts the UA threads that have queued a write on this endpoint and not
yet posted its flush. -/
structure EndpointStrand where
  dispatcher : Dispatcher := {}
  unposted : ℕ := 0
  tasks : List Task := []
  running : Option Running := none
  inflight : Bool := false
  nextReconnectMs : TimestampMs := 0
  transport : ModbusTcpTransport := {}

namespace EndpointStrand

/-- Hand a result to whoever waits for it: the poll chain gets a task, the blocked flush
its answer. -/
def deliver (t : Transaction) (answer : Result (List UInt16)) (s : EndpointStrand) :
    EndpointStrand :=
  match t with
  | .read chain => { s with tasks := s.tasks ++ [.completed chain answer] }
  | .write _ =>
    let resumed := fun f : Running => { f with call := .answered (answer.map fun _ => ()) }
    { s with running := s.running.map resumed }

/-- Run a job on the transport's strand. A connect whose host does not resolve is one
that ends at once. -/
def execute (s : EndpointStrand) : Job → EndpointStrand
  | .connect now => { s with transport := { s.transport with
      connected := false, connecting := s.transport.connecting ++ [now] } }
  | .transact t =>
    if !s.transport.connected then s.deliver t (.error (makeErr .connection "not connected"))
    else { s with transport := { s.transport with outstanding := s.transport.outstanding ++ [t] } }

def post (job : Job) (s : EndpointStrand) : EndpointStrand :=
  { s with transport := s.transport.post job }

def setDispatcher (d : Dispatcher) (s : EndpointStrand) : EndpointStrand := { s with dispatcher := d }

def setConnected (connected : Bool) (s : EndpointStrand) : EndpointStrand :=
  { s with transport := { s.transport with connected := connected } }

/-- `close` waits for the transport's strand, which first runs what is posted before. -/
def close (s : EndpointStrand) : EndpointStrand :=
  (s.transport.posted.foldl execute
    { s with transport := { s.transport with posted := [] } }).setConnected false

section Poll
variable (index : RuntimeIndex) (endpointId : String)

def reconnectDelayMs : ℤ :=
  match index.endpoint endpointId with
  | some ep => max 0 ep.reconnectDelayMs
  | none => 2000

/-- Mark the endpoint's tags Bad and put the next attempt off. -/
def markLost (clock : TimestampMs) (s : EndpointStrand) : EndpointStrand :=
  { s with
    dispatcher := s.dispatcher.markEndpointBad index endpointId .noCommunication clock
    nextReconnectMs := clock + reconnectDelayMs index endpointId }

/-- The completion that `tick_endpoint` passes to `poll_due_async`. -/
def done (clock : TimestampMs) (r : Result Unit) (s : EndpointStrand) : EndpointStrand :=
  let s := { s with inflight := false }
  let s := if !s.transport.connected then s.markLost index endpointId clock
    else { s with nextReconnectMs := 0 }
  match r with
  | .ok () => s
  | .error e => if e.code = .connection then s.close.markLost index endpointId clock else s

/-- `PollChain::next` with the tags from its index on and the error it holds. -/
def next (now clock : TimestampMs) (firstError : Option Error) :
    List TagBinding → EndpointStrand → EndpointStrand
  | [], s =>
    match firstError with
    | some e => s.done index endpointId clock (.error e)
    | none => s.done index endpointId clock (.ok ())
  | binding :: rest, s => s.post (.transact (.read ⟨now, binding, rest, firstError⟩))

/-- What follows a flush: nothing after one posted by the write handler, which only logs
its error; the reads of the due groups inside `run_polls`. -/
def flushed (clock : TimestampMs) (poll : Option TimestampMs) (r : Result Unit)
    (s : EndpointStrand) : EndpointStrand :=
  match poll, r with
  | none, _ => s
  | some _, .error e => s.done index endpointId clock (.error e)
  | some now, .ok () =>
    let w : World Unit := ⟨s.dispatcher, fun _ => none⟩
    let (tags, w) := collectDue index endpointId now (index.groupsForEndpoint endpointId) w
    (s.setDispatcher w.dispatcher).next index endpointId now clock none tags

/-- `tick_endpoint` up to the first asynchronous call. -/
def tickEndpoint (now clock : TimestampMs) (s : EndpointStrand) : EndpointStrand :=
  if s.inflight then s
  else if !s.transport.connected && s.nextReconnectMs ≠ 0 && now < s.nextReconnectMs then s
  else
    let s := { s with inflight := true }
    if !s.transport.connected then
      match index.endpoint endpointId with
      | none => s.done index endpointId clock (.error (coreErr .notFound "endpoint missing"))
      | some _ => s.post (.connect now)
    else { s with running := some { poll := some now, clock := clock } }

/-- The task at the head of the endpoint's strand; the strand is free. -/
def runTask (now clock : TimestampMs) (task : Task) (s : EndpointStrand) : EndpointStrand :=
  match task with
  | .tick => s.tickEndpoint index endpointId now clock
  | .flush => { s with running := some { poll := none, clock := clock } }
  | .connected now (.error e) =>
    (s.setDispatcher (s.dispatcher.markEndpointBad index endpointId .noCommunication now)).done
      index endpointId clock (.error e)
  | .connected now (.ok ()) => { s with running := some { poll := some now, clock := clock } }
  | .completed chain regs =>
    let w : World Unit := ⟨s.dispatcher, fun _ => none⟩
    let (r, w) := concludeRead chain.now chain.binding regs w
    let firstError := match r, chain.firstError with
      | .error e, none => some e
      | _, held => held
    (s.setDispatcher w.dispatcher).next index endpointId chain.now clock firstError chain.rest

/-- A transport whose state is its next answer to a write. -/
def scripted : IModbusTransport (Result Unit) where
  isConnected _ := true
  connect _ _ r := (r, r)
  readRegisters _ r := (r.map fun _ => [], r)
  readBits _ r := (r.map fun _ => [], r)
  write _ r := (r, r)

/-- A step of the flush that takes `answer` from the transport if it calls it. -/
def resume (f : Running) (answer : Result Unit) (s : EndpointStrand) : Option EndpointStrand :=
  (f.pc.step index scripted endpointId f.clock ⟨s.dispatcher, fun _ => some answer⟩).map
    fun (pc, w) =>
      { s with dispatcher := w.dispatcher, running := some { f with pc := pc, call := .idle } }

end Poll

end EndpointStrand

/-- The request a flush is about to make. -/
def nextCall (index : RuntimeIndex) : FlushPc → Option WriteRequest
  | .loop (write :: batch) =>
    match plan index write batch with
    | .send request _ _ => some request
    | _ => none
  | _ => none

namespace EndpointStrand
variable (index : RuntimeIndex) (endpointId : String)

/-- One step of the flush on the strand. At a transport call it posts the job and
blocks; it goes on when the job is answered. -/
def advance (clock : TimestampMs) (s : EndpointStrand) : Option EndpointStrand :=
  match s.running with
  | none => none
  | some f =>
    match f.call, nextCall index f.pc with
    | .waiting, _ => none
    | .answered r, _ => s.resume index endpointId f r
    | .idle, some request =>
      match requestPdu request with
      | .error e => s.resume index endpointId f (.error e)
      | .ok _ => some { s.post (.transact (.write request)) with
          running := some { f with call := .waiting } }
    | .idle, none =>
      match f.pc with
      | .finished r => some ({ s with running := none }.flushed index endpointId clock f.poll r)
      | _ => s.resume index endpointId f (.ok ())

end EndpointStrand

/-! ### Both strands and the UA threads -/

inductive StrandAction where
  /-- The write handler on a UA thread, in two steps. -/
  | enqueue (tagId : TagId) (value : ScalarValue)
  | postFlush
  /-- The timer. -/
  | tick
  /-- The endpoint's strand takes its next task, or goes on with its flush. -/
  | run (now clock : TimestampMs)
  | advance (clock : TimestampMs)
  /-- The transport's strand runs its next job. -/
  | start
  | connectDone (attempt : ℕ) (r : Result Unit)
  | finish (call : ℕ) (answer : Result (List UInt16))

namespace EndpointStrand
variable (index : RuntimeIndex) (endpointId : String)

/-- The flush is posted for a write that was queued, to the endpoint of its tag. -/
def ours (tagId : TagId) (r : Result Unit) : Bool :=
  match index.findById tagId with
  | none => false
  | some binding => r.isOk && binding.endpointId == endpointId

def step : StrandAction → EndpointStrand → Option EndpointStrand
  | .enqueue tagId value, s =>
    let (r, d) := s.dispatcher.enqueueWrite index tagId value
    some { s with
      dispatcher := d
      unposted := if ours index endpointId tagId r then s.unposted + 1 else s.unposted }
  | .postFlush, s =>
    match s.unposted with
    | 0 => none
    | n + 1 => some { s with unposted := n, tasks := s.tasks ++ [.flush] }
  | .tick, s => some { s with tasks := s.tasks ++ [.tick] }
  | .run now clock, s =>
    match s.running, s.tasks with
    | none, task :: rest =>
      some ({ s with tasks := rest }.runTask index endpointId now clock task)
    | _, _ => none
  | .advance clock, s => s.advance index endpointId clock
  | .start, s =>
    match s.transport.posted with
    | [] => none
    | job :: rest =>
      some ({ s with transport := { s.transport with posted := rest } }.execute job)
  | .connectDone attempt r, s =>
    match s.transport.connecting[attempt]? with
    | none => none
    | some now => some { s with
        tasks := s.tasks ++ [.connected now r]
        transport := { s.transport with
          connected := r.isOk, connecting := s.transport.connecting.eraseIdx attempt } }
  | .finish call answer, s =>
    match s.transport.outstanding[call]? with
    | none => none
    | some t =>
      let s := { s with transport := { s.transport with
        connected := s.transport.connected && !disconnects answer
        outstanding := s.transport.outstanding.eraseIdx call } }
      some (s.deliver t answer)

/-! ### What an action has found -/

section Inversion
variable {index endpointId} {s s' : EndpointStrand}

theorem step_postFlush (h : step index endpointId .postFlush s = some s') :
    ∃ n, s.unposted = n + 1 ∧ s' = { s with unposted := n, tasks := s.tasks ++ [.flush] } := by
  simp only [step] at h
  split at h
  · cases h
  · rename_i n hn
    exact ⟨n, hn, (Option.some.inj h).symm⟩

theorem step_run {now clock : TimestampMs} (h : step index endpointId (.run now clock) s = some s') :
    ∃ task rest, s.running = none ∧ s.tasks = task :: rest ∧
      s' = { s with tasks := rest }.runTask index endpointId now clock task := by
  simp only [step] at h
  split at h
  · rename_i task rest hrun htasks
    exact ⟨task, rest, hrun, htasks, (Option.some.inj h).symm⟩
  · cases h

theorem step_start (h : step index endpointId .start s = some s') :
    ∃ job rest, s.transport.posted = job :: rest ∧
      s' = { s with transport := { s.transport with posted := rest } }.execute job := by
  simp only [step] at h
  split at h
  · cases h
  · rename_i job rest hposted
    exact ⟨job, rest, hposted, (Option.some.inj h).symm⟩

theorem step_connectDone {attempt : ℕ} {r : Result Unit}
    (h : step index endpointId (.connectDone attempt r) s = some s') :
    ∃ now, s.transport.connecting[attempt]? = some now ∧ s' = { s with
      tasks := s.tasks ++ [.connected now r]
      transport := { s.transport with
        connected := r.isOk, connecting := s.transport.connecting.eraseIdx attempt } } := by
  simp only [step] at h
  split at h
  · cases h
  · rename_i now hget
    exact ⟨now, hget, (Option.some.inj h).symm⟩

theorem step_finish {call : ℕ} {answer : Result (List UInt16)}
    (h : step index endpointId (.finish call answer) s = some s') :
    ∃ t, s.transport.outstanding[call]? = some t ∧
      s' = deliver t answer { s with transport := { s.transport with
        connected := s.transport.connected && !disconnects answer
        outstanding := s.transport.outstanding.eraseIdx call } } := by
  simp only [step] at h
  split at h
  · cases h
  · rename_i t hget
    exact ⟨t, hget, (Option.some.inj h).symm⟩

end Inversion

/-- A server just started: nothing is posted, running or outstanding. -/
def Fresh (s : EndpointStrand) : Prop :=
  s.tasks = [] ∧ s.running = none ∧ s.inflight = false ∧ s.transport.posted = [] ∧
    s.transport.connecting = [] ∧ s.transport.outstanding = []

end EndpointStrand

end Strands

end OpcServer.App
