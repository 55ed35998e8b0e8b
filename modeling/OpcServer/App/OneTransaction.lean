import OpcServer.App.EndpointStrand
import Mathlib.Tactic.SplitIfs

/-! At most one transaction is outstanding on an endpoint's transport as long as no
flush takes a write to transmit while a read of the poll is on its way. The flag
`inflight` keeps the polls of an endpoint apart and a flush waits for each of its
writes, but nothing keeps a flush posted by the write handler from running between
the reads of a poll.

The argument is a token: `inflight` is set exactly once for each poll, and the poll is
in one place at a time, a posted or outstanding job, a task, or the flush that opens
it. -/

namespace OpcServer.App

open Domain Project OpcServer.Core

theorem countP_head {α : Type} (p : α → Bool) (a : α) (l : List α) :
    (a :: l).countP p = l.countP p + (p a).toNat := by
  cases h : p a <;> simp [h]

theorem countP_single {α : Type} (p : α → Bool) (a : α) : [a].countP p = (p a).toNat := by
  simp only [countP_head, List.countP_nil, Nat.zero_add]

section Strands
variable [Platform]

/-! ### What is on its way -/

def Transaction.isRead : Transaction → Bool
  | .read _ => true
  | .write _ => false

@[simp] theorem Transaction.isRead_read (chain : PollChain) : isRead (.read chain) = true := rfl

@[simp] theorem Transaction.isRead_write (request : WriteRequest) :
    isRead (.write request) = false := rfl

namespace Job

def isRead : Job → Bool
  | .transact t => t.isRead
  | .connect _ => false

def isConnect : Job → Bool
  | .connect _ => true
  | .transact _ => false

def isWrite : Job → Bool
  | .transact t => !t.isRead
  | .connect _ => false

@[simp] theorem isRead_transact (t : Transaction) : isRead (.transact t) = t.isRead := rfl

@[simp] theorem isConnect_transact (t : Transaction) : isConnect (.transact t) = false := rfl

@[simp] theorem isWrite_transact (t : Transaction) : isWrite (.transact t) = !t.isRead := rfl

@[simp] theorem isRead_connect (now : TimestampMs) : isRead (.connect now) = false := rfl

@[simp] theorem isConnect_connect (now : TimestampMs) : isConnect (.connect now) = true := rfl

@[simp] theorem isWrite_connect (now : TimestampMs) : isWrite (.connect now) = false := rfl

end Job

def Task.isPoll : Task → Bool
  | .connected .. | .completed .. => true
  | .tick | .flush => false

/-- A flush that opens a poll. -/
def Running.isPoll (f : Running) : Bool := f.poll.isSome

def Running.isWaiting (f : Running) : Bool := f.call == .waiting

theorem Running.isWaiting_of_idle {f : Running} (h : f.call = .idle) : f.isWaiting = false := by
  simp [isWaiting, h]

/-- A batch has a write that reaches the wire, before any that ends the flush. -/
def transmits (index : RuntimeIndex) : List PendingWrite → Bool
  | [] => false
  | write :: batch =>
    match plan index write batch with
    | .skip => transmits index batch
    | .unencodable .. => false
    | .send request _ _ => (requestPdu request).isOk

/-- The flush still has a write to transmit. -/
def mayTransmit (index : RuntimeIndex) : FlushPc → Bool
  | .lookup batch | .loop batch => transmits index batch
  | .get _ _ after | .put _ _ _ after =>
    match after with
    | .loop batch => transmits index batch
    | .requeue .. => false
  | .start | .requeue .. | .finished _ => false

namespace ModbusTcpTransport

/-- Reads posted or outstanding. -/
def reads (t : ModbusTcpTransport) : ℕ :=
  t.posted.countP Job.isRead + t.outstanding.countP Transaction.isRead

def connects (t : ModbusTcpTransport) : ℕ :=
  t.posted.countP Job.isConnect + t.connecting.length

def writes (t : ModbusTcpTransport) : ℕ :=
  t.posted.countP Job.isWrite + t.outstanding.countP (fun t => !t.isRead)

/-- Outstanding transactions are reads and writes. -/
theorem outstanding_length (t : ModbusTcpTransport) : t.outstanding.length =
    t.outstanding.countP Transaction.isRead + t.outstanding.countP (fun t => !t.isRead) := by
  simpa using List.length_eq_countP_add_countP Transaction.isRead

theorem posted_length (posted : List Job) : posted.length =
    posted.countP Job.isRead + posted.countP Job.isConnect + posted.countP Job.isWrite := by
  induction posted with
  | nil => rfl
  | cons job rest ih =>
    rcases job with now | (chain | request)
    all_goals
      simp only [List.length_cons, List.countP_cons, ih]
      simp
      omega

theorem reads_post (t : ModbusTcpTransport) (job : Job) :
    (t.post job).reads = t.reads + job.isRead.toNat := by
  simp only [reads, post, List.countP_append, countP_single]
  omega

theorem connects_post (t : ModbusTcpTransport) (job : Job) :
    (t.post job).connects = t.connects + job.isConnect.toNat := by
  simp only [connects, post, List.countP_append, countP_single]
  omega

theorem writes_post (t : ModbusTcpTransport) (job : Job) :
    (t.post job).writes = t.writes + job.isWrite.toNat := by
  simp only [writes, post, List.countP_append, countP_single]
  omega

/-- A transport with nothing on its way has nothing to run and nothing to wait for. -/
theorem quiet {t : ModbusTcpTransport} (hreads : t.reads = 0) (hconnects : t.connects = 0)
    (hwrites : t.writes = 0) : t.posted = [] ∧ t.outstanding = [] := by
  have hposted := posted_length t.posted
  have hout := t.outstanding_length
  rw [reads] at hreads
  rw [connects] at hconnects
  rw [writes] at hwrites
  constructor
  · exact List.eq_nil_of_length_eq_zero (by omega)
  · exact List.eq_nil_of_length_eq_zero (by omega)

end ModbusTcpTransport

namespace EndpointStrand

/-- The places a poll of the endpoint is in. -/
def polls (s : EndpointStrand) : ℕ :=
  s.transport.reads + s.transport.connects + s.tasks.countP Task.isPoll +
    (s.running.any Running.isPoll).toNat

/-- A flush posted by the write handler is about to take a queue with a write to
transmit, while a read is on its way over the connection. -/
def intrudes (index : RuntimeIndex) (endpointId : String) (s : EndpointStrand) : Bool :=
  s.running.any (fun f => f.poll.isNone && f.pc = .start) &&
    transmits index (s.dispatcher.writeQueues endpointId) &&
    s.transport.reads ≠ 0 && s.transport.connected

/-- No flush intrudes on the reads of a poll. -/
def KeepsClear (index : RuntimeIndex) (endpointId : String) (action : StrandAction)
    (s : EndpointStrand) : Prop :=
  match action with
  | .advance _ => s.intrudes index endpointId = false
  | _ => True

instance (index : RuntimeIndex) (endpointId : String) (action : StrandAction)
    (s : EndpointStrand) : Decidable (KeepsClear index endpointId action s) :=
  match action with
  | .advance _ => inferInstanceAs (Decidable (s.intrudes index endpointId = false))
  | .enqueue .. | .postFlush | .tick | .run .. | .start | .connectDone .. | .finish .. =>
    .isTrue trivial

/-- The invariant of the guarded runs. -/
structure Orderly (index : RuntimeIndex) (s : EndpointStrand) : Prop where
  polls_le : s.polls ≤ s.inflight.toNat
  writes_le : s.transport.writes ≤ (s.running.any Running.isWaiting).toNat
  disconnected : 0 < s.transport.connects → s.transport.connected = false
  connected : s.transport.outstanding ≠ [] → s.transport.connected = true
  clear : ∀ f, s.running = some f → f.poll = none → mayTransmit index f.pc = true ∨ f.call ≠ .idle →
    0 < s.transport.reads → s.transport.connected = false

variable {index : RuntimeIndex} {endpointId : String}

theorem Orderly.of_fresh {s : EndpointStrand} (h : s.Fresh) : s.Orderly index := by
  obtain ⟨htasks, hrunning, hinflight, hposted, hconnecting, hout⟩ := h
  have hreads : s.transport.reads = 0 := by simp [ModbusTcpTransport.reads, hposted, hout]
  have hconnects : s.transport.connects = 0 := by
    simp [ModbusTcpTransport.connects, hposted, hconnecting]
  have hwrites : s.transport.writes = 0 := by simp [ModbusTcpTransport.writes, hposted, hout]
  refine ⟨?_, ?_, ?_, ?_, ?_⟩
  · simp [polls, hreads, hconnects, htasks, hrunning]
  · simp [hwrites]
  · simp [hconnects]
  · simp [hout]
  · simp [hrunning]

theorem Orderly.outstanding_le {s : EndpointStrand} (h : s.Orderly index) :
    s.transport.outstanding.length ≤ 1 := by
  have hlen := s.transport.outstanding_length
  have hpolls := h.polls_le
  have hwrites := h.writes_le
  have hin := Bool.toNat_le s.inflight
  have hwait := Bool.toNat_le (s.running.any Running.isWaiting)
  rw [polls, ModbusTcpTransport.reads] at hpolls
  rw [ModbusTcpTransport.writes] at hwrites
  by_contra hmany
  -- a read and a write, so that a flush outside the poll waits for the write
  cases hrun : s.running with
  | none =>
    simp only [hrun, Option.any_none, Bool.toNat_false] at hwrites
    omega
  | some f =>
    simp only [hrun, Option.any_some] at hpolls hwrites hwait
    have hw : f.isWaiting = true := by
      by_contra hw
      simp only [Bool.not_eq_true] at hw
      simp only [hw, Bool.toNat_false] at hwrites
      omega
    have hcall : f.call ≠ .idle := by
      intro hidle
      rw [Running.isWaiting_of_idle hidle] at hw
      cases hw
    have hpoll : f.poll = none := by
      by_contra hpoll
      have hp : f.isPoll = true := Option.isSome_iff_ne_none.mpr hpoll
      simp only [hp, Bool.toNat_true] at hpolls
      omega
    have hreads : 0 < s.transport.reads := by
      rw [ModbusTcpTransport.reads]
      omega
    have hoff := h.clear f hrun hpoll (.inr hcall) hreads
    have hon : s.transport.connected = true := by
      refine h.connected ?_
      intro hnil
      simp [hnil] at hmany
    simp [hoff] at hon

/-- The invariant looks at the tasks, the flush, the flag and the transport. -/
theorem Orderly.congr {s s' : EndpointStrand} (h : s.Orderly index) (htasks : s'.tasks = s.tasks)
    (hrunning : s'.running = s.running) (hinflight : s'.inflight = s.inflight)
    (htransport : s'.transport = s.transport) : s'.Orderly index := by
  cases s
  cases s'
  simp only at htasks hrunning hinflight htransport
  subst htasks hrunning hinflight htransport
  exact ⟨h.polls_le, h.writes_le, h.disconnected, h.connected, h.clear⟩

/-! ### The endpoint's strand -/

/-- The endpoint's strand is free and its poll is nowhere. -/
structure Idle (index : RuntimeIndex) (s : EndpointStrand) : Prop where
  orderly : s.Orderly index
  running : s.running = none
  polls : s.polls = 0

theorem Idle.quiet {s : EndpointStrand} (h : s.Idle index) :
    s.transport.posted = [] ∧ s.transport.outstanding = [] := by
  have hpolls := h.polls
  have hwrites := h.orderly.writes_le
  simp only [h.running, Option.any_none, Bool.toNat_false] at hwrites
  rw [EndpointStrand.polls] at hpolls
  exact ModbusTcpTransport.quiet (by omega) (by omega) (by omega)

theorem Idle.congr {s s' : EndpointStrand} (h : s.Idle index) (htasks : s'.tasks = s.tasks)
    (hrunning : s'.running = s.running) (hinflight : s'.inflight = s.inflight)
    (htransport : s'.transport = s.transport) : s'.Idle index := by
  refine ⟨h.orderly.congr htasks hrunning hinflight htransport, hrunning.trans h.running, ?_⟩
  rw [EndpointStrand.polls, htasks, hrunning, htransport]
  exact h.polls

theorem Idle.setInflight {s : EndpointStrand} (h : s.Idle index) (b : Bool) :
    Idle index { s with inflight := b } := by
  refine ⟨⟨?_, h.orderly.writes_le, h.orderly.disconnected, h.orderly.connected, h.orderly.clear⟩,
    h.running, h.polls⟩
  have hpolls : EndpointStrand.polls { s with inflight := b } = 0 := h.polls
  rw [hpolls]
  exact Nat.zero_le _

/-- Nothing is posted before the `close` of an idle endpoint. -/
theorem Idle.close {s : EndpointStrand} (h : s.Idle index) : s.close.Idle index := by
  obtain ⟨hposted, hout⟩ := h.quiet
  have heq : s.close = s.setConnected false := by
    rw [EndpointStrand.close, hposted, List.foldl_nil, ← hposted]
  rw [heq]
  refine ⟨⟨h.orderly.polls_le, h.orderly.writes_le, fun _ => rfl, ?_, fun _ _ _ _ _ => rfl⟩,
    h.running, h.polls⟩
  intro hne
  exact absurd hout hne

theorem Idle.setDispatcher {s : EndpointStrand} (h : s.Idle index) (d : Dispatcher) :
    (s.setDispatcher d).Idle index := h.congr rfl rfl rfl rfl

theorem Idle.markLost {s : EndpointStrand} (h : s.Idle index) (clock : TimestampMs) :
    (s.markLost index endpointId clock).Idle index := h.congr rfl rfl rfl rfl

theorem Idle.done {s : EndpointStrand} (h : s.Idle index) (clock : TimestampMs) (r : Result Unit) :
    (s.done index endpointId clock r).Orderly index := by
  have hoff := h.setInflight false
  have hmark : Idle index (if !s.transport.connected then
      EndpointStrand.markLost index endpointId clock { s with inflight := false }
      else { s with inflight := false, nextReconnectMs := 0 }) := by
    split
    · exact hoff.markLost clock
    · exact hoff.congr rfl rfl rfl rfl
  unfold EndpointStrand.done
  cases r with
  | ok _ => exact hmark.orderly
  | error e =>
    dsimp only
    split
    · exact (hmark.close.markLost clock).orderly
    · exact hmark.orderly

/-- A poll that holds the flag may take one place. -/
theorem Idle.post {s : EndpointStrand} (h : s.Idle index) (hin : s.inflight = true) {job : Job}
    (hjob : job.isWrite = false) (hoff : job.isConnect = true → s.transport.connected = false) :
    (s.post job).Orderly index := by
  have hpolls := h.polls
  have hwrites := h.orderly.writes_le
  rw [EndpointStrand.polls] at hpolls
  have hone : job.isRead.toNat + job.isConnect.toNat ≤ 1 := by
    rcases job with now | (chain | request) <;> simp
  have hreads := s.transport.reads_post job
  have hconnects := s.transport.connects_post job
  refine ⟨?_, ?_, ?_, h.orderly.connected, ?_⟩
  · simp only [EndpointStrand.polls, EndpointStrand.post, hin, Bool.toNat_true]
    omega
  · simp only [EndpointStrand.post, ModbusTcpTransport.writes_post, hjob]
    exact hwrites
  · intro hpos
    refine hoff ?_
    by_contra hc
    simp only [Bool.not_eq_true] at hc
    simp only [EndpointStrand.post, hc, Bool.toNat_false] at hpos hconnects
    omega
  · intro f hf
    rw [EndpointStrand.post, h.running] at hf
    cases hf

theorem Idle.next {s : EndpointStrand} (h : s.Idle index) (hin : s.inflight = true)
    (now clock : TimestampMs) (firstError : Option Error) (tags : List TagBinding) :
    (s.next index endpointId now clock firstError tags).Orderly index := by
  cases tags with
  | nil =>
    simp only [EndpointStrand.next]
    split
    · exact h.done clock _
    · exact h.done clock _
  | cons binding rest => exact h.post hin rfl (fun hc => by cases hc)

theorem Idle.flushed {s : EndpointStrand} (h : s.Idle index) (hin : s.inflight = true)
    (clock now : TimestampMs) (r : Result Unit) :
    (s.flushed index endpointId clock (some now) r).Orderly index := by
  rcases r with e | ⟨⟩
  · show (s.done index endpointId clock (.error e)).Orderly index
    exact h.done clock _
  · simp only [EndpointStrand.flushed]
    refine Idle.next (h.setDispatcher _) ?_ now clock none _
    exact hin

/-- A flush may take the free strand; one that opens a poll needs the flag. -/
theorem Orderly.begin {s : EndpointStrand} (h : s.Orderly index) (hrun : s.running = none)
    (poll : Option TimestampMs) (clock : TimestampMs)
    (hpoll : poll.isSome = true → s.polls = 0 ∧ s.inflight = true) :
    Orderly index { s with running := some { poll := poll, clock := clock } } := by
  have hpolls := h.polls_le
  have hwrites := h.writes_le
  simp only [polls, hrun, Option.any_none, Bool.toNat_false] at hpolls hpoll
  simp only [hrun, Option.any_none, Bool.toNat_false, Nat.le_zero] at hwrites
  refine ⟨?_, hwrites.trans_le (Nat.zero_le _), h.disconnected, h.connected, ?_⟩
  · simp only [polls, Option.any_some, Running.isPoll]
    cases hp : poll.isSome with
    | true =>
      obtain ⟨hzero, hin⟩ := hpoll hp
      simp only [hin, Bool.toNat_true]
      omega
    | false =>
      simp only [Bool.toNat_false]
      omega
  · intro f hf _ hmay
    cases hf
    simp [mayTransmit] at hmay

/-- A flush gets a write to transmit from the queue, or has it already. -/
theorem mayTransmit_of_move {clock : TimestampMs} {pc pc' : FlushPc} {w w' : World (Result Unit)}
    (h : FlushMove index scripted endpointId clock pc w pc' w')
    (hmay : mayTransmit index pc' = true) :
    mayTransmit index pc = true ∨
      (pc = .start ∧ transmits index (w.dispatcher.writeQueues endpointId) = true) ∨
      ((nextCall index pc).isSome = true ∧ w.transports endpointId = some (.ok ())) := by
  cases h with
  | take => exact .inr (.inl ⟨rfl, hmay⟩)
  | bound => exact .inl hmay
  | skip hp =>
    left
    simpa only [mayTransmit, transmits, hp] using hmay
  | granted hp ht hw =>
    right; right
    refine ⟨by simp [nextCall, hp], ?_⟩
    rw [ht]
    exact congrArg some (congrArg Prod.fst hw)
  | get => exact .inl hmay
  | @put previous outcome todo after =>
    left
    cases todo with
    | nil =>
      cases after with
      | loop batch => exact hmay
      | requeue writes e => cases hmay
    | cons => exact hmay
  | _ => cases hmay

theorem mayTransmit_of_nextCall {pc : FlushPc} {request : WriteRequest} {pdu : List UInt8}
    (hcall : nextCall index pc = some request) (hpdu : requestPdu request = .ok pdu) :
    mayTransmit index pc = true := by
  unfold nextCall at hcall
  split at hcall
  · rename_i write batch
    split at hcall
    · rename_i hp
      cases hcall
      simp [mayTransmit, transmits, hp, hpdu, Except.isOk, Except.toBool]
    · cases hcall
  · cases hcall

/-- The flush on the strand takes a step with an answer it has. -/
theorem Orderly.resume {s s' : EndpointStrand} (h : s.Orderly index) {f : Running}
    (hf : s.running = some f) (hwait : f.call ≠ .waiting) {answer : Result Unit}
    (hanswer : f.call = .idle → (nextCall index f.pc).isSome = true → answer ≠ .ok ())
    (hclear : f.poll = none → f.pc = .start →
      transmits index (s.dispatcher.writeQueues endpointId) = true →
      s.transport.reads = 0 ∨ s.transport.connected = false)
    (hstep : s.resume index endpointId f answer = some s') : s'.Orderly index := by
  obtain ⟨⟨pc, w⟩, hpc, rfl⟩ := Option.map_eq_some_iff.mp hstep
  have hpolls := h.polls_le
  have hwrites := h.writes_le
  have hidle : f.isWaiting = false := by simpa [Running.isWaiting] using hwait
  simp only [polls, hf, Option.any_some] at hpolls
  simp only [hf, Option.any_some, hidle, Bool.toNat_false, Nat.le_zero] at hwrites
  refine ⟨hpolls, ?_, h.disconnected, h.connected, ?_⟩
  · show s.transport.writes ≤ _
    rw [hwrites]
    exact Nat.zero_le _
  · intro f' hf' hpoll hmay hreads
    cases hf'
    replace hmay : mayTransmit index pc = true := by simpa using hmay
    by_cases hcall : f.call = .idle
    · rcases mayTransmit_of_move (FlushPc.move_of_step hpc) hmay with hheld | ⟨hpc, hq⟩ | ⟨hs, ht⟩
      · exact h.clear f hf hpoll (.inl hheld) hreads
      · rcases hclear hpoll hpc hq with hzero | hoff
        · exact absurd hzero (Nat.pos_iff_ne_zero.mp hreads)
        · exact hoff
      · exact absurd (Option.some.inj ht) (hanswer hcall hs)
    · exact h.clear f hf hpoll (.inr hcall) hreads

/-- The flush on the strand posts a write and blocks. -/
theorem Orderly.block {s : EndpointStrand} (h : s.Orderly index) {f : Running}
    (hf : s.running = some f) (hcall : f.call = .idle) {request : WriteRequest} {pdu : List UInt8}
    (hnext : nextCall index f.pc = some request) (hpdu : requestPdu request = .ok pdu) :
    Orderly index { s.post (.transact (.write request)) with
      running := some { f with call := .waiting } } := by
  have hpolls := h.polls_le
  have hwrites := h.writes_le
  have hidle := Running.isWaiting_of_idle hcall
  simp only [polls, hf, Option.any_some] at hpolls
  simp only [hf, Option.any_some, hidle, Bool.toNat_false] at hwrites
  have hreads : (s.transport.post (.transact (.write request))).reads = s.transport.reads :=
    s.transport.reads_post _
  have hconnects : (s.transport.post (.transact (.write request))).connects =
      s.transport.connects := s.transport.connects_post _
  have hmay := mayTransmit_of_nextCall hnext hpdu
  refine ⟨?_, ?_, ?_, h.connected, ?_⟩
  · simp only [polls, EndpointStrand.post, hreads, hconnects]
    exact hpolls
  · have hpost := s.transport.writes_post (.transact (.write request))
    have hone : (Running.isWaiting { f with call := .waiting }).toNat = 1 := rfl
    simp only [EndpointStrand.post, hpost, Option.any_some, hone]
    simp only [Job.isWrite_transact, Transaction.isRead_write, Bool.not_false, Bool.toNat_true]
    omega
  · intro hpos
    exact h.disconnected (hconnects ▸ hpos)
  · intro f' hf' hpoll _ hpos
    cases hf'
    exact h.clear f hf hpoll (.inl hmay) (hreads ▸ hpos)

/-- The flush on the strand is over. -/
theorem Orderly.release {s : EndpointStrand} (h : s.Orderly index) {f : Running}
    (hf : s.running = some f) (hcall : f.call = .idle) (clock : TimestampMs) (r : Result Unit) :
    (EndpointStrand.flushed index endpointId clock f.poll r { s with running := none }).Orderly
      index := by
  have hpolls := h.polls_le
  have hwrites := h.writes_le
  have hidle := Running.isWaiting_of_idle hcall
  simp only [polls, hf, Option.any_some] at hpolls
  simp only [hf, Option.any_some, hidle, Bool.toNat_false, Nat.le_zero] at hwrites
  have hin := Bool.toNat_le s.inflight
  have hfree : Orderly index { s with running := none } := by
    refine ⟨?_, ?_, h.disconnected, h.connected, ?_⟩
    · have hle : s.transport.reads + s.transport.connects + s.tasks.countP Task.isPoll ≤
          s.inflight.toNat := by omega
      simpa [polls] using hle
    · exact hwrites.le
    · intro f' hf'
      cases hf'
  cases hpoll : f.poll with
  | none => exact hfree
  | some now =>
    simp only [Running.isPoll, hpoll, Option.isSome_some, Bool.toNat_true] at hpolls
    have hon : s.inflight = true := by
      cases hs : s.inflight with
      | true => rfl
      | false =>
        simp only [hs, Bool.toNat_false] at hpolls
        omega
    have hzero : s.transport.reads + s.transport.connects + s.tasks.countP Task.isPoll = 0 := by omega
    have hidle : Idle index { s with running := none } := by
      refine ⟨hfree, rfl, ?_⟩
      simpa [polls] using hzero
    exact hidle.flushed hon clock now r

theorem Orderly.advance {s s' : EndpointStrand} (h : s.Orderly index) (clock : TimestampMs)
    (hclear : KeepsClear index endpointId (.advance clock) s)
    (hstep : s.advance index endpointId clock = some s') : s'.Orderly index := by
  unfold EndpointStrand.advance at hstep
  split at hstep
  · cases hstep
  · rename_i f hf
    replace hclear : f.poll = none → f.pc = .start →
        transmits index (s.dispatcher.writeQueues endpointId) = true →
        s.transport.reads = 0 ∨ s.transport.connected = false := by
      intro hpoll hpc hq
      simpa [KeepsClear, intrudes, hf, hpoll, hpc, hq, ← or_iff_not_imp_left] using hclear
    split at hstep
    · cases hstep
    · rename_i r hcall
      refine h.resume hf ?_ ?_ hclear hstep
      · simp [hcall]
      · intro hidle
        simp [hcall] at hidle
    · rename_i request hcall hnext
      split at hstep
      · rename_i e _
        refine h.resume hf ?_ ?_ hclear hstep
        · simp [hcall]
        · intro _ _ heq
          cases heq
      · rename_i pdu hpdu
        cases hstep
        exact h.block hf hcall hnext hpdu
    · rename_i hcall hnext
      split at hstep
      · cases hstep
        exact h.release hf hcall clock _
      · refine h.resume hf ?_ ?_ hclear hstep
        · simp [hcall]
        · intro _ hsome
          simp [hnext] at hsome

theorem Orderly.tickEndpoint {s : EndpointStrand} (h : s.Orderly index) (hrun : s.running = none)
    (now clock : TimestampMs) : (s.tickEndpoint index endpointId now clock).Orderly index := by
  unfold EndpointStrand.tickEndpoint
  split_ifs with hin hlater
  · exact h
  · exact h
  · have hidle : s.Idle index := by
      have hpolls := h.polls_le
      simp only [hin, Bool.toNat_false, Nat.le_zero] at hpolls
      exact ⟨h, hrun, hpolls⟩
    have hon := hidle.setInflight true
    dsimp only
    split
    · rename_i hoff
      split
      · exact hon.done clock _
      · exact hon.post rfl rfl (fun _ => by simpa using hoff)
    · exact hon.orderly.begin hrun (some now) clock (fun _ => ⟨hon.polls, rfl⟩)

/-- A strand that has taken a task of the poll off its queue holds the poll. -/
theorem Orderly.take {s : EndpointStrand} (h : s.Orderly index) (hrun : s.running = none)
    {task : Task} {rest : List Task} (htasks : s.tasks = task :: rest) :
    Orderly index { s with tasks := rest } ∧
      (task.isPoll = true → Idle index { s with tasks := rest } ∧ s.inflight = true) := by
  have hpolls := h.polls_le
  have hin := Bool.toNat_le s.inflight
  simp only [polls, htasks, hrun, List.countP_cons, Option.any_none, Bool.toNat_false] at hpolls
  have hrest : Orderly index { s with tasks := rest } := by
    refine ⟨?_, h.writes_le, h.disconnected, h.connected, h.clear⟩
    simp only [polls, hrun, Option.any_none, Bool.toNat_false]
    omega
  refine ⟨hrest, ?_⟩
  intro hpoll
  simp only [hpoll, if_true] at hpolls
  refine ⟨⟨hrest, hrun, ?_⟩, ?_⟩
  · simp only [polls, hrun, Option.any_none, Bool.toNat_false]
    omega
  · by_contra hoff
    simp only [Bool.not_eq_true] at hoff
    simp only [hoff, Bool.toNat_false] at hpolls
    omega

theorem Orderly.runTask {s : EndpointStrand} (h : s.Orderly index) (hrun : s.running = none)
    {task : Task} {rest : List Task} (htasks : s.tasks = task :: rest) (now clock : TimestampMs) :
    (EndpointStrand.runTask index endpointId now clock task { s with tasks := rest }).Orderly
      index := by
  obtain ⟨hrest, hpoll⟩ := h.take hrun htasks
  cases task with
  | tick => exact hrest.tickEndpoint hrun now clock
  | flush => exact hrest.begin hrun none clock (fun hsome => by cases hsome)
  | connected began conn =>
    obtain ⟨hidle, hin⟩ := hpoll rfl
    rcases conn with e | ⟨⟩
    · simp only [EndpointStrand.runTask]
      exact (hidle.setDispatcher _).done clock _
    · exact hrest.begin hrun (some began) clock (fun _ => ⟨hidle.polls, hin⟩)
  | completed chain regs =>
    obtain ⟨hidle, hin⟩ := hpoll rfl
    refine Idle.next (hidle.setDispatcher _) ?_ chain.now clock _ chain.rest
    exact hin

/-! ### The transport's strand -/

/-- A result on its way back to the endpoint's strand. The transport has let go of the
transaction; nothing else about the endpoint has changed. -/
theorem Orderly.deliver {s : EndpointStrand} (h : s.Orderly index) {t : Transaction}
    {transport : ModbusTcpTransport}
    (hreads : transport.reads + t.isRead.toNat = s.transport.reads)
    (hwrites : transport.writes + (!t.isRead).toNat = s.transport.writes)
    (hconnects : transport.connects = s.transport.connects)
    (hdisconnected : s.transport.connected = false → transport.connected = false)
    (hconnected : transport.outstanding ≠ [] → transport.connected = true)
    (answer : Result (List UInt16)) :
    (EndpointStrand.deliver t answer { s with transport := transport }).Orderly index := by
  have hpolls := h.polls_le
  have hwaiting := h.writes_le
  rw [polls] at hpolls
  have hoff : 0 < transport.connects → transport.connected = false := by
    intro hpos
    exact hdisconnected (h.disconnected (hconnects ▸ hpos))
  cases t with
  | read chain =>
    simp only [Transaction.isRead_read, Bool.toNat_true, Bool.not_true, Bool.toNat_false] at hreads hwrites
    refine ⟨?_, ?_, hoff, hconnected, ?_⟩
    · simp only [polls, EndpointStrand.deliver, List.countP_append, List.countP_singleton,
        Task.isPoll, if_true]
      omega
    · simp only [EndpointStrand.deliver]
      omega
    · intro f hf hpoll hmay hpos
      have hpos : 0 < transport.reads := hpos
      exact hdisconnected (h.clear f hf hpoll hmay (by omega))
  | write request =>
    simp only [Transaction.isRead_write, Bool.toNat_true, Bool.not_false, Bool.toNat_false] at hreads hwrites
    -- the write belongs to the flush that waits for it
    cases hrun : s.running with
    | none =>
      simp only [hrun, Option.any_none, Bool.toNat_false] at hwaiting
      omega
    | some f =>
      have hone := Bool.toNat_le (s.running.any Running.isWaiting)
      have hcall : f.call ≠ .idle := by
        intro hidle
        simp only [hrun, Option.any_some, Running.isWaiting_of_idle hidle,
          Bool.toNat_false] at hwaiting
        omega
      simp only [hrun, Option.any_some] at hpolls
      refine ⟨?_, ?_, hoff, hconnected, ?_⟩
      · simp only [polls, EndpointStrand.deliver, Option.map_some, Option.any_some]
        simp only [Running.isPoll] at hpolls ⊢
        omega
      · simp only [EndpointStrand.deliver]
        omega
      · intro f' hf' hpoll _ hpos
        have hpos : 0 < transport.reads := hpos
        cases hf'
        exact hdisconnected (h.clear f hrun hpoll (.inr hcall) (by omega))

/-- A job that moves on within the transport. -/
theorem Orderly.carry {s : EndpointStrand} (h : s.Orderly index) {transport : ModbusTcpTransport}
    (hreads : transport.reads = s.transport.reads)
    (hwrites : transport.writes = s.transport.writes)
    (hconnects : transport.connects = s.transport.connects)
    (hdisconnected : s.transport.connected = false → transport.connected = false)
    (hconnected : transport.outstanding ≠ [] → transport.connected = true) :
    Orderly index { s with transport := transport } := by
  refine ⟨?_, ?_, ?_, hconnected, ?_⟩
  · have hpolls := h.polls_le
    rw [polls, ← hreads, ← hconnects] at hpolls
    exact hpolls
  · exact hwrites.trans_le h.writes_le
  · intro hpos
    exact hdisconnected (h.disconnected (hconnects ▸ hpos))
  · intro f hf hpoll hmay hpos
    exact hdisconnected (h.clear f hf hpoll hmay (hreads ▸ hpos))

theorem Orderly.start {s : EndpointStrand} (h : s.Orderly index) {job : Job} {rest : List Job}
    (hposted : s.transport.posted = job :: rest) :
    (EndpointStrand.execute { s with transport := { s.transport with posted := rest } } job).Orderly
      index := by
  have hreads : s.transport.reads = rest.countP Job.isRead + job.isRead.toNat +
      s.transport.outstanding.countP Transaction.isRead := by
    rw [ModbusTcpTransport.reads, hposted, countP_head]
  have hwrites : s.transport.writes = rest.countP Job.isWrite + job.isWrite.toNat +
      s.transport.outstanding.countP (fun t => !t.isRead) := by
    rw [ModbusTcpTransport.writes, hposted, countP_head]
  have hconnects : s.transport.connects = rest.countP Job.isConnect + job.isConnect.toNat +
      s.transport.connecting.length := by
    rw [ModbusTcpTransport.connects, hposted, countP_head]
  cases job with
  | connect now =>
    refine h.carry ?_ ?_ ?_ (fun _ => rfl) ?_
    · rw [hreads]
      rfl
    · rw [hwrites]
      rfl
    · rw [hconnects, Job.isConnect_connect, Bool.toNat_true]
      simp only [ModbusTcpTransport.connects, List.length_append, List.length_singleton]
      omega
    · intro hne
      -- a transport that is about to connect has nothing outstanding
      have hon := h.connected hne
      rw [h.disconnected (by rw [hconnects]; simp)] at hon
      cases hon
  | transact t =>
    simp only [Job.isRead_transact, Job.isWrite_transact] at hreads hwrites
    simp only [execute]
    split
    · refine h.deliver ?_ ?_ ?_ ?_ ?_ _
      · rw [hreads]
        simp only [ModbusTcpTransport.reads]
        omega
      · rw [hwrites]
        simp only [ModbusTcpTransport.writes]
        omega
      · rw [hconnects]
        rfl
      · exact id
      · exact h.connected
    · rename_i hon
      replace hon : s.transport.connected = true := by simpa using hon
      refine h.carry ?_ ?_ ?_ id (fun _ => hon)
      · rw [hreads]
        simp only [ModbusTcpTransport.reads, List.countP_append, countP_single]
        omega
      · rw [hwrites]
        simp only [ModbusTcpTransport.writes, List.countP_append, countP_single]
        omega
      · rw [hconnects]
        rfl

theorem Orderly.connectDone {s : EndpointStrand} (h : s.Orderly index) {attempt : ℕ}
    {now : TimestampMs} (hget : s.transport.connecting[attempt]? = some now) (r : Result Unit) :
    Orderly index { s with
      tasks := s.tasks ++ [.connected now r]
      transport := { s.transport with
        connected := r.isOk, connecting := s.transport.connecting.eraseIdx attempt } } := by
  obtain ⟨hlt, -⟩ := List.getElem?_eq_some_iff.mp hget
  have hlen := List.length_eraseIdx_of_lt hlt
  have hpolls := h.polls_le
  have hin := Bool.toNat_le s.inflight
  rw [polls] at hpolls
  -- the attempt is the poll's one place, so that nothing else of it is on its way
  have hone : s.transport.connects = 1 ∧ s.transport.reads = 0 := by
    rw [ModbusTcpTransport.connects] at hpolls ⊢
    omega
  have hconnects : s.transport.posted.countP Job.isConnect + s.transport.connecting.length = 1 := hone.1
  refine ⟨?_, h.writes_le, ?_, ?_, ?_⟩
  · have hreads := hone.2
    rw [ModbusTcpTransport.reads] at hreads
    simp only [polls, ModbusTcpTransport.connects, ModbusTcpTransport.reads, List.countP_append,
      List.countP_singleton, Task.isPoll, if_true, hlen]
    omega
  · intro hpos
    simp only [ModbusTcpTransport.connects, hlen] at hpos
    omega
  · intro hne
    have hon := h.connected hne
    rw [h.disconnected (by omega)] at hon
    cases hon
  · intro f _ _ _ hpos
    exact absurd hone.2 (Nat.pos_iff_ne_zero.mp hpos)

theorem Orderly.finish {s : EndpointStrand} (h : s.Orderly index) {call : ℕ} {t : Transaction}
    (hget : s.transport.outstanding[call]? = some t) (answer : Result (List UInt16)) :
    (EndpointStrand.deliver t answer { s with transport := { s.transport with
      connected := s.transport.connected && !Adapters.disconnects answer
      outstanding := s.transport.outstanding.eraseIdx call } }).Orderly index := by
  obtain ⟨hlt, rfl⟩ := List.getElem?_eq_some_iff.mp hget
  have hle := h.outstanding_le
  -- the transaction is the only one
  obtain ⟨t, hout⟩ : ∃ t, s.transport.outstanding = [t] := List.length_eq_one_iff.mp (by omega)
  have hzero : call = 0 := by omega
  subst hzero
  have hget : s.transport.outstanding[0] = t := by simp [hout]
  have herase : s.transport.outstanding.eraseIdx 0 = [] := by simp [hout]
  rw [hget, herase]
  refine h.deliver ?_ ?_ ?_ ?_ ?_ answer
  · simp only [ModbusTcpTransport.reads, hout, countP_single, List.countP_nil, Nat.add_zero]
  · simp only [ModbusTcpTransport.writes, hout, countP_single, List.countP_nil, Nat.add_zero]
  · rfl
  · intro hoff
    simp [hoff]
  · intro hne
    exact absurd rfl hne

/-! ### Runs -/

theorem step_orderly {action : StrandAction} {s s' : EndpointStrand} (h : s.Orderly index)
    (hclear : KeepsClear index endpointId action s)
    (hstep : step index endpointId action s = some s') : s'.Orderly index := by
  cases action with
  | enqueue tagId value =>
    cases hstep
    exact h.congr rfl rfl rfl rfl
  | postFlush =>
    obtain ⟨n, -, rfl⟩ := step_postFlush hstep
    refine ⟨?_, h.writes_le, h.disconnected, h.connected, h.clear⟩
    simpa [polls, Task.isPoll] using h.polls_le
  | tick =>
    cases hstep
    refine ⟨?_, h.writes_le, h.disconnected, h.connected, h.clear⟩
    simpa [polls, Task.isPoll] using h.polls_le
  | run now clock =>
    obtain ⟨task, rest, hrun, htasks, rfl⟩ := step_run hstep
    exact h.runTask hrun htasks now clock
  | advance clock => exact h.advance clock hclear hstep
  | start =>
    obtain ⟨job, rest, hposted, rfl⟩ := step_start hstep
    exact h.start hposted
  | connectDone attempt r =>
    obtain ⟨now, hget, rfl⟩ := step_connectDone hstep
    exact h.connectDone hget r
  | finish call answer =>
    obtain ⟨t, hget, rfl⟩ := step_finish hstep
    exact h.finish hget answer

/-- In every run whose flushes keep clear of the reads of a poll, at most one
transaction is outstanding at any time. -/
theorem outstanding_le_one {s : EndpointStrand}
    (h : Transition.Reachable (step index endpointId) (KeepsClear index endpointId) Fresh s) :
    s.transport.outstanding.length ≤ 1 := by
  have horderly : s.Orderly index := by
    refine h.invariant (Orderly index) (fun s hs => Orderly.of_fresh hs) ?_
    intro s t action _ hs hclear hstep
    exact step_orderly hs hclear hstep
  exact horderly.outstanding_le

end EndpointStrand

end Strands

/-! ### A flush between the reads of a poll -/

section Level

attribute [local instance] exactPlatform

def levelTag : Tag := { name := "Level", address := 2, writable := true }

/-- A device with one writable register that is polled once a second. -/
def level : RuntimeIndex := RuntimeIndex.build
  { endpoints := [{ id := "plc" }],
    devices := [{ id := "dev", endpointId := "plc", tags := [levelTag] }],
    pollGroups := [{ id := "fast", deviceId := "dev", periodMs := 1000 }] }

/-- A poll connects and sends its read. -/
def pollActions : List StrandAction :=
  [.tick, .run 1000 1000, .start, .connectDone 0 (.ok ()), .run 1000 1000, .advance 1000,
    .advance 1000, .start]

/-- A UA write whose flush runs at once. -/
def writeActions : List StrandAction :=
  [.enqueue 1 (.uint16 10), .postFlush, .run 1001 1001, .advance 1001, .advance 1001,
    .advance 1001, .start]

/-- The write handler's flush sends its request while the read of a poll is
outstanding. -/
theorem two_outstanding : ¬ ∀ s, Transition.Reachable (EndpointStrand.step level "plc")
    Transition.Free EndpointStrand.Fresh s → s.transport.outstanding.length ≤ 1 := by
  intro h
  have hend : (Transition.run (EndpointStrand.step level "plc") (pollActions ++ writeActions)
      {}).map (fun s => s.transport.outstanding.length) = some 2 := by decide +kernel
  obtain ⟨s, hrun, hs⟩ := Option.map_eq_some_iff.mp hend
  have hfresh : EndpointStrand.Fresh {} := ⟨rfl, rfl, rfl, rfl, rfl, rfl⟩
  have hle := h s ((Transition.Reachable.start hfresh).of_run _ hrun)
  rw [hs] at hle
  exact absurd hle (by decide)

/-- A write whose flush waits until the read of the poll is answered. -/
theorem level_one_outstanding : ∃ s, Transition.run (EndpointStrand.step level "plc")
    (pollActions ++ [.finish 0 (.ok [7]), .run 1001 1001] ++ writeActions) {} = some s ∧
      s.transport.outstanding = [.write (.writeSingleRegister 1 2 10)] ∧
      s.transport.outstanding.length ≤ 1 := by
  have hend : (Transition.run (EndpointStrand.step level "plc")
      (pollActions ++ [.finish 0 (.ok [7]), .run 1001 1001] ++ writeActions) {}).map
      (fun s => s.transport.outstanding) = some [.write (.writeSingleRegister 1 2 10)] := by
    decide +kernel
  obtain ⟨s, hrun, hs⟩ := Option.map_eq_some_iff.mp hend
  have hfresh : EndpointStrand.Fresh {} := ⟨rfl, rfl, rfl, rfl, rfl, rfl⟩
  have hmeets : Transition.Meets (EndpointStrand.step level "plc")
      (EndpointStrand.KeepsClear level "plc")
      (pollActions ++ [.finish 0 (.ok [7]), .run 1001 1001] ++ writeActions) {} := by
    decide +kernel
  have hreach := (Transition.Reachable.start hfresh).of_meets _ hmeets hrun
  exact ⟨s, hrun, hs, EndpointStrand.outstanding_le_one hreach⟩

end Level

end OpcServer.App
