import OpcServer.Adapters.ResponseMatching
import OpcServer.Adapters.UdpLink

/-! A TCP transport and a device that answers late. A transaction is a chain of three
composed operations, a write, the read of the header and the read of the body, under one
deadline. A composed operation starts one operation on the socket after another, each of
which moves some of its bytes. An operation on the socket that has ended waits with its
result for its handler to run on the strand, and so does a deadline that has expired; its
handler cancels what is then on the socket. Handlers run while the transport has its worker:
`close` stops the worker, and the next request or connect starts it again.

A timeout and a lost connection close the socket, so that the bytes of a late reply are not
there for the next request. A connect is one step, and `close` is called from outside the
worker. Requests are numbered: the number is known to neither side. -/

namespace OpcServer.Adapters

open Domain

/-! ### The handlers -/

/-- The composed operation that a transaction is at. -/
inductive Stage where
  | write (request : List UInt8)
  | header
  | body (mbap : List UInt8)
  deriving DecidableEq, Repr

/-- The length field of a header. -/
def mbapLength (mbap : List UInt8) : UInt16 := word (mbap.getD 4 0) (mbap.getD 5 0)

/-- The bytes that an operation moves in all. -/
def Stage.wants : Stage → ℕ
  | .write request => request.length
  | .header => 6
  | .body mbap => (mbapLength mbap).toNat

/-- How an operation ends: with an error, or with the bytes that it moved. -/
abbrev Ended := Except IoError (List UInt8)

/-- A handler starts the next operation on the socket, with the bytes that its composed
operation has moved before, or it returns the result of the transaction. -/
inductive Handled where
  | next (stage : Stage) (moved : List UInt8)
  | returns (result : Result (List UInt8))

def onWrite : Ended → Handled
  | .error e => .returns (.error (writeError e))
  | .ok _ => .next .header []

def onHeader : Ended → Handled
  | .error e => .returns (.error (readError e))
  | .ok mbap =>
    if mbapLength mbap < 2 ∨ mbapLength mbap > 254 then
      .returns (.error (makeErr .decoding "bad MBAP length" false))
    else .next (.body mbap) []

def onBody : Ended → Handled
  | .error e => .returns (.error (readError e))
  | .ok body =>
    .returns (match body with
    | _ :: function :: data =>
      if function &&& 0x80 ≠ 0 then
        .error (exceptionErr "adapters.modbus_tcp" (match data with
          | code :: _ => code.toNat
          | [] => -1))
      else .ok (function :: data)
    | _ => .error (makeErr .decoding "short PDU" false))

/-- The handler of a composed operation. -/
def Stage.handler : Stage → Ended → Handled
  | .write _ => onWrite
  | .header => onHeader
  | .body _ => onBody

/-- What `transact` returns for its own reply: the PDU, or the exception. -/
def tcpAnswerOf (pdu : List UInt8) : Result (List UInt8) :=
  if IsException pdu then
    .error (exceptionErr "adapters.modbus_tcp" (match pdu[1]? with
      | some code => code.toNat
      | none => -1))
  else .ok pdu

theorem disconnects_tcpAnswerOf (pdu : List UInt8) : disconnects (tcpAnswerOf pdu) = false := by
  unfold tcpAnswerOf
  split
  · rfl
  · rfl

/-- A reply in bytes: its header, the unit and the PDU. -/
theorem packMbap_append (tid : UInt16) (unit : UInt8) (pdu : List UInt8) :
    ∃ header, header.length = 6 ∧ mbapLength header = UInt16.ofNat (1 + pdu.length) ∧
      packMbap tid unit pdu = header ++ unit :: pdu := by
  refine ⟨u16Bytes tid ++ u16Bytes 0 ++ u16Bytes (UInt16.ofNat (1 + pdu.length)), rfl, ?_, rfl⟩
  simp only [mbapLength, u16Bytes, List.cons_append, List.nil_append, List.getD_cons_succ,
    List.getD_cons_zero, word_u16Bytes]

theorem packMbap_length (tid : UInt16) (unit : UInt8) (pdu : List UInt8) :
    (packMbap tid unit pdu).length = 7 + pdu.length := by
  obtain ⟨header, hheader, -, hpack⟩ := packMbap_append tid unit pdu
  rw [hpack, List.length_append, hheader, List.length_cons]
  omega

theorem onHeader_correct {request reply header : List UInt8} (h : Correct request reply)
    (hlength : mbapLength header = UInt16.ofNat (1 + reply.length)) :
    onHeader (.ok header) = .next (.body header) [] ∧
      (Stage.body header).wants = 1 + reply.length := by
  obtain ⟨-, hne, hle⟩ := h
  have hnat : (mbapLength header).toNat = 1 + reply.length := by
    rw [hlength, UInt16.toNat_ofNat']
    omega
  have hfits : ¬ (mbapLength header < 2 ∨ mbapLength header > 254) := by
    simp only [UInt16.lt_iff_toNat_lt, gt_iff_lt, UInt16.reduceToNat, hnat]
    omega
  exact ⟨if_neg hfits, hnat⟩

theorem onBody_answer (unit : UInt8) {reply : List UInt8} (h : 1 ≤ reply.length) :
    onBody (.ok (unit :: reply)) = .returns (tcpAnswerOf reply) := by
  obtain ⟨function, data, rfl⟩ := List.exists_cons_of_length_pos h
  by_cases hx : function &&& 0x80 ≠ 0
  · rw [tcpAnswerOf, if_pos (show IsException (function :: data) from hx)]
    simp only [onBody, if_pos hx]
    cases data with
    | nil => rfl
    | cons code rest => rfl
  · rw [tcpAnswerOf, if_neg (show ¬ IsException (function :: data) from hx)]
    simp only [onBody, if_neg hx]

/-! ### The link -/

/-- A transaction in progress, with the bytes that the composed operation has moved before
the operation that is on the socket, or that has ended. The deadline is armed until it
expires. -/
structure TcpCall where
  serial : ℕ
  tid : UInt16
  unit : UInt8
  pdu : List UInt8
  stage : Stage
  moved : List UInt8 := []
  ended : Option Ended := none
  armed : Bool := true
  deriving DecidableEq, Repr

namespace TcpCall

def sent (c : TcpCall) : Sent := ⟨c.serial, c.tid, c.unit, c.pdu⟩

/-- The bytes that the composed operation has still to move. -/
def left (c : TcpCall) : ℕ := c.stage.wants - c.moved.length

/-- The bytes that the composed operation has moved, those that wait included. -/
def moving (c : TcpCall) : List UInt8 :=
  c.moved ++ match c.ended with
    | some (.ok bytes) => bytes
    | _ => []

/-- The bytes that a transaction has read. -/
def taken (c : TcpCall) : List UInt8 :=
  match c.stage with
  | .write _ => []
  | .header => c.moving
  | .body mbap => mbap ++ c.moving

/-- The handler of an operation on the socket. While bytes are missing the composed operation
goes on; its own handler runs with the last byte, or with an error. -/
def handler (c : TcpCall) : Ended → Handled
  | .error e => c.stage.handler (.error e)
  | .ok bytes =>
    if (c.moved ++ bytes).length < c.stage.wants then .next c.stage (c.moved ++ bytes)
    else c.stage.handler (.ok (c.moved ++ bytes))

/-- An operation that is still on the socket is aborted. -/
def cancel (c : TcpCall) : TcpCall :=
  match c.ended with
  | none => { c with ended := some (.error .aborted) }
  | some _ => c

end TcpCall

/-- The transactions in progress are in the order in which their last operations started;
`expired` holds the deadlines whose handlers wait. A request is with the device when its last
byte is written (the pieces of two requests are not mixed here, as they are when two
transactions write at once); bytes are in transit until they are in the stream of the
socket. The replies of the device and the results of the transport are kept with the numbers
of their requests. -/
structure TcpLink where
  client : TcpTransport := {}
  running : Bool := false
  closing : Bool := false
  requests : ℕ := 0
  calls : List TcpCall := []
  expired : List ℕ := []
  pending : List Sent := []
  transit : List UInt8 := []
  stream : List UInt8 := []
  replies : List (ℕ × List UInt8) := []
  results : List (ℕ × Result (List UInt8)) := []
  deriving DecidableEq, Repr

/-- What the caller does (`connect`, `start`, `close` with its second half `stop`), what the
device and the network do (`answer`, `arrive`), what ends an operation on the socket
(`complete`, `breaks`), and what the worker does. -/
inductive TcpAction where
  | connect (ok : Bool)
  | start (unit : UInt8) (pdu : List UInt8)
  | close
  | stop
  | answer (request : ℕ) (reply : List UInt8)
  | arrive (count : ℕ)
  | complete (call count : ℕ)
  | breaks (call : ℕ) (e : IoError)
  | expire (call : ℕ)
  | deadline (handler : ℕ)
  | handle (call : ℕ)
  deriving DecidableEq, Repr

namespace TcpLink

/-- An operation starts; on a closed socket it ends at once. -/
def launch (s : TcpLink) : Option Ended :=
  if s.client.connected then none else some (.error (.other "Bad file descriptor"))

/-- Whether the `finished` flag of a transaction is set: it is when its result is out. -/
def finished (s : TcpLink) (serial : ℕ) : Bool := s.results.any (·.1 == serial)

/-- `socket.cancel`: an operation that has ended already is not affected. -/
def cancel (s : TcpLink) : TcpLink := { s with calls := s.calls.map TcpCall.cancel }

/-- `mark_disconnected`. -/
def markDisconnected (s : TcpLink) : TcpLink :=
  { s.cancel with client := { s.client with connected := false } }

def finish (s : TcpLink) (call : ℕ) (c : TcpCall) (result : Result (List UInt8)) : TcpLink :=
  let s := { s with
    calls := s.calls.eraseIdx call
    results := s.results ++ [(c.serial, result)] }
  if disconnects result then s.markDisconnected else s

/-- The handler of an operation that has ended runs. -/
def handle (s : TcpLink) (call : ℕ) (c : TcpCall) (ended : Ended) : TcpLink :=
  match c.handler ended with
  | .next stage moved => { s with
      calls := s.calls.eraseIdx call ++
        [{ c with stage := stage, moved := moved, ended := s.launch }] }
  | .returns result => s.finish call c result

/-- Whether an operation is the next one that the socket serves, in its direction. -/
def serves (s : TcpLink) (call : ℕ) (c : TcpCall) : Bool :=
  (s.calls.take call).all fun d =>
    d.ended.isSome || (match d.stage, c.stage with
    | .write _, .write _ => false
    | .write _, _ => true
    | _, .write _ => true
    | _, _ => false)

/-- An operation moves some bytes. -/
def complete (s : TcpLink) (call : ℕ) (c : TcpCall) (count : ℕ) : Option TcpLink :=
  if s.running ∧ c.ended = none ∧ s.serves call c ∧ 0 < count ∧ count ≤ c.left then
    match c.stage with
    | .write request => some { s with
        calls := s.calls.set call
          { c with ended := some (.ok ((request.drop c.moved.length).take count)) }
        pending := if count = c.left then s.pending ++ [c.sent] else s.pending }
    | _ =>
      if count ≤ s.stream.length then
        some { s with
          calls := s.calls.set call { c with ended := some (.ok (s.stream.take count)) }
          stream := s.stream.drop count }
      else none
  else none

/-- A new socket has an empty stream, and nothing that was sent on the old one reaches
it. An operation does not fail of itself as `aborted`. -/
def step : TcpAction → TcpLink → Option TcpLink
  | .connect ok, s => some { s.cancel with
      client := { s.client with connected := ok }
      running := true
      pending := []
      transit := []
      stream := [] }
  | .start unit pdu, s =>
    if s.client.connected then
      let tid := s.client.transactionId
      some { s with
        client := { s.client with transactionId := tid + 1 }
        running := true
        requests := s.requests + 1
        calls := s.calls ++ [{ serial := s.requests, tid, unit, pdu
                               stage := .write (packMbap tid unit pdu) }] }
    else some { s with
      running := true
      requests := s.requests + 1
      results := s.results ++ [(s.requests, .error (makeErr .connection "not connected"))] }
  | .close, s => some { s.markDisconnected with closing := true }
  | .stop, s => if s.closing then some { s with running := false, closing := false } else none
  | .answer request reply, s =>
    match s.pending[request]? with
    | none => none
    | some r =>
      if Correct r.pdu reply then
        some { s with
          pending := s.pending.eraseIdx request
          transit := s.transit ++ packMbap r.tid r.unit reply
          replies := s.replies ++ [(r.serial, reply)] }
      else none
  | .arrive count, s => some { s with
      stream := s.stream ++ s.transit.take count
      transit := s.transit.drop count }
  | .complete call count, s =>
    match s.calls[call]? with
    | none => none
    | some c => s.complete call c count
  | .breaks call e, s =>
    match s.calls[call]? with
    | none => none
    | some c =>
      if s.running ∧ c.ended = none ∧ e ≠ .aborted then
        some { s with calls := s.calls.set call { c with ended := some (.error e) } }
      else none
  | .expire call, s =>
    match s.calls[call]? with
    | none => none
    | some c =>
      if s.running ∧ c.armed then
        some { s with
          calls := s.calls.set call { c with armed := false }
          expired := s.expired ++ [c.serial] }
      else none
  | .deadline handler, s =>
    match s.expired[handler]? with
    | none => none
    | some serial =>
      if s.running then
        let rest := { s with expired := s.expired.eraseIdx handler }
        some (if s.finished serial then rest else rest.cancel)
      else none
  | .handle call, s =>
    match s.calls[call]? with
    | none => none
    | some c =>
      match c.ended with
      | none => none
      | some ended => if s.running then some (s.handle call c ended) else none

/-- No request has been sent, and nothing waits. -/
def Fresh (s : TcpLink) : Prop :=
  s.requests = 0 ∧ s.calls = [] ∧ s.expired = [] ∧ s.pending = [] ∧ s.transit = [] ∧
    s.stream = [] ∧ s.replies = [] ∧ s.results = []

/-- The caller makes one call at a time: a request or a connect only when no transaction is in
progress, and nothing while it closes the transport; a close at any time. -/
def OneAtATime : TcpAction → TcpLink → Prop
  | .connect _, s => s.calls = [] ∧ s.closing = false
  | .start _ _, s => s.calls = [] ∧ s.closing = false
  | .close, s => s.closing = false
  | _, _ => True

instance : ∀ action s, Decidable (OneAtATime action s)
  | .connect _, _ | .start _ _, _ => inferInstanceAs (Decidable (_ ∧ _))
  | .close, _ => inferInstanceAs (Decidable (_ = _))
  | .stop, _ | .answer _ _, _ | .arrive _, _ | .complete _ _, _ | .breaks _ _, _ | .expire _, _
  | .deadline _, _ | .handle _, _ => .isTrue trivial

end TcpLink

end OpcServer.Adapters
