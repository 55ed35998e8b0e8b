import OpcServer.Adapters.Transact
import OpcServer.Lib.Transition

/-! A UDP transport and a device that answers late. The device answers every request
that reaches it once, at any time; the answers queue up in the socket of the client.
`transact` is cut at its `recv`, so that answers can arrive between the send and the
receive. It takes one datagram, the oldest, and does not look for another one when
that is not its reply.

Requests are numbered: the number is known to neither side. -/

namespace OpcServer.Adapters

open Domain

/-! ### What a reply says -/

/-- The PDU is an exception response. -/
def IsException (pdu : List UInt8) : Prop := pdu.headD 0 &&& 0x80 ≠ 0

instance (pdu : List UInt8) : Decidable (IsException pdu) :=
  inferInstanceAs (Decidable (_ ≠ _))

/-- What `transact` returns for its own reply: the PDU, or the exception. -/
def answerOf (pdu : List UInt8) : Result (List UInt8) :=
  if IsException pdu then
    .error (exceptionErr "adapters.modbus" (match pdu[1]? with
      | some code => code.toNat
      | none => -1))
  else .ok pdu

/-- A correct reply: the function of the request, perhaps as an exception, and a PDU
that fits a datagram. -/
def Correct (request reply : List UInt8) : Prop :=
  (reply[0]? = request[0]? ∨ reply[0]? = (request[0]?).map (· ||| 0x80)) ∧
    1 ≤ reply.length ∧ reply.length ≤ 253

instance (request reply : List UInt8) : Decidable (Correct request reply) :=
  inferInstanceAs (Decidable (_ ∧ _))

theorem unpackAdu_packMbap (tid : UInt16) (unit : UInt8) {pdu : List UInt8}
    (hne : 1 ≤ pdu.length) (hle : pdu.length ≤ 65534) :
    unpackAdu (packMbap tid unit pdu) = some ((answerOf pdu).map fun pdu =>
      { transactionId := tid, unit := unit, pdu := pdu }) := by
  obtain ⟨function, data, rfl⟩ := List.exists_cons_of_length_pos hne
  rw [List.length_cons] at hle
  generalize hn : UInt16.ofNat (1 + (function :: data).length) = length
  have hlength : length.toNat = data.length + 2 := by
    rw [← hn, UInt16.toNat_ofNat', List.length_cons]
    omega
  have hpack : packMbap tid unit (function :: data) = (tid >>> 8).toUInt8 :: tid.toUInt8 :: 0 :: 0 ::
      (length >>> 8).toUInt8 :: length.toUInt8 :: unit :: function :: data := by
    rw [packMbap, hn]
    rfl
  have hbad : ¬ (length < 2 ∨ 6 + length.toNat ≠ data.length + 8) := by
    simp only [UInt16.lt_iff_toNat_lt, hlength, UInt16.reduceToNat]
    omega
  rw [hpack, unpackAdu, answerOf]
  simp only [List.length_cons, List.getElem?_cons_succ, List.getElem?_cons_zero,
    Option.bind_eq_bind, Option.bind_some, word_u16Bytes]
  rw [if_neg (by omega), if_neg (by simpa using hbad)]
  by_cases hx : IsException (function :: data)
  · rw [if_pos hx, if_pos (show function &&& 0x80 ≠ 0 from hx)]
    cases data with
    | nil =>
      have hshort : ¬ length > 2 := by simp [UInt16.lt_iff_toNat_lt, hlength]
      simp [hshort, Except.map]
    | cons code rest =>
      have hlong : length > 2 := by simp [UInt16.lt_iff_toNat_lt, hlength]
      simp [hlong, Except.map]
  · rw [if_neg hx, if_neg (show ¬ function &&& 0x80 ≠ 0 from hx)]
    rfl

/-- A datagram that carries a reply is answered by what the reply says; only an ordinary
reply is asked for its transaction id. -/
theorem udpRespond_packMbap (tid own : UInt16) (unit : UInt8) {pdu : List UInt8}
    (hne : 1 ≤ pdu.length) (hle : pdu.length ≤ 253) :
    udpRespond own (packMbap tid unit pdu) = some (if IsException pdu ∨ tid = own then answerOf pdu
      else .error (udpErr .decoding "transaction id mismatch" false)) := by
  rw [udpRespond, unpackAdu_packMbap tid unit hne (by omega)]
  by_cases hx : IsException pdu
  · simp [answerOf, hx, Except.map]
  · by_cases ht : tid = own
    · simp [answerOf, hx, ht, Except.map]
    · simp [answerOf, hx, ht, Except.map]

/-! ### The link -/

/-- A request on its way to the device, or being worked on. -/
structure Sent where
  serial : ℕ
  tid : UInt16
  unit : UInt8
  pdu : List UInt8
  deriving DecidableEq, Repr

/-- A reply in the socket, to the request with the same number. -/
structure Datagram where
  serial : ℕ
  tid : UInt16
  unit : UInt8
  pdu : List UInt8
  deriving DecidableEq, Repr

def Datagram.bytes (d : Datagram) : List UInt8 := packMbap d.tid d.unit d.pdu

/-- A call of `transact` at its `recv`. -/
structure UdpCall where
  serial : ℕ
  unit : UInt8
  pdu : List UInt8
  deriving DecidableEq, Repr

structure UdpLink where
  client : UdpTransport := {}
  requests : ℕ := 0
  waiting : Option UdpCall := none
  pending : List Sent := []
  queue : List Datagram := []
  deriving DecidableEq, Repr

inductive UdpAction where
  | connect (samePort : Bool)
  | send (unit : UInt8) (pdu : List UInt8)
  | sendFails (unit : UInt8) (pdu : List UInt8)
  | answer (request : ℕ) (reply : List UInt8)
  | receive

namespace UdpLink

/-- The oldest datagram; the receive times out when there is none. -/
def front (s : UdpLink) : Recv :=
  match s.queue with
  | [] => .timedOut
  | d :: _ => .datagram d.bytes

/-- The transaction of a call whose `recv` happens now. -/
def finish (s : UdpLink) (call : UdpCall) : Transaction × UdpTransport :=
  s.client.transact { recv := s.front } call.unit call.pdu

/-- A new socket has an empty queue; the replies to earlier requests still reach it if
it gets the port of the old one. -/
def step : UdpAction → UdpLink → Option UdpLink
  | .connect samePort, s =>
    match s.waiting with
    | some _ => none
    | none => some { s with
        client := { s.client with isOpen := true }
        pending := if samePort then s.pending else []
        queue := [] }
  | .send unit pdu, s =>
    match s.waiting with
    | some _ => none
    | none =>
      if s.client.isOpen then
        some { s with
          requests := s.requests + 1
          waiting := some ⟨s.requests, unit, pdu⟩
          pending := s.pending ++ [⟨s.requests, s.client.transactionId, unit, pdu⟩] }
      else none
  | .sendFails unit pdu, s =>
    match s.waiting with
    | some _ => none
    | none => some { s with
        client := (s.client.transact { sendOk := false, recv := .timedOut } unit pdu).2 }
  | .answer request reply, s =>
    match s.pending[request]? with
    | none => none
    | some r =>
      if Correct r.pdu reply then
        some { s with
          pending := s.pending.eraseIdx request
          queue := s.queue ++ [⟨r.serial, r.tid, r.unit, reply⟩] }
      else none
  | .receive, s =>
    match s.waiting with
    | none => none
    | some call => some { s with
        client := (s.finish call).2
        waiting := none
        queue := s.queue.tail }

/-- No request has been sent. -/
def Fresh (s : UdpLink) : Prop :=
  s.requests = 0 ∧ s.waiting = none ∧ s.pending = [] ∧ s.queue = []

/-- What a run keeps: earlier requests have smaller numbers, and what belongs to the
request in progress bears its transaction id. -/
structure Matched (s : UdpLink) : Prop where
  pending : ∀ r ∈ s.pending, r.serial < s.requests
  queue : ∀ d ∈ s.queue, d.serial < s.requests ∧ 1 ≤ d.pdu.length ∧ d.pdu.length ≤ 253
  isOpen : ∀ call, s.waiting = some call → s.client.isOpen = true
  own : ∀ call, s.waiting = some call → call.serial + 1 = s.requests ∧
    (∀ r ∈ s.pending, r.serial = call.serial → r.tid = s.client.transactionId) ∧
    ∀ d ∈ s.queue, d.serial = call.serial → d.tid = s.client.transactionId

theorem matched_send {s : UdpLink} (h : s.Matched) (unit : UInt8) (pdu : List UInt8)
    (hopen : s.client.isOpen = true) :
    Matched { s with
      requests := s.requests + 1
      waiting := some ⟨s.requests, unit, pdu⟩
      pending := s.pending ++ [⟨s.requests, s.client.transactionId, unit, pdu⟩] } where
  pending r hr := by
    rcases List.mem_append.mp hr with hr | hr
    · exact Nat.lt_succ_of_lt (h.pending r hr)
    · obtain rfl := List.mem_singleton.mp hr
      exact Nat.lt_succ_self _
  queue d hd := ⟨Nat.lt_succ_of_lt (h.queue d hd).1, (h.queue d hd).2⟩
  isOpen _ _ := hopen
  own call hcall := by
    cases hcall
    refine ⟨rfl, ?_, ?_⟩
    · intro r hr hserial
      rcases List.mem_append.mp hr with hr | hr
      · exact absurd hserial (h.pending r hr).ne
      · obtain rfl := List.mem_singleton.mp hr
        rfl
    · intro d hd hserial
      exact absurd hserial (h.queue d hd).1.ne

theorem matched_answer {s : UdpLink} (h : s.Matched) {request : ℕ} {r : Sent} {reply : List UInt8}
    (hr : s.pending[request]? = some r) (hcorrect : Correct r.pdu reply) :
    Matched { s with
      pending := s.pending.eraseIdx request
      queue := s.queue ++ [⟨r.serial, r.tid, r.unit, reply⟩] } where
  pending r' hr' := h.pending r' (List.mem_of_mem_eraseIdx hr')
  queue d hd := by
    rcases List.mem_append.mp hd with hd | hd
    · exact h.queue d hd
    · obtain rfl := List.mem_singleton.mp hd
      exact ⟨h.pending r (List.mem_of_getElem? hr), hcorrect.2⟩
  isOpen := h.isOpen
  own call hcall := by
    obtain ⟨hlast, hpending, hqueue⟩ := h.own call hcall
    refine ⟨hlast, fun r' hr' => hpending r' (List.mem_of_mem_eraseIdx hr'), ?_⟩
    intro d hd hserial
    rcases List.mem_append.mp hd with hd | hd
    · exact hqueue d hd hserial
    · obtain rfl := List.mem_singleton.mp hd
      exact hpending r (List.mem_of_getElem? hr) hserial

theorem step_matched {action : UdpAction} {s t : UdpLink} (h : s.Matched)
    (hstep : step action s = some t) : t.Matched := by
  cases action with
  | connect samePort =>
    simp only [step] at hstep
    split at hstep
    · cases hstep
    · rename_i hidle
      cases hstep
      refine ⟨?_, by simp, ?_, ?_⟩
      · intro r hr
        cases samePort with
        | true => exact h.pending r hr
        | false => cases hr
      · simp [hidle]
      · simp [hidle]
  | send unit pdu =>
    simp only [step] at hstep
    split at hstep
    · cases hstep
    · split at hstep
      · rename_i hopen
        cases hstep
        exact matched_send h unit pdu hopen
      · cases hstep
  | sendFails unit pdu =>
    simp only [step] at hstep
    split at hstep
    · cases hstep
    · rename_i hidle
      cases hstep
      refine ⟨h.pending, h.queue, ?_, ?_⟩
      · simp [hidle]
      · simp [hidle]
  | answer request reply =>
    simp only [step] at hstep
    split at hstep
    · cases hstep
    · rename_i r hr
      split at hstep
      · rename_i hcorrect
        cases hstep
        exact matched_answer h hr hcorrect
      · cases hstep
  | receive =>
    simp only [step] at hstep
    split at hstep
    · cases hstep
    · cases hstep
      exact ⟨h.pending, fun d hd => h.queue d (List.mem_of_mem_tail hd), by simp, by simp⟩

theorem matched_of_reachable {s : UdpLink} (hs : Transition.Reachable step Transition.Free Fresh s) :
    s.Matched := by
  apply hs.invariant
  · rintro s ⟨-, hwaiting, hpending, hqueue⟩
    refine ⟨by simp [hpending], by simp [hqueue], ?_, ?_⟩
    · simp [hwaiting]
    · simp [hwaiting]
  · intro s t action _ h _ hstep
    exact step_matched h hstep

end UdpLink

/-! ### The oldest datagram decides -/

/-- A datagram that a request cannot tell from its reply: it says the same, and it bears
the same transaction id unless it is an exception. -/
def Datagram.PassesFor (d reply : Datagram) : Prop :=
  answerOf d.pdu = answerOf reply.pdu ∧ (IsException d.pdu ∨ d.tid = reply.tid)

theorem answerOf_ne_mismatch (pdu : List UInt8) :
    answerOf pdu ≠ .error (udpErr .decoding "transaction id mismatch" false) := by
  unfold answerOf
  split
  · intro h
    have := congrArg Error.code (Except.error.inj h)
    cases this
  · intro h
    cases h

theorem UdpLink.finish_datagram {s : UdpLink} (h : s.Matched) {call : UdpCall}
    (hcall : s.waiting = some call) {d : Datagram} {rest : List Datagram}
    (hqueue : s.queue = d :: rest) :
    (s.finish call).1.result = some (if IsException d.pdu ∨ d.tid = s.client.transactionId
      then answerOf d.pdu else .error (udpErr .decoding "transaction id mismatch" false)) := by
  obtain ⟨-, hne, hle⟩ := h.queue d (by rw [hqueue]; exact List.mem_cons_self)
  have hlength : d.bytes.length = d.pdu.length + 7 := by
    simp [Datagram.bytes, packMbap, u16Bytes]
  have hwhole : d.bytes.take 260 = d.bytes := List.take_of_length_le (by omega)
  simp only [finish, front, hqueue, UdpTransport.transact, h.isOpen call hcall, Bool.not_true,
    Bool.false_eq_true, if_false]
  rw [hwhole]
  exact udpRespond_packMbap d.tid _ d.unit hne hle

/-- In every run: when the reply to a request is in the queue at its receive, `transact`
returns what the reply says if and only if the oldest datagram is that reply or passes
for it. -/
theorem udp_reply_returned_iff {s : UdpLink}
    (hs : Transition.Reachable UdpLink.step Transition.Free UdpLink.Fresh s) {call : UdpCall}
    (hcall : s.waiting = some call) {reply : Datagram} (hreply : reply ∈ s.queue)
    (hown : reply.serial = call.serial) :
    (s.finish call).1.result = some (answerOf reply.pdu) ↔
      ∃ d, s.queue.head? = some d ∧ d.PassesFor reply := by
  have h := UdpLink.matched_of_reachable hs
  have htid : reply.tid = s.client.transactionId := (h.own call hcall).2.2 reply hreply hown
  obtain ⟨d, rest, hqueue⟩ := List.exists_cons_of_ne_nil (List.ne_nil_of_mem hreply)
  rw [UdpLink.finish_datagram h hcall hqueue, hqueue, List.head?_cons]
  simp only [Option.some.injEq, exists_eq_left', Datagram.PassesFor, htid]
  by_cases hid : IsException d.pdu ∨ d.tid = s.client.transactionId
  · rw [if_pos hid]
    exact (and_iff_left hid).symm
  · rw [if_neg hid]
    constructor
    · intro heq
      exact absurd heq.symm (answerOf_ne_mismatch reply.pdu)
    · rintro ⟨-, hd⟩
      exact absurd hd hid

/-! ### One late reply -/

/-- The read of one register, and its reply. -/
def readOne : List UInt8 := makeReadRegistersPdu 0x03 0 1

def oneRegister : List UInt8 := [0x03, 2, 0x12, 0x34]

/-- The first reply comes after the timeout, the second one in time. -/
def lateReply : List UdpAction :=
  [.connect false, .send 1 readOne, .receive, .answer 0 oneRegister, .send 1 readOne,
    .answer 0 oneRegister]

/-- Two replies wait, and the second request is at its receive. -/
def lateLink : UdpLink where
  client := ⟨true, 2⟩
  requests := 2
  waiting := some ⟨1, 1, readOne⟩
  queue := [⟨0, 1, 1, oneRegister⟩, ⟨1, 2, 1, oneRegister⟩]

/-- The reply to the second request is in the queue, and `transact` does not return it. -/
theorem late_reply_hides_next :
    Transition.run UdpLink.step lateReply {} = some lateLink ∧
    ∃ call reply, lateLink.waiting = some call ∧ reply ∈ lateLink.queue ∧
      reply.serial = call.serial ∧ answerOf reply.pdu = .ok oneRegister ∧
      (lateLink.finish call).1.result =
        some (.error (udpErr .decoding "transaction id mismatch" false)) := by
  exact ⟨by decide, ⟨1, 1, readOne⟩, ⟨1, 2, 1, oneRegister⟩, by decide, by decide, rfl, by decide,
    by decide⟩

/-- Both replies in time. -/
def promptReplies : List UdpAction :=
  [.connect false, .send 1 readOne, .answer 0 oneRegister, .receive, .send 1 readOne,
    .answer 0 oneRegister]

def promptLink : UdpLink where
  client := ⟨true, 2⟩
  requests := 2
  waiting := some ⟨1, 1, readOne⟩
  queue := [⟨1, 2, 1, oneRegister⟩]

theorem prompt_reply_returned : Transition.run UdpLink.step promptReplies {} = some promptLink ∧
    (promptLink.finish ⟨1, 1, readOne⟩).1.result = some (.ok oneRegister) := by
  have hrun : Transition.run UdpLink.step promptReplies {} = some promptLink := by decide
  have hfresh : UdpLink.Fresh {} := ⟨rfl, rfl, rfl, rfl⟩
  have hreach := (Transition.Reachable.start hfresh).of_run promptReplies hrun
  have hcall : promptLink.waiting = some ⟨1, 1, readOne⟩ := rfl
  have hreply : ⟨1, 2, 1, oneRegister⟩ ∈ promptLink.queue := List.mem_cons_self
  have hiff := udp_reply_returned_iff hreach hcall hreply rfl
  refine ⟨hrun, ?_⟩
  rw [hiff.mpr ⟨_, rfl, rfl, .inr rfl⟩]
  rfl

end OpcServer.Adapters
