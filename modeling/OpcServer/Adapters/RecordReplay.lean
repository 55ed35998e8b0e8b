import OpcServer.Adapters.FrameReplay
import OpcServer.Adapters.ResponseMatching

/-! A run of operations on a live transport that journals its frames, and the same
operations on a replay of the journal. The live transports put the text of every error
into the record, and the replay takes every record with such a text for a lost
connection; an operation that sends nothing leaves no record, so that the replay falls
out of step there. -/

namespace OpcServer.Adapters

open Domain

section RecordReplay

variable [Platform]

/-! ### Recording -/

/-- One call of an operation: what happens on its socket, the wall clock and the round
trip. -/
structure LiveCall (Io : Type) where
  unit : UInt8
  op : Operation
  io : Io
  tsMs : Int64 := 0
  rttMs : Double := Platform.ofInt 0

/-- The record of a finished transaction. -/
def Transaction.frame (endpointId : String) (tsMs : Int64) (rttMs : Double)
    (transaction : Transaction) : FrameRecord :=
  let failure : Option Error := match transaction.result with
    | some (.error e) => some e
    | _ => none
  { tsMs := tsMs, endpointId := endpointId, tx := transaction.tx, rx := transaction.rx,
    exceptionCode := failure.bind fun e => e.protocolStatus.map Int32.ofInt, rttMs := rttMs,
    error := failure.map (·.message) }

/-- The part in which the live transports differ: one transaction, and the states in
which it reaches the socket and is recorded. -/
structure LiveTransport (σ Io : Type) where
  transact : σ → Io → UInt8 → List UInt8 → Transaction × σ
  ready : σ → Bool

def tcpLive : LiveTransport TcpTransport TcpIo where
  transact := TcpTransport.transact
  ready t := t.connected

def udpLive : LiveTransport UdpTransport UdpIo where
  transact := UdpTransport.transact
  ready t := t.isOpen

namespace LiveTransport

variable {σ Io : Type} (live : LiveTransport σ Io) (endpointId : String)

def outcome (t : σ) (call : LiveCall Io) : Option (Result Reply) :=
  call.op.perform (fun unit pdu => (live.transact t call.io unit pdu).1.result) call.unit

/-- The frames that a call adds to the journal. -/
def logged (t : σ) (call : LiveCall Io) : List FrameRecord :=
  match call.op.pdu with
  | .error _ => []
  | .ok pdu =>
    if live.ready t then
      [(live.transact t call.io call.unit pdu).1.frame endpointId call.tsMs call.rttMs]
    else []

def after (t : σ) (call : LiveCall Io) : σ :=
  match call.op.pdu with
  | .error _ => t
  | .ok pdu => (live.transact t call.io call.unit pdu).2

def outcomes : σ → List (LiveCall Io) → List (Option (Result Reply))
  | _, [] => []
  | t, call :: calls => live.outcome t call :: outcomes (live.after t call) calls

/-- What a memory frame log holds after the calls. -/
def frames : σ → List (LiveCall Io) → List FrameRecord
  | _, [] => []
  | t, call :: calls => live.logged endpointId t call ++ frames (live.after t call) calls

end LiveTransport

/-! ### Replaying -/

/-- The outcomes of operations on a replay. -/
def ReplayModbusTransport.outcomes :
    ReplayModbusTransport → List Operation → List (Option (Result Reply))
  | _, [] => []
  | t, op :: ops => (t.perform op).1 :: outcomes (t.perform op).2 ops

/-- What is compared of an outcome: the values, or the code and the protocol status. -/
def visible (outcome : Option (Result Reply)) : Option (Except (ErrorCode × Option ℤ) Reply) :=
  outcome.map (Except.mapError fun e => (e.code, e.protocolStatus))

/-- A replayed operation returned what the live one did. A live operation that read
outside the response has no outcome that could be returned again. -/
def SameOutcome (replayed live : Option (Result Reply)) : Prop :=
  live ≠ none ∧ visible replayed = visible live

/-- The replay of the recorded frames gives the outcomes of the live run. -/
def Reproduces {σ Io : Type} (live : LiveTransport σ Io) (endpointId : String) (t : σ)
    (calls : List (LiveCall Io)) : Prop :=
  List.Forall₂ SameOutcome
    (ReplayModbusTransport.outcomes
      { frames := live.frames endpointId t calls, connected := true } (calls.map (·.op)))
    (live.outcomes t calls)

/-- The decoder of an operation on a replay. -/
def Operation.replayDecode (op : Operation) (pdu : List UInt8) : Option (Result Reply) :=
  match op with
  | .readHoldingRegisters _ q | .readInputRegisters _ q =>
    (decodeRegisters pdu q).map (Except.map .registers)
  | .readCoils _ q | .readDiscreteInputs _ q => (decodeBits pdu q).map (Except.map .bits)
  | _ => some (.ok .written)

/-- What an operation makes of a record. -/
def Operation.replayed (op : Operation) (frame : FrameRecord) : Option (Result Reply) :=
  match pduFromRx frame with
  | none => none
  | some (.error e) => some (.error e)
  | some (.ok pdu) => op.replayDecode pdu

theorem perform_cons (op : Operation) (frame : FrameRecord) (rest : List FrameRecord) :
    ReplayModbusTransport.perform op { frames := frame :: rest, connected := true } =
      (op.replayed frame, { frames := rest, connected := true }) := by
  have hnext : ReplayModbusTransport.nextPdu { frames := frame :: rest, connected := true } =
      (pduFromRx frame, { frames := rest, connected := true }) := rfl
  cases op <;>
    simp only [ReplayModbusTransport.perform, ReplayModbusTransport.readHoldingRegisters,
      ReplayModbusTransport.readCoils, ReplayModbusTransport.writeAny,
      ReplayModbusTransport.decodeNext, hnext, Operation.replayed] <;>
    rcases pduFromRx frame with _ | e | pdu <;> rfl

theorem perform_nil (op : Operation) :
    ReplayModbusTransport.perform op { frames := [], connected := true } =
      (some (.error (replayErr .notFound "replay exhausted")),
        { frames := [], connected := true }) := by
  cases op <;> rfl

/-! ### One record -/

omit [Platform] in
theorem code_of_visible {outcome : Option (Result Reply)} {e : Error}
    (h : visible outcome = visible (some (.error e))) :
    ∃ e', outcome = some (.error e') ∧ e'.code = e.code := by
  rcases outcome with _ | e' | reply
  · cases h
  · have hboth : (e'.code, e'.protocolStatus) = (e.code, e.protocolStatus) := by
      simpa [visible, Except.mapError] using h
    exact ⟨e', rfl, congrArg Prod.fst hboth⟩
  · simp [visible, Except.mapError] at h

/-- A decoder whose outcome is the same whatever its error texts are. -/
def Uniform {α : Type} (decode : (String → Error) → String → Option (Result α)) : Prop :=
  ∃ found : Option (Option α), ∀ err short, ∃ message, decode err short =
    found.map fun values => values.elim (.error (err message)) .ok

omit [Platform] in
theorem uniform_countedValues {α : Type} (mismatch : String) (pdu : List UInt8)
    (fits : UInt8 → Prop) [DecidablePred fits] (values : Option (List α)) :
    Uniform fun err short => countedValues err short mismatch pdu fits values := by
  unfold countedValues
  cases pdu[1]? with
  | none => exact ⟨some none, fun err short => ⟨short, rfl⟩⟩
  | some count =>
    by_cases hfits : fits count
    · refine ⟨values.map some, fun err short => ⟨"", ?_⟩⟩
      simp only [if_pos hfits]
      cases values <;> rfl
    · refine ⟨some none, fun err short => ⟨mismatch, ?_⟩⟩
      simp only [if_neg hfits]
      rfl

omit [Platform] in
theorem uniform_decodeRegistersWith (pdu : List UInt8) (q : UInt16) :
    Uniform fun err short => decodeRegistersWith err short pdu q := by
  simp only [decodeRegistersWith_eq]
  exact uniform_countedValues ..

omit [Platform] in
theorem uniform_decodeBitsWith (pdu : List UInt8) (q : UInt16) :
    Uniform fun err short => decodeBitsWith err short pdu q := by
  simp only [decodeBitsWith_eq]
  exact uniform_countedValues ..

omit [Platform] in
/-- The replay's copy of a decoder differs in its texts only, and fails by decoding. -/
theorem Uniform.replay {α : Type} {decode : (String → Error) → String → Option (Result α)}
    (h : Uniform decode) (f : α → Reply) (short short' : String) :
    visible ((decode (replayErr .decoding) short).map (Except.map f)) =
      visible ((decode (protoErr .decoding) short').map (Except.map f)) ∧
    ∀ e, (decode (replayErr .decoding) short).map (Except.map f) = some (.error e) →
      e.code = .decoding := by
  obtain ⟨found, hfound⟩ := h
  obtain ⟨message, hreplay⟩ := hfound (replayErr .decoding) short
  obtain ⟨message', hlive⟩ := hfound (protoErr .decoding) short'
  rw [hreplay, hlive]
  rcases found with _ | _ | values
  · exact ⟨rfl, fun e he => by cases he⟩
  · refine ⟨rfl, fun e he => ?_⟩
    cases he
    rfl
  · exact ⟨rfl, fun e he => by cases he⟩

omit [Platform] in
theorem replayDecode_agrees (op : Operation) (pdu : List UInt8) :
    visible (op.replayDecode pdu) = visible (op.decode pdu) ∧
      ∀ e, op.replayDecode pdu = some (.error e) → e.code = .decoding := by
  cases op with
  | readHoldingRegisters a q | readInputRegisters a q =>
    exact (uniform_decodeRegistersWith pdu q).replay .registers _ _
  | readCoils a q | readDiscreteInputs a q =>
    exact (uniform_decodeBitsWith pdu q).replay .bits _ _
  | _ => exact ⟨rfl, fun e he => by cases he⟩

/-- A record of a complete response is replayed as it was received. -/
theorem pduFromRx_framed {frame : FrameRecord} (herror : frame.error = none)
    (hexception : frame.exceptionCode = none) (h2 : 2 ≤ aduLength frame.rx)
    (hlen : 6 + aduLength frame.rx = frame.rx.length) :
    pduFromRx frame = some (.ok (aduPdu frame.rx)) := by
  obtain ⟨b0, b1, b2, b3, b4, b5, unit, function, data, hrx⟩ :=
    exists_header frame.rx (by omega)
  have hword : (word b4 b5).toNat = aduLength frame.rx := by rw [hrx, aduLength_cons]
  have hshort : ¬ frame.rx.length < 8 := by omega
  have hoffset : pduOffset frame.rx (word b4 b5) = some 7 := by
    rw [pduOffset, if_neg (by omega), if_neg (by omega)]
  have hpdu : aduPdu frame.rx = frame.rx.drop 7 := by
    rw [aduPdu, List.take_of_length_le]
    rw [List.length_drop]
    omega
  have hbytes : frame.rx[4]? = some b4 ∧ frame.rx[5]? = some b5 := by
    rw [hrx]
    exact ⟨rfl, rfl⟩
  simp only [pduFromRx, herror, hexception, if_neg hshort, hbytes, Option.bind_eq_bind,
    Option.bind_some, hoffset, hpdu]
  rw [if_neg (by omega)]
  rfl

theorem pduFromRx_error {frame : FrameRecord} {e : Error}
    (h : pduFromRx frame = some (.error e)) : e.code ≠ .invalidArgument := by
  unfold pduFromRx at h
  cases herror : frame.error with
  | some message =>
    rw [herror] at h
    cases h
    simp [replayErr]
  | none =>
    rw [herror] at h
    cases hexception : frame.exceptionCode with
    | some code =>
      rw [hexception] at h
      cases h
      simp [replayErr]
    | none =>
      rw [hexception] at h
      dsimp only at h
      split at h
      · cases h
        decide
      · simp only [Option.bind_eq_bind, Option.bind_eq_some_iff] at h
        obtain ⟨b4, -, b5, -, h⟩ := h
        split at h
        · cases h
          decide
        · split at h
          · cases h
            decide
          · cases h

/-- No replayed operation finds its arguments at fault. -/
theorem perform_error {op : Operation} {frames : List FrameRecord} {e : Error}
    (h : (ReplayModbusTransport.perform op { frames := frames, connected := true }).1 =
      some (.error e)) : e.code ≠ .invalidArgument := by
  cases frames with
  | nil =>
    rw [perform_nil] at h
    cases h
    decide
  | cons frame rest =>
    rw [perform_cons] at h
    change op.replayed frame = _ at h
    unfold Operation.replayed at h
    split at h
    · cases h
    · rename_i hpdu
      cases h
      exact pduFromRx_error hpdu
    · simp [(replayDecode_agrees op _).2 e h]

/-! ### Runs in step -/

/-- The decoder of an operation stays inside the response. -/
def Operation.Inside (op : Operation) (pdu : List UInt8) : Prop :=
  match op with
  | .readCoils _ q | .readDiscreteInputs _ q => BitsArrived pdu q
  | _ => True

omit [Platform] in
theorem Operation.decode_ne_none_iff (op : Operation) (pdu : List UInt8) :
    op.decode pdu ≠ none ↔ op.Inside pdu := by
  have hregisters (q : UInt16) (f : List UInt16 → Reply) :
      (decodeRegisterResponse pdu q).map (Except.map f) ≠ none := by
    obtain ⟨r, hr, -⟩ := decodeRegistersWith_inside (protoErr .decoding) "short register response"
      pdu q
    simp [decodeRegisterResponse, hr]
  have hbits (q : UInt16) (f : List Bool → Reply) :
      (decodeBitsResponse pdu q).map (Except.map f) ≠ none ↔ BitsArrived pdu q := by
    rw [← decodeBitsWith_ne_none_iff (protoErr .decoding) "short bit response", ne_eq,
      Option.map_eq_none_iff]
    rfl
  cases op with
  | readHoldingRegisters a q => exact iff_of_true (hregisters q .registers) trivial
  | readInputRegisters a q => exact iff_of_true (hregisters q .registers) trivial
  | readCoils a q => exact hbits q .bits
  | readDiscreteInputs a q => exact hbits q .bits
  | writeSingleRegister a v => exact iff_of_true nofun trivial
  | writeMultipleRegisters a vs => exact iff_of_true nofun trivial
  | writeSingleCoil a v => exact iff_of_true nofun trivial
  | writeMultipleCoils a vs => exact iff_of_true nofun trivial

/-- A transaction that a replay of its operation reproduces: it returned a response that
holds what the decoder reads, or lost the connection. -/
def Transaction.Replayable (transaction : Transaction) (op : Operation) : Prop :=
  (∀ e, transaction.result = some (.error e) → e.code = .connection ∧ e.protocolStatus = none) ∧
    ∀ pdu, transaction.result = some (.ok pdu) → op.Inside pdu

/-- How a transaction ends: with a complete response in its record, without a connection,
or with another error. -/
inductive ReplyCase (answered lost : Prop) (rx : List UInt8) : Option (Result (List UInt8)) → Prop
  | response : answered → ¬ lost → 2 ≤ aduLength rx → 6 + aduLength rx = rx.length →
      ReplyCase answered lost rx (some (.ok (aduPdu rx)))
  | connection {e : Error} : ¬ answered → lost → e.code = .connection → e.protocolStatus = none →
      ReplyCase answered lost rx (some (.error e))
  | other {e : Error} : ¬ answered → ¬ lost → e.code ≠ .connection →
      ReplyCase answered lost rx (some (.error e))

namespace LiveTransport

variable {σ Io : Type} (live : LiveTransport σ Io)

/-- What the live transports have in common: a recorded transaction ends in one of the
three ways, and one that is not recorded misses the connection and changes nothing. -/
structure Journals : Prop where
  recorded : ∀ t io unit pdu, live.ready t = true → ∃ answered lost, ReplyCase answered lost
    (live.transact t io unit pdu).1.rx (live.transact t io unit pdu).1.result
  missing : ∀ t io unit pdu, live.ready t = false →
    (∃ e, (live.transact t io unit pdu).1.result = some (.error e) ∧ e.code = .connection) ∧
      (live.transact t io unit pdu).2 = t

/-- Every call reaches the socket with a transaction that a replay reproduces. -/
def Faithful : σ → List (LiveCall Io) → Prop
  | _, [] => True
  | t, call :: calls => live.ready t = true ∧ ∃ pdu, call.op.pdu = .ok pdu ∧
    (live.transact t call.io call.unit pdu).1.Replayable call.op ∧ Faithful (live.after t call) calls

variable {live}

theorem frames_of_not_ready (hlive : live.Journals) (endpointId : String) {t : σ}
    (ht : live.ready t = false) (calls : List (LiveCall Io)) : live.frames endpointId t calls = [] := by
  induction calls with
  | nil => rfl
  | cons call calls ih =>
    have hlogged : live.logged endpointId t call = [] := by
      unfold logged
      split
      · rfl
      · simp [ht]
    have hafter : live.after t call = t := by
      unfold after
      split
      · rfl
      · exact (hlive.missing t call.io call.unit _ ht).2
    rw [frames, hlogged, hafter, ih, List.nil_append]

/-- One recorded call is reproduced exactly when its transaction is replayable. -/
theorem replayed_iff (hlive : live.Journals) (endpointId : String) {t : σ}
    (ht : live.ready t = true) {call : LiveCall Io} {pdu : List UInt8} (hpdu : call.op.pdu = .ok pdu) :
    SameOutcome (call.op.replayed ((live.transact t call.io call.unit pdu).1.frame endpointId
      call.tsMs call.rttMs)) (live.outcome t call) ↔
        (live.transact t call.io call.unit pdu).1.Replayable call.op := by
  rw [outcome, Operation.perform_eq, hpdu]
  obtain ⟨answered, lost, hcase⟩ := hlive.recorded t call.io call.unit pdu ht
  have hfailure : ∀ e, (live.transact t call.io call.unit pdu).1.result = some (.error e) →
      call.op.replayed ((live.transact t call.io call.unit pdu).1.frame endpointId call.tsMs
        call.rttMs) = some (.error (replayErr .connection e.message true)) := by
    intro e hresult
    simp [Operation.replayed, pduFromRx, Transaction.frame, hresult]
  cases hresult : (live.transact t call.io call.unit pdu).1.result with
  | none =>
    rw [hresult] at hcase
    cases hcase
  | some result =>
    rw [hresult] at hcase
    cases hcase with
    | response _ _ h2 hlen =>
      have hframe : pduFromRx ((live.transact t call.io call.unit pdu).1.frame endpointId
          call.tsMs call.rttMs) = some (.ok (aduPdu (live.transact t call.io call.unit pdu).1.rx)) :=
        pduFromRx_framed (by simp [Transaction.frame, hresult])
          (by simp [Transaction.frame, hresult]) h2 hlen
      simp [SameOutcome, Operation.replayed, hframe, exchange, hresult,
        (replayDecode_agrees call.op _).1, Transaction.Replayable,
        ← Operation.decode_ne_none_iff]
    | connection _ _ hcode hstatus =>
      rw [hfailure _ hresult]
      simp [SameOutcome, exchange, hresult, visible, Except.mapError, replayErr, hcode, hstatus,
        Transaction.Replayable]
    | other _ _ hcode =>
      rw [hfailure _ hresult]
      simp [SameOutcome, exchange, hresult, visible, Except.mapError, replayErr, hcode,
        Ne.symm hcode, Transaction.Replayable]

/-- A run is reproduced exactly when every call is in step with its record. -/
theorem reproduces_iff (hlive : live.Journals) (endpointId : String) (t : σ)
    (calls : List (LiveCall Io)) : Reproduces live endpointId t calls ↔ live.Faithful t calls := by
  induction calls generalizing t with
  | nil => simp [Reproduces, Faithful, outcomes, ReplayModbusTransport.outcomes]
  | cons call calls ih =>
    unfold Reproduces at ih ⊢
    rw [List.map_cons, ReplayModbusTransport.outcomes, outcomes, List.forall₂_cons, Faithful, frames]
    cases hpdu : call.op.pdu with
    | error e =>
      -- the live call fails at once, and the replay takes the record of a later one
      have hlive : live.outcome t call = some (.error e) := by
        rw [outcome, Operation.perform_eq, hpdu]
        rfl
      constructor
      · rintro ⟨hhead, -⟩
        rw [hlive] at hhead
        obtain ⟨e', he', hcode⟩ := code_of_visible hhead.2
        exact absurd (hcode.trans (Operation.pdu_error hpdu)) (perform_error he')
      · rintro ⟨-, pdu, hbad, -⟩
        cases hbad
    | ok pdu =>
      cases ht : live.ready t with
      | false =>
        -- nothing is recorded any more
        have hnone := frames_of_not_ready hlive endpointId ht (call :: calls)
        rw [frames] at hnone
        obtain ⟨⟨e, he, hcode⟩, -⟩ := hlive.missing t call.io call.unit pdu ht
        have hlost : live.outcome t call = some (.error e) := by
          rw [outcome, Operation.perform_eq, hpdu, exchange, he]
        rw [hnone, perform_nil, hlost]
        constructor
        · rintro ⟨hhead, -⟩
          obtain ⟨e', he', hcode'⟩ := code_of_visible hhead.2
          cases he'
          rw [hcode] at hcode'
          cases hcode'
        · rintro ⟨hready, -⟩
          cases hready
      | true =>
        have hlogged : live.logged endpointId t call =
            [(live.transact t call.io call.unit pdu).1.frame endpointId call.tsMs call.rttMs] := by
          simp [logged, hpdu, ht]
        rw [hlogged, List.singleton_append, perform_cons, replayed_iff hlive endpointId ht hpdu]
        simp [ih]

theorem faithful_of_not_ready {t : σ} (ht : live.ready t = false) (calls : List (LiveCall Io)) :
    live.Faithful t calls ↔ calls = [] := by
  cases calls with
  | nil => simp [Faithful]
  | cons call calls => simp [Faithful, ht]

end LiveTransport

/-! ### The conditions on the calls -/

section Conditions
omit [Platform]

/-- An operation that has a request to send. -/
def Operation.Sendable : Operation → Prop
  | .writeMultipleCoils _ values => values ≠ [] ∧ values.length ≤ 1968
  | _ => True

theorem Operation.sendable_iff (op : Operation) : op.Sendable ↔ ∃ pdu, op.pdu = .ok pdu := by
  cases op with
  | writeMultipleCoils a values =>
    simp only [Sendable, Operation.pdu, makeWriteMultipleCoilsPdu, List.isEmpty_iff]
    split
    · rename_i hbad
      simp only [reduceCtorEq, exists_false, iff_false]
      rintro ⟨hne, hlen⟩
      rcases hbad with hbad | hbad
      · exact hne hbad
      · omega
    · rename_i hgood
      rw [not_or] at hgood
      simp only [Except.ok.injEq, exists_eq', iff_true]
      exact ⟨hgood.1, by omega⟩
  | _ => simp [Sendable, Operation.pdu]

/-- The request goes out, and a complete response that is no exception comes in. -/
structure TcpIo.Answered (io : TcpIo) : Prop where
  sent : io.write = none
  atLeast : 2 ≤ aduLength io.bytes
  atMost : aduLength io.bytes ≤ 254
  complete : 6 + aduLength io.bytes ≤ io.bytes.length
  ordinary : ¬ ExceptionBit io.bytes

/-- The request or the response breaks off, other than by the deadline. -/
def TcpIo.Lost (io : TcpIo) : Prop :=
  (∃ e, io.write = some e ∧ e ≠ .aborted) ∨
    io.write = none ∧ io.ending ≠ .aborted ∧ (io.bytes.length < 6 ∨
      2 ≤ aduLength io.bytes ∧ aduLength io.bytes ≤ 254 ∧ io.bytes.length < 6 + aduLength io.bytes)

/-- What a connected transport receives and makes of it. -/
def tcpReply (io : TcpIo) : List UInt8 × Result (List UInt8) :=
  match io.write with
  | some e => ([], .error (writeError e))
  | none => tcpRespond io.bytes io.ending

theorem tcpReply_unfinished {io : TcpIo} (hwrite : io.write = none)
    (hshort : io.bytes.length < 6 ∨ 2 ≤ aduLength io.bytes ∧ aduLength io.bytes ≤ 254 ∧
      io.bytes.length < 6 + aduLength io.bytes) :
    ReplyCase io.Answered io.Lost [] (some (.error (readError io.ending))) := by
  have hopen : ¬ io.Answered := by
    intro h
    have hcomplete := h.complete
    omega
  cases hending : io.ending with
  | aborted =>
    refine .other hopen ?_ (by simp [readError, makeErr])
    rintro (⟨e, he, -⟩ | ⟨-, hother, -⟩)
    · rw [hwrite] at he
      cases he
    · exact hother hending
  | eof => exact .connection hopen (.inr ⟨hwrite, by simp [hending], hshort⟩) rfl rfl
  | other m => exact .connection hopen (.inr ⟨hwrite, by simp [hending], hshort⟩) rfl rfl

theorem aduPdu_take {adu : List UInt8} (hlen : 6 + aduLength adu ≤ adu.length)
    (h2 : 2 ≤ aduLength adu) :
    aduLength (adu.take (6 + aduLength adu)) = aduLength adu ∧
      aduPdu (adu.take (6 + aduLength adu)) = aduPdu adu := by
  have hlength : aduLength (adu.take (6 + aduLength adu)) = aduLength adu := by
    obtain ⟨b0, b1, b2, b3, b4, b5, unit, function, data, rfl⟩ := exists_header adu (by omega)
    rw [aduLength_cons, Nat.add_comm 6]
    rfl
  refine ⟨hlength, ?_⟩
  rw [aduPdu, hlength, aduPdu, List.drop_take, List.take_take]
  congr 1
  omega

theorem tcpReply_case (io : TcpIo) :
    ReplyCase io.Answered io.Lost (tcpReply io).1 (some (tcpReply io).2) := by
  unfold tcpReply
  cases hwrite : io.write with
  | some e =>
    have hopen : ¬ io.Answered := by
      intro h
      rw [h.sent] at hwrite
      cases hwrite
    by_cases he : e = .aborted
    · subst he
      refine .other hopen ?_ (by simp [writeError, makeErr])
      rintro (⟨e', he', hne⟩ | ⟨hnone, -⟩)
      · rw [hwrite] at he'
        exact hne (Option.some.inj he').symm
      · rw [hwrite] at hnone
        cases hnone
    · have hlost : io.Lost := .inl ⟨e, hwrite, he⟩
      cases e with
      | aborted => exact absurd rfl he
      | eof => exact .connection hopen hlost rfl rfl
      | other m => exact .connection hopen hlost rfl rfl
  | none =>
    dsimp only
    by_cases hshort : io.bytes.length < 6 ∨ 2 ≤ aduLength io.bytes ∧ aduLength io.bytes ≤ 254 ∧
        io.bytes.length < 6 + aduLength io.bytes
    · rw [tcpRespond_unfinished io.ending hshort]
      exact tcpReply_unfinished hwrite hshort
    · have hkept : ¬ io.Lost := by
        rintro (⟨e, he, -⟩ | ⟨-, -, h⟩)
        · rw [hwrite] at he
          cases he
        · exact hshort h
      by_cases hframed : 2 ≤ aduLength io.bytes ∧ aduLength io.bytes ≤ 254
      · have hcomplete : 6 + aduLength io.bytes ≤ io.bytes.length := by omega
        obtain ⟨hexception, hordinary⟩ :=
          tcpRespond_framed io.bytes io.ending hframed.1 hframed.2 hcomplete
        by_cases hbit : ExceptionBit io.bytes
        · obtain ⟨e, he, hcode⟩ := hexception hbit
          rw [he]
          exact .other (fun h => h.ordinary hbit) hkept (by simp [hcode])
        · obtain ⟨hlength, hpdu⟩ := aduPdu_take hcomplete hframed.1
          rw [hordinary hbit, ← hpdu]
          refine .response ⟨hwrite, hframed.1, hframed.2, hcomplete, hbit⟩ hkept ?_ ?_
          · rw [hlength]
            exact hframed.1
          · rw [hlength, List.length_take]
            omega
      · rw [tcpRespond_badLength io.ending (by omega) hframed]
        exact .other (fun h => hframed ⟨h.atLeast, h.atMost⟩) hkept (by simp [makeErr])

theorem TcpTransport.transact_connected {t : TcpTransport} (ht : t.connected = true) (io : TcpIo)
    (unit : UInt8) (pdu : List UInt8) : t.transact io unit pdu =
      ({ tx := packMbap t.transactionId unit pdu, rx := (tcpReply io).1,
          result := some (tcpReply io).2 },
        { connected := !disconnects (tcpReply io).2, transactionId := t.transactionId + 1 }) := by
  unfold TcpTransport.transact tcpReply
  rw [ht]
  cases io.write <;> rfl

end Conditions

omit [Platform] in
theorem tcpLive_journals : tcpLive.Journals where
  recorded t io unit pdu ht := by
    have htransact : tcpLive.transact t io unit pdu = _ :=
      TcpTransport.transact_connected ht io unit pdu
    rw [htransact]
    exact ⟨io.Answered, io.Lost, tcpReply_case io⟩
  missing t io unit pdu ht := by
    have hdown : tcpLive.transact t io unit pdu =
        ({ result := some (.error (makeErr .connection "not connected")) }, t) := by
      change t.connected = false at ht
      simp [tcpLive, TcpTransport.transact, ht]
    rw [hdown]
    exact ⟨⟨_, rfl, rfl⟩, rfl⟩

omit [Platform] in
theorem tcpReply_answered {io : TcpIo} (h : io.Answered) :
    (tcpReply io).2 = .ok (aduPdu io.bytes) := by
  unfold tcpReply
  rw [h.sent]
  dsimp only
  rw [(tcpRespond_framed io.bytes io.ending h.atLeast h.atMost h.complete).2 h.ordinary]

/-- Every call sends a request and gets a response that holds what its decoder reads, but
the last may lose the connection. -/
def TcpFaithful : List (LiveCall TcpIo) → Prop
  | [] => True
  | call :: calls => call.op.Sendable ∧
    (call.io.Answered ∧ call.op.Inside (aduPdu call.io.bytes) ∧ TcpFaithful calls ∨
      call.io.Lost ∧ calls = [])

theorem tcpLive_faithful_iff {t : TcpTransport} (ht : t.connected = true)
    (calls : List (LiveCall TcpIo)) : tcpLive.Faithful t calls ↔ TcpFaithful calls := by
  induction calls generalizing t with
  | nil => exact Iff.rfl
  | cons call calls ih =>
    rw [LiveTransport.Faithful, TcpFaithful, Operation.sendable_iff]
    have hready : tcpLive.ready t = true := ht
    cases hpdu : call.op.pdu with
    | error e => simp
    | ok pdu =>
      have htransact : tcpLive.transact t call.io call.unit pdu = _ :=
        TcpTransport.transact_connected ht call.io call.unit pdu
      have hafter : tcpLive.after t call = (tcpLive.transact t call.io call.unit pdu).2 := by
        simp [LiveTransport.after, hpdu]
      simp only [hready, true_and, Except.ok.injEq, exists_eq_left', exists_eq', hafter, htransact,
        Transaction.Replayable, Option.some.injEq]
      have hnext : ∀ next : TcpTransport, next.connected = true →
          (tcpLive.Faithful next calls ↔ TcpFaithful calls) := fun next => ih
      have hstop : ∀ next : TcpTransport, next.connected = false →
          (tcpLive.Faithful next calls ↔ calls = []) := fun next hnext =>
        LiveTransport.faithful_of_not_ready hnext calls
      have hcase := tcpReply_case call.io
      cases hreply : (tcpReply call.io).2 with
      | ok p =>
        rw [hreply] at hcase
        cases hcase with
        | response hanswered hkept =>
          have hpdu := tcpReply_answered hanswered
          rw [hreply] at hpdu
          simp [hanswered, hkept, hnext, disconnects, Except.ok.inj hpdu]
      | error e =>
        rw [hreply] at hcase
        cases hcase with
        | connection hopen hlost hcode hstatus =>
          simp [hopen, hlost, hcode, hstatus, hstop, disconnects]
        | other hopen hkept hcode => simp [hopen, hkept, hcode]

/-! ### UDP -/

section UdpConditions
omit [Platform]

/-- The request goes out, and a complete response with its transaction id, no exception,
comes in. A datagram longer than the buffer is cut off. -/
def UdpIo.Answered (io : UdpIo) (tid : UInt16) : Prop :=
  io.sendOk = true ∧ ∃ bytes, io.recv = .datagram bytes ∧ 2 ≤ aduLength (bytes.take 260) ∧
    6 + aduLength (bytes.take 260) = (bytes.take 260).length ∧ ¬ ExceptionBit (bytes.take 260) ∧
    (bytes.take 260).take 2 = u16Bytes tid

/-- Sending or receiving fails, other than by the deadline. -/
def UdpIo.Lost (io : UdpIo) : Prop := io.sendOk = false ∨ io.recv = .failed

/-- What an open transport receives and makes of it. -/
def udpReply (tid : UInt16) (io : UdpIo) : List UInt8 × Option (Result (List UInt8)) :=
  if !io.sendOk then ([], some (.error (udpErr .connection "send failed")))
  else
    match io.recv with
    | .timedOut => ([], some (.error (udpErr .timeout "recv timeout")))
    | .failed => ([], some (.error (udpErr .connection "recv failed")))
    | .datagram bytes => (bytes.take 260, udpRespond tid (bytes.take 260))

theorem unpackAdu_error {adu : List UInt8} {e : Error} (h : unpackAdu adu = some (.error e)) :
    e.code ≠ .connection := by
  unfold unpackAdu at h
  split at h
  · cases h
    decide
  · simp only [Option.bind_eq_bind, Option.bind_eq_some_iff] at h
    obtain ⟨b4, -, b5, -, h⟩ := h
    split at h
    · cases h
      decide
    · simp only [Option.bind_eq_some_iff] at h
      obtain ⟨b0, -, b1, -, unit, -, function, -, h⟩ := h
      split at h
      · split at h
        · obtain ⟨code, -, h⟩ := Option.bind_eq_some_iff.mp h
          cases h
          simp [exceptionErr]
        · cases h
          decide
      · cases h

/-- No datagram is an error of the connection. -/
theorem udpRespond_case (tid : UInt16) {io : UdpIo} {bytes : List UInt8} (hsend : io.sendOk = true)
    (hrecv : io.recv = .datagram bytes) :
    ReplyCase (io.Answered tid) io.Lost (bytes.take 260) (udpRespond tid (bytes.take 260)) := by
  have hkept : ¬ io.Lost := by
    simp [UdpIo.Lost, hsend, hrecv]
  have hanswered : io.Answered tid ↔ 2 ≤ aduLength (bytes.take 260) ∧
      6 + aduLength (bytes.take 260) = (bytes.take 260).length ∧ ¬ ExceptionBit (bytes.take 260) ∧
      (bytes.take 260).take 2 = u16Bytes tid := by
    simp [UdpIo.Answered, hsend, hrecv]
  by_cases hframed : 2 ≤ aduLength (bytes.take 260) ∧
      6 + aduLength (bytes.take 260) = (bytes.take 260).length
  · obtain ⟨hexception, hordinary⟩ := unpackAdu_framed _ hframed.1 hframed.2
    by_cases hbit : ExceptionBit (bytes.take 260)
    · obtain ⟨e, he, hcode⟩ := hexception hbit
      rw [udpRespond, he]
      exact .other (by simp [hanswered, hbit]) hkept (by simp [hcode])
    · obtain ⟨u, hu, hpdu, htid⟩ := hordinary hbit
      by_cases hmatch : u.transactionId = tid
      · have hreply : udpRespond tid (bytes.take 260) = some (.ok (aduPdu (bytes.take 260))) := by
          simp [udpRespond, hu, hmatch, hpdu]
        rw [hreply]
        exact .response (hanswered.mpr ⟨hframed.1, hframed.2, hbit, (htid tid).mp hmatch⟩) hkept
          hframed.1 hframed.2
      · have hreply : udpRespond tid (bytes.take 260) =
            some (.error (udpErr .decoding "transaction id mismatch" false)) := by
          simp [udpRespond, hu, hmatch]
        rw [hreply]
        refine .other (fun h => hmatch ?_) hkept (by simp [udpErr])
        exact (htid tid).mpr (hanswered.mp h).2.2.2
  · obtain ⟨e, he, -⟩ := unpackAdu_refused _ hframed
    rw [udpRespond, he]
    refine .other (fun h => hframed ?_) hkept (unpackAdu_error he)
    exact ⟨(hanswered.mp h).1, (hanswered.mp h).2.1⟩

theorem udpReply_case (tid : UInt16) (io : UdpIo) :
    ReplyCase (io.Answered tid) io.Lost (udpReply tid io).1 (udpReply tid io).2 := by
  unfold udpReply
  cases hsend : io.sendOk with
  | false => exact .connection (by simp [UdpIo.Answered, hsend]) (.inl hsend) rfl rfl
  | true =>
    cases hrecv : io.recv with
    | datagram bytes => exact udpRespond_case tid hsend hrecv
    | timedOut =>
      exact .other (by simp [UdpIo.Answered, hrecv]) (by simp [UdpIo.Lost, hsend, hrecv])
        (by simp [udpErr])
    | failed => exact .connection (by simp [UdpIo.Answered, hrecv]) (.inr hrecv) rfl rfl

theorem UdpTransport.transact_open {t : UdpTransport} (ht : t.isOpen = true) (io : UdpIo)
    (unit : UInt8) (pdu : List UInt8) : t.transact io unit pdu =
      ({ tx := packMbap t.transactionId unit pdu, rx := (udpReply t.transactionId io).1,
          result := (udpReply t.transactionId io).2 },
        { isOpen := true, transactionId := t.transactionId + 1 }) := by
  unfold UdpTransport.transact udpReply
  rw [ht]
  cases io.sendOk with
  | false => rfl
  | true => cases io.recv <;> rfl

theorem udpLive_journals : udpLive.Journals where
  recorded t io unit pdu ht := by
    have htransact : udpLive.transact t io unit pdu = _ := UdpTransport.transact_open ht io unit pdu
    rw [htransact]
    exact ⟨io.Answered t.transactionId, io.Lost, udpReply_case t.transactionId io⟩
  missing t io unit pdu ht := by
    have hdown : udpLive.transact t io unit pdu =
        ({ result := some (.error (udpErr .connection "not connected")) }, t) := by
      change t.isOpen = false at ht
      simp [udpLive, UdpTransport.transact, ht]
    rw [hdown]
    exact ⟨⟨_, rfl, rfl⟩, rfl⟩

end UdpConditions

/-- What a socket received. -/
def UdpIo.received (io : UdpIo) : List UInt8 :=
  match io.recv with
  | .datagram bytes => bytes.take 260
  | _ => []

omit [Platform] in
theorem udpReply_answered {io : UdpIo} {tid : UInt16} (h : io.Answered tid) :
    (udpReply tid io).1 = io.received := by
  obtain ⟨hsend, bytes, hrecv, -⟩ := h
  simp [udpReply, UdpIo.received, hsend, hrecv]

/-- Every call sends a request, and gets a response that holds what its decoder reads or
loses the connection, which stays open here. -/
def UdpFaithful : UInt16 → List (LiveCall UdpIo) → Prop
  | _, [] => True
  | tid, call :: calls => call.op.Sendable ∧
    (call.io.Answered tid ∧ call.op.Inside (aduPdu call.io.received) ∨ call.io.Lost) ∧
    UdpFaithful (tid + 1) calls

theorem udpLive_faithful_iff {t : UdpTransport} (ht : t.isOpen = true)
    (calls : List (LiveCall UdpIo)) :
    udpLive.Faithful t calls ↔ UdpFaithful t.transactionId calls := by
  induction calls generalizing t with
  | nil => exact Iff.rfl
  | cons call calls ih =>
    rw [LiveTransport.Faithful, UdpFaithful, Operation.sendable_iff]
    have hready : udpLive.ready t = true := ht
    cases hpdu : call.op.pdu with
    | error e => simp
    | ok pdu =>
      have htransact : udpLive.transact t call.io call.unit pdu = _ :=
        UdpTransport.transact_open ht call.io call.unit pdu
      have hafter : udpLive.after t call = (udpLive.transact t call.io call.unit pdu).2 := by
        simp [LiveTransport.after, hpdu]
      have hnext : ∀ tid, udpLive.Faithful { isOpen := true, transactionId := tid } calls ↔
          UdpFaithful tid calls := fun tid => ih rfl
      simp only [hready, true_and, Except.ok.injEq, exists_eq_left', exists_eq', hafter, htransact,
        Transaction.Replayable, hnext]
      have hcase := udpReply_case t.transactionId call.io
      cases hreply : (udpReply t.transactionId call.io).2 with
      | none =>
        rw [hreply] at hcase
        cases hcase
      | some result =>
        rw [hreply] at hcase
        cases hcase with
        | response hanswered hkept => simp [hanswered, hkept, udpReply_answered hanswered]
        | connection hopen hlost hcode hstatus => simp [hopen, hlost, hcode, hstatus]
        | other hopen hkept hcode => simp [hopen, hkept, hcode]

/-! ### Replay and live run -/

/-- A replay of the recorded frames reproduces a TCP run if and only if every operation
sends a request and gets a complete response that is no exception and holds every bit
asked for, but that the last one may lose the connection; and a UDP run if and only if
every operation sends a request and gets such a response under its transaction id, or
fails to send or receive before the deadline. -/
theorem replay_reproduces_iff (endpointId : String) :
    (∀ t : TcpTransport, t.connected = true → ∀ calls,
      (Reproduces tcpLive endpointId t calls ↔ TcpFaithful calls)) ∧
    (∀ t : UdpTransport, t.isOpen = true → ∀ calls,
      (Reproduces udpLive endpointId t calls ↔ UdpFaithful t.transactionId calls)) := by
  constructor
  · intro t ht calls
    rw [LiveTransport.reproduces_iff tcpLive_journals, tcpLive_faithful_iff ht]
  · intro t ht calls
    rw [LiveTransport.reproduces_iff udpLive_journals, udpLive_faithful_iff ht]

end RecordReplay

/-! ### An answer and a timeout -/

attribute [local instance] exactPlatform

/-- A read of one register that is answered with 42. -/
def answeredCall : LiveCall TcpIo where
  unit := 1
  op := .readHoldingRegisters 0 1
  io := { bytes := [0x00, 0x01, 0x00, 0x00, 0x00, 0x05, 0x01, 0x03, 0x02, 0x00, 0x2A] }

/-- The same read when the peer closes the connection. -/
def closedCall : LiveCall TcpIo := { answeredCall with io := {} }

/-- The same read when the deadline passes. -/
def lateCall : LiveCall TcpIo := { answeredCall with io := { ending := .aborted } }

theorem answered_then_closed_reproduced :
    Reproduces tcpLive "ep1" { connected := true } [answeredCall, closedCall] := by
  refine ((replay_reproduces_iff "ep1").1 { connected := true } rfl _).mpr
    ⟨trivial, .inl ⟨⟨rfl, by decide, by decide, by decide, ?_⟩, trivial, trivial, .inr ⟨?_, rfl⟩⟩⟩
  · unfold ExceptionBit
    decide
  · exact .inr ⟨rfl, by decide, .inl (by decide)⟩

/-- The live run reports a timeout, and the replay a lost connection. -/
theorem timeout_not_reproduced :
    (tcpLive.outcomes { connected := true } [lateCall]).map visible =
      [some (.error (.timeout, none))] ∧
    ¬ Reproduces tcpLive "ep1" { connected := true } [lateCall] := by
  unfold Reproduces SameOutcome
  decide +kernel

end OpcServer.Adapters
