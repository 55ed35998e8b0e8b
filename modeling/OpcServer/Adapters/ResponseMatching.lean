import OpcServer.Adapters.Transact

/-! When a response is taken for the answer to a request. The code's own checks are
collected per transport (`TcpChecksPass`, `UdpChecksPass`): framing, exception bit,
byte counts of reads, and for UDP the transaction id of a non-exception response.
An operation returns a plain error exactly when they fail, so that it accepts only
answers exactly when the checked responses happen to answer. -/

namespace OpcServer.Adapters

open Domain

/-! ### Operations as request and decoder -/

def Operation.pdu : Operation → Result (List UInt8)
  | .readHoldingRegisters a q => .ok (makeReadRegistersPdu 0x03 a q)
  | .readInputRegisters a q => .ok (makeReadRegistersPdu 0x04 a q)
  | .readCoils a q => .ok (makeReadBitsPdu 0x01 a q)
  | .readDiscreteInputs a q => .ok (makeReadBitsPdu 0x02 a q)
  | .writeSingleRegister a v => .ok (makeWriteSingleRegisterPdu a v)
  | .writeMultipleRegisters a vs => .ok (makeWriteMultipleRegistersPdu a vs)
  | .writeSingleCoil a v => .ok (makeWriteSingleCoilPdu a v)
  | .writeMultipleCoils a vs => makeWriteMultipleCoilsPdu a vs

def Operation.decode (op : Operation) (resp : List UInt8) : Option (Result Reply) :=
  match op with
  | .readHoldingRegisters _ q | .readInputRegisters _ q =>
    (decodeRegisterResponse resp q).map (Except.map .registers)
  | .readCoils _ q | .readDiscreteInputs _ q =>
    (decodeBitsResponse resp q).map (Except.map .bits)
  | _ => some (.ok .written)

theorem exchange_map {α β : Type} (f : α → β) (tx : ModbusTransact) (unit : UInt8)
    (pdu : Result (List UInt8)) (decode : List UInt8 → Option (Result α)) :
    (exchange tx unit pdu decode).map (Except.map f) =
      exchange tx unit pdu (fun resp => (decode resp).map (Except.map f)) := by
  unfold exchange
  cases pdu with
  | error e => rfl
  | ok p =>
    simp only
    rcases tx unit p with _ | e | resp <;> rfl

theorem Operation.perform_eq (tx : ModbusTransact) (unit : UInt8) (op : Operation) :
    op.perform tx unit = exchange tx unit op.pdu op.decode := by
  cases op <;> exact exchange_map _ tx unit _ _

/-- A write request is one the device echoes. -/
def Operation.isWrite : Operation → Bool
  | .readHoldingRegisters .. | .readInputRegisters .. | .readCoils .. | .readDiscreteInputs .. => false
  | _ => true

/-! ### What an answer is -/

/-- The length field of an MBAP header. -/
def aduLength (adu : List UInt8) : ℕ := (word (adu.getD 4 0) (adu.getD 5 0)).toNat

/-- An ADU ends where its length field says; what comes after it does not belong to it. -/
def aduFrame (adu : List UInt8) : List UInt8 := adu.take (6 + aduLength adu)

/-- The ADU answers a request PDU: protocol id zero, the request's transaction and
unit ids, its function code (with bit `0x80` for an exception), and, on a successful
write, its address and value or quantity. -/
structure Answers (op : Operation) (tid : UInt16) (unit : UInt8) (pdu adu : List UInt8) : Prop where
  transaction : (aduFrame adu).take 2 = u16Bytes tid
  protocol : ((aduFrame adu).drop 2).take 2 = [0, 0]
  unit : (aduFrame adu)[6]? = some unit
  function : (aduFrame adu)[7]? = pdu[0]? ∨ (aduFrame adu)[7]? = (pdu[0]?).map (· ||| 0x80)
  echo : op.isWrite = true → (aduFrame adu)[7]? = pdu[0]? →
    ((aduFrame adu).drop 8).take 4 = (pdu.drop 1).take 4

/-- The ADU answers the operation's request, if it has one. -/
def Operation.Answered (op : Operation) (tid : UInt16) (unit : UInt8) (adu : List UInt8) : Prop :=
  ∃ pdu, op.pdu = .ok pdu ∧ Answers op tid unit pdu adu

/-- An echo behind the end of the ADU is none. -/
example : ¬ (Operation.writeSingleRegister 0 5).Answered 7 1 [0, 7, 0, 0, 0, 2, 1, 6, 0, 0, 0, 5] := by
  rintro ⟨pdu, hpdu, h⟩
  cases hpdu
  exact absurd (h.echo rfl rfl) (by decide)

/-- Success or a Modbus exception. -/
def Accepted (outcome : Option (Result Reply)) : Prop :=
  (∃ r, outcome = some (.ok r)) ∨ ∃ e, outcome = some (.error e) ∧ e.code = .modbusException

/-- An operation accepts a response only as the answer to its request, and every
other response makes it return an error. -/
def AcceptsOnlyAnswers (outcome : Option (Result Reply)) (answered : Prop) : Prop :=
  (Accepted outcome → answered) ∧ (¬ answered → ∃ e, outcome = some (.error e))

def PlainError {α : Type} (outcome : Option (Result α)) : Prop :=
  ∃ e, outcome = some (.error e) ∧ e.code ≠ .modbusException

theorem acceptsOnlyAnswers_iff (outcome : Option (Result Reply)) (answered : Prop) :
    AcceptsOnlyAnswers outcome answered ↔ (¬ PlainError outcome → answered) := by
  constructor
  · rintro ⟨haccept, herror⟩ hplain
    by_contra hna
    obtain ⟨e, he⟩ := herror hna
    by_cases hc : e.code = .modbusException
    · exact hna (haccept (.inr ⟨e, he, hc⟩))
    · exact hplain ⟨e, he, hc⟩
  · intro h
    constructor
    · intro hacc
      apply h
      rintro ⟨e, he, hc⟩
      rcases hacc with ⟨r, hr⟩ | ⟨e', he', hc'⟩
      · rw [he] at hr; cases hr
      · rw [he] at he'; cases he'; exact hc hc'
    · intro hna
      by_contra hne
      exact hna (h fun ⟨e, he, _⟩ => hne ⟨e, he⟩)

/-! ### The checks of the code -/

/-- The PDU an ADU carries by its length field. -/
def aduPdu (adu : List UInt8) : List UInt8 := (adu.drop 7).take (aduLength adu - 1)

def ExceptionBit (adu : List UInt8) : Prop := adu.getD 7 0 &&& 0x80 ≠ 0

/-- The byte counts of a read response are consistent, as far as its decoder looks. -/
def Operation.PayloadFits (op : Operation) (pdu : List UInt8) : Prop :=
  match op with
  | .readHoldingRegisters _ q | .readInputRegisters _ q =>
    ∃ c, pdu[1]? = some c ∧ 2 + c.toNat ≤ pdu.length ∧ c.toNat = q.toNat * 2
  | .readCoils _ _ | .readDiscreteInputs _ _ => ∃ c, pdu[1]? = some c ∧ 2 + c.toNat ≤ pdu.length
  | _ => True

def TcpChecksPass (op : Operation) (adu : List UInt8) : Prop :=
  2 ≤ aduLength adu ∧ aduLength adu ≤ 254 ∧ 6 + aduLength adu ≤ adu.length ∧
    (ExceptionBit adu ∨ op.PayloadFits (aduPdu adu))

def UdpChecksPass (op : Operation) (tid : UInt16) (adu : List UInt8) : Prop :=
  2 ≤ aduLength adu ∧ 6 + aduLength adu = adu.length ∧
    (ExceptionBit adu ∨ (adu.take 2 = u16Bytes tid ∧ op.PayloadFits (aduPdu adu)))

theorem countedValues_plainError_iff {α : Type} (short mismatch : String) (resp : List UInt8)
    (fits : UInt8 → Prop) [DecidablePred fits] (values : Option (List α)) :
    PlainError (countedValues (protoErr .decoding) short mismatch resp fits values) ↔
      ¬ ∃ c, resp[1]? = some c ∧ fits c := by
  unfold countedValues
  cases resp[1]? with
  | none => simp [PlainError, protoErr]
  | some c =>
    simp only [Option.some.injEq, exists_eq_left']
    by_cases hfits : fits c
    · rw [if_pos hfits]
      cases values <;> simp [PlainError, hfits]
    · rw [if_neg hfits]
      simp [PlainError, protoErr, hfits]

theorem decodeRegistersWith_plainError_iff (short : String) (resp : List UInt8) (q : UInt16) :
    PlainError (decodeRegistersWith (protoErr .decoding) short resp q) ↔
      ¬ ∃ c, resp[1]? = some c ∧ 2 + c.toNat ≤ resp.length ∧ c.toNat = q.toNat * 2 := by
  rw [decodeRegistersWith_eq]
  exact countedValues_plainError_iff ..

theorem decodeBitsWith_plainError_iff (short : String) (resp : List UInt8) (q : UInt16) :
    PlainError (decodeBitsWith (protoErr .decoding) short resp q) ↔
      ¬ ∃ c, resp[1]? = some c ∧ 2 + c.toNat ≤ resp.length := by
  rw [decodeBitsWith_eq]
  exact countedValues_plainError_iff ..

theorem plainError_map {α β : Type} (f : α → β) (o : Option (Result α)) :
    PlainError (o.map (Except.map f)) ↔ PlainError o := by
  rcases o with _ | e | a <;> simp [PlainError, Except.map]

theorem Operation.decode_plainError_iff (op : Operation) (resp : List UInt8) :
    PlainError (op.decode resp) ↔ ¬ op.PayloadFits resp := by
  cases op with
  | readHoldingRegisters a q =>
    exact (plainError_map _ _).trans (decodeRegistersWith_plainError_iff _ resp q)
  | readInputRegisters a q =>
    exact (plainError_map _ _).trans (decodeRegistersWith_plainError_iff _ resp q)
  | readCoils a q => exact (plainError_map _ _).trans (decodeBitsWith_plainError_iff _ resp q)
  | readDiscreteInputs a q =>
    exact (plainError_map _ _).trans (decodeBitsWith_plainError_iff _ resp q)
  | writeSingleRegister a v => simp [decode, PayloadFits, PlainError]
  | writeMultipleRegisters a vs => simp [decode, PayloadFits, PlainError]
  | writeSingleCoil a v => simp [decode, PayloadFits, PlainError]
  | writeMultipleCoils a vs => simp [decode, PayloadFits, PlainError]

/-! ### Outcomes by the checks -/

/-- The header fields and the PDU of an ADU with at least eight bytes. -/
theorem exists_header (adu : List UInt8) (h : 8 ≤ adu.length) :
    ∃ b0 b1 b2 b3 b4 b5 unit function data,
      adu = b0 :: b1 :: b2 :: b3 :: b4 :: b5 :: unit :: function :: data := by
  match adu, h with
  | b0 :: b1 :: b2 :: b3 :: b4 :: b5 :: unit :: function :: data, _ =>
    exact ⟨b0, b1, b2, b3, b4, b5, unit, function, data, rfl⟩

theorem aduLength_cons (b0 b1 b2 b3 b4 b5 : UInt8) (rest : List UInt8) :
    aduLength (b0 :: b1 :: b2 :: b3 :: b4 :: b5 :: rest) = (word b4 b5).toNat := rfl

theorem readError_code (e : IoError) : (readError e).code ≠ .modbusException := by
  cases e <;> simp [readError, makeErr]

theorem tcpRespond_unfinished {adu : List UInt8} (ending : IoError)
    (hshort : adu.length < 6 ∨ 2 ≤ aduLength adu ∧ aduLength adu ≤ 254 ∧
      adu.length < 6 + aduLength adu) : tcpRespond adu ending = ([], .error (readError ending)) := by
  unfold tcpRespond
  split
  · rename_i b0 b1 b2 b3 b4 b5 rest
    rw [aduLength_cons] at hshort
    simp only [List.length_cons] at hshort
    have hgood : ¬ (word b4 b5 < 2 ∨ word b4 b5 > 254) := by
      simp only [UInt16.lt_iff_toNat_lt, gt_iff_lt, UInt16.reduceToNat]
      omega
    rw [if_neg hgood, if_pos (by omega)]
  · rfl

theorem tcpRespond_badLength {adu : List UInt8} (ending : IoError) (hlong : 6 ≤ adu.length)
    (hbad : ¬ (2 ≤ aduLength adu ∧ aduLength adu ≤ 254)) :
    tcpRespond adu ending = ([], .error (makeErr .decoding "bad MBAP length" false)) := by
  unfold tcpRespond
  split
  · rename_i b0 b1 b2 b3 b4 b5 rest
    rw [aduLength_cons] at hbad
    rw [if_pos]
    simp only [UInt16.lt_iff_toNat_lt, gt_iff_lt, UInt16.reduceToNat]
    omega
  · rename_i hheader
    match adu, hlong with
    | b0 :: b1 :: b2 :: b3 :: b4 :: b5 :: rest, _ => exact absurd rfl (hheader b0 b1 b2 b3 b4 b5 rest)

theorem tcpRespond_refused (adu : List UInt8) (ending : IoError)
    (h : ¬ (2 ≤ aduLength adu ∧ aduLength adu ≤ 254 ∧ 6 + aduLength adu ≤ adu.length)) :
    PlainError (some (tcpRespond adu ending).2) := by
  by_cases hbad : 6 ≤ adu.length ∧ ¬ (2 ≤ aduLength adu ∧ aduLength adu ≤ 254)
  · rw [tcpRespond_badLength ending hbad.1 hbad.2]
    exact ⟨_, rfl, by simp [makeErr]⟩
  · rw [tcpRespond_unfinished ending (by omega)]
    exact ⟨_, rfl, readError_code ending⟩

/-- A complete response is recorded as far as its header announces, and is an exception
or the PDU. -/
theorem tcpRespond_framed (adu : List UInt8) (ending : IoError) (h2 : 2 ≤ aduLength adu)
    (h254 : aduLength adu ≤ 254) (hlen : 6 + aduLength adu ≤ adu.length) :
    (ExceptionBit adu → ∃ e, tcpRespond adu ending = (adu.take (6 + aduLength adu), .error e) ∧
      e.code = .modbusException) ∧
      (¬ ExceptionBit adu →
        tcpRespond adu ending = (adu.take (6 + aduLength adu), .ok (aduPdu adu))) := by
  obtain ⟨b0, b1, b2, b3, b4, b5, unit, function, data, rfl⟩ := exists_header adu (by omega)
  rw [aduLength_cons] at h2 h254 hlen ⊢
  simp only [List.length_cons] at hlen
  obtain ⟨n, hn⟩ : ∃ n, (word b4 b5).toNat = n + 2 := ⟨(word b4 b5).toNat - 2, by omega⟩
  have hbad : ¬ (word b4 b5 < 2 ∨ word b4 b5 > 254) := by
    simp only [UInt16.lt_iff_toNat_lt, gt_iff_lt, UInt16.reduceToNat]
    omega
  have hrest : ¬ (unit :: function :: data).length < (word b4 b5).toNat := by
    simp only [List.length_cons]
    omega
  have hpdu : aduPdu (b0 :: b1 :: b2 :: b3 :: b4 :: b5 :: unit :: function :: data) =
      function :: data.take n := by
    simp only [aduPdu, aduLength_cons, hn, List.drop_succ_cons, List.drop_zero]
    rfl
  have hbody : (unit :: function :: data).take (word b4 b5).toNat =
      unit :: function :: data.take n := by rw [hn]; rfl
  have htake : (b0 :: b1 :: b2 :: b3 :: b4 :: b5 :: unit :: function :: data).take
      (6 + (word b4 b5).toNat) = [b0, b1, b2, b3, b4, b5] ++ unit :: function :: data.take n := by
    rw [hn, Nat.add_comm 6]
    rfl
  unfold tcpRespond ExceptionBit
  simp only [hbad, hrest, ↓reduceIte, hbody, htake, hpdu, List.getD_cons_succ, List.getD_cons_zero]
  constructor
  · intro hx
    rw [if_pos hx]
    exact ⟨_, rfl, rfl⟩
  · intro hx
    rw [if_neg hx]

theorem unpackAdu_refused (adu : List UInt8)
    (h : ¬ (2 ≤ aduLength adu ∧ 6 + aduLength adu = adu.length)) : PlainError (unpackAdu adu) := by
  unfold unpackAdu
  split
  next => exact ⟨_, rfl, by simp [protoErr]⟩
  next hlen =>
    obtain ⟨b0, b1, b2, b3, b4, b5, unit, function, data, rfl⟩ :=
      exists_header adu (by omega)
    rw [aduLength_cons] at h
    have hbad : word b4 b5 < 2 ∨ 6 + (word b4 b5).toNat ≠
        (b0 :: b1 :: b2 :: b3 :: b4 :: b5 :: unit :: function :: data).length := by
      simp only [UInt16.lt_iff_toNat_lt, UInt16.reduceToNat]
      omega
    simp only [List.getElem?_cons_succ, List.getElem?_cons_zero, Option.bind_eq_bind,
      Option.bind_some, if_pos hbad]
    exact ⟨_, rfl, by simp [protoErr]⟩

theorem unpackAdu_framed (adu : List UInt8) (h2 : 2 ≤ aduLength adu)
    (hlen : 6 + aduLength adu = adu.length) :
    (ExceptionBit adu → ∃ e, unpackAdu adu = some (.error e) ∧ e.code = .modbusException) ∧
      (¬ ExceptionBit adu → ∃ u, unpackAdu adu = some (.ok u) ∧ u.pdu = aduPdu adu ∧
        ∀ tid, u.transactionId = tid ↔ adu.take 2 = u16Bytes tid) := by
  obtain ⟨b0, b1, b2, b3, b4, b5, unit, function, data, rfl⟩ := exists_header adu (by omega)
  rw [aduLength_cons] at h2 hlen
  have hshort : ¬ (b0 :: b1 :: b2 :: b3 :: b4 :: b5 :: unit :: function :: data).length < 8 := by
    omega
  have hbad : ¬ (word b4 b5 < 2 ∨ 6 + (word b4 b5).toNat ≠
      (b0 :: b1 :: b2 :: b3 :: b4 :: b5 :: unit :: function :: data).length) := by
    simp only [UInt16.lt_iff_toNat_lt, UInt16.reduceToNat]
    omega
  unfold unpackAdu ExceptionBit
  simp only [if_neg hshort, List.getElem?_cons_succ, List.getElem?_cons_zero, Option.bind_eq_bind,
    Option.bind_some, if_neg hbad, List.getD_cons_succ, List.getD_cons_zero]
  constructor
  · intro hx
    rw [if_pos hx]
    by_cases hcode : word b4 b5 > 2
    · -- the exception code is the ninth byte, which the length guarantees
      obtain ⟨c, rest, rfl⟩ : ∃ c rest, data = c :: rest := by
        cases data with
        | nil =>
          simp only [UInt16.lt_iff_toNat_lt, gt_iff_lt, UInt16.reduceToNat] at hcode
          simp only [List.length_cons, List.length_nil] at hlen
          omega
        | cons c rest => exact ⟨c, rest, rfl⟩
      simp only [if_pos hcode, List.getElem?_cons_zero, Option.map_some, Option.bind_some]
      exact ⟨_, rfl, rfl⟩
    · simp only [if_neg hcode]
      exact ⟨_, rfl, rfl⟩
  · intro hx
    rw [if_neg hx]
    refine ⟨_, rfl, ?_, fun tid => word_eq_iff b0 b1 tid⟩
    have : (function :: data).length ≤ (word b4 b5).toNat - 1 := by
      simp only [List.length_cons] at hlen ⊢
      omega
    exact (List.take_of_length_le this).symm

theorem udpRespond_plainError_iff (tid : UInt16) (op : Operation) (adu : List UInt8)
    (tx : ModbusTransact) (unit : UInt8) (pdu : List UInt8)
    (htx : tx unit pdu = udpRespond tid adu) :
    PlainError (exchange tx unit (.ok pdu) op.decode) ↔ ¬ UdpChecksPass op tid adu := by
  simp only [exchange, htx, udpRespond, UdpChecksPass]
  by_cases hframed : 2 ≤ aduLength adu ∧ 6 + aduLength adu = adu.length
  · obtain ⟨hexc, hok⟩ := unpackAdu_framed adu hframed.1 hframed.2
    by_cases hx : ExceptionBit adu
    · obtain ⟨e, he, hcode⟩ := hexc hx
      simp [he, hframed, hx, PlainError, hcode]
    · obtain ⟨u, hu, hpdu, htid⟩ := hok hx
      by_cases ht : u.transactionId = tid
      · simp [hu, hframed, hx, ht, (htid tid).mp ht, hpdu, op.decode_plainError_iff]
      · have hne : ¬ adu.take 2 = u16Bytes tid := fun h => ht ((htid tid).mpr h)
        simp [hu, hframed, hx, ht, hne, PlainError, udpErr]
  · obtain ⟨e, he, hcode⟩ := unpackAdu_refused adu hframed
    have hno : ¬ (2 ≤ aduLength adu ∧ 6 + aduLength adu = adu.length ∧
        (ExceptionBit adu ∨ (adu.take 2 = u16Bytes tid ∧ op.PayloadFits (aduPdu adu)))) :=
      fun h => hframed ⟨h.1, h.2.1⟩
    simp [he, hno, PlainError, hcode]

theorem tcpRespond_plainError_iff (ending : IoError) (op : Operation) (adu : List UInt8)
    (tx : ModbusTransact) (unit : UInt8) (pdu : List UInt8)
    (htx : tx unit pdu = some (tcpRespond adu ending).2) :
    PlainError (exchange tx unit (.ok pdu) op.decode) ↔ ¬ TcpChecksPass op adu := by
  simp only [exchange, htx, TcpChecksPass]
  by_cases hframed : 2 ≤ aduLength adu ∧ aduLength adu ≤ 254 ∧ 6 + aduLength adu ≤ adu.length
  · obtain ⟨hexc, hok⟩ := tcpRespond_framed adu ending hframed.1 hframed.2.1 hframed.2.2
    by_cases hx : ExceptionBit adu
    · obtain ⟨e, he, hcode⟩ := hexc hx
      simp [he, hframed, hx, PlainError, hcode]
    · simp [hok hx, hframed, hx, op.decode_plainError_iff]
  · obtain ⟨e, he, hcode⟩ := tcpRespond_refused adu ending hframed
    have hno : ¬ (2 ≤ aduLength adu ∧ aduLength adu ≤ 254 ∧ 6 + aduLength adu ≤ adu.length ∧
        (ExceptionBit adu ∨ op.PayloadFits (aduPdu adu))) :=
      fun h => hframed ⟨h.1, h.2.1, h.2.2.1⟩
    simp only [Option.some.injEq] at he
    simp [he, hno, PlainError, hcode]

/-! ### Acceptance -/

theorem makeWriteMultipleCoilsPdu_error {a : UInt16} {vs : List UInt8} {e : Error}
    (h : makeWriteMultipleCoilsPdu a vs = .error e) : e.code = .invalidArgument := by
  unfold makeWriteMultipleCoilsPdu at h
  split at h
  · cases h
    rfl
  · cases h

theorem Operation.pdu_error {op : Operation} {e : Error} (h : op.pdu = .error e) :
    e.code = .invalidArgument := by
  cases op with
  | writeMultipleCoils a vs => exact makeWriteMultipleCoilsPdu_error h
  | _ => cases h

/-- With the transport's answer decided by its checks, accepting only answers means
that the checked responses answer. -/
theorem acceptsOnlyAnswers_exchange_iff (op : Operation) (tid : UInt16) (unit : UInt8)
    (adu : List UInt8) (tx : ModbusTransact) (checks : Prop)
    (h : ∀ pdu, op.pdu = .ok pdu →
      (PlainError (exchange tx unit (.ok pdu) op.decode) ↔ ¬ checks)) :
    AcceptsOnlyAnswers (op.perform tx unit) (op.Answered tid unit adu) ↔
      ∀ pdu, op.pdu = .ok pdu → checks → Answers op tid unit pdu adu := by
  rw [acceptsOnlyAnswers_iff, op.perform_eq]
  cases hp : op.pdu with
  | error e =>
    have hplain : PlainError (exchange tx unit (.error e) op.decode) :=
      ⟨e, rfl, by simp [Operation.pdu_error hp]⟩
    simp [hplain]
  | ok pdu =>
    rw [h pdu hp]
    simp [Operation.Answered, hp]

/-- The transact call of a connected TCP transport to which the peer sends `adu`. -/
def tcpCall (tid : UInt16) (adu : List UInt8) (ending : IoError) : ModbusTransact :=
  fun unit pdu => (TcpTransport.transact ⟨true, tid⟩ { bytes := adu, ending := ending }
    unit pdu).1.result

/-- The transact call of an open UDP transport that receives the datagram `adu`. -/
def udpCall (tid : UInt16) (adu : List UInt8) : ModbusTransact :=
  fun unit pdu => (UdpTransport.transact ⟨true, tid⟩ { recv := .datagram adu } unit pdu).1.result

/-- An operation accepts only answers to its request exactly when every response
that passes the transport's own checks carries the request's identity and echo. -/
theorem accepts_only_answers_iff (op : Operation) (tid : UInt16) (unit : UInt8)
    (adu : List UInt8) (ending : IoError) :
    (AcceptsOnlyAnswers (op.perform (tcpCall tid adu ending) unit) (op.Answered tid unit adu) ↔
      ∀ pdu, op.pdu = .ok pdu → TcpChecksPass op adu → Answers op tid unit pdu adu) ∧
    (AcceptsOnlyAnswers (op.perform (udpCall tid adu) unit) (op.Answered tid unit adu) ↔
      ∀ pdu, op.pdu = .ok pdu → UdpChecksPass op tid (adu.take 260) →
        Answers op tid unit pdu adu) := by
  constructor
  · apply acceptsOnlyAnswers_exchange_iff
    intro pdu _
    exact tcpRespond_plainError_iff ending op adu _ unit pdu rfl
  · apply acceptsOnlyAnswers_exchange_iff
    intro pdu _
    exact udpRespond_plainError_iff tid op (adu.take 260) _ unit pdu rfl

/-- Request 7 reads one holding register of unit 1. Over TCP an ADU of transaction 8,
protocol 5, unit 9 and function 4 is decoded as its answer, and over UDP the same
with transaction id 7. -/
theorem foreign_responses_accepted :
    ¬ AcceptsOnlyAnswers
      ((Operation.readHoldingRegisters 0 1).perform
        (tcpCall 7 [0, 8, 0, 5, 0, 5, 9, 4, 2, 0x12, 0x34] .eof) 1)
      ((Operation.readHoldingRegisters 0 1).Answered 7 1
        [0, 8, 0, 5, 0, 5, 9, 4, 2, 0x12, 0x34]) ∧
    ¬ AcceptsOnlyAnswers
      ((Operation.readHoldingRegisters 0 1).perform
        (udpCall 7 [0, 7, 0, 5, 0, 5, 9, 4, 2, 0x12, 0x34]) 1)
      ((Operation.readHoldingRegisters 0 1).Answered 7 1
        [0, 7, 0, 5, 0, 5, 9, 4, 2, 0x12, 0x34]) := by
  constructor
  · rintro ⟨haccept, _⟩
    obtain ⟨pdu, _, hanswers⟩ := haccept (.inl ⟨.registers [0x1234], rfl⟩)
    exact absurd hanswers.protocol (by decide)
  · rintro ⟨haccept, _⟩
    obtain ⟨pdu, _, hanswers⟩ := haccept (.inl ⟨.registers [0x1234], rfl⟩)
    exact absurd hanswers.protocol (by decide)

end OpcServer.Adapters
