import OpcServer.Domain.Types

/-! The Modbus wire format: MBAP framing, request PDUs, and response decoding.
Byte access is explicit. A C++ index expression is an optional lookup, and a
function that could leave its buffer returns `none` where the C++ would read outside it, so
that memory safety is a statement about the value. -/

namespace OpcServer.Adapters

open Domain

def protoErr (code : ErrorCode) (message : String) (retryable : Bool := false) : Error :=
  { code := code, message := message, component := "adapters.modbus", retryable := retryable }

/-- Big-endian bytes of a word (`append_u16`). -/
def u16Bytes (value : UInt16) : List UInt8 := [(value >>> 8).toUInt8, value.toUInt8]

/-- `(hi << 8) | lo`, narrowed to 16 bits. -/
def word (hi lo : UInt8) : UInt16 := hi.toUInt16 <<< 8 ||| lo.toUInt16

@[simp] theorem word_toNat (hi lo : UInt8) : (word hi lo).toNat = hi.toNat * 256 + lo.toNat := by
  have hh := hi.toNat_lt
  have hl := lo.toNat_lt
  have hs : (hi.toNat <<< 8) % 2 ^ 16 = hi.toNat <<< 8 := by
    rw [Nat.shiftLeft_eq]; omega
  simp only [word, UInt16.toNat_or, UInt16.toNat_shiftLeft, UInt8.toNat_toUInt16]
  rw [show (8 : UInt16).toNat % 16 = 8 from rfl, hs, ← Nat.shiftLeft_add_eq_or_of_lt (by omega), Nat.shiftLeft_eq]

@[simp] theorem word_u16Bytes (value : UInt16) :
    word (value >>> 8).toUInt8 value.toUInt8 = value := by
  apply UInt16.toNat.inj
  have hv := value.toNat_lt
  rw [word_toNat]
  simp only [UInt16.toNat_toUInt8, UInt16.toNat_shiftRight]
  rw [show (8 : UInt16).toNat % 16 = 8 from rfl, Nat.shiftRight_eq_div_pow]
  omega

theorem u16Bytes_word (hi lo : UInt8) : u16Bytes (word hi lo) = [hi, lo] := by
  have hh := hi.toNat_lt
  have hl := lo.toNat_lt
  have h1 : (word hi lo >>> 8).toUInt8 = hi := by
    apply UInt8.toNat.inj
    simp only [UInt16.toNat_toUInt8, UInt16.toNat_shiftRight, word_toNat]
    rw [show (8 : UInt16).toNat % 16 = 8 from rfl, Nat.shiftRight_eq_div_pow]
    omega
  have h2 : (word hi lo).toUInt8 = lo := by
    apply UInt8.toNat.inj
    simp only [UInt16.toNat_toUInt8, word_toNat]
    omega
  rw [u16Bytes, h1, h2]

theorem word_eq_iff (hi lo : UInt8) (value : UInt16) : word hi lo = value ↔ [hi, lo] = u16Bytes value := by
  constructor
  · rintro rfl
    exact (u16Bytes_word hi lo).symm
  · intro h
    simp only [u16Bytes, List.cons.injEq, and_true] at h
    rw [h.1, h.2, word_u16Bytes]

def packMbap (transactionId : UInt16) (unit : UInt8) (pdu : List UInt8) : List UInt8 :=
  u16Bytes transactionId ++ u16Bytes 0 ++ u16Bytes (UInt16.ofNat (1 + pdu.length)) ++ unit :: pdu

structure UnpackedAdu where
  transactionId : UInt16 := 0
  unit : UInt8 := 0
  pdu : List UInt8 := []
  deriving DecidableEq, Repr

/-- The error of an exception response; the code is `-1` when the frame ends before it. -/
def exceptionErr (component : String) (code : ℤ) : Error :=
  { code := .modbusException, message := "modbus exception", component := component,
    retryable := true, protocolStatus := some code }

def unpackAdu (adu : List UInt8) : Option (Result UnpackedAdu) :=
  if adu.length < 8 then some (.error (protoErr .decoding "short Modbus ADU"))
  else do
    let length := word (← adu[4]?) (← adu[5]?)
    if length < 2 ∨ 6 + length.toNat ≠ adu.length then
      return .error (protoErr .decoding "bad MBAP length")
    let transactionId := word (← adu[0]?) (← adu[1]?)
    let unit ← adu[6]?
    if (← adu[7]?) &&& 0x80 ≠ 0 then
      let ex : ℤ ← if length > 2 then (adu[8]?).map (fun b => (b.toNat : ℤ)) else some (-1)
      return .error (exceptionErr "adapters.modbus" ex)
    return .ok { transactionId := transactionId, unit := unit, pdu := adu.drop 7 }

/-! ### Request PDUs -/

def makeReadRegistersPdu (function : UInt8) (address quantity : UInt16) : List UInt8 :=
  function :: u16Bytes address ++ u16Bytes quantity

def makeReadBitsPdu (function : UInt8) (address quantity : UInt16) : List UInt8 :=
  makeReadRegistersPdu function address quantity

def makeWriteSingleRegisterPdu (address value : UInt16) : List UInt8 :=
  0x06 :: u16Bytes address ++ u16Bytes value

def makeWriteMultipleRegistersPdu (address : UInt16) (values : List UInt16) : List UInt8 :=
  0x10 :: u16Bytes address ++ u16Bytes (UInt16.ofNat values.length) ++
    UInt8.ofNat (values.length * 2) :: values.flatMap u16Bytes

def makeWriteSingleCoilPdu (address : UInt16) (value : Bool) : List UInt8 :=
  0x05 :: u16Bytes address ++ u16Bytes (if value then 0xFF00 else 0x0000)

/-- Set bit `i` of a packed byte list. -/
def setPackedBit (packed : List UInt8) (i : ℕ) : List UInt8 :=
  packed.modify (i / 8) (fun b => b ||| (1 <<< UInt8.ofNat (i % 8)))

/-- The packing loop of FC15, from value `i` on. -/
def packBits : ℕ → List UInt8 → List UInt8 → List UInt8
  | _, packed, [] => packed
  | i, packed, v :: vs => packBits (i + 1) (if v ≠ 0 then setPackedBit packed i else packed) vs

def makeWriteMultipleCoilsPdu (address : UInt16) (values : List UInt8) : Result (List UInt8) :=
  if values.isEmpty ∨ values.length > 1968 then
    .error (protoErr .invalidArgument "FC15 quantity out of range")
  else
    let quantity := UInt16.ofNat values.length
    let byteCount := UInt8.ofNat ((quantity.toNat + 7) / 8)
    .ok (0x0F :: u16Bytes address ++ u16Bytes quantity ++
      byteCount :: packBits 0 (List.replicate byteCount.toNat 0) values)

/-! ### Response decoding -/

/-- The register loop: words at `2 + 2i` for `i` from the given index on. -/
def registerLoop (resp : List UInt8) : ℕ → ℕ → Option (List UInt16)
  | _, 0 => some []
  | i, n + 1 => do
    let hi ← resp[2 + i * 2]?
    let lo ← resp[3 + i * 2]?
    let rest ← registerLoop resp (i + 1) n
    return word hi lo :: rest

/-- The bit loop: bit `i % 8` of the byte at `2 + i / 8`. -/
def bitLoop (resp : List UInt8) : ℕ → ℕ → Option (List Bool)
  | _, 0 => some []
  | i, n + 1 => do
    let byte ← resp[2 + i / 8]?
    let rest ← bitLoop resp (i + 1) n
    return (byte.toNat / 2 ^ (i % 8) % 2 == 1) :: rest

/-- `decode_register_response`, with the two error texts of the caller's copy. -/
def decodeRegistersWith (err : String → Error) (short : String) (resp : List UInt8)
    (quantity : UInt16) : Option (Result (List UInt16)) :=
  if resp.length < 2 then some (.error (err short))
  else do
    let byteCount ← resp[1]?
    if resp.length < 2 + byteCount.toNat ∨ byteCount.toNat ≠ quantity.toNat * 2 then
      return .error (err "register byte count mismatch")
    return .ok (← registerLoop resp 0 quantity.toNat)

/-- `decode_bits_response`: the byte count is compared with the length only. -/
def decodeBitsWith (err : String → Error) (short : String) (resp : List UInt8)
    (quantity : UInt16) : Option (Result (List Bool)) :=
  if resp.length < 2 then some (.error (err short))
  else do
    let byteCount ← resp[1]?
    if resp.length < 2 + byteCount.toNat then
      return .error (err "bit byte count mismatch")
    return .ok (← bitLoop resp 0 quantity.toNat)

def decodeRegisterResponse : List UInt8 → UInt16 → Option (Result (List UInt16)) :=
  decodeRegistersWith (protoErr .decoding) "short register response"

def decodeBitsResponse : List UInt8 → UInt16 → Option (Result (List Bool)) :=
  decodeBitsWith (protoErr .decoding) "short bit response"

/-- What both decoders do: they look for a byte count, test it, and read the values. -/
def countedValues {α : Type} (err : String → Error) (short mismatch : String) (resp : List UInt8)
    (fits : UInt8 → Prop) [DecidablePred fits] (values : Option (List α)) :
    Option (Result (List α)) :=
  match resp[1]? with
  | none => some (.error (err short))
  | some count => if fits count then values.map .ok else some (.error (err mismatch))

theorem decodeRegistersWith_eq (err : String → Error) (short : String) (resp : List UInt8)
    (quantity : UInt16) :
    decodeRegistersWith err short resp quantity =
      countedValues err short "register byte count mismatch" resp
        (fun count => 2 + count.toNat ≤ resp.length ∧ count.toNat = quantity.toNat * 2)
        (registerLoop resp 0 quantity.toNat) := by
  unfold decodeRegistersWith countedValues
  split_ifs with hlen
  · rw [List.getElem?_eq_none (by omega)]
  · rw [List.getElem?_eq_getElem (show 1 < resp.length by omega)]
    simp only [Option.bind_eq_bind, Option.bind_some]
    split_ifs with hbad hfits hfits
    · omega
    · rfl
    · cases registerLoop resp 0 quantity.toNat <;> rfl
    · omega

theorem decodeBitsWith_eq (err : String → Error) (short : String) (resp : List UInt8)
    (quantity : UInt16) :
    decodeBitsWith err short resp quantity =
      countedValues err short "bit byte count mismatch" resp
        (fun count => 2 + count.toNat ≤ resp.length) (bitLoop resp 0 quantity.toNat) := by
  unfold decodeBitsWith countedValues
  split_ifs with hlen
  · rw [List.getElem?_eq_none (by omega)]
  · rw [List.getElem?_eq_getElem (show 1 < resp.length by omega)]
    simp only [Option.bind_eq_bind, Option.bind_some]
    split_ifs with hbad hfits hfits
    · omega
    · rfl
    · cases bitLoop resp 0 quantity.toNat <;> rfl
    · omega

end OpcServer.Adapters
