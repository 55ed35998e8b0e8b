import OpcServer.Lib.Traverse
import OpcServer.Project.Types

/-! The pure codec between registers and engineering values. Decoding is written
once over a register reader: `decode` reads from a vector and sees the platform's
word past its end, `decode?` fails there instead, which is how accesses outside
the registers are told apart. -/

namespace OpcServer.Core.Translator

open Domain Project

variable [Platform]

def err (code : ErrorCode) (message : String) : Error :=
  { code := code, message := message, component := "core.translator", retryable := false }

/-- The check of `ensure_count` on a vector of `size` registers. -/
def ensureCount (tag : Tag) (size : ℕ) : Result Unit :=
  if (size : ℤ) < tag.quantity.getD (registerCountFor tag.type) then
    .error (err .decoding "not enough registers for tag type")
  else .ok ()

def effectiveOrder (tag : Tag) : String :=
  if tag.byteOrder ≠ "" then tag.byteOrder
  else match tag.type with
    | .uint16 | .int16 => "AB"
    | .bool => ""
    | _ => "ABCD"

def reorderU16 (raw : UInt16) (order : String) : Result UInt16 :=
  if order = "" ∨ order = "AB" then .ok raw
  else if order = "BA" then .ok ((raw &&& 0x00FF) <<< 8 ||| (raw &&& 0xFF00) >>> 8)
  else .error (err .decoding "unsupported byteOrder for 16-bit")

/-- Four bytes, most significant first. -/
abbrev Bytes4 := UInt8 × UInt8 × UInt8 × UInt8

/-- The permutation an order names; it is its own inverse. -/
def permute (order : String) : Bytes4 → Result Bytes4
  | (a, b, c, d) =>
    if order = "ABCD" then .ok (a, b, c, d)
    else if order = "CDAB" then .ok (c, d, a, b)
    else if order = "BADC" then .ok (b, a, d, c)
    else if order = "DCBA" then .ok (d, c, b, a)
    else .error (err .decoding "unsupported byteOrder for 32-bit")

/-- Bytes of two registers in big-endian order (`regs_to_be_bytes` after its length
check). -/
def regsToBeBytes (r0 r1 : UInt16) (order : String) : Result Bytes4 :=
  permute order ((r0 >>> 8).toUInt8, r0.toUInt8, (r1 >>> 8).toUInt8, r1.toUInt8)

def beBytesToRegs (be : Bytes4) (order : String) : Result (UInt16 × UInt16) :=
  (permute order be).map fun (a, b, c, d) =>
    (a.toUInt16 <<< 8 ||| b.toUInt16, c.toUInt16 <<< 8 ||| d.toUInt16)

def bytesToU32 : Bytes4 → UInt32
  | (a, b, c, d) => a.toUInt32 <<< 24 ||| b.toUInt32 <<< 16 ||| c.toUInt32 <<< 8 ||| d.toUInt32

def u32ToBytes (v : UInt32) : Bytes4 :=
  ((v >>> 24).toUInt8, (v >>> 16).toUInt8, (v >>> 8).toUInt8, v.toUInt8)

def applyScale (raw : Double) (tag : Tag) : Double :=
  Platform.add (Platform.mul raw tag.scale) tag.offset

def invertScale (eng : Double) (tag : Tag) : Result Double :=
  if !Platform.isFinite eng || !Platform.isFinite tag.scale || !Platform.isFinite tag.offset then
    .error (err .invalidArgument "non-finite scale/value")
  else if Platform.isZero tag.scale then .error (err .invalidArgument "scale is zero")
  else
    let raw := Platform.div (Platform.sub eng tag.offset) tag.scale
    if !Platform.isFinite raw then .error (err .invalidArgument "scaled value is out of range")
    else .ok raw

def scalarToDouble : ScalarValue → Result Double
  | .monostate => .error (err .invalidArgument "empty value")
  | .bool v => .ok (Platform.ofInt (if v then 1 else 0))
  | .uint16 v => .ok (Platform.ofInt v.toNat)
  | .int16 v => .ok (Platform.ofInt v.toInt)
  | .uint32 v => .ok (Platform.ofInt v.toNat)
  | .int32 v => .ok (Platform.ofInt v.toInt)
  | .float v => .ok (Platform.widen v)
  | .double v => .ok v

/-- `checked_integral<T>` for a type with the given bounds. -/
def checkedIntegral (lowest highest : ℤ) (value : Double) : Result ℤ :=
  if !Platform.isFinite value then .error (err .invalidArgument "non-finite integer value")
  else
    let rounded := Platform.round value
    if rounded < lowest ∨ rounded > highest then
      .error (err .invalidArgument "integer value is out of range")
    else .ok rounded

def checkedU16 (value : Double) : Result UInt16 :=
  (checkedIntegral 0 65535 value).map UInt16.ofInt

def checkedI16 (value : Double) : Result Int16 :=
  (checkedIntegral (-32768) 32767 value).map Int16.ofInt

def checkedU32 (value : Double) : Result UInt32 :=
  (checkedIntegral 0 4294967295 value).map UInt32.ofInt

def checkedI32 (value : Double) : Result Int32 :=
  (checkedIntegral (-2147483648) 2147483647 value).map Int32.ofInt

/-- The decoder over a reader of registers by index, `size` of them valid. -/
def decodeM {m : Type → Type} [Monad m] (read : ℕ → m UInt16) (size : ℕ) (tag : Tag) :
    m (Result ScalarValue) := do
  match ensureCount tag size with
  | .error e => return .error e
  | .ok () =>
    let order := effectiveOrder tag
    match tag.type with
    | .bool => return .ok (.bool ((← read 0) != 0))
    | .uint16 =>
      let raw ← read 0
      return do
        let raw ← reorderU16 raw order
        let scaled ← checkedU16 (applyScale (Platform.ofInt raw.toNat) tag)
        return .uint16 scaled
    | .int16 =>
      let raw ← read 0
      return do
        let raw ← reorderU16 raw order
        let scaled ← checkedI16 (applyScale (Platform.ofInt raw.toInt16.toInt) tag)
        return .int16 scaled
    | .uint32 =>
      if size < 2 then return .error (err .decoding "need 2 registers")
      let r0 ← read 0
      let r1 ← read 1
      return do
        let bytes ← regsToBeBytes r0 r1 order
        let scaled ← checkedU32 (applyScale (Platform.ofInt (bytesToU32 bytes).toNat) tag)
        return .uint32 scaled
    | .int32 =>
      if size < 2 then return .error (err .decoding "need 2 registers")
      let r0 ← read 0
      let r1 ← read 1
      return do
        let bytes ← regsToBeBytes r0 r1 order
        let scaled ← checkedI32 (applyScale (Platform.ofInt (bytesToU32 bytes).toInt32.toInt) tag)
        return .int32 scaled
    | .float32 =>
      if size < 2 then return .error (err .decoding "need 2 registers")
      let r0 ← read 0
      let r1 ← read 1
      return do
        let bytes ← regsToBeBytes r0 r1 order
        let raw := Platform.singleOfBits (bytesToU32 bytes)
        return .float (Platform.narrow (applyScale (Platform.widen raw) tag))
    | .float64 =>
      -- four registers as a big-endian word stream; the byte order is not looked at
      let r0 ← read 0
      let r1 ← read 1
      let r2 ← read 2
      let r3 ← read 3
      let bits := ((r0.toUInt64 <<< 16 ||| r1.toUInt64) <<< 16 ||| r2.toUInt64) <<< 16 |||
        r3.toUInt64
      return .ok (.double (applyScale (Platform.doubleOfBits bits) tag))

/-- `Translator::decode`. -/
def decode (tag : Tag) (registers : List UInt16) : Result ScalarValue :=
  Id.run (decodeM (fun i => pure ((registers[i]?).getD (Platform.outside i)))
    registers.length tag)

/-- `Translator::decode`, failing on an access outside the registers. -/
def decode? (tag : Tag) (registers : List UInt16) : Option (Result ScalarValue) :=
  decodeM (fun i => registers[i]?) registers.length tag

/-- `Translator::encode`. -/
def encode (tag : Tag) (value : ScalarValue) : Result (List UInt16) := do
  let order := effectiveOrder tag
  match tag.type with
  | .bool =>
    match value with
    | .bool b => return [if b then 1 else 0]
    | _ => .error (err .invalidArgument "bool expected")
  | .uint16 =>
    let raw ← invertScale (← scalarToDouble value) tag
    let checked ← checkedU16 raw
    return [← reorderU16 checked order]
  | .int16 =>
    let raw ← invertScale (← scalarToDouble value) tag
    let checked ← checkedI16 raw
    return [← reorderU16 checked.toUInt16 order]
  | .uint32 =>
    let raw ← invertScale (← scalarToDouble value) tag
    let (w0, w1) ← beBytesToRegs (u32ToBytes (← checkedU32 raw)) order
    return [w0, w1]
  | .int32 =>
    let raw ← invertScale (← scalarToDouble value) tag
    let (w0, w1) ← beBytesToRegs (u32ToBytes (← checkedI32 raw).toUInt32) order
    return [w0, w1]
  | .float32 =>
    let raw ← invertScale (← scalarToDouble value) tag
    if Platform.exceedsSingle raw then
      .error (err .invalidArgument "float32 value is out of range")
    else
      let (w0, w1) ← beBytesToRegs (u32ToBytes (Platform.singleBits (Platform.narrow raw))) order
      return [w0, w1]
  | .float64 =>
    let raw ← invertScale (← scalarToDouble value) tag
    let bits := Platform.doubleBits raw
    return [(bits >>> 48).toUInt16, (bits >>> 32).toUInt16, (bits >>> 16).toUInt16, bits.toUInt16]

theorem ensureCount_eq_ok {tag : Tag} {size : ℕ} :
    ensureCount tag size = .ok () ↔ regsFor tag ≤ size := by
  have hregs : tag.quantity.getD (registerCountFor tag.type) = regsFor tag := by
    unfold regsFor
    cases tag.quantity <;> rfl
  rw [ensureCount, hregs]
  split
  · simp_all
  · simp_all

/-- A value is encoded into the registers its type needs, whatever quantity the tag has. -/
theorem encode_length {tag : Tag} {value : ScalarValue} {regs : List UInt16}
    (h : encode tag value = .ok regs) : (regs.length : ℤ) = registerCountFor tag.type := by
  unfold encode at h
  cases htype : tag.type with
  | bool =>
    simp only [htype] at h
    split at h
    · cases h
      rfl
    · cases h
  | uint16 | int16 | uint32 | int32 =>
    simp only [htype] at h
    obtain ⟨_, -, h⟩ := Traverse.bind_eq_ok h
    obtain ⟨_, -, h⟩ := Traverse.bind_eq_ok h
    obtain ⟨_, -, h⟩ := Traverse.bind_eq_ok h
    obtain ⟨_, -, h⟩ := Traverse.bind_eq_ok h
    cases h
    rfl
  | float32 =>
    simp only [htype] at h
    obtain ⟨_, -, h⟩ := Traverse.bind_eq_ok h
    obtain ⟨_, -, h⟩ := Traverse.bind_eq_ok h
    split at h
    · cases h
    · obtain ⟨_, -, h⟩ := Traverse.bind_eq_ok h
      cases h
      rfl
  | float64 =>
    simp only [htype] at h
    obtain ⟨_, -, h⟩ := Traverse.bind_eq_ok h
    obtain ⟨_, -, h⟩ := Traverse.bind_eq_ok h
    cases h
    rfl

/-! ### Decoding by type, past the guard -/

section Equations
variable {tag : Tag} {r r0 r1 r2 r3 : UInt16} {more : List UInt16}

theorem decode_bool_eq (htype : tag.type = .bool)
    (hsize : ensureCount tag (r :: more).length = .ok ()) :
    decode tag (r :: more) = .ok (.bool (r != 0)) := by
  simp only [decode, decodeM, hsize, htype]
  rfl

theorem decode_uint16_eq (htype : tag.type = .uint16)
    (hsize : ensureCount tag (r :: more).length = .ok ()) :
    decode tag (r :: more) = (do
      let raw ← reorderU16 r (effectiveOrder tag)
      let scaled ← checkedU16 (applyScale (Platform.ofInt raw.toNat) tag)
      return .uint16 scaled) := by
  simp only [decode, decodeM, hsize, htype]
  rfl

theorem decode_int16_eq (htype : tag.type = .int16)
    (hsize : ensureCount tag (r :: more).length = .ok ()) :
    decode tag (r :: more) = (do
      let raw ← reorderU16 r (effectiveOrder tag)
      let scaled ← checkedI16 (applyScale (Platform.ofInt raw.toInt16.toInt) tag)
      return .int16 scaled) := by
  simp only [decode, decodeM, hsize, htype]
  rfl

theorem decode_uint32_eq (htype : tag.type = .uint32)
    (hsize : ensureCount tag (r0 :: r1 :: more).length = .ok ()) :
    decode tag (r0 :: r1 :: more) = (do
      let bytes ← regsToBeBytes r0 r1 (effectiveOrder tag)
      let scaled ← checkedU32 (applyScale (Platform.ofInt (bytesToU32 bytes).toNat) tag)
      return .uint32 scaled) := by
  simp only [decode, decodeM, hsize, htype]
  rw [if_neg (by simp)]
  rfl

theorem decode_int32_eq (htype : tag.type = .int32)
    (hsize : ensureCount tag (r0 :: r1 :: more).length = .ok ()) :
    decode tag (r0 :: r1 :: more) = (do
      let bytes ← regsToBeBytes r0 r1 (effectiveOrder tag)
      let scaled ← checkedI32 (applyScale (Platform.ofInt (bytesToU32 bytes).toInt32.toInt) tag)
      return .int32 scaled) := by
  simp only [decode, decodeM, hsize, htype]
  rw [if_neg (by simp)]
  rfl

theorem decode_float32_eq (htype : tag.type = .float32)
    (hsize : ensureCount tag (r0 :: r1 :: more).length = .ok ()) :
    decode tag (r0 :: r1 :: more) = (do
      let bytes ← regsToBeBytes r0 r1 (effectiveOrder tag)
      let raw := Platform.singleOfBits (bytesToU32 bytes)
      return .float (Platform.narrow (applyScale (Platform.widen raw) tag))) := by
  simp only [decode, decodeM, hsize, htype]
  rw [if_neg (by simp)]
  rfl

theorem decode_float64_eq (htype : tag.type = .float64)
    (hsize : ensureCount tag (r0 :: r1 :: r2 :: r3 :: more).length = .ok ()) :
    decode tag (r0 :: r1 :: r2 :: r3 :: more) =
      .ok (.double (applyScale (Platform.doubleOfBits
        (((r0.toUInt64 <<< 16 ||| r1.toUInt64) <<< 16 ||| r2.toUInt64) <<< 16 ||| r3.toUInt64))
        tag)) := by
  simp only [decode, decodeM, hsize, htype]
  rfl

end Equations

end OpcServer.Core.Translator
