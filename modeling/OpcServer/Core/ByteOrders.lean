import OpcServer.Core.IntegerCodec
import OpcServer.Lib.Words
import OpcServer.Project.LoadText

/-! The codec without its byte orders: encoding arranges the big-endian words of a bit
pattern by the order of the tag, and decoding arranges the registers back before it reads
the pattern. A `float64` has its words as they are, whatever its order. -/

namespace OpcServer.Core.Translator

open Domain Project Adapters Words

/-! ### Arrangements -/

/-- `CDAB` reverses the registers, `BADC` swaps the bytes of each, `DCBA` does both. -/
def arrange (order : String) (ws : List UInt16) : List UInt16 :=
  if order = "CDAB" then ws.reverse
  else if order = "BADC" ∨ order = "BA" then ws.map swapBytes
  else if order = "DCBA" then (ws.map swapBytes).reverse
  else ws

@[simp] theorem length_arrange (order : String) (ws : List UInt16) :
    (arrange order ws).length = ws.length := by
  unfold arrange
  split_ifs <;> simp

/-- An arrangement undoes itself. -/
@[simp] theorem arrange_arrange (order : String) (ws : List UInt16) :
    arrange order (arrange order ws) = ws := by
  have hswap : ∀ ws : List UInt16, (ws.map swapBytes).map swapBytes = ws := by
    intro ws
    rw [List.map_map, show swapBytes ∘ swapBytes = id from funext swapBytes_swapBytes, List.map_id]
  unfold arrange
  split_ifs with h1 h2 h3
  · exact List.reverse_reverse ws
  · exact hswap ws
  · rw [List.map_reverse, List.reverse_reverse, hswap]
  · rfl

theorem words_one (n : ℕ) : words 1 n = [UInt16.ofNat n] := rfl

theorem words_two (n : ℕ) : words 2 n = [UInt16.ofNat (n / 2 ^ 16), UInt16.ofNat n] := rfl

theorem words_four (n : ℕ) : words 4 n = [UInt16.ofNat (n / 2 ^ 16 / 2 ^ 16 / 2 ^ 16),
    UInt16.ofNat (n / 2 ^ 16 / 2 ^ 16), UInt16.ofNat (n / 2 ^ 16), UInt16.ofNat n] := rfl

theorem swapBytes_word (hi lo : UInt8) : swapBytes (word hi lo) = word lo hi := by
  apply UInt16.toNat.inj
  have hhi := hi.toNat_lt
  have hlo := lo.toNat_lt
  rw [swapBytes_toNat, word_toNat, word_toNat]
  omega

/-- The bytes of a pattern are those of its two words. -/
theorem words_bytes {a b c d : UInt8} {v : UInt32} (h : (a, b, c, d) = u32ToBytes v) :
    words 2 v.toNat = [word a b, word c d] := by
  have ha := a.toNat_lt
  have hb := b.toNat_lt
  have hc := c.toNat_lt
  have hd := d.toNat_lt
  have hv := bytesToU32_toNat a b c d
  rw [bytesToU32_eq_iff.mpr h] at hv
  rw [words_two]
  congr 1
  · apply UInt16.toNat.inj
    rw [UInt16.toNat_ofNat', word_toNat]
    omega
  · congr 1
    apply UInt16.toNat.inj
    rw [UInt16.toNat_ofNat', word_toNat]
    omega

theorem reorderU16_eq_arrange {order : String} (h : order = "" ∨ order = "AB" ∨ order = "BA")
    (raw : UInt16) :
    ∃ r, reorderU16 raw order = .ok r ∧ arrange order [raw] = [r] := by
  rcases h with rfl | rfl | rfl
  · exact ⟨raw, rfl, rfl⟩
  · exact ⟨raw, rfl, rfl⟩
  · exact ⟨swapBytes raw, rfl, rfl⟩

/-- The orders of two registers. -/
def LongOrder (order : String) : Prop :=
  order = "ABCD" ∨ order = "CDAB" ∨ order = "BADC" ∨ order = "DCBA"

theorem beBytesToRegs_eq_arrange {order : String} (h : LongOrder order) (v : UInt32) :
    ∃ w0 w1, beBytesToRegs (u32ToBytes v) order = .ok (w0, w1) ∧
      arrange order (words 2 v.toNat) = [w0, w1] := by
  rcases hbytes : u32ToBytes v with ⟨a, b, c, d⟩
  rw [words_bytes hbytes.symm]
  rcases h with rfl | rfl | rfl | rfl
  · exact ⟨word a b, word c d, rfl, rfl⟩
  · exact ⟨word c d, word a b, rfl, rfl⟩
  · refine ⟨word b a, word d c, rfl, ?_⟩
    rw [← swapBytes_word a b, ← swapBytes_word c d]
    rfl
  · refine ⟨word d c, word b a, rfl, ?_⟩
    rw [← swapBytes_word a b, ← swapBytes_word c d]
    rfl

theorem regsToBeBytes_eq_arrange {order : String} (h : LongOrder order) (r0 r1 : UInt16) :
    ∃ bytes, regsToBeBytes r0 r1 order = .ok bytes ∧
      (bytesToU32 bytes).toNat = ofWords (arrange order [r0, r1]) := by
  -- the pattern whose registers these are
  have hlt : ofWords (arrange order [r0, r1]) < 2 ^ 32 := by
    simpa using ofWords_lt (arrange order [r0, r1])
  have hv : (UInt32.ofNat (ofWords (arrange order [r0, r1]))).toNat =
      ofWords (arrange order [r0, r1]) := by
    rw [UInt32.toNat_ofNat', Nat.mod_eq_of_lt hlt]
  obtain ⟨w0, w1, hregs, hwords⟩ :=
    beBytesToRegs_eq_arrange h (UInt32.ofNat (ofWords (arrange order [r0, r1])))
  have hback : words 2 (ofWords (arrange order [r0, r1])) = arrange order [r0, r1] := by
    simpa using words_ofWords (arrange order [r0, r1])
  rw [hv, hback, arrange_arrange] at hwords
  obtain ⟨rfl, rfl⟩ : r0 = w0 ∧ r1 = w1 := by simpa using hwords
  refine ⟨_, beBytesToRegs_eq_ok.mp hregs, ?_⟩
  rw [bytesToU32_eq_iff.mpr rfl, hv]

/-- The orders that the checks accept. -/
theorem eq_of_validByteOrder {order : String} {type : TagType}
    (h : validByteOrder order type = true) :
    order = "" ∨ LongOrder order ∨ order = "AB" ∨ order = "BA" := by
  unfold validByteOrder at h
  split_ifs at h with hempty hknown
  · exact .inl hempty
  · simp only [List.contains_eq_mem, List.mem_cons, List.not_mem_nil, or_false, Bool.not_eq_eq_eq_not,
      Bool.not_true, decide_eq_false_iff_not, not_not] at hknown
    unfold LongOrder
    tauto

theorem longOrder_of_valid {order : String} {type : TagType}
    (h : validByteOrder order type = true) (htype : registerCountFor type ≠ 1) :
    LongOrder order := by
  rcases eq_of_validByteOrder h with rfl | hlong | rfl | rfl
  · cases type <;> first | exact absurd rfl htype | cases h
  · exact hlong
  · cases type <;> first | exact absurd rfl htype | cases h
  · cases type <;> first | exact absurd rfl htype | cases h

theorem shortOrder_of_valid {order : String} {type : TagType}
    (h : validByteOrder order type = true) (htype : type = .uint16 ∨ type = .int16) :
    order = "" ∨ order = "AB" ∨ order = "BA" := by
  rcases eq_of_validByteOrder h with rfl | hlong | rfl | rfl
  · exact .inl rfl
  · rcases hlong with rfl | rfl | rfl | rfl <;> rcases htype with rfl | rfl <;> cases h
  · exact .inr (.inl rfl)
  · exact .inr (.inr rfl)

/-! ### Bit patterns -/

/-- The order that the codec looks at. -/
def appliedOrder [Platform] (tag : Tag) : String :=
  match tag.type with
  | .bool | .float64 => "ABCD"
  | _ => tag.byteOrder

/-- Registers that the type needs. -/
def width : TagType → ℕ
  | .bool | .uint16 | .int16 => 1
  | .uint32 | .int32 | .float32 => 2
  | .float64 => 4

theorem width_eq (type : TagType) : (width type : ℤ) = registerCountFor type := by
  cases type <;> rfl

section Patterns
variable [Platform]

/-- The bit pattern of a value: what encoding writes, before any order. -/
def rawBits (tag : Tag) (value : ScalarValue) : Result ℕ :=
  match tag.type with
  | .bool =>
    match value with
    | .bool b => .ok (if b then 1 else 0)
    | _ => .error (err .invalidArgument "bool expected")
  | .uint16 => do
    let raw ← invertScale (← scalarToDouble value) tag
    return (← checkedU16 raw).toNat
  | .int16 => do
    let raw ← invertScale (← scalarToDouble value) tag
    return (← checkedI16 raw).toUInt16.toNat
  | .uint32 => do
    let raw ← invertScale (← scalarToDouble value) tag
    return (← checkedU32 raw).toNat
  | .int32 => do
    let raw ← invertScale (← scalarToDouble value) tag
    return (← checkedI32 raw).toUInt32.toNat
  | .float32 => do
    let raw ← invertScale (← scalarToDouble value) tag
    if Platform.exceedsSingle raw then
      .error (err .invalidArgument "float32 value is out of range")
    else return (Platform.singleBits (Platform.narrow raw)).toNat
  | .float64 => do
    let raw ← invertScale (← scalarToDouble value) tag
    return (Platform.doubleBits raw).toNat

/-- The value of a bit pattern. -/
def reading (tag : Tag) (bits : ℕ) : Result ScalarValue :=
  match tag.type with
  | .bool => .ok (.bool (bits != 0))
  | .uint16 => do
    let scaled ← checkedU16 (applyScale (Platform.ofInt bits) tag)
    return .uint16 scaled
  | .int16 => do
    let scaled ← checkedI16 (applyScale (Platform.ofInt (UInt16.ofNat bits).toInt16.toInt) tag)
    return .int16 scaled
  | .uint32 => do
    let scaled ← checkedU32 (applyScale (Platform.ofInt bits) tag)
    return .uint32 scaled
  | .int32 => do
    let scaled ← checkedI32 (applyScale (Platform.ofInt (UInt32.ofNat bits).toInt32.toInt) tag)
    return .int32 scaled
  | .float32 =>
    let raw := Platform.singleOfBits (UInt32.ofNat bits)
    .ok (.float (Platform.narrow (applyScale (Platform.widen raw) tag)))
  | .float64 => .ok (.double (applyScale (Platform.doubleOfBits (UInt64.ofNat bits)) tag))

theorem effectiveOrder_eq {tag : Tag} (h : tag.byteOrder ≠ "") :
    effectiveOrder tag = tag.byteOrder := by
  rw [effectiveOrder, if_pos h]

/-- The order of two registers is that of the tag. -/
theorem effectiveOrder_long {tag : Tag} (hvalid : validByteOrder tag.byteOrder tag.type = true)
    (htype : registerCountFor tag.type ≠ 1) :
    effectiveOrder tag = tag.byteOrder ∧ LongOrder tag.byteOrder := by
  have hlong := longOrder_of_valid hvalid htype
  refine ⟨effectiveOrder_eq ?_, hlong⟩
  rcases hlong with h | h | h | h <;> rw [h] <;> decide

/-- That of one register is `AB` where the tag has none, which changes nothing. -/
theorem effectiveOrder_short {tag : Tag} (hvalid : validByteOrder tag.byteOrder tag.type = true)
    (htype : tag.type = .uint16 ∨ tag.type = .int16) :
    arrange (effectiveOrder tag) = arrange tag.byteOrder ∧
      (effectiveOrder tag = "" ∨ effectiveOrder tag = "AB" ∨ effectiveOrder tag = "BA") := by
  rcases shortOrder_of_valid hvalid htype with h | h | h
  · have horder : effectiveOrder tag = "AB" := by
      rw [effectiveOrder, if_neg (not_not.mpr h)]
      rcases htype with htype | htype <;> rw [htype]
    rw [horder, h]
    exact ⟨rfl, .inr (.inl rfl)⟩
  · rw [effectiveOrder_eq (by rw [h]; decide), h]
    exact ⟨rfl, .inr (.inl rfl)⟩
  · rw [effectiveOrder_eq (by rw [h]; decide), h]
    exact ⟨rfl, .inr (.inr rfl)⟩

/-- One register that is put into the order of its tag. -/
theorem reordered_eq {tag : Tag} (hvalid : validByteOrder tag.byteOrder tag.type = true)
    (htype : tag.type = .uint16 ∨ tag.type = .int16) (raw : UInt16) :
    (do return [← reorderU16 raw (effectiveOrder tag)]) =
      (.ok (arrange tag.byteOrder (words 1 raw.toNat)) : Result (List UInt16)) := by
  obtain ⟨harrange, horder⟩ := effectiveOrder_short hvalid htype
  obtain ⟨r, hr, hregs⟩ := reorderU16_eq_arrange horder raw
  rw [hr, ← harrange, words_one, UInt16.ofNat_toNat, hregs]
  rfl

/-- Two registers that are put into the order of their tag. -/
theorem ordered_eq {tag : Tag} (hvalid : validByteOrder tag.byteOrder tag.type = true)
    (htype : registerCountFor tag.type ≠ 1) (v : UInt32) :
    (do
      let (w0, w1) ← beBytesToRegs (u32ToBytes v) (effectiveOrder tag)
      return [w0, w1]) =
      (.ok (arrange tag.byteOrder (words 2 v.toNat)) : Result (List UInt16)) := by
  obtain ⟨horder, hlong⟩ := effectiveOrder_long hvalid htype
  obtain ⟨w0, w1, hw, hregs⟩ := beBytesToRegs_eq_arrange hlong v
  rw [horder, hw, hregs]
  rfl

omit [Platform] in
theorem words_doubleBits (bits : UInt64) : words 4 bits.toNat =
    [(bits >>> 48).toUInt16, (bits >>> 32).toUInt16, (bits >>> 16).toUInt16, bits.toUInt16] := by
  have hshift : ∀ k : UInt64, k.toNat < 64 →
      (bits >>> k).toUInt16 = UInt16.ofNat (bits.toNat / 2 ^ k.toNat) := by
    intro k hk
    apply UInt16.toNat.inj
    rw [UInt64.toNat_toUInt16, UInt64.toNat_shiftRight, UInt16.toNat_ofNat', Nat.mod_eq_of_lt hk,
      Nat.shiftRight_eq_div_pow]
  rw [words_four, hshift 48 (by decide), hshift 32 (by decide), hshift 16 (by decide)]
  simp only [Nat.div_div_eq_div_mul]
  rfl

/-- Encoding arranges the words of the bit pattern. -/
theorem encode_eq_arrange {tag : Tag} (hvalid : validByteOrder tag.byteOrder tag.type = true)
    (value : ScalarValue) :
    encode tag value = (do
      let bits ← rawBits tag value
      return arrange (appliedOrder tag) (words (width tag.type) bits)) := by
  unfold encode rawBits appliedOrder
  cases htype : tag.type with
  | bool =>
    cases value with
    | bool b => cases b <;> rfl
    | _ => rfl
  | uint16 =>
    simp only [bind_assoc, pure_bind]
    refine bind_congr fun eng => bind_congr fun raw => bind_congr fun checked => ?_
    exact reordered_eq hvalid (.inl htype) checked
  | int16 =>
    simp only [bind_assoc, pure_bind]
    refine bind_congr fun eng => bind_congr fun raw => bind_congr fun checked => ?_
    exact reordered_eq hvalid (.inr htype) checked.toUInt16
  | uint32 =>
    simp only [bind_assoc, pure_bind]
    refine bind_congr fun eng => bind_congr fun raw => bind_congr fun checked => ?_
    exact ordered_eq hvalid (by rw [htype]; decide) checked
  | int32 =>
    simp only [bind_assoc, pure_bind]
    refine bind_congr fun eng => bind_congr fun raw => bind_congr fun checked => ?_
    exact ordered_eq hvalid (by rw [htype]; decide) checked.toUInt32
  | float32 =>
    simp only [bind_assoc]
    refine bind_congr fun eng => bind_congr fun raw => ?_
    split_ifs
    · rfl
    · exact ordered_eq hvalid (by rw [htype]; decide) _
  | float64 =>
    simp only [bind_assoc, pure_bind]
    refine bind_congr fun eng => bind_congr fun raw => ?_
    rw [show width .float64 = 4 from rfl, words_doubleBits]
    rfl

/-- One register, arranged back. -/
theorem reorderU16_reading {tag : Tag} (hvalid : validByteOrder tag.byteOrder tag.type = true)
    (htype : tag.type = .uint16 ∨ tag.type = .int16) (r : UInt16) :
    ∃ raw, reorderU16 r (effectiveOrder tag) = .ok raw ∧
      ofWords (arrange tag.byteOrder [r]) = raw.toNat := by
  obtain ⟨harrange, horder⟩ := effectiveOrder_short hvalid htype
  obtain ⟨raw, hraw, hregs⟩ := reorderU16_eq_arrange horder r
  refine ⟨raw, hraw, ?_⟩
  rw [← harrange, hregs]
  simp [ofWords]

/-- Two registers, arranged back. -/
theorem regsToBeBytes_reading {tag : Tag} (hvalid : validByteOrder tag.byteOrder tag.type = true)
    (htype : registerCountFor tag.type ≠ 1) (r0 r1 : UInt16) :
    ∃ bytes, regsToBeBytes r0 r1 (effectiveOrder tag) = .ok bytes ∧
      ofWords (arrange tag.byteOrder [r0, r1]) = (bytesToU32 bytes).toNat := by
  obtain ⟨horder, hlong⟩ := effectiveOrder_long hvalid htype
  obtain ⟨bytes, hbytes, hbits⟩ := regsToBeBytes_eq_arrange hlong r0 r1
  rw [horder]
  exact ⟨bytes, hbytes, hbits.symm⟩

omit [Platform] in
theorem ofWords_double (r0 r1 r2 r3 : UInt16) :
    UInt64.ofNat (ofWords [r0, r1, r2, r3]) =
      ((r0.toUInt64 <<< 16 ||| r1.toUInt64) <<< 16 ||| r2.toUInt64) <<< 16 ||| r3.toUInt64 := by
  have hstep : ∀ (acc : UInt64) (r : UInt16), acc.toNat < 2 ^ 48 →
      (acc <<< 16 ||| r.toUInt64).toNat = acc.toNat * 2 ^ 16 + r.toNat := by
    intro acc r hacc
    have hr := r.toNat_lt
    rw [UInt64.toNat_or, UInt64.toNat_shiftLeft, UInt16.toNat_toUInt64,
      show (16 : UInt64).toNat % 64 = 16 from rfl,
      Nat.mod_eq_of_lt (by rw [Nat.shiftLeft_eq]; omega),
      ← Nat.shiftLeft_add_eq_or_of_lt (by omega), Nat.shiftLeft_eq]
  have h0 := r0.toNat_lt
  have h1 := r1.toNat_lt
  have h2 := r2.toNat_lt
  have h3 := r3.toNat_lt
  have hacc : r0.toUInt64.toNat = r0.toNat := UInt16.toNat_toUInt64 r0
  have hacc1 := hstep r0.toUInt64 r1 (by omega)
  have hacc2 := hstep (r0.toUInt64 <<< 16 ||| r1.toUInt64) r2 (by omega)
  have hacc3 := hstep ((r0.toUInt64 <<< 16 ||| r1.toUInt64) <<< 16 ||| r2.toUInt64) r3 (by omega)
  apply UInt64.toNat.inj
  rw [hacc3, hacc2, hacc1, hacc, UInt64.toNat_ofNat']
  simp only [ofWords, List.foldl_cons, List.foldl_nil]
  omega

/-- Decoding arranges the registers back and reads the bit pattern. -/
theorem decode_eq_arrange {tag : Tag} (hvalid : validByteOrder tag.byteOrder tag.type = true)
    {registers : List UInt16} (hsize : regsFor tag ≤ registers.length)
    (hwidth : width tag.type ≤ registers.length) :
    decode tag registers =
      reading tag (ofWords (arrange (appliedOrder tag) (registers.take (width tag.type)))) := by
  have hcount := ensureCount_eq_ok.mpr hsize
  unfold reading appliedOrder
  cases htype : tag.type with
  | bool =>
    obtain ⟨r, more, rfl⟩ := List.exists_cons_of_length_pos (by rwa [htype] at hwidth)
    have hzero : (r != 0) = (0 * 2 ^ 16 + r.toNat != 0) := by
      rw [Bool.eq_iff_iff]
      simp [← UInt16.toNat_inj]
    rw [decode_bool_eq htype hcount, hzero]
    rfl
  | uint16 =>
    obtain ⟨r, more, rfl⟩ := List.exists_cons_of_length_pos (by rwa [htype] at hwidth)
    obtain ⟨raw, hraw, hbits⟩ := reorderU16_reading hvalid (.inl htype) r
    rw [decode_uint16_eq htype hcount, hraw, show (r :: more).take (width .uint16) = [r] from rfl]
    simp only [ok_bind, hbits]
  | int16 =>
    obtain ⟨r, more, rfl⟩ := List.exists_cons_of_length_pos (by rwa [htype] at hwidth)
    obtain ⟨raw, hraw, hbits⟩ := reorderU16_reading hvalid (.inr htype) r
    rw [decode_int16_eq htype hcount, hraw, show (r :: more).take (width .int16) = [r] from rfl]
    simp only [ok_bind, hbits, UInt16.ofNat_toNat]
  | uint32 =>
    match registers, (by rwa [htype] at hwidth : 2 ≤ registers.length) with
    | r0 :: r1 :: more, _ =>
      obtain ⟨bytes, hbytes, hbits⟩ := regsToBeBytes_reading hvalid (by rw [htype]; decide) r0 r1
      rw [decode_uint32_eq htype hcount, hbytes,
        show (r0 :: r1 :: more).take (width .uint32) = [r0, r1] from rfl]
      simp only [ok_bind, hbits]
  | int32 =>
    match registers, (by rwa [htype] at hwidth : 2 ≤ registers.length) with
    | r0 :: r1 :: more, _ =>
      obtain ⟨bytes, hbytes, hbits⟩ := regsToBeBytes_reading hvalid (by rw [htype]; decide) r0 r1
      rw [decode_int32_eq htype hcount, hbytes,
        show (r0 :: r1 :: more).take (width .int32) = [r0, r1] from rfl]
      simp only [ok_bind, hbits, UInt32.ofNat_toNat]
  | float32 =>
    match registers, (by rwa [htype] at hwidth : 2 ≤ registers.length) with
    | r0 :: r1 :: more, _ =>
      obtain ⟨bytes, hbytes, hbits⟩ := regsToBeBytes_reading hvalid (by rw [htype]; decide) r0 r1
      rw [decode_float32_eq htype hcount, hbytes,
        show (r0 :: r1 :: more).take (width .float32) = [r0, r1] from rfl]
      simp only [ok_bind, hbits, UInt32.ofNat_toNat]
      rfl
  | float64 =>
    match registers, (by rwa [htype] at hwidth : 4 ≤ registers.length) with
    | r0 :: r1 :: r2 :: r3 :: more, _ =>
      rw [decode_float64_eq htype hcount, ← ofWords_double]
      rfl

theorem validByteOrder_of_noErrors {path : String} {tag : Tag} (h : NoErrors (validateTag path tag)) :
    validByteOrder tag.byteOrder tag.type = true := by
  simp only [validateTag, noErrors_append, noErrors_check] at h
  simpa using h.1.1.2

theorem appliedOrder_of_long {tag : Tag} (h : registerCountFor tag.type ≠ 1) :
    appliedOrder tag = if tag.type = .float64 then "ABCD" else tag.byteOrder := by
  unfold appliedOrder
  cases htype : tag.type <;> simp_all [registerCountFor]

theorem encode_of_rawBits (tag : Tag) (hvalid : validByteOrder tag.byteOrder tag.type = true)
    (hlong : registerCountFor tag.type ≠ 1) {value : ScalarValue} {bits : ℕ}
    (h : rawBits tag value = .ok bits) :
    encode tag value = .ok (arrange (if tag.type = .float64 then "ABCD" else tag.byteOrder)
      (words (width tag.type) bits)) := by
  rw [encode_eq_arrange hvalid, h, appliedOrder_of_long hlong]
  rfl

/-- The order of the tag is looked at, or leaves some registers as they are. -/
def OrderKept (tag : Tag) (ws : List UInt16) : Prop :=
  tag.type ≠ .float64 ∨ arrange tag.byteOrder ws = ws

/-- No two bit patterns of the type read alike. -/
def PatternsDistinct (tag : Tag) : Prop :=
  ∀ a b, a < 2 ^ (16 * width tag.type) → b < 2 ^ (16 * width tag.type) →
    reading tag a = reading tag b → a = b

/-- What the codec does with an order is what the order says where the order is kept. -/
theorem arrange_applied_iff (tag : Tag) (ws : List UInt16) :
    arrange (if tag.type = .float64 then "ABCD" else tag.byteOrder) ws = arrange tag.byteOrder ws ↔
      OrderKept tag ws := by
  unfold OrderKept
  by_cases htype : tag.type = .float64
  · rw [if_pos htype, show arrange "ABCD" ws = ws from rfl]
    simp [htype, eq_comm]
  · simp [htype]

omit [Platform] in
theorem ofWords_inj {ws vs : List UInt16} (hlen : ws.length = vs.length)
    (h : ofWords ws = ofWords vs) : ws = vs := by
  rw [← words_ofWords ws, ← words_ofWords vs, hlen, h]

/-- Of a tag of several registers that passes its checks: encoding arranges the words of a
bit pattern by the order of the tag, and decoding arranges them back, exactly if the tag is
no `float64` or its order leaves the words as they are. Of two orders that arrange a pattern
differently the registers differ, except for a `float64`. -/
theorem byte_order_applied {path : String} {tag : Tag} (htag : NoErrors (validateTag path tag))
    (hlong : registerCountFor tag.type ≠ 1) :
    (∀ value bits, rawBits tag value = .ok bits →
      (encode tag value = .ok (arrange tag.byteOrder (words (width tag.type) bits)) ↔
        OrderKept tag (words (width tag.type) bits))) ∧
    (∀ registers : List UInt16, regsFor tag ≤ registers.length →
      width tag.type ≤ registers.length →
      let ws := registers.take (width tag.type)
      (OrderKept tag ws → decode tag registers = reading tag (ofWords (arrange tag.byteOrder ws))) ∧
      (PatternsDistinct tag →
        decode tag registers = reading tag (ofWords (arrange tag.byteOrder ws)) →
        OrderKept tag ws)) ∧
    ∀ order, validByteOrder order tag.type = true → ∀ value bits, rawBits tag value = .ok bits →
      (encode { tag with byteOrder := order } value = encode tag value ↔
        tag.type = .float64 ∨ arrange order (words (width tag.type) bits) =
          arrange tag.byteOrder (words (width tag.type) bits)) := by
  have hvalid := validByteOrder_of_noErrors htag
  have happlied := appliedOrder_of_long hlong
  refine ⟨fun value bits hbits => ?_, fun registers hsize hwidth => ?_,
    fun order horder value bits hbits => ?_⟩
  · rw [encode_of_rawBits tag hvalid hlong hbits, Except.ok.injEq, arrange_applied_iff]
  · have hdecode := decode_eq_arrange hvalid hsize hwidth
    rw [happlied] at hdecode
    refine ⟨fun hkept => ?_, fun hdistinct heq => ?_⟩
    · rw [hdecode, (arrange_applied_iff tag _).mpr hkept]
    · -- both readings are of patterns of the type, so these are the same
      have hlt : ∀ order, ofWords (arrange order (registers.take (width tag.type))) <
          2 ^ (16 * width tag.type) := by
        intro order
        have hbound := ofWords_lt (arrange order (registers.take (width tag.type)))
        rwa [length_arrange, List.length_take, Nat.min_eq_left hwidth] at hbound
      rw [hdecode] at heq
      exact (arrange_applied_iff tag _).mp
        (ofWords_inj (by simp) (hdistinct _ _ (hlt _) (hlt _) heq))
  · have hother : encode { tag with byteOrder := order } value =
        .ok (arrange (if tag.type = .float64 then "ABCD" else order)
          (words (width tag.type) bits)) :=
      encode_of_rawBits { tag with byteOrder := order } horder hlong hbits
    rw [hother, encode_of_rawBits tag hvalid hlong hbits, Except.ok.injEq]
    by_cases htype : tag.type = .float64
    · simp [htype]
    · simp [htype]

end Patterns

section Reversed
variable [Platform]

/-- A tag with its registers reversed. -/
def reversedTag (type : TagType) : Tag := { name := "flow", type := type, byteOrder := "CDAB" }

theorem reversedTag_checked {type : TagType} (h : registerCountFor type ≠ 1) :
    NoErrors (validateTag "" (reversedTag type)) := by
  have horder : validByteOrder "CDAB" type = true := by
    cases type <;> first | rfl | exact absurd rfl h
  simp only [validateTag, noErrors_append, noErrors_check, reversedTag, horder]
  exact ⟨⟨⟨rfl, rfl⟩, rfl⟩, rfl⟩

end Reversed

section Exact
attribute [local instance] exactPlatform

/-- The order of a `float64` is accepted but not applied. -/
theorem float64_order_ignored :
    NoErrors (validateTag "" (reversedTag .float64)) ∧
      rawBits (reversedTag .float64) (.double (1 : ℚ)) = .ok 0x3FF0000000000000 ∧
      encode (reversedTag .float64) (.double (1 : ℚ)) = .ok [0x3FF0, 0, 0, 0] ∧
      arrange "CDAB" (words 4 0x3FF0000000000000) = [0, 0, 0, 0x3FF0] :=
  ⟨reversedTag_checked (by decide), by decide +kernel, by decide +kernel, by decide +kernel⟩

end Exact

section Patterns

/-- Floats that are no more than their bit patterns, with a scale of 1 and an offset of 0. -/
@[reducible] def patternPlatform : Platform where
  Double := UInt64
  Single := UInt32
  decEqDouble := inferInstance
  decEqSingle := inferInstance
  ofInt n := UInt64.ofInt n
  add a _ := a
  sub a _ := a
  mul a _ := a
  div a _ := a
  isFinite _ := true
  isZero a := a == 0
  round a := a.toNat
  exceedsSingle _ := false
  narrow := UInt64.toUInt32
  widen := UInt32.toUInt64
  singleBits := id
  singleOfBits := id
  doubleBits := id
  doubleOfBits := id
  outside _ := 0

attribute [local instance] patternPlatform

theorem patternsDistinct : PatternsDistinct (reversedTag .float64) := by
  intro a b ha hb h
  change a < 2 ^ 64 at ha
  change b < 2 ^ 64 at hb
  have hdouble : UInt64.ofNat a = UInt64.ofNat b := ScalarValue.double.inj (Except.ok.inj h)
  have hnat := congrArg UInt64.toNat hdouble
  rwa [UInt64.toNat_ofNat', UInt64.toNat_ofNat', Nat.mod_eq_of_lt ha, Nat.mod_eq_of_lt hb] at hnat

/-- The order of an integer is applied in both directions, and that of a `float64` in
neither. -/
theorem uint32_order_applied :
    encode (reversedTag .uint32) (.uint32 0x12345678) = .ok [0x5678, 0x1234] ∧
      decode (reversedTag .uint32) [0x5678, 0x1234] =
        reading (reversedTag .uint32) (ofWords [0x1234, 0x5678]) ∧
      decode (reversedTag .float64) [0, 0, 0, 0x3FF0] ≠
        reading (reversedTag .float64) (ofWords [0x3FF0, 0, 0, 0]) := by
  have hlong := byte_order_applied (reversedTag_checked (by decide : registerCountFor .uint32 ≠ 1))
    (by decide)
  have hdouble := byte_order_applied (reversedTag_checked (by decide : registerCountFor .float64 ≠ 1))
    (by decide)
  have hkept : ∀ ws, OrderKept (reversedTag .uint32) ws := fun ws => .inl (by decide)
  have hbits : rawBits (reversedTag .uint32) (.uint32 0x12345678) = .ok 0x12345678 := by
    decide +kernel
  refine ⟨(hlong.1 _ _ hbits).mpr (hkept _),
    (hlong.2.1 [0x5678, 0x1234] (by decide) (by decide)).1 (hkept _), fun h => ?_⟩
  rcases (hdouble.2.1 [0, 0, 0, 0x3FF0] (by decide) (by decide)).2 patternsDistinct h with h | h
  · exact h rfl
  · revert h
    decide

end Patterns

end OpcServer.Core.Translator
