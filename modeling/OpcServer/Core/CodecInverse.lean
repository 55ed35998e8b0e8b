import Mathlib.Algebra.Order.Round
import OpcServer.Core.ByteOrders

/-! Encoding and decoding undo each other. Without scaling they are inverse on all values
and all registers; with scaling, over exact rationals, a value is written exactly if the
rounded raw value fits, and is read back if the scale is smaller than one. -/

namespace OpcServer.Domain

/-! ### Rounding -/

theorem roundHalfAway_of_nonneg {q : ℚ} (h : 0 ≤ q) : roundHalfAway q = round q := by
  rw [roundHalfAway, if_pos h, round_eq]

theorem roundHalfAway_of_neg {q : ℚ} (h : q < 0) : roundHalfAway q = -round (-q) := by
  rw [roundHalfAway, if_neg (not_le.mpr h), round_eq]

theorem abs_sub_roundHalfAway (q : ℚ) : |q - roundHalfAway q| ≤ 1 / 2 := by
  rcases le_or_gt 0 q with h | h
  · rw [roundHalfAway_of_nonneg h]
    exact abs_sub_round q
  · have hround := abs_sub_round (-q)
    rw [roundHalfAway_of_neg h, ← abs_neg]
    push_cast
    rwa [show -(q - -(round (-q) : ℚ)) = -q - round (-q) by ring]

/-- A rational near an integer is rounded to it. -/
theorem roundHalfAway_eq {q : ℚ} {n : ℤ} (h : |q - n| < 1 / 2) : roundHalfAway q = n := by
  have hle := abs_sub_roundHalfAway q
  rw [abs_lt] at h
  rw [abs_le] at hle
  have hlt : (roundHalfAway q : ℚ) < (n + 1 : ℤ) := by push_cast; linarith
  have hgt : ((n - 1 : ℤ) : ℚ) < roundHalfAway q := by push_cast; linarith
  have h1 := Int.cast_lt.mp hlt
  have h2 := Int.cast_lt.mp hgt
  omega

end OpcServer.Domain

namespace OpcServer.Core.Translator

open Domain Project Words

/-! ### Integer types -/

def Integral (type : TagType) : Prop :=
  type = .uint16 ∨ type = .int16 ∨ type = .uint32 ∨ type = .int32

def lowest : TagType → ℤ
  | .int16 => -32768
  | .int32 => -2147483648
  | _ => 0

def highest : TagType → ℤ
  | .uint16 => 65535
  | .int16 => 32767
  | .uint32 => 4294967295
  | .int32 => 2147483647
  | _ => 0

/-- The integers of a type. -/
def InRange (type : TagType) (n : ℤ) : Prop := lowest type ≤ n ∧ n ≤ highest type

instance (type : TagType) (n : ℤ) : Decidable (InRange type n) :=
  inferInstanceAs (Decidable (_ ∧ _))

/-- The bit pattern of an integer, in two's complement. -/
def pattern (type : TagType) (n : ℤ) : ℕ := (n % 2 ^ (16 * width type)).toNat

/-- The integer of a bit pattern. -/
def integerOf (type : TagType) (bits : ℕ) : ℤ :=
  if (bits : ℤ) ≤ highest type then bits else bits - 2 ^ (16 * width type)

theorem pattern_lt (type : TagType) (n : ℤ) : pattern type n < 2 ^ (16 * width type) := by
  have hpos : (0 : ℤ) < 2 ^ (16 * width type) := by positivity
  have hlt := Int.emod_lt_of_pos n hpos
  have hnonneg := Int.emod_nonneg n hpos.ne'
  rw [pattern, Int.toNat_lt hnonneg]
  exact_mod_cast hlt

theorem integerOf_pattern {type : TagType} (htype : Integral type) {n : ℤ} (h : InRange type n) :
    integerOf type (pattern type n) = n := by
  unfold InRange at h
  unfold integerOf pattern
  rcases htype with rfl | rfl | rfl | rfl <;>
    simp only [lowest, highest, width] at h ⊢ <;> split_ifs <;> omega

theorem inRange_integerOf {type : TagType} (htype : Integral type) {bits : ℕ}
    (h : bits < 2 ^ (16 * width type)) : InRange type (integerOf type bits) := by
  unfold InRange integerOf
  rcases htype with rfl | rfl | rfl | rfl <;>
    simp only [lowest, highest, width] at h ⊢ <;> split_ifs <;> omega

theorem pattern_integerOf {type : TagType} {bits : ℕ} (h : bits < 2 ^ (16 * width type)) :
    pattern type (integerOf type bits) = bits := by
  have hcast : (bits : ℤ) < 2 ^ (16 * width type) := by exact_mod_cast h
  unfold pattern integerOf
  split_ifs
  · rw [Int.emod_eq_of_lt (by omega) hcast, Int.toNat_natCast]
  · rw [Int.sub_emod_right, Int.emod_eq_of_lt (by omega) hcast, Int.toNat_natCast]

section Integers
variable [Platform]

/-- The value of a type that holds an integer. -/
def scalarOf (type : TagType) (n : ℤ) : ScalarValue :=
  match type with
  | .uint16 => .uint16 (UInt16.ofInt n)
  | .int16 => .int16 (Int16.ofInt n)
  | .uint32 => .uint32 (UInt32.ofInt n)
  | .int32 => .int32 (Int32.ofInt n)
  | _ => .monostate

theorem scalarToDouble_scalarOf {type : TagType} (htype : Integral type) {n : ℤ}
    (h : InRange type n) : scalarToDouble (scalarOf type n) = .ok (Platform.ofInt n) := by
  unfold InRange at h
  rcases htype with rfl | rfl | rfl | rfl <;> simp only [lowest, highest] at h
  · have hn : ((UInt16.ofInt n).toNat : ℤ) = n := by
      rw [UInt16.ofInt, UInt16.toNat_ofNat']
      omega
    rw [scalarOf, scalarToDouble, hn]
  · have hn : (Int16.ofInt n).toInt = n := Int16.toInt_ofInt_of_le (by omega) (by omega)
    rw [scalarOf, scalarToDouble, hn]
  · have hn : ((UInt32.ofInt n).toNat : ℤ) = n := by
      rw [UInt32.ofInt, UInt32.toNat_ofNat']
      omega
    rw [scalarOf, scalarToDouble, hn]
  · have hn : (Int32.ofInt n).toInt = n := Int32.toInt_ofInt_of_le (by omega) (by omega)
    rw [scalarOf, scalarToDouble, hn]

/-- The values of an integer type are its integers. -/
theorem ownType_iff {type : TagType} (htype : Integral type) {value : ScalarValue} :
    OwnType type value ↔ ∃ n, InRange type n ∧ value = scalarOf type n := by
  unfold InRange
  constructor
  · intro hown
    rcases htype with rfl | rfl | rfl | rfl
    · cases value with
      | uint16 v =>
        have h := v.toNat_lt
        have hv : UInt16.ofInt v.toNat = v := by
          apply UInt16.toNat.inj
          rw [toNat_ofInt (by omega) (by omega), Int.toNat_natCast]
        refine ⟨v.toNat, ?_, by rw [scalarOf, hv]⟩
        simp only [lowest, highest]
        omega
      | _ => cases hown
    · cases value with
      | int16 v =>
        have hlow := v.le_toInt
        have hhigh := v.toInt_lt
        refine ⟨v.toInt, ?_, by rw [scalarOf, Int16.ofInt_toInt]⟩
        simp only [lowest, highest]
        omega
      | _ => cases hown
    · cases value with
      | uint32 v =>
        have h := v.toNat_lt
        have hv : UInt32.ofInt v.toNat = v := by
          apply UInt32.toNat.inj
          rw [UInt32.ofInt, UInt32.toNat_ofNat']
          omega
        refine ⟨v.toNat, ?_, by rw [scalarOf, hv]⟩
        simp only [lowest, highest]
        omega
      | _ => cases hown
    · cases value with
      | int32 v =>
        have hlow := v.le_toInt
        have hhigh := v.toInt_lt
        refine ⟨v.toInt, ?_, by rw [scalarOf, Int32.ofInt_toInt]⟩
        simp only [lowest, highest]
        omega
      | _ => cases hown
  · rintro ⟨n, -, rfl⟩
    rcases htype with rfl | rfl | rfl | rfl <;> trivial

omit [Platform] in
/-- What is cast after the check and what is made of the cast are one step. -/
theorem map_bind_pure {α β γ : Type} (x : Result α) {f : α → β} {g : β → γ} {h : α → γ}
    (heq : ∀ a, g (f a) = h a) :
    (x.map f >>= fun b => pure (g b)) = x >>= fun a => pure (h a) := by
  cases x with
  | error e => rfl
  | ok a => exact congrArg Except.ok (heq a)

/-- The bit pattern of an integer tag is that of the rounded raw value, if it fits. -/
theorem rawBits_integral {tag : Tag} (htype : Integral tag.type) (value : ScalarValue) :
    rawBits tag value = (do
      let raw ← invertScale (← scalarToDouble value) tag
      let n ← checkedIntegral (lowest tag.type) (highest tag.type) raw
      return pattern tag.type n) := by
  unfold rawBits
  rcases htype with htype | htype | htype | htype
  · simp only [htype]
    refine bind_congr fun eng => bind_congr fun raw => map_bind_pure _ fun n => ?_
    rw [UInt16.ofInt, UInt16.toNat_ofNat']
    simp only [pattern, width]
    omega
  · simp only [htype]
    exact bind_congr fun eng => bind_congr fun raw => map_bind_pure _ BitVec.toNat_ofInt
  · simp only [htype]
    refine bind_congr fun eng => bind_congr fun raw => map_bind_pure _ fun n => ?_
    rw [UInt32.ofInt, UInt32.toNat_ofNat']
    simp only [pattern, width]
    omega
  · simp only [htype]
    exact bind_congr fun eng => bind_congr fun raw => map_bind_pure _ BitVec.toNat_ofInt

omit [Platform] in
theorem integerOf_unsigned {type : TagType} (htype : type = .uint16 ∨ type = .uint32) {bits : ℕ}
    (h : bits < 2 ^ (16 * width type)) : integerOf type bits = bits := by
  rcases htype with rfl | rfl <;> simp only [width] at h <;>
    exact if_pos (by simp only [highest]; omega)

omit [Platform] in
theorem integerOf_int16 {bits : ℕ} (h : bits < 2 ^ 16) :
    integerOf .int16 bits = (UInt16.ofNat bits).toInt16.toInt := by
  rw [UInt16.toInt16_ofNat', Int16.toInt_ofNat', Int.bmod_def]
  simp only [integerOf, highest, width, Int16.size]
  split_ifs <;> omega

omit [Platform] in
theorem integerOf_int32 {bits : ℕ} (h : bits < 2 ^ 32) :
    integerOf .int32 bits = (UInt32.ofNat bits).toInt32.toInt := by
  rw [UInt32.toInt32_ofNat', Int32.toInt_ofNat', Int.bmod_def]
  simp only [integerOf, highest, width, Int32.size]
  split_ifs <;> omega

/-- The value of an integer tag is the rounded scaled integer, if it fits. -/
theorem reading_integral {tag : Tag} (htype : Integral tag.type) {bits : ℕ}
    (h : bits < 2 ^ (16 * width tag.type)) :
    reading tag bits = (do
      let n ← checkedIntegral (lowest tag.type) (highest tag.type)
        (applyScale (Platform.ofInt (integerOf tag.type bits)) tag)
      return scalarOf tag.type n) := by
  unfold reading
  rcases htype with htype | htype | htype | htype
  · rw [htype] at h ⊢
    rw [integerOf_unsigned (.inl rfl) h]
    exact map_bind_pure _ fun n => rfl
  · rw [htype] at h ⊢
    rw [integerOf_int16 h]
    exact map_bind_pure _ fun n => rfl
  · rw [htype] at h ⊢
    rw [integerOf_unsigned (.inr rfl) h]
    exact map_bind_pure _ fun n => rfl
  · rw [htype] at h ⊢
    rw [integerOf_int32 h]
    exact map_bind_pure _ fun n => rfl

end Integers

section Inverse
variable [Platform] {tag : Tag}

/-- Without a quantity, decoding reads the pattern that as many registers hold as the type
needs. -/
theorem decode_registers (hvalid : validByteOrder tag.byteOrder tag.type = true)
    (hquantity : tag.quantity = none) {regs : List UInt16} (hlen : regs.length = width tag.type) :
    decode tag regs = reading tag (ofWords (arrange (appliedOrder tag) regs)) := by
  have hsize : regsFor tag ≤ regs.length := by
    rw [regsFor, hquantity, hlen, width_eq]
  rw [decode_eq_arrange hvalid hsize hlen.ge, ← hlen, List.take_length]

/-- The registers of a pattern are read back as it. -/
theorem decode_arranged (hvalid : validByteOrder tag.byteOrder tag.type = true)
    (hquantity : tag.quantity = none) {bits : ℕ} (h : bits < 2 ^ (16 * width tag.type)) :
    decode tag (arrange (appliedOrder tag) (words (width tag.type) bits)) = reading tag bits := by
  rw [decode_registers hvalid hquantity (by simp), arrange_arrange, ofWords_words_of_lt h]

omit [Platform] in
theorem abs_lt_of_inRange {type : TagType} {n : ℤ} (h : InRange type n) : |n| < 2 ^ 53 := by
  unfold InRange at h
  rw [abs_lt]
  cases type <;> simp only [lowest, highest] at h <;> omega

section Unscaled
variable (hexact : ExactIntegers) (htag : Unscaled tag)
include hexact htag

theorem rawBits_scalarOf (htype : Integral tag.type) {n : ℤ} (h : InRange tag.type n) :
    rawBits tag (scalarOf tag.type n) = .ok (pattern tag.type n) := by
  have hn := abs_lt_of_inRange h
  rw [rawBits_integral htype, scalarToDouble_scalarOf htype h, ok_bind,
    invertScale_int hexact htag hn, ok_bind, checkedIntegral_int hexact hn h.1 h.2]
  rfl

theorem reading_integerOf (htype : Integral tag.type) {bits : ℕ}
    (h : bits < 2 ^ (16 * width tag.type)) :
    reading tag bits = .ok (scalarOf tag.type (integerOf tag.type bits)) := by
  have hrange := inRange_integerOf htype h
  have hn := abs_lt_of_inRange hrange
  rw [reading_integral htype h, applyScale_int hexact htag hn,
    checkedIntegral_int hexact hn hrange.1 hrange.2]
  rfl

/-- Every value of the type has a pattern that is read as it. -/
theorem reading_rawBits (htype : tag.type = .bool ∨ Integral tag.type) {value : ScalarValue}
    (hown : OwnType tag.type value) :
    ∃ bits < 2 ^ (16 * width tag.type), rawBits tag value = .ok bits ∧
      reading tag bits = .ok value := by
  rcases htype with htype | htype
  · unfold rawBits reading
    rw [htype] at hown ⊢
    cases value with
    | bool b => cases b <;> exact ⟨_, by decide, rfl, rfl⟩
    | _ => cases hown
  · obtain ⟨n, hn, rfl⟩ := (ownType_iff htype).mp hown
    refine ⟨pattern tag.type n, pattern_lt tag.type n, rawBits_scalarOf hexact htag htype hn, ?_⟩
    rw [reading_integerOf hexact htag htype (pattern_lt tag.type n), integerOf_pattern htype hn]

/-- Every pattern is that of the value read from it; of a Boolean zero and one. -/
theorem rawBits_reading (htype : tag.type = .bool ∨ Integral tag.type) {bits : ℕ}
    (h : bits < 2 ^ (16 * width tag.type)) (hbool : tag.type = .bool → bits < 2) :
    ∃ value, OwnType tag.type value ∧ reading tag bits = .ok value ∧
      rawBits tag value = .ok bits := by
  rcases htype with htype | htype
  · have hbit := hbool htype
    unfold rawBits reading
    rw [htype]
    obtain rfl | rfl : bits = 0 ∨ bits = 1 := by omega
    · exact ⟨.bool false, trivial, rfl, rfl⟩
    · exact ⟨.bool true, trivial, rfl, rfl⟩
  · have hrange := inRange_integerOf htype h
    refine ⟨_, (ownType_iff htype).mpr ⟨_, hrange, rfl⟩, reading_integerOf hexact htag htype h, ?_⟩
    rw [rawBits_scalarOf hexact htag htype hrange, pattern_integerOf h]

/-- Without scaling and quantity, encoding and decoding of Booleans and integers are
inverse: on the values of the type of the tag, and on the registers it needs. -/
theorem encode_decode_inverse (hquantity : tag.quantity = none)
    (hvalid : validByteOrder tag.byteOrder tag.type = true)
    (htype : tag.type = .bool ∨ Integral tag.type) :
    (∀ value, OwnType tag.type value → ∃ regs, encode tag value = .ok regs ∧
      (regs.length : ℤ) = registerCountFor tag.type ∧ decode tag regs = .ok value) ∧
    ∀ regs : List UInt16, (regs.length : ℤ) = registerCountFor tag.type →
      (tag.type = .bool → ∀ r ∈ regs, r = 0 ∨ r = 1) →
      ∃ value, OwnType tag.type value ∧ decode tag regs = .ok value ∧
        encode tag value = .ok regs := by
  constructor
  · intro value hown
    obtain ⟨bits, hlt, hraw, hread⟩ := reading_rawBits hexact htag htype hown
    refine ⟨arrange (appliedOrder tag) (words (width tag.type) bits), ?_, ?_, ?_⟩
    · rw [encode_eq_arrange hvalid, hraw]
      rfl
    · rw [length_arrange, length_words, width_eq]
    · rw [decode_arranged hvalid hquantity hlt, hread]
  · intro regs hlen hbool
    have hwidth : regs.length = width tag.type := by
      rw [← width_eq] at hlen
      exact_mod_cast hlen
    have hlt : ofWords (arrange (appliedOrder tag) regs) < 2 ^ (16 * width tag.type) := by
      simpa [hwidth] using ofWords_lt (arrange (appliedOrder tag) regs)
    have hbit : tag.type = .bool → ofWords (arrange (appliedOrder tag) regs) < 2 := by
      intro htype
      rw [htype] at hwidth
      obtain ⟨r, rfl⟩ := List.length_eq_one_iff.mp hwidth
      have horder : appliedOrder tag = "ABCD" := by rw [appliedOrder, htype]
      rw [horder]
      rcases hbool htype r (List.mem_singleton_self r) with rfl | rfl <;> decide
    obtain ⟨value, hown, hread, hraw⟩ := rawBits_reading hexact htag htype hlt hbit
    refine ⟨value, hown, ?_, ?_⟩
    · rw [decode_registers hvalid hquantity hwidth, hread]
    · have hwords : words (width tag.type) (ofWords (arrange (appliedOrder tag) regs)) =
          arrange (appliedOrder tag) regs := by
        simpa [hwidth] using words_ofWords (arrange (appliedOrder tag) regs)
      rw [encode_eq_arrange hvalid, hraw, ok_bind, hwords, arrange_arrange]
      rfl

end Unscaled

end Inverse

attribute [local instance] exactPlatform

/-- A negative integer in reversed registers, and registers that hold one. -/
theorem int32_inverse :
    (∃ regs, encode (reversedTag .int32) (.int32 (-2)) = .ok regs ∧ (regs.length : ℤ) = 2 ∧
      decode (reversedTag .int32) regs = .ok (.int32 (-2))) ∧
    ∃ value, OwnType .int32 value ∧ decode (reversedTag .int32) [0xFFFE, 0xFFFF] = .ok value ∧
      encode (reversedTag .int32) value = .ok [0xFFFE, 0xFFFF] := by
  have htag : Unscaled (reversedTag .int32) := ⟨rfl, rfl⟩
  obtain ⟨hvalues, hregs⟩ := encode_decode_inverse exactPlatform_exactIntegers htag rfl rfl
    (.inr (.inr (.inr (.inr rfl))))
  exact ⟨hvalues (.int32 (-2)) trivial, hregs [0xFFFE, 0xFFFF] rfl (fun h => nomatch h)⟩

/-! ### With scaling, over exact rationals -/

section Scaled

theorem checkedIntegral_exact (type : TagType) (q : ℚ) :
    checkedIntegral (lowest type) (highest type) q =
      if InRange type (roundHalfAway q) then .ok (roundHalfAway q)
      else .error (err .invalidArgument "integer value is out of range") := by
  show (if roundHalfAway q < lowest type ∨ roundHalfAway q > highest type then _ else _) = _
  by_cases h : InRange type (roundHalfAway q)
  · rw [if_pos h, if_neg (by unfold InRange at h; omega)]
    rfl
  · rw [if_neg h, if_pos (by unfold InRange at h; omega)]

variable {tag : Tag} {s o : ℚ} (hscale : tag.scale = s) (hoffset : tag.offset = o)

include hscale hoffset in
theorem invertScale_exact (hne : s ≠ 0) (eng : ℚ) :
    invertScale eng tag = .ok ((eng - o) / s) := by
  subst hscale hoffset
  show (if decide (tag.scale = (0 : ℚ)) = true then _ else _) = _
  rw [if_neg (by simpa using hne)]
  rfl

/-- The integer that is written for an engineering value. -/
def rawInteger (s o : ℚ) (v : ℤ) : ℤ := roundHalfAway ((v - o) / s)

include hscale hoffset in
theorem rawBits_exact (htype : Integral tag.type) (hne : s ≠ 0) {v : ℤ}
    (hv : InRange tag.type v) :
    rawBits tag (scalarOf tag.type v) =
      if InRange tag.type (rawInteger s o v) then .ok (pattern tag.type (rawInteger s o v))
      else .error (err .invalidArgument "integer value is out of range") := by
  rw [rawBits_integral htype, scalarToDouble_scalarOf htype hv, ok_bind,
    show (Platform.ofInt v : Double) = (v : ℚ) from rfl, invertScale_exact hscale hoffset hne,
    ok_bind, checkedIntegral_exact]
  unfold rawInteger
  split_ifs
  · rfl
  · rfl

/-- Scaled back, the written integer is off by at most half a scale. -/
theorem abs_rawInteger_mul_sub (hne : s ≠ 0) (v : ℤ) :
    |rawInteger s o v * s + o - v| ≤ |s| / 2 := by
  have hround := abs_sub_roundHalfAway ((v - o) / s)
  have heq : rawInteger s o v * s + o - v = -(((v - o) / s - rawInteger s o v) * s) := by
    field_simp
    ring
  rw [heq, abs_neg, abs_mul]
  calc |(v - o) / s - rawInteger s o v| * |s|
      ≤ 1 / 2 * |s| := mul_le_mul_of_nonneg_right hround (abs_nonneg s)
    _ = |s| / 2 := by ring

include hscale hoffset in
theorem reading_exact (htype : Integral tag.type) (hne : s ≠ 0) (hsmall : |s| < 1) {v : ℤ}
    (hv : InRange tag.type v) (hraw : InRange tag.type (rawInteger s o v)) :
    reading tag (pattern tag.type (rawInteger s o v)) = .ok (scalarOf tag.type v) := by
  have hround : roundHalfAway (rawInteger s o v * s + o) = v := by
    apply roundHalfAway_eq
    have hle : |rawInteger s o v * s + o - v| ≤ |s| / 2 := abs_rawInteger_mul_sub hne v
    linarith
  have happly : applyScale (Platform.ofInt (rawInteger s o v)) tag =
      (rawInteger s o v * s + o : ℚ) := by
    rw [applyScale, hscale, hoffset]
    rfl
  rw [reading_integral htype (pattern_lt _ _), integerOf_pattern htype hraw, happly,
    checkedIntegral_exact, hround, if_pos hv]
  rfl

include hscale hoffset in
/-- A value of an integer tag is written exactly if the rounded raw value fits, and then in
the order of the tag; with a scale smaller than one it is read back. -/
theorem scaled_write_reads_back (htype : Integral tag.type) (hquantity : tag.quantity = none)
    (hvalid : validByteOrder tag.byteOrder tag.type = true) (hne : s ≠ 0)
    {value : ScalarValue} {v : ℤ} (hv : InRange tag.type v) (hvalue : value = scalarOf tag.type v) :
    ((∃ regs, encode tag value = .ok regs) ↔
      InRange tag.type (roundHalfAway ((v - o) / s))) ∧
    ∀ regs, encode tag value = .ok regs →
      regs = arrange tag.byteOrder
        (words (width tag.type) (pattern tag.type (roundHalfAway ((v - o) / s)))) ∧
      (|s| < 1 → decode tag regs = .ok value) := by
  subst hvalue
  rw [show roundHalfAway ((v - o) / s) = rawInteger s o v from rfl]
  have horder : appliedOrder tag = tag.byteOrder := by
    unfold appliedOrder
    rcases htype with h | h | h | h <;> rw [h]
  have hencode := encode_eq_arrange hvalid (scalarOf tag.type v)
  rw [rawBits_exact hscale hoffset htype hne hv, horder] at hencode
  by_cases hraw : InRange tag.type (rawInteger s o v)
  · rw [if_pos hraw, ok_bind] at hencode
    rw [hencode]
    refine ⟨⟨fun _ => hraw, fun _ => ⟨_, rfl⟩⟩, ?_⟩
    rintro regs ⟨⟩
    refine ⟨rfl, fun hsmall => ?_⟩
    rw [← horder, decode_arranged hvalid hquantity (pattern_lt _ _)]
    exact reading_exact hscale hoffset htype hne hsmall hv hraw
  · rw [if_neg hraw, error_bind] at hencode
    rw [hencode]
    exact ⟨⟨fun ⟨_, h⟩ => (nomatch h), fun h => absurd h hraw⟩, fun regs h => (nomatch h)⟩

/-- Tenths in swapped bytes. -/
def tenthsTag : Tag := { name := "level", type := .uint16, byteOrder := "BA", scale := (1 / 10 : ℚ) }

/-- 25 is written as 250 and read back. -/
theorem tenths_read_back : encode tenthsTag (.uint16 25) = .ok [0xFA00] ∧
    decode tenthsTag [0xFA00] = .ok (.uint16 25) := by
  have hscale : tenthsTag.scale = (1 / 10 : ℚ) := rfl
  have hoffset : tenthsTag.offset = ((0 : ℤ) : ℚ) := rfl
  have hv : InRange tenthsTag.type 25 := by decide
  have hwrite : encode tenthsTag (.uint16 25) = .ok [0xFA00] := by decide +kernel
  obtain ⟨-, hback⟩ := scaled_write_reads_back hscale hoffset (.inl rfl) rfl rfl (by norm_num) hv rfl
  exact ⟨hwrite, (hback _ hwrite).2 (by norm_num [abs_lt])⟩

end Scaled

end OpcServer.Core.Translator
