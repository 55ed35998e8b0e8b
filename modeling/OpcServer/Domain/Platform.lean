import Mathlib.Data.Rat.Floor

/-! What the C++ implementation supplies: floating-point arithmetic, and the word
found by a read past the end of a register vector, which C++ leaves undefined.
Every definition of the gateway is written over an arbitrary `Platform`, so that a
result holds for IEEE arithmetic and for the exact rationals alike; `exactPlatform`
is the rational instance, with the IEEE layout only for reading and writing bits. -/

namespace OpcServer.Domain

/-- `Double` and `Single` are the carriers of the C++ types `double` and `float`.
`round` is `std::round` of a finite value, as an integer, and `exceedsSingle` the
comparison of a magnitude with `numeric_limits<float>::max()`. `outside i` is what
a read at index `i` returns when the vector ends before it. -/
class Platform where
  Double : Type
  Single : Type
  decEqDouble : DecidableEq Double
  decEqSingle : DecidableEq Single
  ofInt : ℤ → Double
  add : Double → Double → Double
  sub : Double → Double → Double
  mul : Double → Double → Double
  div : Double → Double → Double
  isFinite : Double → Bool
  isZero : Double → Bool
  round : Double → ℤ
  exceedsSingle : Double → Bool
  narrow : Double → Single
  widen : Single → Double
  singleBits : Single → UInt32
  singleOfBits : UInt32 → Single
  doubleBits : Double → UInt64
  doubleOfBits : UInt64 → Double
  outside : ℕ → UInt16

export Platform (Double Single)

instance [Platform] : DecidableEq Double := Platform.decEqDouble

instance [Platform] : DecidableEq Single := Platform.decEqSingle

/-! ### Exact rationals -/

/-- Rounding half away from zero. -/
def roundHalfAway (q : ℚ) : ℤ := if 0 ≤ q then ⌊q + 1 / 2⌋ else -⌊-q + 1 / 2⌋

/-- The rational denoted by a bit pattern with `m` mantissa and `e` exponent bits;
the patterns of infinities and NaNs read as zero. -/
def valueOfBits (m e bits : ℕ) : ℚ :=
  let frac := bits % 2 ^ m
  let expo := bits / 2 ^ m % 2 ^ e
  let sign : ℚ := if bits / 2 ^ (m + e) % 2 = 0 then 1 else -1
  if expo = 2 ^ e - 1 then 0
  else if expo = 0 then sign * frac * (2 : ℚ) ^ (2 - 2 ^ (e - 1) - m : ℤ)
  else sign * (2 ^ m + frac : ℕ) * (2 : ℚ) ^ ((expo : ℤ) + 1 - 2 ^ (e - 1) - m)

/-- The bit pattern of a normal number, mantissa truncated. -/
def bitsOfValue (m e : ℕ) (q : ℚ) : ℕ :=
  if q = 0 then 0
  else
    let sign := if q < 0 then 2 ^ (m + e) else 0
    let a := |q|
    let guess : ℤ := (Nat.log2 a.num.natAbs : ℤ) - Nat.log2 a.den
    let expo := if a < (2 : ℚ) ^ guess then guess - 1 else guess
    let frac := ⌊(a / (2 : ℚ) ^ expo - 1) * 2 ^ m⌋.toNat
    sign + (expo + 2 ^ (e - 1) - 1).toNat * 2 ^ m + frac

/-- Arithmetic without rounding: both carriers are the rationals. -/
@[reducible] def exactPlatform : Platform where
  Double := ℚ
  Single := ℚ
  decEqDouble := inferInstance
  decEqSingle := inferInstance
  ofInt n := n
  add := (· + ·)
  sub := (· - ·)
  mul := (· * ·)
  div := (· / ·)
  isFinite _ := true
  isZero q := decide (q = 0)
  round := roundHalfAway
  exceedsSingle q := decide ((2 ^ 24 - 1) * 2 ^ 104 < |q|)
  narrow := id
  widen := id
  singleBits q := UInt32.ofNat (bitsOfValue 23 8 q)
  singleOfBits b := valueOfBits 23 8 b.toNat
  doubleBits q := UInt64.ofNat (bitsOfValue 52 11 q)
  doubleOfBits b := valueOfBits 52 11 b.toNat
  outside _ := 0

example : bitsOfValue 23 8 (3 / 2) = 0x3FC00000 ∧ valueOfBits 23 8 0x3FC00000 = 3 / 2 := by
  decide +kernel

end OpcServer.Domain
