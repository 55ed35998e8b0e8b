import Mathlib.Algebra.Field.Rat
import Mathlib.Tactic.Ring
import Mathlib.Tactic.FieldSimp
import OpcServer.Lib.TextStream

/-! Floating-point notation for whole numbers. `general` is what `%g` prints: at most a
given number of significant digits, with an exponent once the number has more of them.
`readDecimal` is the value of a decimal text with an optional fraction and exponent. The
text of a number denotes the number rounded to those digits, and so the number itself
exactly when it has no more significant digits than are printed. -/

namespace DecimalText

open TextStream

/-! ### Rounding -/

/-- The quotient rounded to the nearest number, to the even one of two. -/
def roundQuotient (n q : ℕ) : ℕ :=
  if 2 * (n % q) < q ∨ 2 * (n % q) = q ∧ n / q % 2 = 0 then n / q else n / q + 1

/-- The decimal places that do not fit into `p` digits. -/
def excess (p n : ℕ) : ℕ := (Nat.toDigits 10 n).length - p

def significand (p n : ℕ) : ℕ := roundQuotient n (10 ^ excess p n)

/-- A number rounded to `p` significant digits. -/
def rounded (p n : ℕ) : ℕ := significand p n * 10 ^ excess p n

/-- The number can be written with `p` digits and zeros after them. -/
def HasDigits (p n : ℕ) : Prop := ∃ m k, m < 10 ^ p ∧ n = m * 10 ^ k

theorem roundQuotient_le {n q b : ℕ} (hq : 0 < q) (h : n ≤ b * q) : roundQuotient n q ≤ b := by
  have hdiv : n / q ≤ b := Nat.div_le_of_le_mul (by rwa [Nat.mul_comm])
  unfold roundQuotient
  split
  · exact hdiv
  · -- rounding up leaves a remainder, so the quotient was below the bound
    rename_i hup
    have hrem : n % q ≠ 0 := by
      intro hzero
      exact hup (.inl (by omega))
    have hsplit := Nat.div_add_mod n q
    by_contra hlt
    have heq : n / q = b := by omega
    rw [heq, Nat.mul_comm] at hsplit
    omega

theorem roundQuotient_of_dvd {n q : ℕ} (hq : 0 < q) (h : q ∣ n) : roundQuotient n q = n / q := by
  rw [roundQuotient, Nat.mod_eq_zero_of_dvd h, if_pos (.inl (by omega))]

/-- What does not fit is at most the zeros at the end. -/
theorem excess_le {p n m k : ℕ} (hp : 0 < p) (hm : m < 10 ^ p) (h : n = m * 10 ^ k) :
    excess p n ≤ k := by
  have hlt : n < 10 ^ (p + k) := by
    rw [h, Nat.pow_add]
    exact Nat.mul_lt_mul_of_pos_right hm (Nat.pow_pos (by decide))
  have := (Nat.length_toDigits_le_iff (b := 10) (by decide) (by omega)).mpr hlt
  unfold excess
  omega

theorem significand_le (p n : ℕ) : significand p n ≤ 10 ^ p := by
  refine roundQuotient_le (Nat.pow_pos (by decide)) ?_
  have hlen : n < 10 ^ (Nat.toDigits 10 n).length :=
    (Nat.length_toDigits_le_iff (b := 10) (by decide) Nat.length_toDigits_pos).mp le_rfl
  rw [← Nat.pow_add]
  refine hlen.le.trans (Nat.pow_le_pow_right (by decide) ?_)
  unfold excess
  omega

theorem rounded_eq_iff {p n : ℕ} (hp : 0 < p) : rounded p n = n ↔ HasDigits p n := by
  constructor
  · intro h
    rcases (significand_le p n).lt_or_eq with hlt | heq
    · exact ⟨_, _, hlt, h.symm⟩
    · -- a carry into one more digit is a one with zeros
      refine ⟨1, p + excess p n, Nat.one_lt_pow (by omega) (by decide), ?_⟩
      rw [Nat.one_mul, Nat.pow_add, ← heq]
      exact h.symm
  · rintro ⟨m, k, hm, hn⟩
    have hdvd : 10 ^ excess p n ∣ n :=
      (pow_dvd_pow 10 (excess_le hp hm hn)).trans ⟨m, by rw [hn, Nat.mul_comm]⟩
    rw [rounded, significand, roundQuotient_of_dvd (Nat.pow_pos (by decide)) hdvd]
    exact Nat.div_mul_cancel hdvd

/-! ### Notation -/

/-- An exponent has two digits at least. -/
def exponentText (e : ℕ) : Text := if e < 10 then '0' :: Nat.toDigits 10 e else Nat.toDigits 10 e

/-- A digit, the other digits after a point, and the exponent; zeros at the end of the
fraction are left out, and the point with them. -/
def scientific (m k : ℕ) : Text :=
  match Nat.toDigits 10 m with
  | [] => []
  | d :: rest =>
    let frac := rest.rdropWhile (· = '0')
    d :: (if frac = [] then [] else '.' :: frac) ++ 'e' :: '+' :: exponentText (k + rest.length)

/-- A whole number with `p` significant digits. -/
def general (p n : ℕ) : Text :=
  if n < 10 ^ p then Nat.toDigits 10 n else scientific (significand p n) (excess p n)

/-- The digits of a fraction, after a point. -/
def readFraction : Text → Text × Text
  | '.' :: text => (text.takeWhile Char.isDigit, text.dropWhile Char.isDigit)
  | text => ([], text)

/-- The exponent at the end of a text, zero when there is none. -/
def readExponent : Text → Option ℤ
  | [] => some 0
  | 'e' :: text =>
    match readSigned text with
    | some (e, []) => some e
    | _ => none
  | _ => none

/-- The value of a decimal text. -/
def readDecimal (text : Text) : Option ℚ :=
  let whole := text.takeWhile Char.isDigit
  let (frac, rest) := readFraction (text.dropWhile Char.isDigit)
  if whole ++ frac = [] then none
  else (readExponent rest).map fun e =>
    Nat.ofDigitChars 10 (whole ++ frac) 0 * (10 : ℚ) ^ (e - (frac.length : ℤ))

/-- Digits are read up to a character that is none. -/
theorem span_digits {digits : Text} (rest : Text) (hdigits : ∀ c ∈ digits, c.isDigit = true)
    (hrest : ∀ c ∈ rest.head?, c.isDigit = false) :
    (digits ++ rest).takeWhile Char.isDigit = digits ∧
      (digits ++ rest).dropWhile Char.isDigit = rest := by
  rw [List.takeWhile_append_of_pos hdigits, List.dropWhile_append_of_pos hdigits]
  cases rest with
  | nil => exact ⟨List.append_nil _, rfl⟩
  | cons c rest =>
    have hc := hrest c rfl
    rw [List.takeWhile_cons_of_neg (by simp [hc]), List.dropWhile_cons_of_neg (by simp [hc])]
    exact ⟨List.append_nil _, rfl⟩

/-- A number without fraction and exponent. -/
theorem readDecimal_toDigits (n : ℕ) : readDecimal (Nat.toDigits 10 n) = some (n : ℚ) := by
  have hdigits : ∀ c ∈ Nat.toDigits 10 n, c.isDigit = true := fun c hc =>
    Nat.isDigit_of_mem_toDigits (by decide) (by decide) hc
  obtain ⟨htake, hdrop⟩ := span_digits [] hdigits (by simp)
  rw [List.append_nil] at htake hdrop
  simp [readDecimal, htake, hdrop, readFraction, readExponent, Nat.toDigits_ne_nil,
    Nat.ofDigitChars_ten_toDigits]

theorem readSigned_exponentText (e : ℕ) :
    readSigned ('+' :: exponentText e) = some ((e : ℤ), []) := by
  have hread : readDigits (exponentText e) = some (e, []) := by
    have hbare : readDigits (Nat.toDigits 10 e) = some (e, []) := by
      simpa using readDigits_toDigits e (by simp : ∀ c ∈ ([] : Text).head?, c.isDigit = false)
    unfold exponentText
    split
    · -- a zero in front changes nothing
      have hdigits : ∀ c ∈ '0' :: Nat.toDigits 10 e, c.isDigit = true :=
        List.forall_mem_cons.mpr ⟨by decide, fun c hc =>
          Nat.isDigit_of_mem_toDigits (by decide) (by decide) hc⟩
      obtain ⟨htake, hdrop⟩ := span_digits [] hdigits (by simp)
      rw [List.append_nil] at htake hdrop
      rw [readDigits, htake, hdrop, if_neg (by simp)]
      simp [Nat.ofDigitChars_cons, Nat.ofDigitChars_ten_toDigits]
    · exact hbare
  rw [readSigned, hread]
  rfl

/-- Zeros at the end of the digits are a power of ten. -/
theorem ofDigitChars_rdropWhile (d : Char) (rest : Text) :
    Nat.ofDigitChars 10 (d :: rest) 0 =
      Nat.ofDigitChars 10 (d :: rest.rdropWhile (· = '0')) 0 *
        10 ^ (rest.length - (rest.rdropWhile (· = '0')).length) := by
  set zeros := rest.rtakeWhile (· = '0') with hdef
  have hsplit : rest.rdropWhile (· = '0') ++ zeros = rest := List.rdropWhile_append_rtakeWhile
  have hzeros : zeros = List.replicate zeros.length '0' := by
    refine List.eq_replicate_iff.mpr ⟨rfl, fun c hc => ?_⟩
    simpa using List.mem_rtakeWhile_imp hc
  have hlength : rest.length - (rest.rdropWhile (· = '0')).length = zeros.length := by
    have := congrArg List.length hsplit
    rw [List.length_append] at this
    omega
  rw [hlength]
  conv_lhs => rw [← hsplit, ← List.cons_append, Nat.ofDigitChars_append, hzeros]
  rw [Nat.ofDigitChars_replicate_zero, Nat.mul_comm]

/-- A digit, perhaps with a fraction, before an exponent. -/
theorem readDecimal_digit {d : Char} {frac : Text} (hd : d.isDigit = true)
    (hfrac : ∀ c ∈ frac, c.isDigit = true) (e : ℕ) :
    readDecimal (d :: (if frac = [] then [] else '.' :: frac) ++ 'e' :: '+' :: exponentText e) =
      some (Nat.ofDigitChars 10 (d :: frac) 0 * (10 : ℚ) ^ ((e : ℤ) - (frac.length : ℤ))) := by
  have hexponent : readExponent ('e' :: '+' :: exponentText e) = some (e : ℤ) := by
    rw [readExponent, readSigned_exponentText]
  have hone : ∀ c ∈ [d], c.isDigit = true := List.forall_mem_singleton.mpr hd
  by_cases hempty : frac = []
  · subst hempty
    obtain ⟨htake, hdrop⟩ := span_digits ('e' :: '+' :: exponentText e) hone (by simp)
    rw [List.singleton_append] at htake hdrop
    simp [readDecimal, htake, hdrop, readFraction, hexponent]
  · obtain ⟨htake, hdrop⟩ :=
      span_digits ('.' :: frac ++ 'e' :: '+' :: exponentText e) hone (by simp)
    rw [List.singleton_append] at htake hdrop
    obtain ⟨hfracTake, hfracDrop⟩ :=
      span_digits ('e' :: '+' :: exponentText e) hfrac (by simp)
    rw [if_neg hempty, List.cons_append, readDecimal, htake, hdrop, List.cons_append, readFraction,
      hfracTake, hfracDrop]
    simp [hexponent]

/-- The text of a significand and an exponent denotes their product. -/
theorem readDecimal_scientific (m k : ℕ) :
    readDecimal (scientific m k) = some ((m * 10 ^ k : ℕ) : ℚ) := by
  obtain ⟨d, rest, hm⟩ := List.exists_cons_of_ne_nil (Nat.toDigits_ne_nil (n := m) (b := 10))
  have hdigits : ∀ c ∈ d :: rest, c.isDigit = true := fun c hc =>
    Nat.isDigit_of_mem_toDigits (b := 10) (n := m) (by decide) (by decide) (hm ▸ hc)
  obtain ⟨hd, hrest⟩ := List.forall_mem_cons.mp hdigits
  have hinit := List.rdropWhile_prefix (· = '0') (l := rest)
  have hvalue := ofDigitChars_rdropWhile d rest
  rw [← hm, Nat.ofDigitChars_ten_toDigits] at hvalue
  rw [scientific, hm]
  simp only
  rw [readDecimal_digit hd fun c hc => hrest c (hinit.subset hc)]
  have hlength := hinit.length_le
  generalize rest.rdropWhile (· = '0') = frac at hvalue hlength ⊢
  congr 1
  have hexponent : ((k + rest.length : ℕ) : ℤ) - (frac.length : ℤ) =
      ((rest.length - frac.length + k : ℕ) : ℤ) := by omega
  rw [hexponent, zpow_natCast, hvalue]
  push_cast
  ring

/-- The text of a number starts with a digit, hence not with a sign. -/
theorem general_eq_cons (p n : ℕ) : ∃ d text, general p n = d :: text ∧ d.isDigit = true := by
  have hdigit : ∀ m, ∃ d rest, Nat.toDigits 10 m = d :: rest ∧ d.isDigit = true := by
    intro m
    obtain ⟨d, rest, hm⟩ := List.exists_cons_of_ne_nil (Nat.toDigits_ne_nil (n := m) (b := 10))
    exact ⟨d, rest, hm, Nat.isDigit_of_mem_toDigits (b := 10) (n := m) (by decide) (by decide)
      (hm ▸ List.mem_cons_self)⟩
  unfold general
  split
  · exact hdigit n
  · obtain ⟨d, rest, hm, hd⟩ := hdigit (significand p n)
    rw [scientific, hm]
    exact ⟨d, _, rfl, hd⟩

theorem readDecimal_general (p n : ℕ) (hp : 0 < p) :
    readDecimal (general p n) = some (rounded p n : ℚ) := by
  unfold general
  split
  · rename_i h
    rw [readDecimal_toDigits, (rounded_eq_iff hp).mpr ⟨n, 0, h, by simp⟩]
  · exact readDecimal_scientific _ _

example : general 6 1234567 = "1.23457e+06".toList ∧ general 6 1000000 = "1e+06".toList ∧
    general 6 999999 = "999999".toList ∧ general 6 9999999 = "1e+07".toList := by decide +kernel

end DecimalText
