import Mathlib.Data.List.Induction
import Mathlib.Tactic.Ring

/-! Numbers as big-endian lists of 16-bit words. A number of fixed width and its words
determine each other. -/

namespace OpcServer.Words

/-- The lowest `k` words of a number, most significant first. -/
def words : ℕ → ℕ → List UInt16
  | 0, _ => []
  | k + 1, n => words k (n / 2 ^ 16) ++ [UInt16.ofNat n]

/-- The number that a list of words denotes. -/
def ofWords (ws : List UInt16) : ℕ := ws.foldl (fun n w => n * 2 ^ 16 + w.toNat) 0

@[simp] theorem length_words (k n : ℕ) : (words k n).length = k := by
  induction k generalizing n with
  | zero => rfl
  | succ k ih => simp [words, ih]

@[simp] theorem ofWords_nil : ofWords [] = 0 := rfl

theorem ofWords_concat (ws : List UInt16) (w : UInt16) :
    ofWords (ws ++ [w]) = ofWords ws * 2 ^ 16 + w.toNat := by
  unfold ofWords
  rw [List.foldl_append]
  rfl

theorem ofWords_lt (ws : List UInt16) : ofWords ws < 2 ^ (16 * ws.length) := by
  induction ws using List.reverseRecOn with
  | nil => simp
  | append_singleton ws w ih =>
    have hw := w.toNat_lt
    rw [ofWords_concat, List.length_append, List.length_singleton, Nat.mul_add, pow_add]
    omega

/-- The words of a number denote it, up to what they leave out. -/
theorem ofWords_words (k n : ℕ) : ofWords (words k n) = n % 2 ^ (16 * k) := by
  induction k generalizing n with
  | zero => simp [words, Nat.mod_one]
  | succ k ih =>
    have hw : (UInt16.ofNat n).toNat = n % 2 ^ 16 := UInt16.toNat_ofNat'
    have hpow : 2 ^ (16 * (k + 1)) = 2 ^ 16 * 2 ^ (16 * k) := by rw [← pow_add]; congr 1; ring
    rw [words, ofWords_concat, ih, hw, hpow, Nat.mod_mul]
    ring

theorem ofWords_words_of_lt {k n : ℕ} (h : n < 2 ^ (16 * k)) : ofWords (words k n) = n := by
  rw [ofWords_words, Nat.mod_eq_of_lt h]

/-- A list of words is that of the number it denotes. -/
theorem words_ofWords (ws : List UInt16) : words ws.length (ofWords ws) = ws := by
  induction ws using List.reverseRecOn with
  | nil => rfl
  | append_singleton ws w ih =>
    have hw := w.toNat_lt
    have hdiv : (ofWords ws * 2 ^ 16 + w.toNat) / 2 ^ 16 = ofWords ws := by omega
    have hlast : UInt16.ofNat (ofWords ws * 2 ^ 16 + w.toNat) = w := by
      apply UInt16.toNat.inj
      rw [UInt16.toNat_ofNat']
      omega
    rw [List.length_append, List.length_singleton, words, ofWords_concat, hdiv, ih, hlast]

end OpcServer.Words
