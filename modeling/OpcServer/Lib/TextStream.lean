import Mathlib.Data.List.DropRight
import Mathlib.Data.Int.Notation

/-! Formatted text input in the classic locale: white space, words, decimal integers
and lines. A reader takes a text and returns what it read with the text after it. -/

namespace TextStream

abbrev Text := List Char

/-- The space, and the tab up to the carriage return. -/
def isSpace (c : Char) : Bool := c = ' ' ∨ 9 ≤ c.toNat ∧ c.toNat ≤ 13

def skipSpace (text : Text) : Text := text.dropWhile isSpace

/-- Remove white space at both ends. -/
def trim (text : Text) : Text := (text.dropWhile isSpace).rdropWhile isSpace

/-- The next word, which ends before white space. -/
def readWord (text : Text) : Option (Text × Text) :=
  let start := skipSpace text
  let word := start.takeWhile (!isSpace ·)
  if word.isEmpty then none else some (word, start.dropWhile (!isSpace ·))

/-- One or more decimal digits. -/
def readDigits (text : Text) : Option (ℕ × Text) :=
  let digits := text.takeWhile Char.isDigit
  if digits.isEmpty then none
  else some (Nat.ofDigitChars 10 digits 0, text.dropWhile Char.isDigit)

/-- Digits after an optional sign. -/
def readSigned : Text → Option (ℤ × Text)
  | '-' :: text => (readDigits text).map fun (n, rest) => (-n, rest)
  | '+' :: text => (readDigits text).map fun (n, rest) => (n, rest)
  | text => (readDigits text).map fun (n, rest) => (n, rest)

/-- A decimal integer after white space, refused when it is out of range. -/
def readInt (low high : ℤ) (text : Text) : Option (ℤ × Text) :=
  match readSigned (skipSpace text) with
  | some (n, rest) => if low ≤ n ∧ n ≤ high then some (n, rest) else none
  | none => none

/-- The decimal notation of an integer. -/
def printInt : ℤ → Text
  | .ofNat n => Nat.toDigits 10 n
  | .negSucc n => '-' :: Nat.toDigits 10 (n + 1)

/-- The lines of a text; a newline at the end does not start another one. -/
def lines : Text → List Text
  | [] => []
  | c :: text =>
    if c = '\n' then [] :: lines text
    else
      match lines text with
      | [] => [[c]]
      | line :: more => (c :: line) :: more

/-! ### White space -/

/-- A text without white space. -/
def Solid (text : Text) : Prop := ∀ c ∈ text, isSpace c = false

theorem rdropWhile_append_cons {α : Type*} {p : α → Bool} {d : α} (hd : p d = false) (a b : List α) :
    (a ++ d :: b).rdropWhile p = a ++ d :: b.rdropWhile p := by
  induction b using List.reverseRecOn with
  | nil => exact List.rdropWhile_concat_neg _ _ _ (by simp [hd])
  | append_singleton b e ih =>
    have hassoc : a ++ d :: (b ++ [e]) = (a ++ d :: b) ++ [e] := by simp
    by_cases he : p e = true
    · rw [hassoc, List.rdropWhile_concat_pos _ _ _ he, List.rdropWhile_concat_pos _ _ _ he, ih]
    · rw [hassoc, List.rdropWhile_concat_neg _ _ _ he, List.rdropWhile_concat_neg _ _ _ he, hassoc]

/-- A text with a character at its start that stays is trimmed at its end only, after
any later one that stays. -/
theorem trim_around {c d : Char} (hc : isSpace c = false) (hd : isSpace d = false) (a b : Text) :
    trim (c :: a ++ d :: b) = c :: a ++ d :: b.rdropWhile isSpace := by
  rw [trim, List.cons_append, List.dropWhile_cons_of_neg (by simp [hc]), ← List.cons_append,
    rdropWhile_append_cons hd]

/-- White space before a text is trimmed away. -/
theorem trim_cons {c : Char} (hc : isSpace c = true) (text : Text) : trim (c :: text) = trim text := by
  rw [trim, List.dropWhile_cons_of_pos hc, trim]

/-- So is white space after it. -/
theorem trim_concat {c : Char} (hc : isSpace c = true) (text : Text) :
    trim (text ++ [c]) = trim text := by
  rw [trim, List.dropWhile_append]
  split
  · rename_i hblank
    rw [List.isEmpty_iff] at hblank
    simp [trim, hblank, hc]
  · rw [List.rdropWhile_concat_pos _ _ _ hc, trim]

theorem trim_rdropWhile (text : Text) : trim (text.rdropWhile isSpace) = trim text := by
  induction text using List.reverseRecOn with
  | nil => rfl
  | append_singleton text c ih =>
    by_cases hc : isSpace c = true
    · rw [List.rdropWhile_concat_pos _ _ _ hc, ih, trim_concat hc]
    · rw [List.rdropWhile_concat_neg _ _ _ hc]

theorem skipSpace_append {word : Text} (hne : word ≠ []) (hword : Solid word) (rest : Text) :
    skipSpace (' ' :: (word ++ rest)) = word ++ rest := by
  cases word with
  | nil => exact absurd rfl hne
  | cons c word =>
    rw [skipSpace, List.dropWhile_cons_of_pos rfl, List.cons_append,
      List.dropWhile_cons_of_neg (by simp [hword c (by simp)])]

/-- A text around the first place of a character. -/
theorem split_at_first {d : Char} {text : Text} (h : d ∈ text) :
    text = text.takeWhile (· ≠ d) ++ d :: (text.dropWhile (· ≠ d)).drop 1 := by
  induction text with
  | nil => cases h
  | cons c text ih =>
    by_cases hc : c = d
    · simp [hc]
    · have hmem : d ∈ text := by
        rcases List.mem_cons.mp h with rfl | hmem
        · exact absurd rfl hc
        · exact hmem
      rw [List.takeWhile_cons_of_pos (by simpa using hc),
        List.dropWhile_cons_of_pos (by simpa using hc), List.cons_append, ← ih hmem]

/-! ### Words -/

/-- After one blank, the word starts with the next character. -/
theorem readWord_cons {c : Char} (hc : isSpace c = false) (text : Text) :
    readWord (' ' :: c :: text) =
      some ((c :: text).takeWhile (!isSpace ·), (c :: text).dropWhile (!isSpace ·)) := by
  have hskip : skipSpace (' ' :: c :: text) = c :: text := by
    rw [skipSpace, List.dropWhile_cons_of_pos rfl, List.dropWhile_cons_of_neg (by simp [hc])]
  simp [readWord, hskip, hc]

theorem readWord_append {word : Text} (hne : word ≠ []) (hword : Solid word) (rest : Text) :
    readWord (' ' :: (word ++ ' ' :: rest)) = some (word, ' ' :: rest) := by
  cases word with
  | nil => exact absurd rfl hne
  | cons c word =>
    have hsolid : ∀ d ∈ c :: word, (!isSpace d) = true := by
      intro d hd
      simp [hword d hd]
    rw [List.cons_append, readWord_cons (hword c (by simp)), ← List.cons_append,
      List.takeWhile_append_of_pos hsolid, List.dropWhile_append_of_pos hsolid]
    simp [isSpace]

/-! ### Integers -/

theorem mem_printInt {n : ℤ} {c : Char} (h : c ∈ printInt n) : c = '-' ∨ c.isDigit = true := by
  cases n with
  | ofNat n => exact .inr (Nat.isDigit_of_mem_toDigits (by decide) (by decide) h)
  | negSucc n =>
    rcases List.mem_cons.mp h with h | h
    · exact .inl h
    · exact .inr (Nat.isDigit_of_mem_toDigits (by decide) (by decide) h)

theorem isSpace_of_isDigit {c : Char} (h : c.isDigit = true) : isSpace c = false := by
  rw [Char.isDigit_iff_toNat] at h
  change 48 ≤ c.toNat ∧ c.toNat ≤ 57 at h
  have hblank : c ≠ ' ' := by
    rintro rfl
    simp at h
  simp only [isSpace, decide_eq_false_iff_not, not_or, hblank, not_false_eq_true, true_and]
  omega

theorem printInt_solid (n : ℤ) : Solid (printInt n) := by
  intro c hc
  rcases mem_printInt hc with rfl | hdigit
  · rfl
  · exact isSpace_of_isDigit hdigit

theorem printInt_ne_nil (n : ℤ) : printInt n ≠ [] := by
  cases n with
  | ofNat n => exact Nat.toDigits_ne_nil
  | negSucc n => exact List.cons_ne_nil _ _

theorem printInt_ne_dash (n : ℤ) : printInt n ≠ ['-'] := by
  cases n with
  | ofNat n =>
    intro h
    have hdash : '-' ∈ Nat.toDigits 10 n := by
      change '-' ∈ printInt (.ofNat n)
      rw [h]
      exact List.mem_singleton_self _
    cases Nat.isDigit_of_mem_toDigits (by decide) (by decide) hdash
  | negSucc n =>
    intro h
    exact Nat.toDigits_ne_nil (List.cons.inj h).2

theorem readDigits_toDigits (n : ℕ) {rest : Text} (hrest : ∀ c ∈ rest.head?, c.isDigit = false) :
    readDigits (Nat.toDigits 10 n ++ rest) = some (n, rest) := by
  have hdigits : ∀ c ∈ Nat.toDigits 10 n, c.isDigit = true := fun c hc =>
    Nat.isDigit_of_mem_toDigits (by decide) (by decide) hc
  have hstop : rest.takeWhile Char.isDigit = [] ∧ rest.dropWhile Char.isDigit = rest := by
    cases rest with
    | nil => exact ⟨rfl, rfl⟩
    | cons c rest =>
      have hc := hrest c rfl
      exact ⟨List.takeWhile_cons_of_neg (by simp [hc]), List.dropWhile_cons_of_neg (by simp [hc])⟩
  simp [readDigits, List.takeWhile_append_of_pos hdigits, List.dropWhile_append_of_pos hdigits,
    hstop, Nat.toDigits_ne_nil]

/-- A text that starts with a digit starts with neither sign. -/
theorem readSigned_cons {c : Char} (hc : c.isDigit = true) (text : Text) :
    readSigned (c :: text) = (readDigits (c :: text)).map fun (n, rest) => ((n : ℤ), rest) := by
  unfold readSigned
  split
  · rename_i heq
    rw [(List.cons.inj heq).1] at hc
    cases hc
  · rename_i heq
    rw [(List.cons.inj heq).1] at hc
    cases hc
  · rfl

theorem readSigned_printInt (n : ℤ) {rest : Text} (hrest : ∀ c ∈ rest.head?, c.isDigit = false) :
    readSigned (printInt n ++ rest) = some (n, rest) := by
  cases n with
  | ofNat n =>
    obtain ⟨c, digits, hc⟩ := List.exists_cons_of_ne_nil (Nat.toDigits_ne_nil (n := n) (b := 10))
    have hdigit : c.isDigit = true := by
      refine Nat.isDigit_of_mem_toDigits (b := 10) (n := n) (by decide) (by decide) ?_
      rw [hc]
      exact List.mem_cons_self
    rw [printInt, hc, List.cons_append, readSigned_cons hdigit, ← List.cons_append, ← hc,
      readDigits_toDigits n hrest]
    rfl
  | negSucc n =>
    rw [printInt, List.cons_append, readSigned, readDigits_toDigits _ hrest]
    rfl

/-- A text of digits is read to its end. -/
theorem readDigits_digits {digits : Text} (hne : digits ≠ []) (h : ∀ c ∈ digits, c.isDigit = true) :
    readDigits digits = some (Nat.ofDigitChars 10 digits 0, []) := by
  rw [readDigits, List.takeWhile_eq_self_iff.mpr h, List.dropWhile_eq_nil_iff.mpr h]
  rw [if_neg (by simpa using hne)]

theorem readDigits_whole {text : Text} {n : ℕ} (h : readDigits text = some (n, [])) :
    text ≠ [] ∧ (∀ c ∈ text, c.isDigit = true) ∧ Nat.ofDigitChars 10 text 0 = n := by
  simp only [readDigits] at h
  split_ifs at h with hempty
  obtain ⟨hn, hrest⟩ := Prod.mk.inj (Option.some.inj h)
  have hall : ∀ c ∈ text, c.isDigit = true := List.dropWhile_eq_nil_iff.mp hrest
  rw [List.takeWhile_eq_self_iff.mpr hall] at hn hempty
  exact ⟨by simpa using hempty, hall, hn⟩

theorem readInt_digits {digits : Text} (hne : digits ≠ []) (h : ∀ c ∈ digits, c.isDigit = true)
    (low high : ℤ) : readInt low high digits =
      if low ≤ Nat.ofDigitChars 10 digits 0 ∧ (Nat.ofDigitChars 10 digits 0 : ℤ) ≤ high then
        some ((Nat.ofDigitChars 10 digits 0 : ℤ), []) else none := by
  have hread := readDigits_digits hne h
  obtain ⟨c, text, rfl⟩ := List.exists_cons_of_ne_nil hne
  have hc := h c List.mem_cons_self
  have hskip : skipSpace (c :: text) = c :: text :=
    List.dropWhile_cons_of_neg (by simp [isSpace_of_isDigit hc])
  rw [readInt, hskip, readSigned_cons hc, hread]
  rfl

theorem readInt_minus_digits {digits : Text} (hne : digits ≠ [])
    (h : ∀ c ∈ digits, c.isDigit = true) (low high : ℤ) : readInt low high ('-' :: digits) =
      if low ≤ -(Nat.ofDigitChars 10 digits 0 : ℤ) ∧
          -(Nat.ofDigitChars 10 digits 0 : ℤ) ≤ high then
        some (-(Nat.ofDigitChars 10 digits 0 : ℤ), []) else none := by
  have hskip : skipSpace ('-' :: digits) = '-' :: digits :=
    List.dropWhile_cons_of_neg (by decide)
  rw [readInt, hskip, readSigned, readDigits_digits hne h]
  rfl

/-- An integer in range is read back from its notation. -/
theorem readInt_printInt {low high n : ℤ} (hlow : low ≤ n) (hhigh : n ≤ high) {rest : Text}
    (hrest : ∀ c ∈ rest.head?, c.isDigit = false) :
    readInt low high (printInt n ++ rest) = some (n, rest) := by
  obtain ⟨c, text, htext⟩ := List.exists_cons_of_ne_nil (printInt_ne_nil n)
  have hskip : skipSpace (printInt n ++ rest) = printInt n ++ rest := by
    have hc := printInt_solid n c (by rw [htext]; exact List.mem_cons_self)
    rw [htext, List.cons_append, skipSpace, List.dropWhile_cons_of_neg (by simp [hc])]
  simp [readInt, hskip, readSigned_printInt n hrest, hlow, hhigh]

/-! ### Lines -/

theorem lines_append {line : Text} (h : '\n' ∉ line) (rest : Text) :
    lines (line ++ '\n' :: rest) = line :: lines rest := by
  induction line with
  | nil => rfl
  | cons c line ih =>
    rw [List.mem_cons, not_or] at h
    rw [List.cons_append, lines, if_neg (Ne.symm h.1), ih h.2]

end TextStream
