import OpcServer.Adapters.FrameJournal
import OpcServer.Lib.Loop

/-! The hexadecimal notation of the journal. `parse_hex_bytes` walks through the text by an
index; the loops are modelled here with every access to the text, and shown to return what
`parseHexBytes` says of the text as a list. The texts that are read are then described by a
grammar. -/

namespace OpcServer.Adapters

open Domain TextStream

/-! ### The loops -/

/-- At the test of the outer loop, or at the one of the loop over white space. -/
inductive HexLoop where
  | pairs
  | spaces

structure HexScan where
  loop : HexLoop := .pairs
  i : ℕ := 0
  out : List UInt8 := []

namespace HexScan

/-- The test of the inner loop, which looks at the text only before its end. -/
def spaceAt (text : Text) (i : ℕ) : Option Bool :=
  if i < text.length then text[i]?.map isSpace else some false

/-- The byte of a pair, after which the outer loop goes on. -/
def takePair (s : HexScan) (c d : Char) : HexScan ⊕ Result (List UInt8) :=
  match hexNibble c, hexNibble d with
  | some hi, some lo =>
    .inl { loop := .pairs, i := s.i + 2, out := s.out ++ [UInt8.ofNat (hi * 16 + lo)] }
  | _, _ => .inr (.error (replayErr .decoding "invalid hex byte"))

/-- From one test of a loop to the next. -/
def step (text : Text) (s : HexScan) : Option (HexScan ⊕ Result (List UInt8)) :=
  match s.loop with
  | .pairs =>
    if s.i < text.length then some (.inl { s with loop := .spaces }) else some (.inr (.ok s.out))
  | .spaces => do
    if ← spaceAt text s.i then return .inl { s with i := s.i + 1 }
    -- the break leaves the outer loop, and `out` is returned
    if s.i ≥ text.length then return .inr (.ok s.out)
    if s.i + 1 ≥ text.length then return .inr (.error (replayErr .decoding "odd hex nibble"))
    return s.takePair (← text[s.i]?) (← text[s.i + 1]?)

/-- What is returned from a state: the bytes so far and those of the text from the index
on. -/
def result (text : Text) (s : HexScan) : Result (List UInt8) :=
  (parseHexBytes (text.drop s.i)).map (s.out ++ ·)

def bound (text : Text) (s : HexScan) : ℕ :=
  2 * (text.length - s.i) + match s.loop with
    | .pairs => 1
    | .spaces => 0

end HexScan

theorem parseHexBytes_space {c : Char} (hc : isSpace c = true) (text : Text) :
    parseHexBytes (c :: text) = parseHexBytes text := by
  cases text with
  | nil => simp [parseHexBytes, hc]
  | cons d text => rw [parseHexBytes, if_pos hc]

namespace HexScan
variable {text : Text} {s : HexScan}

/-- A pass of the inner loop. -/
theorem step_space (hloop : s.loop = .spaces) (hi : s.i < text.length)
    (hspace : isSpace text[s.i] = true) :
    s.step text = some (.inl { s with i := s.i + 1 }) := by
  have hat : spaceAt text s.i = some true := by
    rw [spaceAt, if_pos hi, List.getElem?_eq_getElem hi, Option.map_some, hspace]
  simp [step, hloop, hat]

/-- The inner loop has ended at a character, which is the last one or begins a pair. -/
theorem step_pair (hloop : s.loop = .spaces) (hi : s.i < text.length)
    (hspace : isSpace text[s.i] = false) :
    s.step text =
      if h : s.i + 1 < text.length then some (s.takePair text[s.i] text[s.i + 1])
      else some (.inr (.error (replayErr .decoding "odd hex nibble"))) := by
  have hat : spaceAt text s.i = some false := by
    rw [spaceAt, if_pos hi, List.getElem?_eq_getElem hi, Option.map_some, hspace]
  have hmore : ¬ s.i ≥ text.length := by omega
  simp only [step, hloop, hat, Option.bind_eq_bind, Option.bind_some, Bool.false_eq_true, if_false,
    if_neg hmore, List.getElem?_eq_getElem hi]
  by_cases h : s.i + 1 < text.length
  · have hmore' : ¬ s.i + 1 ≥ text.length := by omega
    rw [if_neg hmore', dif_pos h, List.getElem?_eq_getElem h]
    rfl
  · have hend : s.i + 1 ≥ text.length := by omega
    rw [if_pos hend, dif_neg h]
    rfl

/-- A pair gives its byte or ends the scan, as it does for the list. -/
theorem takePair_result (hloop : s.loop = .spaces) (h : s.i + 1 < text.length)
    (hspace : isSpace text[s.i] = false) :
    s.takePair text[s.i] text[s.i + 1] = .inr (s.result text) ∨
      ∃ t, s.takePair text[s.i] text[s.i + 1] = .inl t ∧ t.i ≤ text.length ∧
        t.bound text < s.bound text ∧ t.result text = s.result text := by
  have hpair : text.drop s.i = text[s.i] :: text[s.i + 1] :: text.drop (s.i + 2) := by
    rw [List.drop_eq_getElem_cons (Nat.lt_of_succ_lt h), List.drop_eq_getElem_cons h]
  have hno : ¬ isSpace text[s.i] = true := by simp [hspace]
  rw [takePair, result, hpair, parseHexBytes, if_neg hno]
  cases hexNibble text[s.i] with
  | none => exact .inl rfl
  | some hi =>
    cases hexNibble text[s.i + 1] with
    | none => exact .inl rfl
    | some lo =>
      refine .inr ⟨_, rfl, h, ?_, ?_⟩
      · simp only [bound, hloop]
        omega
      · simp only [result]
        cases parseHexBytes (text.drop (s.i + 2)) with
        | error e => rfl
        | ok bytes => simp [Except.map]

/-- Both loops together: no access leaves the text, and the index reaches its end. -/
theorem computes (text : Text) :
    Loop.Computes (step text) (fun s => s.i ≤ text.length) (bound text) (result text) := by
  intro s hs
  cases hloop : s.loop with
  | pairs =>
    by_cases hi : s.i < text.length
    · refine .inr ⟨{ s with loop := .spaces }, by simp [step, hloop, hi], hs, ?_, rfl⟩
      simp [bound, hloop]
    · left
      simp [step, hloop, hi, result, List.drop_eq_nil_of_le (Nat.le_of_not_lt hi), parseHexBytes,
        Except.map]
  | spaces =>
    by_cases hi : s.i < text.length
    · have hdrop := List.drop_eq_getElem_cons hi
      cases hspace : isSpace text[s.i] with
      | true =>
        refine .inr ⟨_, step_space hloop hi hspace, hi, ?_, ?_⟩
        · simp only [bound, hloop]
          omega
        · rw [result, result, hdrop, parseHexBytes_space hspace]
      | false =>
        rw [step_pair hloop hi hspace]
        by_cases h : s.i + 1 < text.length
        · rw [dif_pos h]
          obtain hreturn | ⟨t, hnext, ht⟩ := takePair_result hloop h hspace
          · exact .inl (by rw [hreturn])
          · exact .inr ⟨t, by rw [hnext], ht⟩
        · have hlast : text.drop s.i = [text[s.i]] := by
            rw [hdrop, List.drop_eq_nil_of_le (by omega)]
          have hno : ¬ isSpace text[s.i] = true := by simp [hspace]
          left
          rw [dif_neg h, result, hlast]
          simp [parseHexBytes, hno, Except.map]
    · left
      have hat : spaceAt text s.i = some false := by rw [spaceAt, if_neg hi]
      simp [step, hloop, hat, Nat.le_of_not_lt hi, result,
        List.drop_eq_nil_of_le (Nat.le_of_not_lt hi), parseHexBytes, Except.map]

end HexScan

/-! ### The texts that are read -/

/-- A hexadecimal digit of this value, of either case. -/
def HexDigit (n : ℕ) (c : Char) : Prop := c = n.digitChar ∨ c = n.digitChar.toUpper

instance (n : ℕ) (c : Char) : Decidable (HexDigit n c) := inferInstanceAs (Decidable (_ ∨ _))

/-- A pair of digits for each byte, with white space before, between and after the pairs or
without. -/
inductive HexText : List UInt8 → Text → Prop
  | nil {gap : Text} : (∀ c ∈ gap, isSpace c = true) → HexText [] gap
  | cons {gap text : Text} {b : UInt8} {bytes : List UInt8} {c d : Char} :
      (∀ c ∈ gap, isSpace c = true) → HexDigit (b.toNat / 16) c → HexDigit (b.toNat % 16) d →
      HexText bytes text → HexText (b :: bytes) (gap ++ c :: d :: text)

theorem hexNibble_eq_some_iff {c : Char} {n : ℕ} : hexNibble c = some n ↔ n < 16 ∧ HexDigit n c := by
  have hread : ∀ n < 16, hexNibble n.digitChar = some n ∧ hexNibble n.digitChar.toUpper = some n := by
    decide
  have hascii : ∀ k < 128, ∀ n ∈ hexNibble (Char.ofNat k), n < 16 ∧ HexDigit n (Char.ofNat k) := by
    decide
  constructor
  · intro h
    have hsmall : c.toNat < 128 := by
      unfold hexNibble at h
      split_ifs at h with h1 h2 h3
      · exact Nat.lt_of_le_of_lt h1.2 (by decide)
      · exact Nat.lt_of_le_of_lt h2.2 (by decide)
      · exact Nat.lt_of_le_of_lt h3.2 (by decide)
    have hc := hascii c.toNat hsmall n
    rw [Char.ofNat_toNat] at hc
    exact hc h
  · rintro ⟨hn, rfl | rfl⟩
    · exact (hread n hn).1
    · exact (hread n hn).2

/-- No digit is white space. -/
theorem HexDigit.isSpace_eq {c : Char} {n : ℕ} (hn : n < 16) (h : HexDigit n c) :
    isSpace c = false := by
  have hsolid : ∀ n < 16, isSpace n.digitChar = false ∧ isSpace n.digitChar.toUpper = false := by
    decide
  rcases h with rfl | rfl
  · exact (hsolid n hn).1
  · exact (hsolid n hn).2

theorem parseHexBytes_gap {gap : Text} (hgap : ∀ c ∈ gap, isSpace c = true) (text : Text) :
    parseHexBytes (gap ++ text) = parseHexBytes text := by
  induction gap with
  | nil => rfl
  | cons c gap ih =>
    obtain ⟨hc, hgap⟩ := List.forall_mem_cons.mp hgap
    rw [List.cons_append, parseHexBytes_space hc, ih hgap]

theorem parseHexBytes_hexText {bytes : List UInt8} {text : Text} (h : HexText bytes text) :
    parseHexBytes text = .ok bytes := by
  induction h with
  | nil hgap =>
    have h := parseHexBytes_gap hgap []
    rwa [List.append_nil] at h
  | @cons gap text b bytes c d hgap hhi hlo _ ih =>
    obtain ⟨hb, hb'⟩ := byte_halves b
    have hbyte : UInt8.ofNat (b.toNat / 16 * 16 + b.toNat % 16) = b := by
      rw [Nat.div_add_mod', UInt8.ofNat_toNat]
    rw [parseHexBytes_gap hgap, parseHexBytes, if_neg (by simp [hhi.isSpace_eq hb]),
      hexNibble_eq_some_iff.mpr ⟨hb, hhi⟩, hexNibble_eq_some_iff.mpr ⟨hb', hlo⟩, ih]
    simp only [hbyte]
    rfl

/-- White space may be put before a text. -/
theorem HexText.space {bytes : List UInt8} {text : Text} (h : HexText bytes text) {c : Char}
    (hc : isSpace c = true) : HexText bytes (c :: text) := by
  cases h with
  | nil hgap => exact .nil (List.forall_mem_cons.mpr ⟨hc, hgap⟩)
  | @cons gap text b bytes c' d hgap hhi hlo hrest =>
    show HexText _ ((c :: gap) ++ c' :: d :: text)
    exact .cons (List.forall_mem_cons.mpr ⟨hc, hgap⟩) hhi hlo hrest

theorem hexText_of_parseHexBytes {text : Text} {bytes : List UInt8}
    (h : parseHexBytes text = .ok bytes) : HexText bytes text := by
  fun_induction parseHexBytes text generalizing bytes with
  | case1 =>
    obtain rfl := Except.ok.inj h
    exact .nil (by simp)
  | case2 c hc =>
    obtain rfl := Except.ok.inj h
    exact .nil (by simpa using hc)
  | case3 => cases h
  | case4 c d text hc ih => exact (ih h).space hc
  | case5 c d text _ hi lo hhi hlo ih =>
    obtain ⟨hhi16, hhidigit⟩ := hexNibble_eq_some_iff.mp hhi
    obtain ⟨hlo16, hlodigit⟩ := hexNibble_eq_some_iff.mp hlo
    cases hrest : parseHexBytes text with
    | error e =>
      rw [hrest] at h
      cases h
    | ok rest =>
      rw [hrest] at h
      obtain rfl := Except.ok.inj h
      have hvalue : (UInt8.ofNat (hi * 16 + lo)).toNat = hi * 16 + lo := by
        rw [UInt8.toNat_ofNat']
        omega
      have hhigh : (hi * 16 + lo) / 16 = hi := by omega
      have hlow : (hi * 16 + lo) % 16 = lo := by omega
      show HexText _ ([] ++ c :: d :: text)
      refine .cons (by simp) ?_ ?_ (ih hrest)
      · rwa [hvalue, hhigh]
      · rwa [hvalue, hlow]
  | case6 => cases h

/-- Bytes are read back from their notation. For every text, the loops of `parse_hex_bytes`
make no access outside it and return; they succeed exactly on pairs of digits with any white
space around them, with a byte for each pair. -/
theorem hex_codec_exact (bytes : List UInt8) (text : Text) :
    parseHexBytes (toHex bytes) = .ok bytes ∧
    (∀ n, Loop.run (HexScan.step text) n {} ≠ none) ∧
    Loop.run (HexScan.step text) (2 * text.length + 2) {} = some (.inr (parseHexBytes text)) ∧
    ∀ read, parseHexBytes text = .ok read ↔ HexText read text := by
  have hloops := HexScan.computes text
  have hstart : (({} : HexScan).i) ≤ text.length := Nat.zero_le _
  have hbound : HexScan.bound text {} < 2 * text.length + 2 := by
    show 2 * (text.length - 0) + 1 < 2 * text.length + 2
    omega
  have hresult : HexScan.result text {} = parseHexBytes text := by
    show (parseHexBytes text).map ([] ++ ·) = _
    cases parseHexBytes text <;> rfl
  refine ⟨parseHexBytes_toHex bytes, hloops.run_ne_none hstart, ?_, fun read => ?_⟩
  · rw [hloops.run_eq hstart hbound, hresult]
  · exact ⟨hexText_of_parseHexBytes, parseHexBytes_hexText⟩

/-- Pairs of digits for the bytes, with white space between two pairs or without. -/
inductive SeparatedPairs : List UInt8 → Text → Prop
  | nil : SeparatedPairs [] []
  | single {b : UInt8} {c d : Char} : HexDigit (b.toNat / 16) c → HexDigit (b.toNat % 16) d →
      SeparatedPairs [b] [c, d]
  | cons {gap text : Text} {b b' : UInt8} {bytes : List UInt8} {c d : Char} :
      HexDigit (b.toNat / 16) c → HexDigit (b.toNat % 16) d → (∀ c ∈ gap, isSpace c = true) →
      SeparatedPairs (b' :: bytes) text → SeparatedPairs (b :: b' :: bytes) (c :: d :: gap ++ text)

/-- A blank before the first pair separates nothing, and is passed over. -/
theorem blank_before_pair_read :
    ¬ ((∃ bytes, parseHexBytes [' ', '0', 'a'] = .ok bytes) ↔
      ∃ bytes, SeparatedPairs bytes [' ', '0', 'a']) := by
  intro h
  have hread : parseHexBytes [' ', '0', 'a'] = .ok [0x0a] := by decide
  obtain ⟨bytes, hpairs⟩ := h.mp ⟨_, hread⟩
  have hblank : ∀ b : UInt8, ¬ HexDigit (b.toNat / 16) ' ' := by
    intro b hdigit
    cases hdigit.isSpace_eq (byte_halves b).1
  generalize htext : [' ', '0', 'a'] = text at hpairs
  cases hpairs with
  | nil => cases htext
  | single hhi => cases htext
  | @cons _ _ b _ _ _ _ hhi =>
    rw [← (List.cons.inj htext).1] at hhi
    exact hblank b hhi

end OpcServer.Adapters
