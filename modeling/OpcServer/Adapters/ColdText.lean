import OpcServer.Adapters.SqliteHistorian
import OpcServer.Core.IntegerCodec
import OpcServer.Lib.DecimalText
import OpcServer.Lib.Traverse

/-! The text form of the values in the cold table. Floating-point values are printed with
six significant digits, so of the whole numbers only those with no more digits are read
back as they were written. -/

namespace OpcServer.Adapters

open Domain TextStream DecimalText Transition Traverse

section Text

variable [Platform]

/-! ### Whole numbers in floating point -/

/-- A whole number with a sign; with it there are two zeros where the platform has two. -/
def wholeDouble (negative : Bool) (n : ℕ) : Double :=
  if negative then Platform.mul (Platform.ofInt (-1)) (Platform.ofInt n) else Platform.ofInt n

def wholeSingle (negative : Bool) (n : ℕ) : Single := Platform.narrow (wholeDouble negative n)

section Decimal
omit [Platform]

/-- What `%g` prints for a whole number. -/
def generalText (negative : Bool) (n : ℕ) : Text :=
  if negative then '-' :: general 6 n else general 6 n

/-- The sign and the magnitude that a text denotes. -/
def readSignedDecimal : Text → Option (Bool × ℚ)
  | '-' :: text => (readDecimal text).map (true, ·)
  | text => (readDecimal text).map (false, ·)

/-- A significand of `p` bits is enough, within the range of a `float`. -/
def Exact (p n : ℕ) : Prop := (∃ m k, m ≤ 2 ^ p ∧ n = m * 2 ^ k) ∧ n < 2 ^ 128

end Decimal

/-- The documented behaviour on whole numbers: they are printed as `%g` prints them, a
text that denotes one is converted exactly, and different ones are different values. -/
structure FloatText.Standard (floats : FloatText) : Prop where
  printDouble : ∀ negative n, n ≤ 2 ^ 53 → ∃ sign, wholeDouble sign n = wholeDouble negative n ∧
    floats.printDouble (wholeDouble negative n) = generalText sign n
  printSingle : ∀ negative n, n ≤ 2 ^ 24 → ∃ sign, wholeSingle sign n = wholeSingle negative n ∧
    floats.printSingle (wholeSingle negative n) = generalText sign n
  stod : ∀ text sign (n : ℕ), readSignedDecimal text = some (sign, (n : ℚ)) → Exact 53 n →
    floats.stod text = some (wholeDouble sign n)
  stof : ∀ text sign (n : ℕ), readSignedDecimal text = some (sign, (n : ℚ)) → Exact 24 n →
    floats.stof text = some (wholeSingle sign n)
  double_inj : ∀ sign sign' n n', Exact 53 n → Exact 53 n' →
    wholeDouble sign n = wholeDouble sign' n' → n = n'
  single_inj : ∀ sign sign' n n', Exact 24 n → Exact 24 n' →
    wholeSingle sign n = wholeSingle sign' n' → n = n'

section Decimal
omit [Platform]

theorem readSignedDecimal_generalText (negative : Bool) (n : ℕ) :
    readSignedDecimal (generalText negative n) = some (negative, (rounded 6 n : ℚ)) := by
  have hread := readDecimal_general 6 n (by decide)
  cases negative with
  | true =>
    show (readDecimal (general 6 n)).map (true, ·) = _
    rw [hread]
    rfl
  | false =>
    obtain ⟨d, text, htext, hd⟩ := general_eq_cons 6 n
    show readSignedDecimal (general 6 n) = _
    rw [htext] at hread ⊢
    unfold readSignedDecimal
    split
    · rename_i heq
      rw [(List.cons.inj heq).1] at hd
      cases hd
    · rw [hread]
      rfl

theorem exact_of_le {p n : ℕ} (hp : p < 128) (h : n ≤ 2 ^ p) : Exact p n :=
  ⟨⟨n, 0, h, by simp⟩, h.trans_lt (Nat.pow_lt_pow_right (by decide) hp)⟩

/-- A decimal number of few digits is exact: its power of ten has as many factors two. -/
theorem exact_of_decimal {p m k : ℕ} (h : m * 5 ^ k ≤ 2 ^ p) (hlt : m * 10 ^ k < 2 ^ 128) :
    Exact p (m * 10 ^ k) := by
  refine ⟨⟨m * 5 ^ k, k, h, ?_⟩, hlt⟩
  rw [Nat.mul_assoc, ← Nat.mul_pow]

theorem excess_le_of_lt {n k : ℕ} (h : n < 10 ^ (6 + k)) : excess 6 n ≤ k := by
  have := (Nat.length_toDigits_le_iff (b := 10) (by decide) (by omega)).mpr h
  unfold excess
  omega

theorem exact_rounded_double {n : ℕ} (h : n ≤ 2 ^ 53) : Exact 53 (rounded 6 n) := by
  have hk : excess 6 n ≤ 10 := excess_le_of_lt (h.trans_lt (by decide))
  have hm : significand 6 n ≤ 10 ^ 6 := significand_le 6 n
  refine exact_of_decimal ?_ ?_
  · exact (Nat.mul_le_mul hm (Nat.pow_le_pow_right (by decide) hk)).trans (by decide)
  · exact (Nat.mul_le_mul hm (Nat.pow_le_pow_right (by decide) hk)).trans_lt (by decide)

/-- A `float` with eight digits is below 16777300, so that rounding keeps it exact. -/
theorem exact_rounded_single {n : ℕ} (h : n ≤ 2 ^ 24) : Exact 24 (rounded 6 n) := by
  have hk : excess 6 n ≤ 2 := excess_le_of_lt (h.trans_lt (by decide))
  have hbound : ∀ {b}, n ≤ b * 10 ^ excess 6 n → significand 6 n ≤ b :=
    roundQuotient_le (Nat.pow_pos (by decide))
  have hm : significand 6 n ≤ 10 ^ 6 := significand_le 6 n
  rw [rounded]
  generalize excess 6 n = k at hk hbound ⊢
  obtain rfl | rfl | rfl : k = 0 ∨ k = 1 ∨ k = 2 := by omega
  · exact exact_of_decimal (by omega) (by omega)
  · exact exact_of_decimal (by omega) (by omega)
  · have := hbound (b := 167773) (by omega)
    exact exact_of_decimal (by omega) (by omega)

end Decimal

/-! ### Values -/

/-- A floating-point value is a whole number in the exact range of its type. -/
def WholeValue : ScalarValue → Prop
  | .float v => ∃ sign n, n ≤ 2 ^ 24 ∧ v = wholeSingle sign n
  | .double v => ∃ sign n, n ≤ 2 ^ 53 ∧ v = wholeDouble sign n
  | _ => True

/-- A floating-point value is a whole number with at most six significant digits. -/
def SixDigits : ScalarValue → Prop
  | .float v => ∃ sign n, n ≤ 2 ^ 24 ∧ HasDigits 6 n ∧ v = wholeSingle sign n
  | .double v => ∃ sign n, n ≤ 2 ^ 53 ∧ HasDigits 6 n ∧ v = wholeDouble sign n
  | _ => True

variable {floats : FloatText}

theorem parsed_eq_ok {α : Type} {make : α → ScalarValue} {read : Option α} {v : α}
    (h : read = some v) : parsed make read = .ok (make v) := by
  rw [h]
  rfl

section Integers
omit [Platform]

theorem readInt_whole {low high n : ℤ} (hlow : low ≤ n) (hhigh : n ≤ high) :
    readInt low high (printInt n) = some (n, []) := by
  have hempty : ∀ c ∈ ([] : Text).head?, c.isDigit = false := by simp
  simpa using readInt_printInt hlow hhigh hempty

theorem stoul_printInt {n : ℕ} (h : n < 2 ^ 64) : SqliteHistorian.stoul (printInt n) = some n := by
  rw [SqliteHistorian.stoul, readInt_whole (by omega) (by omega)]
  simp only [Option.map_some, Option.some.injEq]
  omega

theorem stoi_printInt {n : ℤ} (hlow : -2 ^ 31 ≤ n) (hhigh : n < 2 ^ 31) :
    SqliteHistorian.stoi (printInt n) = some n := by
  rw [SqliteHistorian.stoi, readInt_whole hlow (by omega)]
  rfl

theorem stol_printInt {n : ℤ} (hlow : -2 ^ 63 ≤ n) (hhigh : n < 2 ^ 63) :
    SqliteHistorian.stol (printInt n) = some n := by
  rw [SqliteHistorian.stol, readInt_whole hlow (by omega)]
  rfl

/-- The rounded number is the number itself exactly when its digits are printed. -/
theorem whole_rounded_eq_iff {α : Type} {whole : Bool → ℕ → α} {p n : ℕ} {sign sign' : Bool}
    (hinj : ∀ sign sign' n n', Exact p n → Exact p n' → whole sign n = whole sign' n' → n = n')
    (hp : p < 128) (hn : n ≤ 2 ^ p) (hround : Exact p (rounded 6 n))
    (hsign : whole sign' n = whole sign n) :
    whole sign' (rounded 6 n) = whole sign n ↔
      ∃ other m, m ≤ 2 ^ p ∧ HasDigits 6 m ∧ whole sign n = whole other m := by
  constructor
  · intro heq
    have hround := hinj _ _ _ _ hround (exact_of_le hp hn) heq
    exact ⟨sign, n, hn, (rounded_eq_iff (by decide)).mp hround, rfl⟩
  · rintro ⟨other, m, hm, hdigits, heq⟩
    obtain rfl := hinj _ _ _ _ (exact_of_le hp hn) (exact_of_le hp hm) heq
    rw [(rounded_eq_iff (by decide)).mpr hdigits, hsign]

end Integers

/-- What is read back for a whole `double` is the number rounded to six digits. -/
theorem stod_printDouble (hfloats : floats.Standard) (sign : Bool) {n : ℕ} (h : n ≤ 2 ^ 53) :
    ∃ sign', wholeDouble sign' n = wholeDouble sign n ∧
      floats.stod (floats.printDouble (wholeDouble sign n)) =
        some (wholeDouble sign' (rounded 6 n)) := by
  obtain ⟨sign', hsign, htext⟩ := hfloats.printDouble sign n h
  refine ⟨sign', hsign, ?_⟩
  rw [htext]
  exact hfloats.stod _ _ _ (readSignedDecimal_generalText sign' n) (exact_rounded_double h)

theorem stof_printSingle (hfloats : floats.Standard) (sign : Bool) {n : ℕ} (h : n ≤ 2 ^ 24) :
    ∃ sign', wholeSingle sign' n = wholeSingle sign n ∧
      floats.stof (floats.printSingle (wholeSingle sign n)) =
        some (wholeSingle sign' (rounded 6 n)) := by
  obtain ⟨sign', hsign, htext⟩ := hfloats.printSingle sign n h
  refine ⟨sign', hsign, ?_⟩
  rw [htext]
  exact hfloats.stof _ _ _ (readSignedDecimal_generalText sign' n) (exact_rounded_single h)

/-- Read back from its text, a value is itself unless it has more than six digits. -/
theorem textToValue_eq_iff (hfloats : floats.Standard) {v : ScalarValue} (hv : WholeValue v) :
    textToValue floats (valueTypeName v) (valueToText floats v) = .ok v ↔ SixDigits v := by
  cases v with
  | monostate => exact iff_of_true rfl trivial
  | bool v => cases v <;> exact iff_of_true rfl trivial
  | uint16 v =>
    refine iff_of_true ?_ trivial
    have hread := stoul_printInt (n := v.toNat) (by have := v.toNat_lt; omega)
    exact (parsed_eq_ok hread).trans (by rw [UInt16.ofNat_toNat])
  | int16 v =>
    refine iff_of_true ?_ trivial
    have hread := stoi_printInt (n := v.toInt) (by have := v.le_toInt; omega)
      (by have := v.toInt_lt; omega)
    exact (parsed_eq_ok hread).trans (by rw [Int16.ofInt_toInt])
  | uint32 v =>
    refine iff_of_true ?_ trivial
    have hread := stoul_printInt (n := v.toNat) (by have := v.toNat_lt; omega)
    exact (parsed_eq_ok hread).trans (by rw [UInt32.ofNat_toNat])
  | int32 v =>
    refine iff_of_true ?_ trivial
    have hread := stol_printInt (n := v.toInt) (by have := v.le_toInt; omega)
      (by have := v.toInt_lt; omega)
    exact (parsed_eq_ok hread).trans (by rw [Int32.ofInt_toInt])
  | float v =>
    obtain ⟨sign, n, hn, rfl⟩ := hv
    obtain ⟨sign', hsign, hread⟩ := stof_printSingle hfloats sign hn
    have htext : textToValue floats "f32" (floats.printSingle (wholeSingle sign n)) =
        .ok (.float (wholeSingle sign' (rounded 6 n))) := parsed_eq_ok hread
    refine Iff.trans ?_ (whole_rounded_eq_iff hfloats.single_inj (by decide) hn
      (exact_rounded_single hn) hsign)
    show textToValue floats "f32" (floats.printSingle (wholeSingle sign n)) = _ ↔ _
    rw [htext, Except.ok.injEq, ScalarValue.float.injEq]
  | double v =>
    obtain ⟨sign, n, hn, rfl⟩ := hv
    obtain ⟨sign', hsign, hread⟩ := stod_printDouble hfloats sign hn
    have htext : textToValue floats "f64" (floats.printDouble (wholeDouble sign n)) =
        .ok (.double (wholeDouble sign' (rounded 6 n))) := parsed_eq_ok hread
    refine Iff.trans ?_ (whole_rounded_eq_iff hfloats.double_inj (by decide) hn
      (exact_rounded_double hn) hsign)
    show textToValue floats "f64" (floats.printDouble (wholeDouble sign n)) = _ ↔ _
    rw [htext, Except.ok.injEq, ScalarValue.double.injEq]

/-! ### Samples -/

/-- What `load_cold` makes of a sample that was inserted. -/
def restored (floats : FloatText) (sample : HistorianSample) : Result HistorianSample :=
  readRow floats (bindSample floats sample)

section Codes
omit [Platform]

theorem quality_restored (quality : Quality) :
    qualities.getD (qualities.idxOf quality : ℤ).toNat .bad = quality := by
  cases quality <;> rfl

theorem reason_restored (reason : QualityReason) :
    qualityReasons.getD (qualityReasons.idxOf reason : ℤ).toNat .none = reason := by
  cases reason <;> rfl

theorem epoch_restored {epoch : ℕ} (h : epoch < 2 ^ 64) :
    (Int.bmod epoch (2 ^ 64) % 2 ^ 64).toNat = epoch := by
  have := Int.bmod_emod (x := (epoch : ℤ)) (m := 2 ^ 64)
  omega

end Codes

/-- Every field of a sample but the value comes back as it was. -/
theorem restored_eq (floats : FloatText) {sample : HistorianSample}
    (hepoch : sample.value.epoch < 2 ^ 64) :
    restored floats sample =
      (textToValue floats (valueTypeName sample.value.value)
        (valueToText floats sample.value.value)).map fun value =>
          { sample with value := { sample.value with value := value } } := by
  show (textToValue floats (valueTypeName sample.value.value)
    (valueToText floats sample.value.value)).map _ = _
  congr 1
  funext value
  simp only [bindSample]
  rw [quality_restored, reason_restored, epoch_restored hepoch, Int.toNat_natCast]

theorem restored_eq_self_iff (hfloats : floats.Standard) {sample : HistorianSample}
    (hvalue : WholeValue sample.value.value) (hepoch : sample.value.epoch < 2 ^ 64) :
    restored floats sample = .ok sample ↔ SixDigits sample.value.value := by
  rw [← textToValue_eq_iff hfloats hvalue, restored_eq floats hepoch]
  generalize textToValue floats _ _ = result
  cases result with
  | error e => exact iff_of_false (fun h => by cases h) fun h => by cases h
  | ok value =>
    constructor
    · intro h
      have hsample := congrArg (fun x => x.value.value) (Except.ok.inj h)
      exact congrArg _ hsample
    · intro h
      rw [Except.ok.inj h]
      rfl

theorem loadCold_eq {s : SqliteHistorian} (hopen : s.openError = none) (max : ℕ) :
    s.loadCold floats max = ((s.selected max).map (·.1)).mapM (restored floats) := by
  rw [SqliteHistorian.loadCold, hopen]
  simp only [List.mapM_map]
  rfl

/-- The calls that record a list of samples and then flush them. -/
def recordAndFlush (samples : List HistorianSample) : List HistorianAction :=
  samples.map (fun x => .record x.id x.value) ++ [.swap, .insertBatch 0 none]

theorem run_records (samples : List HistorianSample) (s : SqliteHistorian) :
    ∃ t, run SqliteHistorian.step (samples.map fun x => .record x.id x.value) s = some t ∧
      t.pending.map (·.1) = s.pending.map (·.1) ++ samples ∧ t.flushes = s.flushes ∧
      t.rows = s.rows ∧ t.openError = s.openError := by
  induction samples generalizing s with
  | nil => exact ⟨s, rfl, by simp, rfl, rfl, rfl⟩
  | cons x samples ih =>
    obtain ⟨t, hrun, hpending, hflushes, hrows, hopen⟩ := ih (s.record x.id x.value)
    refine ⟨t, hrun, ?_, hflushes, hrows, hopen⟩
    rw [hpending]
    simp [SqliteHistorian.record]

/-- A flush without another in progress, whose transaction succeeds. -/
theorem run_flush {s : SqliteHistorian} (hflushes : s.flushes = []) (hopen : s.openError = none) :
    run SqliteHistorian.step [.swap, .insertBatch 0 none] s =
      some { s with pending := [], rows := s.rows ++ s.pending, flushes := [] } := by
  have hinsert : ∀ t : SqliteHistorian, t.openError = none → ∀ batch,
      t.insertBatch batch none = .ok () := by
    intro t ht batch
    rw [SqliteHistorian.insertBatch, ht]
    exact ite_self _
  simp [SqliteHistorian.step, hflushes, hinsert, hopen]

/-- Recording samples and flushing them keeps every whole value in the cold table, except
those of more than six digits. A limit that SQLite has no integer for loads nothing. -/
theorem cold_values_preserved_iff (hfloats : floats.Standard) :
    (∀ v, WholeValue v →
      (textToValue floats (valueTypeName v) (valueToText floats v) = .ok v ↔ SixDigits v)) ∧
    ∀ (hotCapacity : ℕ) (samples : List HistorianSample) (max : ℕ),
      (∀ x ∈ samples, WholeValue x.value.value ∧ x.value.epoch < 2 ^ 64) →
      samples.length ≤ max →
      ∃ s, run SqliteHistorian.step (recordAndFlush samples) (.new hotCapacity none) = some s ∧
        (s.loadCold floats max = .ok samples ↔
          (max < 2 ^ 63 ∨ samples = []) ∧ ∀ x ∈ samples, SixDigits x.value.value) := by
  refine ⟨fun v hv => textToValue_eq_iff hfloats hv, fun hotCapacity samples max hsamples hmax => ?_⟩
  obtain ⟨t, hrun, hpending, hflushes, hrows, hopen⟩ :=
    run_records samples (.new hotCapacity none)
  obtain ⟨s, hstep, hopened, hstored⟩ :
      ∃ s, run SqliteHistorian.step [.swap, .insertBatch 0 none] t = some s ∧
        s.openError = none ∧ s.rows.map (·.1) = samples := by
    refine ⟨_, run_flush hflushes hopen, hopen, ?_⟩
    show (t.rows ++ t.pending).map (·.1) = samples
    rw [List.map_append, hrows, hpending]
    rfl
  refine ⟨s, ?_, ?_⟩
  · rw [recordAndFlush, run_append, hrun]
    exact hstep
  · have hsix : (∀ x ∈ samples, restored floats x = .ok x) ↔
        ∀ x ∈ samples, SixDigits x.value.value := forall₂_congr fun x hx =>
      restored_eq_self_iff hfloats (hsamples x hx).1 (hsamples x hx).2
    rw [loadCold_eq hopened, SqliteHistorian.selected]
    split_ifs with hlimit
    · have hall : s.rows.take max = s.rows := by
        refine List.take_of_length_le ?_
        rw [← List.length_map (f := (·.1)), hstored]
        exact hmax
      rw [hall, hstored, mapM_eq_ok_self_iff, hsix]
      exact (and_iff_right (.inl hlimit)).symm
    · constructor
      · intro h
        obtain rfl : [] = samples := Except.ok.inj h
        exact ⟨.inr rfl, fun x hx => absurd hx List.not_mem_nil⟩
      · rintro ⟨hbound | rfl, -⟩
        · exact absurd hbound hlimit
        · rfl

end Text

/-! ### Exact arithmetic -/

attribute [local instance] exactPlatform

/-- The texts of the standard library over the rationals, where a fraction is rounded to
a whole number before it is printed. -/
def exactText : FloatText where
  printSingle q := generalText (roundHalfAway q < 0) (roundHalfAway q).natAbs
  printDouble q := generalText (roundHalfAway q < 0) (roundHalfAway q).natAbs
  stof text := (readSignedDecimal text).map fun (negative, q) => if negative then -q else q
  stod text := (readSignedDecimal text).map fun (negative, q) => if negative then -q else q

theorem wholeDouble_eq (negative : Bool) (n : ℕ) :
    wholeDouble negative n = if negative then -(n : ℚ) else n := by
  cases negative with
  | false => rfl
  | true =>
    show ((-1 : ℤ) : ℚ) * ((n : ℤ) : ℚ) = -(n : ℚ)
    push_cast
    ring

/-- A whole number keeps its magnitude, and its sign unless it is zero. -/
theorem exactText_print (negative : Bool) (n : ℕ) :
    ∃ sign, wholeDouble sign n = wholeDouble negative n ∧
      exactText.printDouble (wholeDouble negative n) = generalText sign n := by
  have hround : ∀ m : ℤ, exactText.printDouble (m : ℚ) = generalText (m < 0) m.natAbs := by
    intro m
    show generalText (roundHalfAway m < 0) (roundHalfAway m).natAbs = _
    rw [Domain.roundHalfAway_intCast]
  cases negative with
  | false =>
    refine ⟨false, rfl, ?_⟩
    rw [wholeDouble_eq]
    simpa [Int.natCast_nonneg n |>.not_gt] using hround n
  | true =>
    by_cases hzero : n = 0
    · subst hzero
      exact ⟨false, by rw [wholeDouble_eq, wholeDouble_eq]; simp, by
        rw [wholeDouble_eq]
        simpa using hround 0⟩
    · refine ⟨true, rfl, ?_⟩
      rw [wholeDouble_eq]
      have := hround (-n)
      simpa [Nat.pos_of_ne_zero hzero] using this

theorem exactText_read {text : Text} {sign : Bool} {n : ℕ}
    (h : readSignedDecimal text = some (sign, (n : ℚ))) :
    exactText.stod text = some (wholeDouble sign n) := by
  rw [wholeDouble_eq]
  show (readSignedDecimal text).map _ = _
  rw [h]
  rfl

theorem wholeDouble_inj {sign sign' : Bool} {n n' : ℕ}
    (h : wholeDouble sign n = wholeDouble sign' n') : n = n' := by
  have habs : ∀ (sign : Bool) (n : ℕ), |(if sign then -(n : ℚ) else (n : ℚ))| = (n : ℚ) := by
    intro sign n
    cases sign <;> simp
  rw [wholeDouble_eq, wholeDouble_eq] at h
  have hsame := congrArg (fun q : ℚ => |q|) h
  simp only [habs] at hsame
  exact_mod_cast hsame

theorem exactText_standard : exactText.Standard where
  printDouble negative n _ := exactText_print negative n
  printSingle negative n _ := exactText_print negative n
  stod _ _ _ h _ := exactText_read h
  stof _ _ _ h _ := exactText_read h
  double_inj _ _ _ _ _ _ h := wholeDouble_inj h
  single_inj _ _ _ _ _ _ h := wholeDouble_inj h

def doubleSample (n : ℕ) : HistorianSample :=
  { id := 7, value := { value := .double (wholeDouble false n), quality := .good, reason := .none } }

/-- A `double` with seven digits comes back as another number. -/
theorem seven_digits_not_preserved :
    exactText.Standard ∧ WholeValue (.double (wholeDouble false 1234567)) ∧
    valueToText exactText (.double (wholeDouble false 1234567)) = "1.23457e+06".toList ∧
    textToValue exactText "f64" "1.23457e+06".toList = .ok (.double (wholeDouble false 1234570)) ∧
    textToValue exactText (valueTypeName (.double (wholeDouble false 1234567)))
        (valueToText exactText (.double (wholeDouble false 1234567))) ≠
      .ok (.double (wholeDouble false 1234567)) :=
  ⟨exactText_standard, ⟨false, 1234567, by decide, rfl⟩, by decide +kernel, by decide +kernel,
    by decide +kernel⟩

/-- Six digits with a zero after them are preserved, seven are not. -/
theorem cold_values_preserved_samples :
    (∃ s, run SqliteHistorian.step (recordAndFlush [doubleSample 1234560, doubleSample 42])
        (.new 4 none) = some s ∧
      s.loadCold exactText 10 = .ok [doubleSample 1234560, doubleSample 42]) ∧
    ∃ s, run SqliteHistorian.step (recordAndFlush [doubleSample 1234567]) (.new 4 none) = some s ∧
      s.loadCold exactText 10 ≠ .ok [doubleSample 1234567] := by
  have hwhole : ∀ n, n ≤ 2 ^ 53 → WholeValue (doubleSample n).value.value ∧
      (doubleSample n).value.epoch < 2 ^ 64 := fun n hn => ⟨⟨false, n, hn, rfl⟩, Nat.two_pow_pos 64⟩
  obtain ⟨-, hsamples⟩ := cold_values_preserved_iff exactText_standard
  obtain ⟨s, hrun, hload⟩ := hsamples 4 [doubleSample 1234560, doubleSample 42] 10
    (List.forall_mem_cons.mpr ⟨hwhole _ (by decide),
      List.forall_mem_singleton.mpr (hwhole _ (by decide))⟩) (by decide)
  obtain ⟨t, hrunt, hloadt⟩ := hsamples 4 [doubleSample 1234567] 10
    (List.forall_mem_singleton.mpr (hwhole _ (by decide))) (by decide)
  refine ⟨⟨s, hrun, hload.mpr ?_⟩, t, hrunt, ?_⟩
  · refine ⟨.inl (by decide), List.forall_mem_cons.mpr ⟨?_, List.forall_mem_singleton.mpr ?_⟩⟩
    · exact ⟨false, 1234560, by decide, ⟨123456, 1, by decide, by decide⟩, rfl⟩
    · exact ⟨false, 42, by decide, ⟨42, 0, by decide, by decide⟩, rfl⟩
  · intro hok
    obtain ⟨sign, n, hn, hdigits, heq⟩ := (hloadt.mp hok).2 _ List.mem_cons_self
    obtain rfl := wholeDouble_inj heq
    exact absurd ((rounded_eq_iff (by decide)).mpr hdigits) (by decide +kernel)

end OpcServer.Adapters
