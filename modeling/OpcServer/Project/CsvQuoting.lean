import OpcServer.Project.ImportCsv
import Mathlib.Algebra.Group.Nat.Even

/-! Fields on a line of CSV. What is between quotes may hold commas, and quotes that are
doubled. `parse_csv_line` inverts this notation, and on any line it only follows the parity
of the quotes: it is between quotes exactly where an odd number of them stands before. -/

set_option linter.dupNamespace false

namespace OpcServer.Project

open TextStream

/-! ### The notation of fields -/

/-- A field between quotes, its own quotes doubled. -/
def quotedField (field : Text) : Text :=
  '"' :: field.flatMap (fun c => if c = '"' then ['"', '"'] else [c]) ++ ['"']

/-- A field is written between quotes, or as it is if it has neither comma nor quote. -/
inductive WrittenAs (field : Text) : Text → Prop
  | quoted : WrittenAs field (quotedField field)
  | plain : ',' ∉ field → '"' ∉ field → WrittenAs field field

/-! ### Steps of the scan -/

theorem scanCsvLine_inside {c : Char} (hc : c ≠ '"') (current rest : Text) :
    scanCsvLine true current (c :: rest) = scanCsvLine true (current ++ [c]) rest := by
  simp [scanCsvLine, hc]

theorem scanCsvLine_close {rest : Text} (hrest : rest.head? ≠ some '"') (current : Text) :
    scanCsvLine true current ('"' :: rest) = scanCsvLine false current rest := by
  cases rest with
  | nil => rfl
  | cons c rest =>
    have hc : c ≠ '"' := fun h => hrest (by rw [h, List.head?_cons])
    simp [scanCsvLine, hc]

theorem scanCsvLine_outside {c : Char} (hquote : c ≠ '"') (hcomma : c ≠ ',') (hreturn : c ≠ '\r')
    (current rest : Text) :
    scanCsvLine false current (c :: rest) = scanCsvLine false (current ++ [c]) rest := by
  rw [scanCsvLine, if_neg hquote, if_neg hcomma, if_neg hreturn]

/-! ### Reading a line back -/

/-- What is written between quotes is read up to the quote that ends it. -/
theorem scanCsvLine_doubled (field : Text) {rest : Text} (hrest : rest.head? ≠ some '"')
    (current : Text) :
    scanCsvLine true current
        (field.flatMap (fun c => if c = '"' then ['"', '"'] else [c]) ++ '"' :: rest) =
      scanCsvLine false (current ++ field) rest := by
  induction field generalizing current with
  | nil => rw [List.append_nil]; exact scanCsvLine_close hrest current
  | cons c field ih =>
    rw [List.append_cons current, ← ih, List.flatMap_cons, List.append_assoc]
    by_cases hc : c = '"'
    · subst hc
      rfl
    · rw [if_neg hc]
      exact scanCsvLine_inside hc current _

theorem scanCsvLine_plain {field : Text} (hcomma : ',' ∉ field) (hquote : '"' ∉ field)
    (hreturn : '\r' ∉ field) (current rest : Text) :
    scanCsvLine false current (field ++ rest) = scanCsvLine false (current ++ field) rest := by
  induction field generalizing current with
  | nil => rw [List.append_nil, List.nil_append]
  | cons c field ih =>
    rw [List.mem_cons, not_or] at hcomma hquote hreturn
    rw [List.cons_append,
      scanCsvLine_outside (Ne.symm hquote.1) (Ne.symm hcomma.1) (Ne.symm hreturn.1),
      ih hcomma.2 hquote.2 hreturn.2, ← List.append_cons]

/-- A written field is read whole, if no quote follows it. -/
theorem scanCsvLine_written {field cell : Text} (h : WrittenAs field cell)
    (hreturn : '\r' ∉ field) {rest : Text} (hrest : rest.head? ≠ some '"') :
    scanCsvLine false [] (cell ++ rest) = scanCsvLine false field rest := by
  cases h with
  | quoted =>
    rw [quotedField, List.cons_append, List.cons_append, List.append_assoc, List.singleton_append]
    exact scanCsvLine_doubled field hrest []
  | plain hcomma hquote => exact scanCsvLine_plain hcomma hquote hreturn [] rest

theorem parseCsvLine_intercalate {fields cells : List Text} (h : List.Forall₂ WrittenAs fields cells)
    (hne : fields ≠ []) (hreturn : ∀ field ∈ fields, '\r' ∉ field) :
    parseCsvLine ([','].intercalate cells) = .ok fields := by
  unfold parseCsvLine
  induction h with
  | nil => exact absurd rfl hne
  | @cons field cell fields cells hcell hcells ih =>
    obtain ⟨hhead, htail⟩ := List.forall_mem_cons.mp hreturn
    cases hcells with
    | nil =>
      have h := scanCsvLine_written hcell hhead (show ([] : Text).head? ≠ some '"' by simp)
      rw [List.append_nil] at h
      rw [List.intercalate_singleton, h]
      rfl
    | @cons next cell' fields cells hcell' hcells' =>
      have hline : [','].intercalate (cell :: cell' :: cells) =
          cell ++ ',' :: [','].intercalate (cell' :: cells) := by
        rw [List.intercalate_cons_cons, List.append_assoc, List.singleton_append]
      rw [hline, scanCsvLine_written hcell hhead (by simp)]
      show Except.map _ (scanCsvLine false [] _) = _
      rw [ih (List.cons_ne_nil _ _) htail]
      rfl

/-! ### The parity of the quotes -/

/-- The commas of a line with an even number of quotes before them; `quotes` of these stand
before the line. -/
def separators (quotes : ℕ) (text : Text) : ℕ :=
  (List.range text.length).countP fun i =>
    text[i]? = some ',' ∧ Even (quotes + (text.take i).count '"')

theorem separators_cons (quotes : ℕ) (c : Char) (line : Text) :
    separators quotes (c :: line) =
      (if c = ',' ∧ Even quotes then 1 else 0) +
        separators (quotes + if c = '"' then 1 else 0) line := by
  have hlater : ∀ i, quotes + ((c :: line).take (i + 1)).count '"' =
      (quotes + if c = '"' then 1 else 0) + (line.take i).count '"' := by
    intro i
    rw [List.take_succ_cons, List.count_cons]
    simp only [beq_iff_eq]
    omega
  unfold separators
  rw [List.length_cons, List.range_succ_eq_map, List.countP_cons, List.countP_map, Nat.add_comm]
  congr 1
  · simp
  · apply List.countP_congr
    intro i _
    simp only [Function.comp_apply, List.getElem?_cons_succ, hlater]

/-- Two more quotes before a line change nothing. -/
theorem separators_add_two (quotes : ℕ) (line : Text) :
    separators (quotes + 2) line = separators quotes line := by
  apply List.countP_congr
  intro i _
  have hparity : Even (quotes + 2 + (line.take i).count '"') ↔
      Even (quotes + (line.take i).count '"') := by
    rw [Nat.add_right_comm, Nat.even_add, iff_true_right even_two]
  simp only [hparity]

/-- What is read from a line with a number of quotes before it: an error if the quotes are
odd in all, and otherwise a field more than there are separators. -/
def CountsAs (quotes : ℕ) (line : Text) : Except String (List Text) → Prop
  | .error _ => Odd (quotes + line.count '"')
  | .ok fields => Even (quotes + line.count '"') ∧ fields.length = separators quotes line + 1

namespace CountsAs
variable {quotes : ℕ} {line : Text} {r : Except String (List Text)}

theorem add_two : CountsAs (quotes + 2) line r ↔ CountsAs quotes line r := by
  have hcount : quotes + 2 + line.count '"' = quotes + line.count '"' + 2 := by omega
  cases r with
  | error e => rw [CountsAs, CountsAs, hcount, Nat.odd_add, iff_true_right even_two]
  | ok fields =>
    rw [CountsAs, CountsAs, hcount, Nat.even_add, iff_true_right even_two, separators_add_two]

theorem quote (h : CountsAs (quotes + 1) line r) : CountsAs quotes ('"' :: line) r := by
  have hcount : quotes + ('"' :: line).count '"' = quotes + 1 + line.count '"' := by
    rw [List.count_cons_self]
    omega
  cases r with
  | error e => rwa [CountsAs, hcount]
  | ok fields =>
    rw [CountsAs, hcount, separators_cons, if_neg (by simp), if_pos rfl, Nat.zero_add]
    exact h

/-- A character that is no quote, and no comma outside quotes. -/
theorem cons {c : Char} (hquote : c ≠ '"') (hcomma : c = ',' → Odd quotes)
    (h : CountsAs quotes line r) : CountsAs quotes (c :: line) r := by
  have hcount : (c :: line).count '"' = line.count '"' := List.count_cons_of_ne hquote
  have hno : ¬ (c = ',' ∧ Even quotes) := by
    rintro ⟨rfl, heven⟩
    exact Nat.not_even_iff_odd.mpr (hcomma rfl) heven
  cases r with
  | error e => rwa [CountsAs, hcount]
  | ok fields =>
    rw [CountsAs, hcount, separators_cons, if_neg hno, if_neg hquote, Nat.zero_add]
    exact h

theorem comma (heven : Even quotes) (field : Text) (h : CountsAs quotes line r) :
    CountsAs quotes (',' :: line) (r.map (field :: ·)) := by
  have hcount : (',' :: line).count '"' = line.count '"' := List.count_cons_of_ne (by decide)
  cases r with
  | error e =>
    show Odd _
    rwa [hcount]
  | ok fields =>
    obtain ⟨hparity, hlength⟩ := h
    refine ⟨by rwa [hcount], ?_⟩
    rw [separators_cons, if_pos ⟨rfl, heven⟩, if_neg (by decide), List.length_cons, hlength]
    show _ = 1 + separators quotes line + 1
    omega

end CountsAs

/-- The scan is between quotes as if one quote stood before the line. -/
theorem scanCsvLine_countsAs (inQuotes : Bool) (current line : Text) :
    CountsAs inQuotes.toNat line (scanCsvLine inQuotes current line) := by
  fun_induction scanCsvLine inQuotes current line with
  | case1 current rest ih => exact .quote (.quote (CountsAs.add_two.mpr ih))
  | case2 current rest _ ih => exact .quote (CountsAs.add_two.mpr ih)
  | case3 current c rest _ hc ih => exact .cons hc (fun _ => odd_one) ih
  | case4 current => exact odd_one
  | case5 current rest ih => exact .quote ih
  | case6 current rest _ ih => exact .comma Even.zero current ih
  | case7 current rest _ _ ih => exact .cons (by decide) (by decide) ih
  | case8 current c rest hquote hcomma _ ih => exact .cons hquote (fun h => absurd h hcomma) ih
  | case9 current => exact ⟨Even.zero, rfl⟩

/-- A line of written fields is read back as these fields. A line is refused exactly if its
quotes are odd in number, and otherwise has a field more than it has separators. -/
theorem csv_line_inverts_quoting (fields cells : List Text) (line : Text) :
    (fields ≠ [] → (∀ field ∈ fields, '\r' ∉ field ∧ '\n' ∉ field) →
      List.Forall₂ WrittenAs fields cells →
      parseCsvLine ([','].intercalate cells) = .ok fields) ∧
    ((∃ e, parseCsvLine line = .error e) ↔ Odd (line.count '"')) ∧
    (¬ Odd (line.count '"') → ∃ parsed, parseCsvLine line = .ok parsed ∧
      parsed.length = separators 0 line + 1) := by
  have hcounts : CountsAs 0 line (parseCsvLine line) := scanCsvLine_countsAs false [] line
  refine ⟨fun hne hclean hcells => ?_, ?_⟩
  · exact parseCsvLine_intercalate hcells hne fun field hfield => (hclean field hfield).1
  · cases hparse : parseCsvLine line with
    | error e =>
      rw [hparse, CountsAs, Nat.zero_add] at hcounts
      exact ⟨⟨fun _ => hcounts, fun _ => ⟨e, rfl⟩⟩, fun hodd => absurd hcounts hodd⟩
    | ok parsed =>
      rw [hparse, CountsAs, Nat.zero_add] at hcounts
      obtain ⟨heven, hlength⟩ := hcounts
      have hodd := Nat.not_odd_iff_even.mpr heven
      exact ⟨⟨fun ⟨e, he⟩ => (nomatch he), fun h => absurd h hodd⟩, fun _ => ⟨parsed, rfl, hlength⟩⟩

/-- Three fields, of which the second has both a comma and quotes and the third is empty. -/
theorem quoted_row_read :
    parseCsvLine ("pump,\"5\"\" pipe, inlet\",\"\"".toList) =
      .ok ["pump".toList, "5\" pipe, inlet".toList, []] ∧
    separators 0 ("pump,\"5\"\" pipe, inlet\",\"\"".toList) = 2 ∧
    ∃ parsed, parseCsvLine ("pump,\"5\"\" pipe, inlet\",\"\"".toList) = .ok parsed ∧
      parsed.length = 3 := by
  have h := csv_line_inverts_quoting ["pump".toList, "5\" pipe, inlet".toList, []]
    ["pump".toList, "\"5\"\" pipe, inlet\"".toList, "\"\"".toList]
    ("pump,\"5\"\" pipe, inlet\",\"\"".toList)
  have hwritten : List.Forall₂ WrittenAs ["pump".toList, "5\" pipe, inlet".toList, []]
      ["pump".toList, "\"5\"\" pipe, inlet\"".toList, "\"\"".toList] :=
    .cons (.plain (by decide) (by decide)) (.cons .quoted (.cons .quoted .nil))
  exact ⟨h.1 (by simp) (by decide) hwritten, by decide, h.2.2 (by decide)⟩

end OpcServer.Project
