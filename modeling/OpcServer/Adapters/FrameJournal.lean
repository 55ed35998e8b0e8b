import OpcServer.Adapters.FrameLog

/-! What the journal reads back. The writer puts quotes around an error text, but the
reader takes the error as a word and the text before the first bar as the fields, so
that an error text is read back as its part before the first white space or bar. -/

namespace OpcServer.Adapters

open Domain TextStream

/-! ### Bytes -/

theorem hexNibble_digitChar : ∀ n < 16, hexNibble n.digitChar = some n := by decide

theorem isSpace_digitChar : ∀ n < 16, isSpace n.digitChar = false := by decide

theorem digitChar_ne_bar : ∀ n < 16, n.digitChar ≠ '|' := by decide

theorem byte_halves (b : UInt8) : b.toNat / 16 < 16 ∧ b.toNat % 16 < 16 := by
  have hb := b.toNat_lt
  omega

theorem parseHexBytes_hexByte (b : UInt8) (text : Text) :
    parseHexBytes (hexByte b ++ text) = (parseHexBytes text).map (b :: ·) := by
  obtain ⟨hhi, hlo⟩ := byte_halves b
  have hb : UInt8.ofNat (b.toNat / 16 * 16 + b.toNat % 16) = b := by
    rw [Nat.div_add_mod', UInt8.ofNat_toNat]
  simp [hexByte, parseHexBytes, isSpace_digitChar _ hhi, hexNibble_digitChar _ hhi,
    hexNibble_digitChar _ hlo, hb]

theorem parseHexBytes_toHex (bytes : List UInt8) : parseHexBytes (toHex bytes) = .ok bytes := by
  have hrest : ∀ rest : List UInt8,
      parseHexBytes (rest.flatMap fun b => ' ' :: hexByte b) = .ok rest := by
    intro rest
    induction rest with
    | nil => rfl
    | cons b rest ih =>
      rw [List.flatMap_cons, List.cons_append]
      have hskip : ∀ text, parseHexBytes (' ' :: (hexByte b ++ text)) =
          parseHexBytes (hexByte b ++ text) := fun text => rfl
      rw [hskip, parseHexBytes_hexByte, ih]
      rfl
  cases bytes with
  | nil => rfl
  | cons b rest =>
    rw [toHex, parseHexBytes_hexByte, hrest]
    rfl

theorem mem_toHex {c : Char} {bytes : List UInt8} (h : c ∈ toHex bytes) :
    c = ' ' ∨ ∃ n < 16, c = n.digitChar := by
  have hbyte : ∀ b : UInt8, c ∈ hexByte b → ∃ n < 16, c = n.digitChar := by
    intro b hc
    obtain ⟨hhi, hlo⟩ := byte_halves b
    simp only [hexByte, List.mem_cons, List.not_mem_nil, or_false] at hc
    rcases hc with hc | hc
    · exact ⟨_, hhi, hc⟩
    · exact ⟨_, hlo, hc⟩
  cases bytes with
  | nil => cases h
  | cons b rest =>
    rcases List.mem_append.mp h with h | h
    · exact .inr (hbyte b h)
    · obtain ⟨b', -, h⟩ := List.mem_flatMap.mp h
      rcases List.mem_cons.mp h with h | h
      · exact .inl h
      · exact .inr (hbyte b' h)

theorem bar_not_mem_toHex (bytes : List UInt8) : '|' ∉ toHex bytes := by
  intro h
  rcases mem_toHex h with h | ⟨n, hn, h⟩
  · cases h
  · exact digitChar_ne_bar n hn h.symm

theorem newline_not_mem_toHex (bytes : List UInt8) : '\n' ∉ toHex bytes := by
  intro h
  rcases mem_toHex h with h | ⟨n, hn, h⟩
  · cases h
  · have hspace := isSpace_digitChar n hn
    rw [← h] at hspace
    cases hspace

/-- The notation of bytes has no white space at its ends. -/
theorem trim_toHex (bytes : List UInt8) : trim (toHex bytes) = toHex bytes := by
  cases bytes with
  | nil => rfl
  | cons b rest =>
    obtain ⟨hhi, hlo⟩ := byte_halves b
    obtain rfl | ⟨front, last, rfl⟩ := List.eq_nil_or_concat' rest
    · exact trim_around (isSpace_digitChar _ hhi) (isSpace_digitChar _ hlo) [] []
    · have hend := (byte_halves last).2
      have hshape : toHex (b :: (front ++ [last])) = (b.toNat / 16).digitChar ::
          ((b.toNat % 16).digitChar :: (front.flatMap fun b => ' ' :: hexByte b) ++
            [' ', (last.toNat / 16).digitChar]) ++ [(last.toNat % 16).digitChar] := by
        simp [toHex, hexByte]
      rw [hshape]
      exact trim_around (isSpace_digitChar _ hhi) (isSpace_digitChar _ hend) _ []

/-- Bytes are read back, with blanks around them. -/
theorem parseHexBytes_padded (bytes : List UInt8) :
    parseHexBytes (trim (' ' :: toHex bytes)) = .ok bytes ∧
      parseHexBytes (trim (' ' :: toHex bytes ++ [' '])) = .ok bytes := by
  rw [trim_concat rfl, trim_cons rfl, trim_toHex]
  exact ⟨parseHexBytes_toHex bytes, parseHexBytes_toHex bytes⟩

/-! ### Error texts -/

/-- A character that ends neither a word nor the fields. -/
def isPlain (c : Char) : Bool := !isSpace c && c ≠ '|'

/-- What the reader makes of a quoted text: the text itself exactly when nothing in it
ends the word. -/
theorem errorField_quoted_iff {message : Text} (hquote : '"' ∉ message) (more : Text) :
    errorField ('"' :: (message ++ '"' :: ' ' :: more).takeWhile isPlain) =
      some (String.ofList message) ↔ ∀ c ∈ message, isPlain c = true := by
  constructor
  · intro h
    by_contra hplain
    have hstop : (message ++ '"' :: ' ' :: more).takeWhile isPlain = message.takeWhile isPlain := by
      rw [List.takeWhile_append, if_neg]
      intro hlen
      have heq := (List.takeWhile_prefix isPlain).eq_of_length hlen
      exact hplain fun c hc => List.mem_takeWhile_imp (heq.symm ▸ hc)
    have hlast : (message.takeWhile isPlain).getLast? ≠ some '"' := by
      intro hlast
      exact hquote ((List.takeWhile_sublist _).subset (List.mem_of_getLast? hlast))
    rw [hstop, errorField, if_neg (by simp), if_neg hlast, Option.some.injEq, String.ofList_inj] at h
    exact hplain fun c hc => List.mem_takeWhile_imp (h.symm ▸ hc)
  · intro hplain
    have hword : (message ++ '"' :: ' ' :: more).takeWhile isPlain = message ++ ['"'] := by
      rw [List.takeWhile_append_of_pos hplain]
      rfl
    rw [hword, errorField, if_neg (by simp)]
    simp

/-! ### Fields -/

section Fields

variable [Platform]

/-- What the standard streams do with a `double`: its text has neither white space nor a
bar, and is read back, up to the digits printed, unless it stands for an infinity or a
NaN. -/
structure DoubleFormat.Standard (format : DoubleFormat) : Prop where
  print_ne : ∀ x, format.print x ≠ []
  print_plain : ∀ x, ∀ c ∈ format.print x, isPlain c = true
  finite : ∀ x, Platform.isFinite x = true →
    ∃ y, ∀ rest, format.read (format.print x ++ ' ' :: rest) = some (y, ' ' :: rest)
  nonfinite : ∀ x, Platform.isFinite x = false →
    ∀ rest, format.read (format.print x ++ ' ' :: rest) = none

/-- A frame that the journal is meant for. -/
structure FrameRecord.Loggable (frame : FrameRecord) : Prop where
  endpoint_ne : frame.endpointId.toList ≠ []
  endpoint_plain : ∀ c ∈ frame.endpointId.toList, isPlain c = true
  quote_not_mem : ∀ message, frame.error = some message → '"' ∉ message.toList
  newline_not_mem : ∀ message, frame.error = some message → '\n' ∉ message.toList

omit [Platform] in
theorem solid_of_plain {text : Text} (h : ∀ c ∈ text, isPlain c = true) : Solid text := by
  intro c hc
  have hplain := h c hc
  simp only [isPlain, Bool.and_eq_true, Bool.not_eq_true'] at hplain
  exact hplain.1

omit [Platform] in
theorem printInt_plain (n : ℤ) : ∀ c ∈ printInt n, isPlain c = true := by
  intro c hc
  have hbar : c ≠ '|' := by
    rintro rfl
    rcases mem_printInt hc with h | h <;> cases h
  simp [isPlain, printInt_solid n c hc, hbar]

variable {format : DoubleFormat} {frame : FrameRecord}

theorem exceptionText_plain (frame : FrameRecord) : ∀ c ∈ exceptionText frame, isPlain c = true := by
  unfold exceptionText
  cases frame.exceptionCode with
  | none => exact List.forall_mem_singleton.mpr rfl
  | some code => exact printInt_plain code.toInt

theorem exceptionText_ne (frame : FrameRecord) : exceptionText frame ≠ [] := by
  unfold exceptionText
  cases frame.exceptionCode with
  | none => exact List.cons_ne_nil _ _
  | some code => exact printInt_ne_nil code.toInt

theorem exceptionField_exceptionText :
    exceptionField (exceptionText frame) = .ok frame.exceptionCode := by
  unfold exceptionText
  cases frame.exceptionCode with
  | none => rfl
  | some code =>
    have hlow := code.le_toInt
    have hhigh := code.toInt_lt
    have hread : readInt (-2 ^ 31) (2 ^ 31 - 1) (printInt code.toInt ++ []) =
        some (code.toInt, []) := readInt_printInt (by omega) (by omega) (by simp)
    rw [List.append_nil] at hread
    rw [exceptionField, if_neg (printInt_ne_dash _), stoi, hread]
    simp

omit [Platform] in
theorem readInt_tsMs (ts : Int64) (rest : Text) :
    readInt (-2 ^ 63) (2 ^ 63 - 1) (printInt ts.toInt ++ ' ' :: rest) =
      some (ts.toInt, ' ' :: rest) := by
  have hlow := ts.le_toInt
  have hhigh := ts.toInt_lt
  exact readInt_printInt (by omega) (by omega) (by simp [Char.isDigit])

/-- The fields before the error are read back when the round trip is finite. -/
theorem readFields_lineStart (hformat : format.Standard) (hframe : frame.Loggable)
    (hrtt : Platform.isFinite frame.rttMs = true) :
    ∃ rtt, ∀ text, readFields format (lineStart format frame ++ ' ' :: text) =
      (readWord (' ' :: text)).map fun (error, rest) =>
        ({ tsMs := frame.tsMs, endpointId := frame.endpointId, rttMs := rtt },
          exceptionText frame, error, rest) := by
  obtain ⟨rtt, hread⟩ := hformat.finite frame.rttMs hrtt
  refine ⟨rtt, fun text => ?_⟩
  have hendpoint := readWord_append hframe.endpoint_ne (solid_of_plain hframe.endpoint_plain)
  have hskip := skipSpace_append (hformat.print_ne frame.rttMs)
    (solid_of_plain (hformat.print_plain frame.rttMs))
  have hexception := readWord_append (exceptionText_ne frame)
    (solid_of_plain (exceptionText_plain frame))
  simp only [readFields, lineStart, List.append_assoc, List.cons_append, readInt_tsMs, hendpoint,
    hskip, hread, hexception, Option.bind_eq_bind, Option.bind_some, Int64.ofInt_toInt, String.ofList_toList]
  cases readWord (' ' :: text) with
  | none => rfl
  | some word => rfl

theorem readFields_nonfinite (hformat : format.Standard) (hframe : frame.Loggable)
    (hrtt : Platform.isFinite frame.rttMs = false) (text : Text) :
    readFields format (lineStart format frame ++ ' ' :: text) = none := by
  have hread := hformat.nonfinite frame.rttMs hrtt
  have hendpoint := readWord_append hframe.endpoint_ne (solid_of_plain hframe.endpoint_plain)
  have hskip := skipSpace_append (hformat.print_ne frame.rttMs)
    (solid_of_plain (hformat.print_plain frame.rttMs))
  simp only [readFields, lineStart, List.append_assoc, List.cons_append, readInt_tsMs, hendpoint,
    hskip, hread, Option.bind_eq_bind, Option.bind_some, Option.bind_none]

/-! ### Lines -/

/-- Every character before the error is a blank or plain. -/
theorem mem_lineStart (hformat : format.Standard) (hframe : frame.Loggable) {c : Char}
    (hc : c ∈ lineStart format frame) : c = ' ' ∨ isPlain c = true := by
  simp only [lineStart, List.mem_append, List.mem_cons] at hc
  rcases hc with ((hc | hc | hc) | hc | hc) | hc | hc
  · exact .inr (printInt_plain _ c hc)
  · exact .inl hc
  · exact .inr (hframe.endpoint_plain c hc)
  · exact .inl hc
  · exact .inr (hformat.print_plain _ c hc)
  · exact .inl hc
  · exact .inr (exceptionText_plain frame c hc)

/-- The text before the first bar of a line, and the text after it. -/
def lineFields (format : DoubleFormat) (frame : FrameRecord) : Text :=
  lineStart format frame ++ ' ' :: (errorText frame ++ ' ' :: toHex frame.tx ++
    ' ' :: '|' :: ' ' :: toHex frame.rx).takeWhile (· ≠ '|')

def lineReceived (frame : FrameRecord) : Text :=
  ((errorText frame ++ ' ' :: toHex frame.tx ++
    ' ' :: '|' :: ' ' :: toHex frame.rx).dropWhile (· ≠ '|')).drop 1

theorem frameLine_eq : frameLine format frame =
    lineFields format frame ++ '|' :: lineReceived frame := by
  have hbar : '|' ∈ errorText frame ++ ' ' :: toHex frame.tx ++ ' ' :: '|' :: ' ' :: toHex frame.rx := by
    simp
  rw [lineFields, lineReceived, List.append_assoc, List.cons_append, ← split_at_first hbar, frameLine]

/-- A line is not a comment, and is read from its two parts. -/
theorem parse_frameLine (hformat : format.Standard) (hframe : frame.Loggable) :
    trim (frameLine format frame) ≠ [] ∧ (trim (frameLine format frame)).head? ≠ some '#' ∧
      parseFrameLogLine format (trim (frameLine format frame)) =
        parseParts format (lineFields format frame) (lineReceived frame) := by
  have hbar : '|' ∉ lineFields format frame := by
    intro h
    rcases List.mem_append.mp h with h | h
    · rcases mem_lineStart hformat hframe h with h | h <;> cases h
    · rcases List.mem_cons.mp h with h | h
      · cases h
      · simpa using List.mem_takeWhile_imp h
  obtain ⟨c, digits, hc⟩ := List.exists_cons_of_ne_nil (printInt_ne_nil frame.tsMs.toInt)
  have hmem : c ∈ printInt frame.tsMs.toInt := by
    rw [hc]
    exact List.mem_cons_self
  have hspace := printInt_solid _ c hmem
  have hcomment : c ≠ '#' := by
    rintro rfl
    rcases mem_printInt hmem with h | h <;> cases h
  obtain ⟨fields, hfields⟩ : ∃ fields, lineFields format frame = c :: fields := by
    rw [lineFields, lineStart, hc]
    exact ⟨_, rfl⟩
  have htrim : ∀ text, trim (c :: fields ++ '|' :: text) =
      c :: fields ++ '|' :: text.rdropWhile isSpace := trim_around hspace rfl fields
  rw [hfields] at hbar
  have hplain : ∀ d ∈ c :: fields, decide (d ≠ '|') = true := by
    intro d hd
    rw [decide_eq_true_iff]
    rintro rfl
    exact hbar hd
  rw [frameLine_eq, hfields, htrim]
  refine ⟨by simp, by simpa using hcomment, ?_⟩
  rw [parseFrameLogLine, htrim, List.takeWhile_append_of_pos hplain,
    List.dropWhile_append_of_pos hplain]
  simp [hcomment, parseParts, trim_rdropWhile]

theorem quoted_eq (hframe : frame.Loggable) {message : String} (herror : frame.error = some message) :
    quoted message = '"' :: (message.toList ++ ['"']) := by
  have hkept : message.toList.map (fun c => if c = '"' ∨ c = '\n' then '_' else c) =
      message.toList := by
    rw [List.map_congr_left (g := id), List.map_id]
    intro c hc
    have hquote : c ≠ '"' := fun h => hframe.quote_not_mem message herror (h ▸ hc)
    have hnewline : c ≠ '\n' := fun h => hframe.newline_not_mem message herror (h ▸ hc)
    simp [hquote, hnewline]
  rw [quoted, hkept, List.cons_append]

/-- A finite round trip, and an error text without white space and bars. -/
structure FrameRecord.Legible (frame : FrameRecord) : Prop where
  rtt : Platform.isFinite frame.rttMs = true
  error : ∀ message, frame.error = some message → ∀ c ∈ message.toList, isPlain c = true

/-- A frame that was read is the one that was written, but for the round trip. -/
structure FrameRecord.Restores (read written : FrameRecord) : Prop where
  tsMs : read.tsMs = written.tsMs
  endpointId : read.endpointId = written.endpointId
  exceptionCode : read.exceptionCode = written.exceptionCode
  error : read.error = written.error
  tx : read.tx = written.tx
  rx : read.rx = written.rx

theorem errorText_of_legible (hframe : frame.Loggable) (hlegible : frame.Legible) :
    errorText frame ≠ [] ∧ (∀ c ∈ errorText frame, isPlain c = true) ∧
      errorField (errorText frame) = frame.error := by
  unfold errorText
  cases herror : frame.error with
  | none => exact ⟨List.cons_ne_nil _ _, List.forall_mem_singleton.mpr rfl, rfl⟩
  | some message =>
    dsimp only
    rw [quoted_eq hframe herror]
    refine ⟨List.cons_ne_nil _ _, ?_, ?_⟩
    · intro c hc
      rw [List.mem_cons, List.mem_append, List.mem_singleton] at hc
      rcases hc with rfl | hc | rfl
      · decide
      · exact hlegible.error message herror c hc
      · decide
    · rw [errorField, if_neg (by simp)]
      simp

/-- A legible line is read back. -/
theorem parseParts_of_legible (hformat : format.Standard) (hframe : frame.Loggable)
    (hlegible : frame.Legible) :
    ∃ read, parseParts format (lineFields format frame) (lineReceived frame) = .ok read ∧
      read.Restores frame := by
  obtain ⟨hne, hplain, herror⟩ := errorText_of_legible hframe hlegible
  have hclear : ∀ c ∈ errorText frame ++ ' ' :: toHex frame.tx ++ [' '], decide (c ≠ '|') = true := by
    intro c hc
    rw [decide_eq_true_iff]
    rintro rfl
    simp only [List.mem_append, List.mem_cons, List.not_mem_nil, or_false] at hc
    rcases hc with (hc | hc | hc) | hc
    · cases hplain _ hc
    · cases hc
    · exact bar_not_mem_toHex _ hc
    · cases hc
  have hsplit : errorText frame ++ ' ' :: toHex frame.tx ++ ' ' :: '|' :: ' ' :: toHex frame.rx =
      (errorText frame ++ ' ' :: toHex frame.tx ++ [' ']) ++ '|' :: ' ' :: toHex frame.rx := by
    simp
  have hfields : lineFields format frame = lineStart format frame ++
      ' ' :: (errorText frame ++ ' ' :: (toHex frame.tx ++ [' '])) := by
    rw [lineFields, hsplit, List.takeWhile_append_of_pos hclear]
    simp
  have hreceived : lineReceived frame = ' ' :: toHex frame.rx := by
    rw [lineReceived, hsplit, List.dropWhile_append_of_pos hclear]
    simp
  have hline : (' ' :: (toHex frame.tx ++ [' '])).takeWhile (· ≠ '\n') =
      ' ' :: toHex frame.tx ++ [' '] := by
    rw [List.takeWhile_eq_self_iff.mpr]
    · rfl
    · intro c hc
      rw [decide_eq_true_iff]
      rintro rfl
      simp [newline_not_mem_toHex] at hc
  obtain ⟨rtt, hread⟩ := readFields_lineStart hformat hframe hlegible.rtt
  rw [hfields, hreceived, parseParts, hread, readWord_append hne (solid_of_plain hplain)]
  simp only [Option.map_some, exceptionField_exceptionText, hline, parseHexBytes_padded]
  exact ⟨_, rfl, rfl, rfl, rfl, herror, rfl, rfl⟩

theorem parseParts_error {fields received exception error text : Text} {record read : FrameRecord}
    (hfields : readFields format fields = some (record, exception, error, text))
    (h : parseParts format fields received = .ok read) : read.error = errorField error := by
  rw [parseParts, hfields] at h
  obtain ⟨code, -, h⟩ := Traverse.bind_eq_ok h
  obtain ⟨tx, -, h⟩ := Traverse.bind_eq_ok h
  obtain ⟨rx, -, h⟩ := Traverse.bind_eq_ok h
  cases h
  rfl

/-- A line that is read back is legible. -/
theorem legible_of_parseParts (hformat : format.Standard) (hframe : frame.Loggable)
    {read : FrameRecord}
    (hparse : parseParts format (lineFields format frame) (lineReceived frame) = .ok read)
    (herror : read.error = frame.error) : frame.Legible := by
  have hrtt : Platform.isFinite frame.rttMs = true := by
    by_contra hrtt
    rw [Bool.not_eq_true] at hrtt
    rw [parseParts, lineFields, readFields_nonfinite hformat hframe hrtt] at hparse
    cases hparse
  refine ⟨hrtt, fun message hmessage => ?_⟩
  obtain ⟨rtt, hread⟩ := readFields_lineStart hformat hframe hrtt
  have htext : errorText frame ++ ' ' :: toHex frame.tx ++ ' ' :: '|' :: ' ' :: toHex frame.rx =
      '"' :: (message.toList ++ '"' :: ' ' :: (toHex frame.tx ++ ' ' :: '|' :: ' ' :: toHex frame.rx)) := by
    simp [errorText, hmessage, quoted_eq hframe hmessage]
  obtain ⟨rest, hword⟩ : ∃ rest, readFields format (lineFields format frame) =
      some ({ tsMs := frame.tsMs, endpointId := frame.endpointId, rttMs := rtt },
        exceptionText frame, '"' :: (message.toList ++ '"' :: ' ' :: (toHex frame.tx ++
          ' ' :: '|' :: ' ' :: toHex frame.rx)).takeWhile isPlain, rest) := by
    have hboth : (fun c => decide ((!isSpace c) = true ∧ decide (c ≠ '|') = true)) = isPlain := by
      funext c
      simp [isPlain]
    rw [lineFields, hread, htext, List.takeWhile_cons_of_pos (by decide), readWord_cons (by decide),
      List.takeWhile_cons_of_pos (by decide), List.takeWhile_takeWhile, hboth]
    exact ⟨_, rfl⟩
  rw [← errorField_quoted_iff (hframe.quote_not_mem message hmessage)
    (toHex frame.tx ++ ' ' :: '|' :: ' ' :: toHex frame.rx), String.ofList_toList, ← hmessage, ← herror]
  exact (parseParts_error hword hparse).symm

/-! ### The whole journal -/

theorem newline_not_mem_frameLine (hformat : format.Standard) (hframe : frame.Loggable) :
    '\n' ∉ frameLine format frame := by
  have herror : '\n' ∉ errorText frame := by
    unfold errorText
    cases herror : frame.error with
    | none => decide
    | some message => simp [quoted_eq hframe herror, hframe.newline_not_mem message herror]
  intro h
  simp only [frameLine, List.mem_append, List.mem_cons] at h
  rcases h with h | h | (h | h | h) | h | h | h | h
  · rcases mem_lineStart hformat hframe h with h | h <;> cases h
  · cases h
  · exact herror h
  · cases h
  · exact newline_not_mem_toHex _ h
  · cases h
  · cases h
  · cases h
  · exact newline_not_mem_toHex _ h

/-- The journal that a list of frames leaves in a new file. -/
def journal (format : DoubleFormat) (frames : List FrameRecord) : Text :=
  (frames.foldl (FileFrameLog.logFrame format) (.open true [])).file

theorem journal_eq (frames : List FrameRecord) : journal format frames =
    journalHeader ++ '\n' :: frames.flatMap fun frame => frameLine format frame ++ ['\n'] := by
  have hlog : ∀ (frames : List FrameRecord) (file : Text),
      (frames.foldl (FileFrameLog.logFrame format) { file := file, isOpen := true }).file =
        file ++ frames.flatMap fun frame => frameLine format frame ++ ['\n'] := by
    intro frames
    induction frames with
    | nil => simp
    | cons frame frames ih =>
      intro file
      rw [List.foldl_cons, List.flatMap_cons]
      change (frames.foldl (FileFrameLog.logFrame format)
        { file := file ++ frameLine format frame ++ ['\n'], isOpen := true }).file = _
      rw [ih]
      simp
  change (frames.foldl (FileFrameLog.logFrame format)
    { file := journalHeader ++ ['\n'], isOpen := true }).file = _
  rw [hlog]
  simp

/-- The lines of frames are read back one by one. -/
theorem loadLines_iff (hformat : format.Standard) {frames : List FrameRecord}
    (hframes : ∀ frame ∈ frames, frame.Loggable) :
    (∃ read, loadLines format (frames.map (frameLine format)) = .ok read ∧
      List.Forall₂ FrameRecord.Restores read frames) ↔ ∀ frame ∈ frames, frame.Legible := by
  induction frames with
  | nil => simp [loadLines]
  | cons frame frames ih =>
    have hframe := hframes frame (by simp)
    have ih := ih fun f hf => hframes f (by simp [hf])
    obtain ⟨hblank, hcomment, hparse⟩ := parse_frameLine hformat hframe
    rw [List.forall_mem_cons, ← ih, List.map_cons, loadLines, if_neg (by simp [hblank, hcomment]), hparse]
    cases hfirst : parseParts format (lineFields format frame) (lineReceived frame) with
    | error e =>
      constructor
      · rintro ⟨read, hread, -⟩
        cases hread
      · rintro ⟨hlegible, -⟩
        obtain ⟨first, hok, -⟩ := parseParts_of_legible hformat hframe hlegible
        rw [hfirst] at hok
        cases hok
    | ok first =>
      constructor
      · rintro ⟨read, hread, hrestores⟩
        cases hrest : loadLines format (frames.map (frameLine format)) with
        | error e =>
          rw [hrest] at hread
          cases hread
        | ok rest =>
          rw [hrest] at hread
          obtain rfl : first :: rest = read := Except.ok.inj hread
          obtain ⟨hone, hothers⟩ := List.forall₂_cons.mp hrestores
          exact ⟨legible_of_parseParts hformat hframe hfirst hone.error, rest, rfl, hothers⟩
      · rintro ⟨hlegible, rest, hrest, hothers⟩
        obtain ⟨first', hok, hone⟩ := parseParts_of_legible hformat hframe hlegible
        rw [hfirst] at hok
        obtain rfl := Except.ok.inj hok
        rw [hrest]
        exact ⟨first :: rest, rfl, .cons hone hothers⟩

/-- A journal is read back, frame by frame, if and only if every round trip is finite and
no error text has white space or a bar. -/
theorem journal_reads_back_iff (hformat : format.Standard) {frames : List FrameRecord}
    (hframes : ∀ frame ∈ frames, frame.Loggable) (path : String) :
    (∃ read, loadFrameLogFile format path (some (journal format frames)) = .ok read ∧
      List.Forall₂ FrameRecord.Restores read frames) ↔ ∀ frame ∈ frames, frame.Legible := by
  have hlines : lines (journal format frames) = journalHeader :: frames.map (frameLine format) := by
    rw [journal_eq, lines_append (by decide)]
    congr 1
    induction frames with
    | nil => rfl
    | cons frame frames ih =>
      rw [List.flatMap_cons, List.append_assoc, List.singleton_append,
        lines_append (newline_not_mem_frameLine hformat (hframes frame (by simp))),
        ih fun f hf => hframes f (by simp [hf]), List.map_cons]
  have hheader : loadFrameLogFile format path (some (journal format frames)) =
      loadLines format (frames.map (frameLine format)) := by
    rw [loadFrameLogFile, hlines, loadLines, if_pos (by decide)]
  rw [hheader, loadLines_iff hformat hframes]

end Fields

/-! ### An answer and a timeout -/

attribute [local instance] exactPlatform

/-- Streams on whole numbers of a few digits. -/
def wholeFormat : DoubleFormat where
  print x := printInt (Platform.round x)
  read text := (readSigned text).map fun (n, rest) => (Platform.ofInt n, rest)

theorem wholeFormat_standard : wholeFormat.Standard where
  print_ne _ := printInt_ne_nil _
  print_plain _ := printInt_plain _
  finite x _ := by
    refine ⟨Platform.ofInt (Platform.round x), fun rest => ?_⟩
    have hrest : ∀ c ∈ (' ' :: rest).head?, c.isDigit = false := by simp [Char.isDigit]
    simp [wholeFormat, readSigned_printInt _ hrest]
  nonfinite _ h := by cases h

/-- A request for one register, and its answer. -/
def answeredFrame : FrameRecord where
  tsMs := 100
  endpointId := "ep1"
  tx := [0x00, 0x01, 0x00, 0x00, 0x00, 0x06, 0x01, 0x03, 0x00, 0x00, 0x00, 0x01]
  rx := [0x00, 0x01, 0x00, 0x00, 0x00, 0x05, 0x01, 0x03, 0x02, 0x00, 0x2A]
  rttMs := Platform.ofInt 2

/-- The same request with an exception, in one word, as its answer. -/
def refusedFrame : FrameRecord := { answeredFrame with
  rx := [0x00, 0x01, 0x00, 0x00, 0x00, 0x03, 0x01, 0x83, 0x02]
  exceptionCode := some 2
  error := some "exception" }

/-- The same request without an answer, as the TCP transport records it. -/
def timeoutFrame : FrameRecord := { answeredFrame with
  rx := []
  rttMs := Platform.ofInt 500
  error := some "operation timeout" }

theorem answers_read_back :
    ∃ read, loadFrameLogFile wholeFormat "frames.log"
      (some (journal wholeFormat [answeredFrame, refusedFrame])) = .ok read ∧
        List.Forall₂ FrameRecord.Restores read [answeredFrame, refusedFrame] := by
  refine (journal_reads_back_iff wholeFormat_standard ?_ "frames.log").mpr ?_
  · rw [List.forall_mem_cons, List.forall_mem_singleton]
    constructor
    · refine ⟨by decide, List.all_eq_true.mp (by decide), ?_, ?_⟩ <;> rintro _ ⟨⟩
    · refine ⟨by decide, List.all_eq_true.mp (by decide), ?_, ?_⟩ <;> rintro _ ⟨⟩ <;> decide
  · rw [List.forall_mem_cons, List.forall_mem_singleton]
    constructor
    · refine ⟨rfl, ?_⟩
      rintro _ ⟨⟩
    · refine ⟨rfl, ?_⟩
      rintro _ ⟨⟩
      exact List.all_eq_true.mp (by decide)

/-- The reader stops in the middle of the error text. -/
theorem timeout_unreadable : timeoutFrame.Loggable ∧
    loadFrameLogFile wholeFormat "frames.log" (some (journal wholeFormat [timeoutFrame])) =
      .error (replayErr .decoding "invalid hex byte") := by
  constructor
  · refine ⟨by decide, List.all_eq_true.mp (by decide), ?_, ?_⟩ <;> rintro _ ⟨⟩ <;> decide
  · decide +kernel

end OpcServer.Adapters
