import OpcServer.Adapters.RingHistorian
import OpcServer.Core.Dispatcher
import OpcServer.Lib.TextStream
import OpcServer.Lib.Transition

/-! The historian over a database. `record` appends to a list of pending samples;
`flush` takes the list, inserts it in one transaction, and puts it back in front when
the transaction fails. Record and flush are called from every endpoint strand, so a
state holds any number of flushes in progress, each with the batch that it took.

Two fields are ghost: the samples in the order of their recording, and those that a
failed flush dropped. A sample keeps its number in that order wherever it goes. -/

namespace OpcServer.Adapters

open Domain OpcServer.Core TextStream Transition

section Historian

variable [Platform]

/-! ### Values as text -/

/-- What the standard library does with floating-point text: `<<` on a string stream
with default flags, and `std::stof` and `std::stod`, which may throw. -/
structure FloatText where
  printSingle : Single → Text
  printDouble : Double → Text
  stof : Text → Option Single
  stod : Text → Option Double

section Integers
omit [Platform]

def sqlErr (message : String) : Error :=
  ⟨.internal, message, "adapters.sqlite_historian", false, none⟩

/-- A minus sign wraps the number around. -/
def SqliteHistorian.stoul (text : Text) : Option ℕ :=
  (readInt (-(2 ^ 64 - 1)) (2 ^ 64 - 1) text).map fun (n, _) => (n % 2 ^ 64).toNat

def SqliteHistorian.stoi (text : Text) : Option ℤ :=
  (readInt (-2 ^ 31) (2 ^ 31 - 1) text).map (·.1)

def SqliteHistorian.stol (text : Text) : Option ℤ :=
  (readInt (-2 ^ 63) (2 ^ 63 - 1) text).map (·.1)

end Integers

def valueTypeName : ScalarValue → String
  | .monostate => "null"
  | .bool _ => "bool"
  | .uint16 _ => "u16"
  | .int16 _ => "i16"
  | .uint32 _ => "u32"
  | .int32 _ => "i32"
  | .float _ => "f32"
  | .double _ => "f64"

def valueToText (floats : FloatText) : ScalarValue → Text
  | .monostate => []
  | .bool v => if v then ['1'] else ['0']
  | .uint16 v => printInt v.toNat
  | .int16 v => printInt v.toInt
  | .uint32 v => printInt v.toNat
  | .int32 v => printInt v.toInt
  | .float v => floats.printSingle v
  | .double v => floats.printDouble v

/-- An exception of a conversion is an error. -/
def parsed {α : Type} (make : α → ScalarValue) : Option α → Result ScalarValue
  | some v => .ok (make v)
  | none => .error (sqlErr "failed to parse cold value")

def textToValue (floats : FloatText) (type : String) (text : Text) : Result ScalarValue :=
  if type = "null" ∨ type = "" then .ok .monostate
  else if type = "bool" then .ok (.bool (text = "1".toList ∨ text = "true".toList))
  else if type = "u16" then parsed (fun n => .uint16 (UInt16.ofNat n)) (SqliteHistorian.stoul text)
  else if type = "i16" then parsed (fun n => .int16 (Int16.ofInt n)) (SqliteHistorian.stoi text)
  else if type = "u32" then parsed (fun n => .uint32 (UInt32.ofNat n)) (SqliteHistorian.stoul text)
  else if type = "i32" then parsed (fun n => .int32 (Int32.ofInt n)) (SqliteHistorian.stol text)
  else if type = "f32" then parsed .float (floats.stof text)
  else if type = "f64" then parsed .double (floats.stod text)
  else .error (sqlErr ("unknown value type: " ++ type))

/-! ### Rows of the table -/

/-- The columns of a sample, less the row id, which grows with each insert. -/
structure ColdRow where
  tagId : ℤ
  serverTs : ℤ
  sourceTs : ℤ
  quality : ℤ
  reason : ℤ
  epoch : ℤ
  valueType : String
  valueText : Text

section Codes
omit [Platform]

def qualities : List Quality := [.good, .uncertain, .bad]

def qualityReasons : List QualityReason :=
  [.none, .noCommunication, .deviceFailure, .timeout, .modbusException, .decodingError,
    .stale, .writePending, .writeRejected, .outOfRange]

end Codes

/-- The parameters that `insert_batch` binds; the 64-bit columns are signed. -/
def bindSample (floats : FloatText) (sample : HistorianSample) : ColdRow where
  tagId := sample.id
  serverTs := sample.value.serverTs
  sourceTs := sample.value.sourceTs
  quality := qualities.idxOf sample.value.quality
  reason := qualityReasons.idxOf sample.value.reason
  epoch := Int.bmod sample.value.epoch (2 ^ 64)
  valueType := valueTypeName sample.value.value
  valueText := valueToText floats sample.value.value

/-- A row as `load_cold` reads it. Ids and codes out of their range do not come from
`insert_batch`. -/
def readRow (floats : FloatText) (row : ColdRow) : Result HistorianSample := do
  let value ← textToValue floats row.valueType row.valueText
  return {
    id := row.tagId.toNat
    value := {
      value := value
      quality := qualities.getD row.quality.toNat .bad
      reason := qualityReasons.getD row.reason.toNat .none
      sourceTs := row.sourceTs
      serverTs := row.serverTs
      epoch := (row.epoch % 2 ^ 64).toNat } }

/-! ### Record and flush -/

/-- A sample and its number in the order of recording. -/
abbrev Recorded := HistorianSample × ℕ

/-- A flush in progress: its local batch, and whether the insert has failed. -/
structure FlushCall where
  batch : List Recorded
  failed : Bool := false
  deriving DecidableEq

/-- The database is open unless there is an error from opening it. The table is kept as
the samples it was filled from, in the order of the row ids. -/
structure SqliteHistorian where
  hot : RingHistorian
  pendingCap : ℕ
  openError : Option Error := none
  rows : List Recorded := []
  pending : List Recorded := []
  coldPendingDropped : ℕ := 0
  flushes : List FlushCall := []
  recorded : List HistorianSample := []
  lost : List Recorded := []

inductive HistorianAction where
  | record (id : TagId) (value : TagValue)
  | swap
  | insertBatch (call : ℕ) (sqlError : Option String)
  | reinsert (call : ℕ)

namespace SqliteHistorian

def new (hotCapacity : ℕ) (openError : Option Error) : SqliteHistorian where
  hot := .new hotCapacity
  pendingCap := if hotCapacity = 0 then 1 else hotCapacity
  openError := openError

def record (s : SqliteHistorian) (id : TagId) (value : TagValue) : SqliteHistorian :=
  { s with
    hot := s.hot.record id value
    pending := s.pending ++ [(⟨id, value⟩, s.recorded.length)]
    recorded := s.recorded ++ [⟨id, value⟩] }

/-- The result of the transaction; `sqlError` is what SQLite reports, if it fails. -/
def insertBatch (s : SqliteHistorian) (batch : List Recorded) (sqlError : Option String) :
    Result Unit :=
  match s.openError with
  | some e => .error e
  | none =>
    if batch.isEmpty then .ok ()
    else match sqlError with
      | some message => .error (sqlErr message)
      | none => .ok ()

/-- `pending_cap_ * 4`, in the 64 bits of a `size_t`. -/
def maxPending (s : SqliteHistorian) : ℕ := s.pendingCap * 4 % 2 ^ 64

/-- A failed batch goes back in front, and the oldest samples over the limit are
dropped. -/
def reinsert (s : SqliteHistorian) (batch : List Recorded) : SqliteHistorian :=
  let pending := batch ++ s.pending
  if pending.length > s.maxPending then
    let drop := pending.length - s.maxPending
    { s with
      pending := pending.drop drop
      coldPendingDropped := s.coldPendingDropped + drop
      lost := s.lost ++ pending.take drop }
  else { s with pending := pending }

/-- The locked sections of record and flush, and the transaction. A successful one ends
its flush, a failed one leaves it to put the batch back. -/
def step : HistorianAction → SqliteHistorian → Option SqliteHistorian
  | .record id value, s => some (s.record id value)
  | .swap, s => some { s with pending := [], flushes := s.flushes ++ [⟨s.pending, false⟩] }
  | .insertBatch call sqlError, s =>
    match s.flushes[call]? with
    | some ⟨batch, false⟩ =>
      match s.insertBatch batch sqlError with
      | .ok _ => some { s with rows := s.rows ++ batch, flushes := s.flushes.eraseIdx call }
      | .error _ => some { s with flushes := s.flushes.set call ⟨batch, true⟩ }
    | _ => none
  | .reinsert call, s =>
    match s.flushes[call]? with
    | some ⟨batch, true⟩ => some ({ s with flushes := s.flushes.eraseIdx call }.reinsert batch)
    | _ => none

def dropped (s : SqliteHistorian) : ℕ := s.hot.dropped + s.coldPendingDropped

/-- The rows that the query of `load_cold` yields. A limit from 2^63 on is no integer of
SQLite: the first step fails with a mismatch, and the loop takes that for the end. -/
def selected (s : SqliteHistorian) (max : ℕ) : List Recorded :=
  if max < 2 ^ 63 then s.rows.take max else []

def loadCold (floats : FloatText) (s : SqliteHistorian) (max : ℕ) :
    Result (List HistorianSample) :=
  match s.openError with
  | some e => .error e
  | none => ((s.selected max).map fun r => bindSample floats r.1).mapM (readRow floats)

/-- The batches of the flushes in progress, in the order in which they were taken. -/
def inFlight (s : SqliteHistorian) : List Recorded := s.flushes.flatMap (·.batch)

/-- A historian that has just been constructed. -/
def Opened (hotCapacity : ℕ) (s : SqliteHistorian) : Prop :=
  ∃ openError, s = new hotCapacity openError

/-! ### What a step does -/

section Steps

variable {s t : SqliteHistorian}

/-- A flush in progress stands between those that took their batch before it and those
that took theirs after it. -/
theorem flushes_split {call : ℕ} {flush : FlushCall} (h : s.flushes[call]? = some flush) :
    s.flushes = s.flushes.take call ++ flush :: s.flushes.drop (call + 1) := by
  obtain ⟨hlt, hget⟩ := List.getElem?_eq_some_iff.mp h
  rw [← hget, List.getElem_cons_drop, List.take_append_drop]

/-- The transitions, with the flushes before and after the one that is meant. -/
theorem step_cases {action : HistorianAction} (h : step action s = some t) :
    (∃ id value, action = .record id value ∧ t = s.record id value) ∨
    (action = .swap ∧
      t = { s with pending := [], flushes := s.flushes ++ [⟨s.pending, false⟩] }) ∨
    (∃ call sqlError batch, action = .insertBatch call sqlError ∧
      s.flushes[call]? = some ⟨batch, false⟩ ∧ s.insertBatch batch sqlError = .ok () ∧
      t = { s with
        rows := s.rows ++ batch
        flushes := s.flushes.take call ++ s.flushes.drop (call + 1) }) ∨
    (∃ call sqlError batch, action = .insertBatch call sqlError ∧
      s.flushes[call]? = some ⟨batch, false⟩ ∧
      t = { s with
        flushes := s.flushes.take call ++ ⟨batch, true⟩ :: s.flushes.drop (call + 1) }) ∨
    (∃ call batch, action = .reinsert call ∧ s.flushes[call]? = some ⟨batch, true⟩ ∧
      t = { s with flushes := s.flushes.take call ++ s.flushes.drop (call + 1) }.reinsert
        batch) := by
  cases action with
  | record id value => exact .inl ⟨id, value, rfl, (Option.some.inj h).symm⟩
  | swap => exact .inr (.inl ⟨rfl, (Option.some.inj h).symm⟩)
  | insertBatch call sqlError =>
    simp only [step] at h
    split at h
    case h_2 => cases h
    case h_1 batch hflush =>
      have hlt := (List.getElem?_eq_some_iff.mp hflush).1
      split at h
      case h_1 hok =>
        refine .inr (.inr (.inl ⟨call, sqlError, batch, rfl, hflush, hok, ?_⟩))
        rw [← List.eraseIdx_eq_take_drop_succ]
        exact (Option.some.inj h).symm
      case h_2 =>
        refine .inr (.inr (.inr (.inl ⟨call, sqlError, batch, rfl, hflush, ?_⟩)))
        rw [List.set_eq_take_append_cons_drop, if_pos hlt] at h
        exact (Option.some.inj h).symm
  | reinsert call =>
    simp only [step] at h
    split at h
    case h_2 => cases h
    case h_1 batch hflush =>
      refine .inr (.inr (.inr (.inr ⟨call, batch, rfl, hflush, ?_⟩)))
      rw [← List.eraseIdx_eq_take_drop_succ]
      exact (Option.some.inj h).symm

end Steps

/-! ### Accounting -/

/-- How often a numbered sample stands in the four places that it can be in. -/
def places (s : SqliteHistorian) (r : Recorded) : ℕ :=
  s.rows.count r + s.pending.count r + s.inFlight.count r + s.lost.count r

/-- Every recorded sample stands in one place and nothing else stands in any, and the
counter tells how many were dropped. -/
structure Accounted (hotCapacity : ℕ) (s : SqliteHistorian) : Prop where
  places : ∀ r, s.places r = s.recorded.zipIdx.count r
  lost : s.lost.length = s.coldPendingDropped
  pendingCap : s.pendingCap = max 1 hotCapacity

section Accounting

variable {s t : SqliteHistorian} {hotCapacity : ℕ}

theorem accounted_new (openError : Option Error) :
    Accounted hotCapacity (new hotCapacity openError) where
  places _ := rfl
  lost := rfl
  pendingCap := by
    show (if hotCapacity = 0 then 1 else hotCapacity) = _
    split <;> omega

theorem inFlight_split {call : ℕ} {flush : FlushCall} (h : s.flushes[call]? = some flush) :
    s.inFlight = (s.flushes.take call).flatMap (·.batch) ++
      (flush.batch ++ (s.flushes.drop (call + 1)).flatMap (·.batch)) := by
  conv_lhs => rw [inFlight, flushes_split h]
  rw [List.flatMap_append, List.flatMap_cons]

/-- What a failed flush does to the pending samples, whether it drops any or not. -/
theorem reinsert_eq (s : SqliteHistorian) (batch : List Recorded) :
    s.reinsert batch =
      { s with
        pending := (batch ++ s.pending).drop ((batch ++ s.pending).length - s.maxPending)
        coldPendingDropped :=
          s.coldPendingDropped + ((batch ++ s.pending).length - s.maxPending)
        lost := s.lost ++
          (batch ++ s.pending).take ((batch ++ s.pending).length - s.maxPending) } := by
  by_cases h : (batch ++ s.pending).length > s.maxPending
  · exact if_pos h
  · have hzero : (batch ++ s.pending).length - s.maxPending = 0 := by omega
    refine (if_neg h).trans ?_
    simp only [hzero, List.drop_zero, List.take_zero, List.append_nil, Nat.add_zero]

theorem count_take_add_count_drop (r : Recorded) (n : ℕ) (l : List Recorded) :
    (l.take n).count r + (l.drop n).count r = l.count r := by
  rw [← List.count_append, List.take_append_drop]

theorem step_accounted {action : HistorianAction} (hs : Accounted hotCapacity s)
    (h : step action s = some t) : Accounted hotCapacity t := by
  obtain ⟨id, value, -, rfl⟩ | ⟨-, rfl⟩ | ⟨call, sqlError, batch, -, hflush, -, rfl⟩ |
    ⟨call, sqlError, batch, -, hflush, rfl⟩ | ⟨call, batch, -, hflush, rfl⟩ := step_cases h
  · -- the pushed sample gets the next number
    refine ⟨fun r => ?_, hs.lost, hs.pendingCap⟩
    have hr := hs.places r
    simp only [SqliteHistorian.places, record, inFlight, List.zipIdx_append, List.count_append,
      List.zipIdx_singleton, Nat.zero_add] at hr ⊢
    omega
  · refine ⟨fun r => ?_, hs.lost, hs.pendingCap⟩
    have hr := hs.places r
    simp only [SqliteHistorian.places, inFlight, List.flatMap_append, List.flatMap_singleton,
      List.count_append, List.count_nil] at hr ⊢
    omega
  · -- the batch moves from the flush to the table
    refine ⟨fun r => ?_, hs.lost, hs.pendingCap⟩
    have hr := hs.places r
    simp only [SqliteHistorian.places, inFlight_split hflush, List.count_append] at hr
    simp only [SqliteHistorian.places, inFlight, List.flatMap_append, List.count_append]
    omega
  · refine ⟨fun r => ?_, hs.lost, hs.pendingCap⟩
    have hr := hs.places r
    simp only [SqliteHistorian.places, inFlight_split hflush, List.count_append] at hr
    simp only [SqliteHistorian.places, inFlight, List.flatMap_append, List.flatMap_cons,
      List.count_append]
    omega
  · -- the batch goes back, and what is over the limit is counted
    rw [reinsert_eq]
    refine ⟨fun r => ?_, ?_, hs.pendingCap⟩
    · have hr := hs.places r
      have hcut := count_take_add_count_drop r
        ((batch ++ s.pending).length - s.maxPending) (batch ++ s.pending)
      rw [List.count_append] at hcut
      simp only [SqliteHistorian.places, inFlight_split hflush, List.count_append] at hr
      simp only [SqliteHistorian.places, inFlight, List.flatMap_append, List.count_append]
      simp only [maxPending] at hcut ⊢
      omega
    · have hl := hs.lost
      simp only [List.length_append, List.length_take] at hl ⊢
      omega

/-- After a failed flush the pending samples are within their limit. -/
theorem length_pending_reinsert (hs : Accounted hotCapacity s) {call : ℕ}
    (h : step (.reinsert call) s = some t) : t.pending.length ≤ 4 * max 1 hotCapacity := by
  obtain ⟨_, _, ha, _⟩ | ⟨ha, _⟩ | ⟨_, _, _, ha, _⟩ | ⟨_, _, _, ha, _⟩ |
    ⟨call, batch, -, hflush, rfl⟩ := step_cases h
  any_goals cases ha
  have hmax : s.maxPending ≤ s.pendingCap * 4 := Nat.mod_le _ _
  have hcap := hs.pendingCap
  rw [reinsert_eq]
  simp only [List.length_drop]
  simp only [maxPending] at hmax ⊢
  omega

theorem count_zipIdx {n : ℕ} {x : HistorianSample} {l : List HistorianSample} (h : l[n]? = some x) :
    l.zipIdx.count (x, n) = 1 := by
  have hnodup : l.zipIdx.Nodup :=
    List.Nodup.of_map Prod.snd (by rw [List.zipIdx_map_snd]; exact List.nodup_range')
  exact List.count_eq_one_of_mem hnodup (List.mk_mem_zipIdx_iff_getElem?.mpr h)

/-- In every interleaving of record and flush calls, whatever transactions fail, every
recorded sample is in one place: the table, the pending samples, a batch in progress, or
among those counted as dropped. A failed flush leaves at most four times the capacity
pending. -/
theorem recorded_samples_accounted (hotCapacity : ℕ) {s : SqliteHistorian}
    (h : Reachable step Free (Opened hotCapacity) s) :
    (∀ n x, s.recorded[n]? = some x →
      s.rows.count (x, n) + s.pending.count (x, n) + s.inFlight.count (x, n) +
        s.lost.count (x, n) = 1) ∧
    (∀ x n, (x, n) ∈ s.rows ++ s.pending ++ s.inFlight ++ s.lost → s.recorded[n]? = some x) ∧
    s.coldPendingDropped = s.lost.length ∧
    s.recorded.length =
      s.rows.length + s.pending.length + s.inFlight.length + s.coldPendingDropped ∧
    ∀ call t, step (.reinsert call) s = some t → t.pending.length ≤ 4 * max 1 hotCapacity := by
  have hs : Accounted hotCapacity s := by
    refine h.invariant _ ?_ fun _ _ _ _ hs _ hstep => step_accounted hs hstep
    rintro s ⟨openError, rfl⟩
    exact accounted_new openError
  have hperm : (s.rows ++ s.pending ++ s.inFlight ++ s.lost).Perm s.recorded.zipIdx := by
    rw [List.perm_iff_count]
    intro r
    rw [← hs.places r, List.count_append, List.count_append, List.count_append]
    rfl
  refine ⟨fun n x hx => ?_, fun x n hmem => ?_, hs.lost.symm, ?_, fun call t hstep =>
    length_pending_reinsert hs hstep⟩
  · rw [← count_zipIdx hx]
    exact hs.places (x, n)
  · exact List.mk_mem_zipIdx_iff_getElem?.mp (hperm.subset hmem)
  · have hlength := hperm.length_eq
    simp only [List.length_append, List.length_zipIdx, hs.lost] at hlength
    omega

end Accounting

end SqliteHistorian

end Historian

attribute [local instance] exactPlatform

/-- Two flushes overlap; the first fails and drops one sample, and the second commits. -/
def overlappingFlushes : List HistorianAction :=
  [.record 7 {}, .record 7 {}, .record 8 {}, .swap, .record 7 {}, .record 9 {}, .swap,
    .insertBatch 0 (some "database is locked"), .record 7 {}, .record 8 {}, .reinsert 0,
    .insertBatch 0 none]

theorem overlappingFlushes_accounted :
    ∃ s, run SqliteHistorian.step overlappingFlushes (.new 1 none) = some s ∧
      s.coldPendingDropped = 1 ∧ s.recorded.length = s.rows.length + s.pending.length + 1 := by
  have hend : (run SqliteHistorian.step overlappingFlushes (.new 1 none)).map (fun s =>
      (s.coldPendingDropped, s.inFlight.length)) = some (1, 0) := by decide +kernel
  obtain ⟨s, hrun, hs⟩ := Option.map_eq_some_iff.mp hend
  obtain ⟨hdropped, hflight⟩ := Prod.mk.inj hs
  have hstart : Reachable SqliteHistorian.step Free (SqliteHistorian.Opened 1)
    (SqliteHistorian.new 1 none) := .start ⟨none, rfl⟩
  obtain ⟨-, -, -, hcount, -⟩ :=
    SqliteHistorian.recorded_samples_accounted 1 (hstart.of_run overlappingFlushes hrun)
  refine ⟨s, hrun, hdropped, ?_⟩
  rw [hcount, hflight, hdropped]

end OpcServer.Adapters
