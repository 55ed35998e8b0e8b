import OpcServer.Adapters.ColdText

/-! The order of the cold history. Table, batches in progress and pending samples, read
in this order, are the order of recording as long as batches are committed in the order
in which they were taken, and go back in the opposite one. Nothing in `flush` sees to
either: two strands that flush at the same time can commit in any order. -/

namespace OpcServer.Adapters

open Domain OpcServer.Core Transition Traverse

section Order

variable [Platform]

def replaySamples (store : TagStore) (samples : List HistorianSample) : TagStore :=
  samples.foldl (fun store sample => store.publish sample.id sample.value) store

/-- A batch is committed before every later one, and put back after every later one. -/
def HistorianAction.InTurn : HistorianAction → SqliteHistorian → Prop
  | .insertBatch call sqlError, s => ∀ flush ∈ s.flushes[call]?,
    s.insertBatch flush.batch sqlError = .ok () ∧ flush.batch ≠ [] →
      ∀ earlier ∈ s.flushes.take call, earlier.batch = []
  | .reinsert call, s => ∀ flush ∈ s.flushes[call]?, flush.batch ≠ [] →
    ∀ later ∈ s.flushes.drop (call + 1), later.batch = []
  | .record _ _, _ => True
  | .swap, _ => True

instance : ∀ (action : HistorianAction) (s : SqliteHistorian), Decidable (action.InTurn s)
  | .insertBatch call sqlError, s => inferInstanceAs (Decidable (∀ flush ∈ s.flushes[call]?,
    s.insertBatch flush.batch sqlError = .ok () ∧ flush.batch ≠ [] →
      ∀ earlier ∈ s.flushes.take call, earlier.batch = []))
  | .reinsert call, s => inferInstanceAs (Decidable (∀ flush ∈ s.flushes[call]?,
    flush.batch ≠ [] → ∀ later ∈ s.flushes.drop (call + 1), later.batch = []))
  | .record _ _, _ => .isTrue trivial
  | .swap, _ => .isTrue trivial

/-! ### The order of what is kept -/

namespace SqliteHistorian

variable {s t : SqliteHistorian}

/-- Everything that is still kept, from the first row to the last pending sample. -/
def kept (s : SqliteHistorian) : List Recorded := s.rows ++ (s.inFlight ++ s.pending)

theorem flatMap_batch_eq_nil {flushes : List FlushCall} (h : ∀ flush ∈ flushes, flush.batch = []) :
    flushes.flatMap (·.batch) = [] :=
  List.flatMap_eq_nil_iff.mpr h

theorem kept_step {action : HistorianAction} (hturn : action.InTurn s)
    (h : step action s = some t) :
    (∃ id value, t.kept = s.kept ++ [(⟨id, value⟩, s.recorded.length)] ∧
      t.recorded = s.recorded ++ [⟨id, value⟩]) ∨
    t.kept.Sublist s.kept ∧ t.recorded = s.recorded := by
  have hsame : ∀ {u : SqliteHistorian}, u.kept = s.kept → u.kept.Sublist s.kept := fun heq =>
    heq ▸ List.Sublist.refl _
  obtain ⟨id, value, -, rfl⟩ | ⟨-, rfl⟩ | ⟨call, sqlError, batch, rfl, hflush, hok, rfl⟩ |
    ⟨call, sqlError, batch, -, hflush, rfl⟩ | ⟨call, batch, rfl, hflush, rfl⟩ := step_cases h
  · refine .inl ⟨id, value, ?_, rfl⟩
    simp [kept, record, inFlight]
  · refine .inr ⟨hsame ?_, rfl⟩
    simp [kept, inFlight]
  · -- the batch passes over the earlier ones, all empty
    refine .inr ⟨hsame ?_, rfl⟩
    have hturn := hturn _ hflush
    rw [kept, kept, inFlight_split hflush, inFlight, List.flatMap_append]
    by_cases hbatch : batch = []
    · simp [hbatch]
    · simp [flatMap_batch_eq_nil (hturn ⟨hok, hbatch⟩)]
  · refine .inr ⟨hsame ?_, rfl⟩
    rw [kept, kept, inFlight_split hflush, inFlight, List.flatMap_append, List.flatMap_cons]
  · -- the batch passes over the later ones, all empty, and may lose its oldest samples
    have hturn := hturn _ hflush
    rw [reinsert_eq]
    refine .inr ⟨?_, rfl⟩
    rw [kept, kept, inFlight_split hflush, inFlight, List.flatMap_append]
    refine List.Sublist.append_left ?_ _
    have hdrop : ∀ n, ((batch ++ s.pending).drop n).Sublist (batch ++ s.pending) := fun n =>
      List.drop_sublist n _
    by_cases hbatch : batch = []
    · subst hbatch
      exact (hdrop _).append_left _
    · rw [flatMap_batch_eq_nil (hturn hbatch)]
      simp only [List.append_nil, List.append_assoc]
      exact (hdrop _).append_left _

/-- What is kept is in the order of recording. -/
theorem kept_sublist {hotCapacity : ℕ}
    (h : Reachable step HistorianAction.InTurn (Opened hotCapacity) s) :
    s.kept.Sublist s.recorded.zipIdx := by
  refine h.invariant (fun s => s.kept.Sublist s.recorded.zipIdx) ?_ ?_
  · rintro s ⟨openError, rfl⟩
    exact List.Sublist.refl []
  · intro s t action _ hs hturn hstep
    obtain ⟨id, value, hkept, hrecorded⟩ | ⟨hkept, hrecorded⟩ := kept_step hturn hstep
    · rw [hkept, hrecorded, List.zipIdx_append, List.zipIdx_singleton, Nat.zero_add]
      exact hs.append_right _
    · rw [hrecorded]
      exact hkept.trans hs

theorem selected_sublist (s : SqliteHistorian) (max : ℕ) : (s.selected max).Sublist s.rows := by
  unfold selected
  split_ifs
  · exact List.take_sublist max s.rows
  · exact List.nil_sublist s.rows

end SqliteHistorian

/-! ### Replay -/

/-- A replay leaves at each tag the last of its samples. -/
theorem get_replaySamples_eq (samples : List HistorianSample) (store : TagStore) (id : TagId) :
    (replaySamples store samples).get id =
      match samples.reverse.find? (·.id == id) with
      | some sample => some sample.value
      | none => store.get id := by
  induction samples generalizing store with
  | nil => rfl
  | cons sample rest ih =>
    show (replaySamples (store.publish sample.id sample.value) rest).get id = _
    rw [ih, List.reverse_cons, List.find?_append]
    cases hfind : rest.reverse.find? (·.id == id) with
    | some later => rfl
    | none =>
      by_cases hid : sample.id = id
      · subst hid
        simp
      · simp [hid, TagStore.get_publish_of_ne _ _ (Ne.symm hid)]

/-- The last sample of a tag decides its value. -/
theorem get_replaySamples {before after : List HistorianSample} {sample : HistorianSample}
    (h : ∀ x ∈ after, x.id ≠ sample.id) (store : TagStore) :
    (replaySamples store (before ++ sample :: after)).get sample.id = some sample.value := by
  have hafter : after.reverse.find? (·.id == sample.id) = none := by
    rw [List.find?_eq_none]
    intro x hx
    simpa using h x (List.mem_reverse.mp hx)
  rw [get_replaySamples_eq, List.reverse_append, List.reverse_cons, List.append_assoc,
    List.find?_append, hafter]
  simp

theorem restored_id {floats : FloatText} {x y : HistorianSample} (h : restored floats x = .ok y) :
    y.id = x.id := by
  unfold restored readRow at h
  cases hvalue : textToValue floats (bindSample floats x).valueType
      (bindSample floats x).valueText with
  | error e =>
    rw [hvalue] at h
    cases h
  | ok value =>
    rw [hvalue] at h
    rw [← Except.ok.inj h]
    exact Int.toNat_natCast _

theorem restored_ids {floats : FloatText} {rows : List Recorded} {samples : List HistorianSample}
    (h : List.Forall₂ (fun row sample => restored floats row.1 = .ok sample) rows samples) :
    samples.map (·.id) = rows.map (·.1.id) := by
  induction h with
  | nil => rfl
  | cons hhead _ ih => rw [List.map_cons, List.map_cons, ih, restored_id hhead]

/-- The numbers of samples in the order of recording increase. -/
theorem pairwise_of_sublist_zipIdx {rows : List Recorded} {recorded : List HistorianSample}
    (h : rows.Sublist recorded.zipIdx) : rows.Pairwise fun a b => a.2 < b.2 := by
  refine List.Pairwise.sublist h ?_
  have hrange : (recorded.zipIdx.map (·.2)).Pairwise (· < ·) := by
    rw [List.zipIdx_map_snd]
    exact List.pairwise_lt_range'
  exact List.pairwise_map.mp hrange

/-- In a run whose commits are in turn, the rows of the table are a subsequence of the
samples recorded; `load_cold` returns the first of them as they are restored, and replaying
them all leaves every tag at its latest persisted sample. -/
theorem cold_history_in_recording_order {hotCapacity : ℕ} {s : SqliteHistorian}
    (h : Reachable SqliteHistorian.step HistorianAction.InTurn
      (SqliteHistorian.Opened hotCapacity) s) :
    s.rows.Sublist s.recorded.zipIdx ∧
    ∀ (floats : FloatText) (max : ℕ) (samples : List HistorianSample),
      s.loadCold floats max = .ok samples →
      (s.selected max).Sublist s.rows ∧
      List.Forall₂ (fun row sample => restored floats row.1 = .ok sample) (s.selected max)
        samples ∧
      (s.rows.length ≤ max → max < 2 ^ 63 → ∀ (store : TagStore), ∀ row ∈ s.rows,
        (∀ other ∈ s.rows, other.1.id = row.1.id → other.2 ≤ row.2) →
        ∃ sample, restored floats row.1 = .ok sample ∧
          (replaySamples store samples).get row.1.id = some sample.value) := by
  have hrows : s.rows.Sublist s.recorded.zipIdx :=
    (List.sublist_append_left _ _).trans (SqliteHistorian.kept_sublist h)
  refine ⟨hrows, fun floats max samples hload => ?_⟩
  have hopen : s.openError = none := by
    cases hopen : s.openError with
    | none => rfl
    | some e =>
      rw [SqliteHistorian.loadCold, hopen] at hload
      cases hload
  rw [loadCold_eq hopen, mapM_eq_ok_iff, List.forall₂_map_left_iff] at hload
  refine ⟨s.selected_sublist max, hload, fun hmax hlimit store row hrow hlatest => ?_⟩
  rw [SqliteHistorian.selected, if_pos hlimit, List.take_of_length_le hmax] at hload
  -- after its row, only rows of other tags have greater numbers
  obtain ⟨before, after, hsplit⟩ := List.append_of_mem hrow
  have hlater : ∀ other ∈ after, other.1.id ≠ row.1.id := by
    intro other hother hid
    have hlt := pairwise_of_sublist_zipIdx hrows
    rw [hsplit, List.pairwise_append, List.pairwise_cons] at hlt
    have hle := hlatest other (by simp [hsplit, hother]) hid
    have := hlt.2.1.1 other hother
    omega
  have hrest := List.forall₂_drop before.length hload
  rw [hsplit, List.drop_left] at hrest
  obtain ⟨sample, last, hsample, hlast, hsamples⟩ := List.forall₂_cons_left_iff.mp hrest
  refine ⟨sample, hsample, ?_⟩
  rw [← restored_id hsample, ← List.take_append_drop before.length samples, hsamples]
  refine get_replaySamples (fun x hx => ?_) store
  have hid : x.id ∈ after.map (·.1.id) := restored_ids hlast ▸ List.mem_map_of_mem hx
  obtain ⟨other, hother, heq⟩ := List.mem_map.mp hid
  rw [← heq, restored_id hsample]
  exact hlater other hother

end Order

/-! ### Two strands -/

attribute [local instance] exactPlatform

def levelValue (level : UInt16) : TagValue :=
  { value := .uint16 level, quality := .good, reason := .none }

/-- Two strands flush one after the other, and the second commits first. -/
def crossedCommits : List HistorianAction :=
  [.record 7 (levelValue 1), .swap, .record 7 (levelValue 2), .swap, .insertBatch 1 none,
    .insertBatch 0 none]

/-- The first of two overlapping flushes commits, the second fails and is repeated. -/
def orderedCommits : List HistorianAction :=
  [.record 7 (levelValue 1), .swap, .record 7 (levelValue 2), .swap, .insertBatch 0 none,
    .insertBatch 0 (some "database is locked"), .record 8 (levelValue 3), .reinsert 0, .swap,
    .insertBatch 0 none]

/-- The table has the newer sample first, and a replay leaves the tag at the older one. -/
theorem crossedCommits_out_of_order :
    ∃ s, run SqliteHistorian.step crossedCommits (.new 4 none) = some s ∧
      s.recorded = [⟨7, levelValue 1⟩, ⟨7, levelValue 2⟩] ∧
      s.loadCold exactText 10 = .ok [⟨7, levelValue 2⟩, ⟨7, levelValue 1⟩] ∧
      ¬ [⟨7, levelValue 2⟩, ⟨7, levelValue 1⟩].Sublist s.recorded ∧
      (replaySamples {} [⟨7, levelValue 2⟩, ⟨7, levelValue 1⟩]).get 7 = some (levelValue 1) := by
  have hend : (run SqliteHistorian.step crossedCommits (.new 4 none)).map (fun s =>
      (s.recorded, s.loadCold exactText 10)) = some ([⟨7, levelValue 1⟩, ⟨7, levelValue 2⟩],
        .ok [⟨7, levelValue 2⟩, ⟨7, levelValue 1⟩]) := by decide +kernel
  obtain ⟨s, hrun, hs⟩ := Option.map_eq_some_iff.mp hend
  obtain ⟨hrecorded, hload⟩ := Prod.mk.inj hs
  refine ⟨s, hrun, hrecorded, hload, ?_, by decide +kernel⟩
  rw [hrecorded]
  decide +kernel

theorem orderedCommits_in_order :
    ∃ s, run SqliteHistorian.step orderedCommits (.new 4 none) = some s ∧
      s.rows.Sublist s.recorded.zipIdx ∧
      s.loadCold exactText 10 =
        .ok [⟨7, levelValue 1⟩, ⟨7, levelValue 2⟩, ⟨8, levelValue 3⟩] := by
  have hend : (run SqliteHistorian.step orderedCommits (.new 4 none)).map (fun s =>
      s.loadCold exactText 10) = some
        (.ok [⟨7, levelValue 1⟩, ⟨7, levelValue 2⟩, ⟨8, levelValue 3⟩]) := by decide +kernel
  obtain ⟨s, hrun, hload⟩ := Option.map_eq_some_iff.mp hend
  have hmeets : Meets SqliteHistorian.step HistorianAction.InTurn orderedCommits (.new 4 none) := by
    decide +kernel
  have hstart : Reachable SqliteHistorian.step HistorianAction.InTurn
    (SqliteHistorian.Opened 4) (.new 4 none) := .start ⟨none, rfl⟩
  obtain ⟨hrows, -⟩ :=
    cold_history_in_recording_order (hstart.of_meets orderedCommits hmeets hrun)
  exact ⟨s, hrun, hrows, hload⟩

end OpcServer.Adapters
