import OpcServer.Domain.Types
import Mathlib.Data.Finset.Card

/-! The quality counters of the diagnostics node. Tag ids have their 32-bit type here: it
keeps the 64-bit counters from wrapping however many notifications arrive. -/

namespace OpcServer.Adapters

open Domain

def qualityReasonName : QualityReason → String
  | .none => "None"
  | .noCommunication => "NoCommunication"
  | .deviceFailure => "DeviceFailure"
  | .timeout => "Timeout"
  | .modbusException => "ModbusException"
  | .decodingError => "DecodingError"
  | .stale => "Stale"
  | .writePending => "WritePending"
  | .writeRejected => "WriteRejected"
  | .outOfRange => "OutOfRange"

/-- What `diagnostics_mutex_` guards of the counters. -/
structure Diagnostics where
  latestQuality : UInt32 → Option Quality := fun _ => none
  goodCount : UInt64 := 0
  uncertainCount : UInt64 := 0
  badCount : UInt64 := 0
  lastError : String := ""
  diagnosticsDirty : Bool := false

variable [Platform]

namespace Diagnostics

def counter (s : Diagnostics) : Quality → UInt64
  | .good => s.goodCount
  | .uncertain => s.uncertainCount
  | .bad => s.badCount

def decrement (s : Diagnostics) : Quality → Diagnostics
  | .good => { s with goodCount := s.goodCount - 1 }
  | .uncertain => { s with uncertainCount := s.uncertainCount - 1 }
  | .bad => { s with badCount := s.badCount - 1 }

def noteTagQuality (s : Diagnostics) (id : UInt32) (value : TagValue) : Diagnostics :=
  let s := match s.latestQuality id with
    | some previous => s.decrement previous
    | none => s
  let s := { s with latestQuality := Function.update s.latestQuality id (some value.quality) }
  let s := match value.quality with
    | .good => { s with goodCount := s.goodCount + 1 }
    | .uncertain => { s with uncertainCount := s.uncertainCount + 1 }
    | .bad =>
      { s with
        badCount := s.badCount + 1
        lastError := "Tag " ++ toString id.toNat ++ ": " ++ qualityReasonName value.reason }
  { s with diagnosticsDirty := true }

/-- The locked block of `bind_tags`. -/
def reset (_ : Diagnostics) : Diagnostics := { diagnosticsDirty := true }

/-- The diagnostics part of `bind_tags`: the reset, then a notification for each entry that
the store has already. -/
def bindTags (s : Diagnostics) (tags : List UInt32) (get : UInt32 → Option TagValue) :
    Diagnostics :=
  tags.foldl (fun s id =>
    match get id with
    | some existing => s.noteTagQuality id existing
    | none => s) s.reset

/-- What happens to the counters. The store's subscription is there before the catch-up, so
that other notifications can fall between its own. -/
inductive Event where
  | reset
  | note (id : UInt32) (value : TagValue)

def step (s : Diagnostics) : Event → Diagnostics
  | .reset => s.reset
  | .note id value => s.noteTagQuality id value

def run (events : List Event) : Diagnostics :=
  events.foldl step {}

def bindTagsEvents (tags : List UInt32) (get : UInt32 → Option TagValue) : List Event :=
  .reset :: tags.filterMap fun id => (get id).map (.note id)

/-- The ids and qualities notified since the last reset, newest first. -/
def sinceReset (events : List Event) : List (UInt32 × Quality) :=
  events.foldl (fun notes event =>
    match event with
    | .reset => []
    | .note id value => (id, value.quality) :: notes) []

omit [Platform] in
theorem counter_decrement (s : Diagnostics) (p c : Quality) :
    (s.decrement p).counter c = if p = c then s.counter c - 1 else s.counter c := by
  cases p <;> cases c <;> rfl

omit [Platform] in
theorem latestQuality_decrement (s : Diagnostics) (p : Quality) :
    (s.decrement p).latestQuality = s.latestQuality := by
  cases p <;> rfl

theorem latestQuality_noteTagQuality (s : Diagnostics) (id : UInt32) (value : TagValue) :
    (s.noteTagQuality id value).latestQuality =
      Function.update s.latestQuality id (some value.quality) := by
  unfold noteTagQuality
  cases s.latestQuality id with
  | none => cases value.quality <;> rfl
  | some p =>
    rw [← latestQuality_decrement s p]
    cases value.quality <;> rfl

theorem counter_noteTagQuality (s : Diagnostics) (id : UInt32) (value : TagValue) (c : Quality) :
    (s.noteTagQuality id value).counter c =
      (if s.latestQuality id = some c then s.counter c - 1 else s.counter c) +
        if value.quality = c then 1 else 0 := by
  unfold noteTagQuality
  cases hprevious : s.latestQuality id with
  | none => cases value.quality <;> cases c <;> simp [counter]
  | some p =>
    simp only [Option.some_inj]
    rw [← counter_decrement]
    cases value.quality <;> cases c <;> simp [counter]

/-- The catch-up is a run of notifications after a reset. -/
theorem bindTags_eq (events : List Event) (tags : List UInt32) (get : UInt32 → Option TagValue) :
    bindTags (run events) tags get = run (events ++ bindTagsEvents tags get) := by
  rw [run, run, List.foldl_append, bindTagsEvents, List.foldl_cons, List.foldl_filterMap, bindTags]
  congr 1
  funext s id
  cases get id <;> rfl

end Diagnostics

open Diagnostics

/-- The tags whose latest notification has the quality. -/
def tagsWith (notes : List (UInt32 × Quality)) (c : Quality) : Finset UInt32 :=
  (notes.map Prod.fst).toFinset.filter fun id => notes.lookup id = some c

section Tags
variable {notes : List (UInt32 × Quality)} {id : UInt32} {q c : Quality}

omit [Platform]

theorem lookup_note (other : UInt32) :
    ((id, q) :: notes).lookup other = if other = id then some q else notes.lookup other := by
  rw [List.lookup_cons]
  split_ifs with hid
  · simp [hid]
  · rw [beq_false_of_ne hid]

theorem mem_map_fst_iff : id ∈ notes.map Prod.fst ↔ ∃ c, notes.lookup id = some c := by
  rw [← Option.isSome_iff_exists, List.lookup_isSome_iff]
  simp

theorem mem_tagsWith : id ∈ tagsWith notes c ↔ notes.lookup id = some c := by
  rw [tagsWith, Finset.mem_filter, List.mem_toFinset, mem_map_fst_iff, and_iff_right_iff_imp]
  intro h
  exact ⟨c, h⟩

theorem tagsWith_cons :
    tagsWith ((id, q) :: notes) c =
      if q = c then insert id (tagsWith notes c) else (tagsWith notes c).erase id := by
  ext other
  rw [mem_tagsWith, lookup_note]
  by_cases hid : other = id
  · subst hid
    rw [if_pos rfl]
    split_ifs with hq <;> simp [hq]
  · split_ifs <;> simp [hid, mem_tagsWith]

/-- The new note leaves the class of the previous one and enters its own. -/
theorem card_tagsWith_cons (notes : List (UInt32 × Quality)) (id : UInt32) (q c : Quality) :
    (tagsWith ((id, q) :: notes) c).card + (if notes.lookup id = some c then 1 else 0) =
      (tagsWith notes c).card + if q = c then 1 else 0 := by
  rw [tagsWith_cons]
  by_cases hmem : id ∈ tagsWith notes c
  · rw [if_pos (mem_tagsWith.mp hmem)]
    have hpos : 0 < (tagsWith notes c).card := Finset.card_pos.mpr ⟨id, hmem⟩
    split_ifs with hq
    · rw [Finset.insert_eq_of_mem hmem]
    · rw [Finset.card_erase_of_mem hmem]
      omega
  · rw [if_neg (fun h => hmem (mem_tagsWith.mpr h))]
    split_ifs with hq
    · rw [Finset.card_insert_of_notMem hmem]
    · rw [Finset.erase_eq_of_notMem hmem]

theorem card_le_uint32 (ids : Finset UInt32) : ids.card ≤ 2 ^ 32 := by
  have hmaps : ∀ id ∈ ids, id.toNat ∈ Finset.range (2 ^ 32) := fun id _ =>
    Finset.mem_range.mpr id.toNat_lt
  have hinj : Set.InjOn UInt32.toNat ids := fun a _ b _ h => UInt32.toNat_inj.mp h
  have hcard := Finset.card_le_card_of_injOn UInt32.toNat hmaps hinj
  rwa [Finset.card_range] at hcard

theorem card_ids :
    (tagsWith notes .good).card + (tagsWith notes .uncertain).card + (tagsWith notes .bad).card =
      (notes.map Prod.fst).toFinset.card := by
  have hdisjoint {a b : Quality} (h : a ≠ b) : Disjoint (tagsWith notes a) (tagsWith notes b) := by
    rw [Finset.disjoint_left]
    intro id ha hb
    rw [mem_tagsWith] at ha hb
    exact h (Option.some.inj (ha.symm.trans hb))
  have hunion : (notes.map Prod.fst).toFinset =
      tagsWith notes .good ∪ tagsWith notes .uncertain ∪ tagsWith notes .bad := by
    ext id
    rw [List.mem_toFinset, mem_map_fst_iff, Finset.mem_union, Finset.mem_union, mem_tagsWith,
      mem_tagsWith, mem_tagsWith]
    constructor
    · rintro ⟨c, hc⟩
      cases c with
      | good => exact .inl (.inl hc)
      | uncertain => exact .inl (.inr hc)
      | bad => exact .inr hc
    · rintro ((h | h) | h) <;> exact ⟨_, h⟩
  rw [hunion, Finset.card_union_of_disjoint, Finset.card_union_of_disjoint (hdisjoint (by decide))]
  exact Finset.disjoint_union_left.mpr ⟨hdisjoint (by decide), hdisjoint (by decide)⟩

end Tags

/-- The counters after the notes since the last reset. -/
structure Counts (s : Diagnostics) (notes : List (UInt32 × Quality)) : Prop where
  latest : ∀ id, s.latestQuality id = notes.lookup id
  count : ∀ c, (s.counter c).toNat = (tagsWith notes c).card

variable {s : Diagnostics} {notes : List (UInt32 × Quality)}

omit [Platform] in
/-- A class that some tag is in is not counted as empty. -/
theorem Counts.counter_ne_zero (h : Counts s notes) {id : UInt32} {p : Quality}
    (hprevious : s.latestQuality id = some p) : s.counter p ≠ 0 := by
  intro hzero
  have hmem : id ∈ tagsWith notes p := mem_tagsWith.mpr ((h.latest id).symm.trans hprevious)
  have hcount := h.count p
  rw [hzero, UInt64.toNat_zero, eq_comm, Finset.card_eq_zero] at hcount
  exact Finset.notMem_empty id (hcount ▸ hmem)

omit [Platform] in
theorem counts_reset (s : Diagnostics) : Counts s.reset [] where
  latest _ := rfl
  count c := by cases c <;> rfl

theorem Counts.noteTagQuality (h : Counts s notes) (id : UInt32) (value : TagValue) :
    Counts (s.noteTagQuality id value) ((id, value.quality) :: notes) := by
  constructor
  · intro other
    rw [latestQuality_noteTagQuality, lookup_note, Function.update_apply, h.latest]
  · intro c
    have hcard := card_tagsWith_cons notes id value.quality c
    have hbound := card_le_uint32 (tagsWith notes c)
    have hcount := h.count c
    rw [counter_noteTagQuality, UInt64.toNat_add]
    -- the class left is not empty, and the class entered is far from full
    have hleft : (if s.latestQuality id = some c then s.counter c - 1 else s.counter c).toNat =
        (tagsWith notes c).card - if notes.lookup id = some c then 1 else 0 := by
      rw [← h.latest]
      split_ifs with hprevious
      · have hne := h.counter_ne_zero hprevious
        have hone : 1 ≤ s.counter c := by
          rw [UInt64.le_iff_toNat_le, UInt64.toNat_one]
          have := mt UInt64.toNat_inj.mp hne
          rw [UInt64.toNat_zero] at this
          omega
        rw [UInt64.toNat_sub_of_le _ _ hone, UInt64.toNat_one, hcount]
      · exact hcount
    have hentered : (if value.quality = c then (1 : UInt64) else 0).toNat =
        if value.quality = c then 1 else 0 := by
      split_ifs <;> rfl
    have hmember : (if notes.lookup id = some c then 1 else 0) ≤ (tagsWith notes c).card := by
      split_ifs with hprevious
      · exact Finset.card_pos.mpr ⟨id, mem_tagsWith.mpr hprevious⟩
      · exact Nat.zero_le _
    rw [hleft, hentered, Nat.mod_eq_of_lt]
    · omega
    · split_ifs <;> omega

theorem counts_run (events : List Event) : Counts (run events) (sinceReset events) := by
  induction events using List.reverseRecOn with
  | nil => exact ⟨fun _ => rfl, fun c => by cases c <;> rfl⟩
  | append_singleton events event ih =>
    rw [run, sinceReset, List.foldl_append, List.foldl_append]
    cases event with
    | reset => exact counts_reset (run events)
    | note id value => exact ih.noteTagQuality id value

/-- After any resets and notifications each counter is the number of tags whose latest
notified quality is its own, the three add up to the tags notified, the counter that the
next notification decrements is not zero; and `bind_tags` is such a run. -/
theorem quality_counters_exact (events : List Event) :
    let s := run events
    let notes := sinceReset events
    (s.goodCount.toNat = (tagsWith notes .good).card ∧
      s.uncertainCount.toNat = (tagsWith notes .uncertain).card ∧
      s.badCount.toNat = (tagsWith notes .bad).card) ∧
      s.goodCount.toNat + s.uncertainCount.toNat + s.badCount.toNat =
        (notes.map Prod.fst).toFinset.card ∧
      (∀ id previous, s.latestQuality id = some previous → s.counter previous ≠ 0) ∧
      ∀ tags get, s.bindTags tags get = run (events ++ bindTagsEvents tags get) := by
  intro s notes
  have h : Counts s notes := counts_run events
  have hgood := h.count .good
  have huncertain := h.count .uncertain
  have hbad := h.count .bad
  simp only [counter] at hgood huncertain hbad
  refine ⟨⟨hgood, huncertain, hbad⟩, ?_, fun id p => h.counter_ne_zero, bindTags_eq events⟩
  rw [hgood, huncertain, hbad, card_ids]

end OpcServer.Adapters
