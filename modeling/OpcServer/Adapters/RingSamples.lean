import OpcServer.Adapters.HistorianOrder
import OpcServer.Adapters.RingHistorian
import Mathlib.Data.Nat.ModEq

/-! The ring against the list of what was recorded. Sample `j` is in slot `j` modulo the
capacity until the ring has gone round once more; both readers walk over the slots of the
newest samples, one from each end. -/

namespace OpcServer.Adapters

open Domain OpcServer.Core

variable [Platform]

def replayRecent (store : TagStore) (ring : RingHistorian) (max : ℕ) : TagStore :=
  replaySamples store (ring.recent max).reverse

namespace RingHistorian

def recordAll (ring : RingHistorian) (samples : List HistorianSample) : RingHistorian :=
  samples.foldl (fun ring sample => ring.record sample.id sample.value) ring

/-- The ring after some records: slot `j` modulo the capacity holds sample `j`, for the
newest `count`. -/
structure Holds (ring : RingHistorian) (samples : List HistorianSample) : Prop where
  count : ring.count = min samples.length ring.capacity
  dropped : ring.dropped = samples.length - ring.count
  head : ring.head = samples.length % ring.capacity
  slots : ∀ j, samples.length - ring.count ≤ j → j < samples.length →
    ring.buffer[j % ring.capacity]? = samples[j]?

variable {ring : RingHistorian} {samples : List HistorianSample}

theorem holds_new (capacity : ℕ) : (new capacity).Holds [] where
  count := (Nat.zero_min _).symm
  dropped := rfl
  head := (Nat.zero_mod _).symm
  slots _ _ hj := absurd hj (Nat.not_lt_zero _)

theorem Holds.record (h : ring.Holds samples) (id : TagId) (value : TagValue) :
    (ring.record id value).Holds (samples ++ [⟨id, value⟩]) := by
  have hcap : 0 < ring.capacity := Nat.zero_lt_of_lt ring.head_lt
  have hcount := h.count
  have hdropped := h.dropped
  have hcount' : (ring.record id value).count = min (samples.length + 1) ring.capacity := by
    show (if ring.count = ring.capacity then ring.count else ring.count + 1) = _
    split <;> omega
  refine ⟨?_, ?_, ?_, fun j hlow hj => ?_⟩
  · rw [List.length_append, List.length_singleton]
    exact hcount'
  · rw [hcount', List.length_append, List.length_singleton]
    show (if ring.count = ring.capacity then ring.dropped + 1 else ring.dropped) = _
    split <;> omega
  · rw [List.length_append, List.length_singleton]
    show (ring.head + 1) % ring.capacity = _
    rw [h.head, Nat.mod_add_mod]
    rfl
  · rw [hcount', List.length_append, List.length_singleton] at hlow
    rw [List.length_append, List.length_singleton] at hj
    show (ring.buffer.set ring.head ⟨id, value⟩)[j % ring.capacity]? = _
    rcases Nat.lt_succ_iff_lt_or_eq.mp hj with hold | rfl
    · -- no older sample that is kept shares the slot
      have hslot : ring.head ≠ j % ring.capacity := by
        rw [h.head]
        intro heq
        have hdvd : ring.capacity ∣ samples.length - j :=
          Nat.dvd_of_mod_eq_zero (Nat.sub_mod_eq_zero_of_mod_eq heq)
        have hle := Nat.le_of_dvd (by omega) hdvd
        omega
      rw [List.getElem?_set_ne hslot, List.getElem?_append_left hold]
      exact h.slots j (by omega) hold
    · have hlt : ring.head < ring.buffer.length := by
        rw [ring.length_buffer]
        exact ring.head_lt
      rw [← h.head, List.getElem?_set_self hlt, List.getElem?_append_right le_rfl, Nat.sub_self]
      rfl

theorem recordAll_holds (h : ring.Holds samples) (more : List HistorianSample) :
    (ring.recordAll more).Holds (samples ++ more) := by
  induction more generalizing ring samples with
  | nil =>
    rw [List.append_nil]
    exact h
  | cons sample rest ih =>
    have hnext := ih (h.record sample.id sample.value)
    rw [List.append_assoc] at hnext
    exact hnext

theorem recordAll_capacity (ring : RingHistorian) (more : List HistorianSample) :
    (ring.recordAll more).capacity = ring.capacity := by
  induction more generalizing ring with
  | nil => rfl
  | cons sample rest ih => exact ih (ring.record sample.id sample.value)

/-- A slot of a kept sample, whatever sum its index is the remainder of. -/
theorem Holds.getD_slot (h : ring.Holds samples) {k j : ℕ} (hlow : samples.length - ring.count ≤ j)
    (hj : j < samples.length) (hk : k % ring.capacity = j % ring.capacity) :
    ring.buffer.getD (k % ring.capacity) {} = samples[j] := by
  rw [List.getD_eq_getElem?_getD, hk, h.slots j hlow hj, List.getElem?_eq_getElem hj,
    Option.getD_some]

theorem Holds.snapshot_eq (h : ring.Holds samples) :
    ring.snapshot = samples.drop (samples.length - ring.count) := by
  have hcount := h.count
  have hle := ring.count_le
  apply List.ext_getElem
  · rw [snapshot, List.length_map, List.length_range, List.length_drop]
    omega
  · intro i hi hi'
    rw [List.length_drop] at hi'
    rw [List.getElem_drop]
    simp only [snapshot, List.getElem_map, List.getElem_range]
    refine h.getD_slot (by omega) (by omega) ?_
    -- the oldest slot is that of the first sample kept
    have holdest : (ring.head + ring.capacity - ring.count) % ring.capacity =
        (samples.length - ring.count) % ring.capacity := by
      have hdiv := Nat.div_add_mod samples.length ring.capacity
      rw [← h.head] at hdiv
      by_cases hfull : ring.count = ring.capacity
      · rw [hfull, Nat.add_sub_cancel, h.head, Nat.mod_mod, ← Nat.mod_eq_sub_mod (by omega)]
      · have hshort : samples.length < ring.capacity := by omega
        have hall : ring.count = samples.length := by omega
        rw [h.head, Nat.mod_eq_of_lt hshort, hall, Nat.add_sub_cancel_left, Nat.mod_self,
          Nat.sub_self, Nat.zero_mod]
    rw [Nat.add_mod, holdest, Nat.mod_mod, ← Nat.add_mod]

theorem Holds.recent_eq (h : ring.Holds samples) (max : ℕ) :
    ring.recent max = (samples.drop (samples.length - min max ring.count)).reverse := by
  have hcount := h.count
  have hle := ring.count_le
  have hcap : 0 < ring.capacity := Nat.zero_lt_of_lt ring.head_lt
  apply List.ext_getElem
  · rw [recent, List.length_map, List.length_range, List.length_reverse, List.length_drop]
    omega
  · intro i hi hi'
    rw [List.length_reverse, List.length_drop] at hi'
    rw [List.getElem_reverse, List.getElem_drop]
    simp only [recent, List.getElem_map, List.getElem_range, List.length_drop]
    have hindex : samples.length - min max ring.count +
        (samples.length - (samples.length - min max ring.count) - 1 - i) =
          samples.length - 1 - i := by omega
    simp only [hindex]
    refine h.getD_slot (by omega) (by omega) ?_
    have hsum : (ring.head + ring.capacity - 1 - i) % ring.capacity =
        (samples.length - 1 - i) % ring.capacity := by
      have hhead : ring.head + ring.capacity - 1 - i + (i + 1) = ring.head + ring.capacity := by omega
      have hlast : samples.length - 1 - i + (i + 1) = samples.length := by omega
      refine Nat.ModEq.add_right_cancel' (i + 1) ?_
      rw [hhead, hlast, Nat.ModEq, Nat.add_mod_right, h.head, Nat.mod_mod]
    exact hsum

end RingHistorian

/-- For every capacity and sequence of records: the ring holds the newest samples, counts
the others, gives them back in either order through indices inside the buffer, and its
replay into an empty store leaves at each tag the last sample replayed. -/
theorem ring_keeps_newest (capacity : ℕ) (samples : List HistorianSample) (m : ℕ) :
    let c := if capacity = 0 then 1 else capacity
    let ring := (RingHistorian.new capacity).recordAll samples
    let newest := samples.drop (samples.length - min m ring.size)
    ring.size = min samples.length c ∧ ring.dropped = samples.length - ring.size ∧
      ring.snapshot = samples.drop (samples.length - ring.size) ∧
      ring.recent m = newest.reverse ∧
      (ring.buffer.length = c ∧ ring.head < c ∧
        (∀ i < min m ring.size, i + 1 ≤ ring.head + ring.capacity ∧
          (ring.head + ring.capacity - 1 - i) % ring.capacity < c) ∧
        ∀ i < ring.size, ring.size ≤ ring.head + ring.capacity ∧
          ((ring.head + ring.capacity - ring.size) % ring.capacity + i) % ring.capacity < c) ∧
      ∀ id, (replayRecent {} ring m).get id =
        (newest.reverse.find? (·.id == id)).map HistorianSample.value := by
  intro c ring newest
  have hholds : ring.Holds samples := by
    have h := RingHistorian.recordAll_holds (RingHistorian.holds_new capacity) samples
    rwa [List.nil_append] at h
  have hc : ring.capacity = c := RingHistorian.recordAll_capacity _ samples
  have hcount := ring.count_le
  have hhead := ring.head_lt
  have hpos : 0 < ring.capacity := Nat.zero_lt_of_lt hhead
  have hrecent : ring.recent m = newest.reverse := hholds.recent_eq m
  refine ⟨?_, hholds.dropped, hholds.snapshot_eq, hrecent, ?_, fun id => ?_⟩
  · rw [← hc]
    exact hholds.count
  · rw [← hc]
    refine ⟨ring.length_buffer, hhead, fun i hi => ⟨?_, Nat.mod_lt _ hpos⟩,
      fun i hi => ⟨?_, Nat.mod_lt _ hpos⟩⟩
    · have hi' : i < ring.count := (lt_min_iff.mp hi).2
      omega
    · show ring.count ≤ _
      omega
  · rw [replayRecent, hrecent, List.reverse_reverse, get_replaySamples_eq]
    cases newest.reverse.find? (·.id == id) <;> rfl

end OpcServer.Adapters
