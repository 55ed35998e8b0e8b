import Mathlib.Data.List.Basic
import Mathlib.Data.List.Nodup

/-! Maps that keep their keys in the order in which they came: a key that is set again
stays where it is. An entry may be set in a batch or after it, as long as the batch has
one entry for each key: what comes out is the same. -/

namespace OrderedMap

universe u v

variable {κ : Type u} {ν : Type v} [DecidableEq κ]

def set : List (κ × ν) → κ → ν → List (κ × ν)
  | [], k, v => [(k, v)]
  | (j, w) :: rest, k, v => if j = k then (k, v) :: rest else (j, w) :: set rest k v

/-- Set the entries of a list, one after the other. -/
def setAll (t entries : List (κ × ν)) : List (κ × ν) := entries.foldl (fun t p => set t p.1 p.2) t

@[simp] theorem setAll_nil (t : List (κ × ν)) : setAll t [] = t := rfl

@[simp] theorem setAll_cons (t : List (κ × ν)) (p : κ × ν) (rest : List (κ × ν)) :
    setAll t (p :: rest) = setAll (set t p.1 p.2) rest := rfl

theorem mem_keys_set {t : List (κ × ν)} {k : κ} {v : ν} {j : κ} :
    j ∈ (set t k v).map Prod.fst ↔ j = k ∨ j ∈ t.map Prod.fst := by
  induction t with
  | nil => simp [set]
  | cons p rest ih =>
    obtain ⟨i, w⟩ := p
    by_cases hi : i = k
    · simp [set, hi]
    · simp only [set, if_neg hi, List.map_cons, List.mem_cons, ih]
      tauto

theorem mem_set {t : List (κ × ν)} {k : κ} {v : ν} {p : κ × ν} (h : p ∈ set t k v) :
    p = (k, v) ∨ p ∈ t := by
  induction t with
  | nil => exact .inl (List.mem_singleton.mp h)
  | cons q rest ih =>
    obtain ⟨i, w⟩ := q
    by_cases hi : i = k
    · rw [set, if_pos hi] at h
      rcases List.mem_cons.mp h with rfl | h
      · exact .inl rfl
      · exact .inr (List.mem_cons_of_mem _ h)
    · rw [set, if_neg hi] at h
      rcases List.mem_cons.mp h with rfl | h
      · exact .inr List.mem_cons_self
      · rcases ih h with rfl | h
        · exact .inl rfl
        · exact .inr (List.mem_cons_of_mem _ h)

theorem nodup_keys_set {t : List (κ × ν)} (h : (t.map Prod.fst).Nodup) (k : κ) (v : ν) :
    ((set t k v).map Prod.fst).Nodup := by
  induction t with
  | nil => simp [set]
  | cons p rest ih =>
    obtain ⟨i, w⟩ := p
    obtain ⟨hnot, hrest⟩ := List.nodup_cons.mp h
    by_cases hi : i = k
    · subst hi
      simpa [set] using h
    · rw [set, if_neg hi, List.map_cons, List.nodup_cons]
      refine ⟨?_, ih hrest⟩
      intro hmem
      rcases mem_keys_set.mp hmem with heq | hmem
      · exact hi heq
      · exact hnot hmem

/-- The later of two values of a key stays. -/
theorem set_set (t : List (κ × ν)) (k : κ) (v w : ν) : set (set t k v) k w = set t k w := by
  induction t with
  | nil => simp [set]
  | cons p rest ih =>
    obtain ⟨i, u⟩ := p
    by_cases hi : i = k
    · simp [set, hi]
    · simp only [set, if_neg hi, ih]

/-- A key that has its place can be set before or after another one. -/
theorem set_comm {t : List (κ × ν)} {k j : κ} (hk : k ∈ t.map Prod.fst) (hne : j ≠ k) (v u : ν) :
    set (set t k v) j u = set (set t j u) k v := by
  induction t with
  | nil => cases hk
  | cons p rest ih =>
    obtain ⟨i, w⟩ := p
    by_cases hi : i = k
    · subst hi
      simp [set, Ne.symm hne]
    · have hrest : k ∈ rest.map Prod.fst := by
        rcases List.mem_cons.mp hk with heq | hrest
        · exact absurd heq.symm hi
        · exact hrest
      by_cases hj : i = j
      · subst hj
        simp [set, hi]
      · simp only [set, if_neg hi, if_neg hj, ih hrest]

theorem setAll_set_of_notMem (entries : List (κ × ν)) {t : List (κ × ν)} {k : κ}
    (hk : k ∈ t.map Prod.fst) (hnot : k ∉ entries.map Prod.fst) (v : ν) :
    setAll (set t k v) entries = set (setAll t entries) k v := by
  induction entries generalizing t with
  | nil => rfl
  | cons p rest ih =>
    rw [List.map_cons, List.mem_cons, not_or] at hnot
    rw [setAll_cons, setAll_cons, set_comm hk (Ne.symm hnot.1)]
    exact ih (mem_keys_set.mpr (.inr hk)) hnot.2

theorem setAll_set {p : List (κ × ν)} (hp : (p.map Prod.fst).Nodup) (t : List (κ × ν)) (k : κ)
    (v : ν) : setAll t (set p k v) = set (setAll t p) k v := by
  induction p generalizing t with
  | nil => rfl
  | cons q rest ih =>
    obtain ⟨j, w⟩ := q
    obtain ⟨hnot, hrest⟩ := List.nodup_cons.mp hp
    by_cases hj : j = k
    · subst hj
      rw [set, if_pos rfl, setAll_cons, setAll_cons, ← setAll_set_of_notMem rest
        (mem_keys_set.mpr (.inl rfl)) hnot, set_set]
    · rw [set, if_neg hj, setAll_cons, setAll_cons, ih hrest]

theorem lookup_cons_ite (i : κ) (w : ν) (rest : List (κ × ν)) (j : κ) :
    ((i, w) :: rest).lookup j = if j = i then some w else rest.lookup j := by
  by_cases hj : j = i
  · subst hj
    simp
  · rw [List.lookup_cons, beq_false_of_ne hj, if_neg hj]

theorem lookup_map {α : Type*} (f : α → κ) (g : α → ν) (l : List α) (k : κ) :
    (l.map fun a => (f a, g a)).lookup k = (l.find? fun a => f a = k).map g := by
  induction l with
  | nil => rfl
  | cons a rest ih =>
    rw [List.map_cons, lookup_cons_ite, List.find?_cons, ih]
    by_cases hk : f a = k
    · simp [hk]
    · simp [hk, Ne.symm hk]

theorem lookup_set (t : List (κ × ν)) (k j : κ) (v : ν) :
    (set t k v).lookup j = if j = k then some v else t.lookup j := by
  induction t with
  | nil => rw [set, lookup_cons_ite]
  | cons p rest ih =>
    obtain ⟨i, w⟩ := p
    by_cases hi : i = k
    · subst hi
      rw [set, if_pos rfl, lookup_cons_ite, lookup_cons_ite]
      split
      · rfl
      · rfl
    · rw [set, if_neg hi, lookup_cons_ite, lookup_cons_ite, ih]
      by_cases hji : j = i
      · subst hji
        rw [if_pos rfl, if_neg hi, if_pos rfl]
      · rw [if_neg hji, if_neg hji]

/-- A key has the last of the values it was set to. -/
theorem lookup_setAll (t entries : List (κ × ν)) (k : κ) :
    (setAll t entries).lookup k = (entries.reverse.lookup k).or (t.lookup k) := by
  induction entries generalizing t with
  | nil => rfl
  | cons p rest ih =>
    obtain ⟨i, w⟩ := p
    rw [setAll_cons, ih, lookup_set, List.reverse_cons, List.lookup_append, lookup_cons_ite,
      Option.or_assoc]
    split
    · rfl
    · rfl

end OrderedMap
