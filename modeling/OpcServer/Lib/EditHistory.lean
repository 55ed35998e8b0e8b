import Mathlib.Data.List.Basic
import Mathlib.Data.List.GetD
import Mathlib.Logic.Function.Iterate

/-! An undo history that remembers a bounded number of states. The present state stands
between the states that undo goes back to and those that redo goes forward to. An edit
forgets the latter, and of the former those beyond the limit. -/

universe u

structure EditHistory (α : Type u) where
  /-- The state before the present one comes first. -/
  past : List α
  present : α
  /-- The state after the present one comes first. -/
  future : List α
  deriving DecidableEq, Repr

namespace EditHistory

variable {α : Type u} {limit : ℕ}

def start (a : α) : EditHistory α := ⟨[], a, []⟩

def edit (limit : ℕ) (h : EditHistory α) (next : α) : EditHistory α :=
  ⟨(h.present :: h.past).take limit, next, []⟩

def undo (h : EditHistory α) : EditHistory α :=
  match h.past with
  | [] => h
  | previous :: rest => ⟨rest, previous, h.present :: h.future⟩

def redo (h : EditHistory α) : EditHistory α :=
  match h.future with
  | [] => h
  | next :: rest => ⟨h.present :: h.past, next, rest⟩

/-- The present state and those before it, latest first. -/
def trail (h : EditHistory α) : List α := h.present :: h.past

@[simp] theorem edit_present (h : EditHistory α) (next : α) : (h.edit limit next).present = next :=
  rfl

@[simp] theorem edit_future (h : EditHistory α) (next : α) : (h.edit limit next).future = [] := rfl

theorem trail_edit (h : EditHistory α) (next : α) :
    (h.edit limit next).trail = next :: h.trail.take limit := rfl

theorem redo_undo {h : EditHistory α} (hpast : h.past ≠ []) : h.undo.redo = h := by
  obtain ⟨past, present, future⟩ := h
  cases past with
  | nil => exact absurd rfl hpast
  | cons previous rest => rfl

/-- Redo takes back as many undos as there were. -/
theorem redo_undo_iterate {k : ℕ} {h : EditHistory α} (hk : k ≤ h.past.length) :
    redo^[k] (undo^[k] h) = h := by
  induction k generalizing h with
  | zero => rfl
  | succ k ih =>
    have hpast : h.past ≠ [] := by
      rintro hnil
      rw [hnil] at hk
      cases hk
    have hrest : k ≤ h.undo.past.length := by
      obtain ⟨past, present, future⟩ := h
      cases past with
      | nil => exact absurd rfl hpast
      | cons previous rest => exact Nat.le_of_succ_le_succ hk
    rw [Function.iterate_succ_apply' redo, Function.iterate_succ_apply undo, ih hrest,
      redo_undo hpast]

theorem undo_iterate_past (k : ℕ) (h : EditHistory α) : (undo^[k] h).past = h.past.drop k := by
  induction k generalizing h with
  | zero => rfl
  | succ k ih =>
    rw [Function.iterate_succ_apply, ih]
    obtain ⟨past, present, future⟩ := h
    cases past with
    | nil => simp [undo]
    | cons previous rest => rfl

theorem undo_of_past_nil {h : EditHistory α} (hpast : h.past = []) : h.undo = h := by
  obtain ⟨past, present, future⟩ := h
  obtain rfl : past = [] := hpast
  rfl

theorem redo_of_future_nil {h : EditHistory α} (hfuture : h.future = []) : h.redo = h := by
  obtain ⟨past, present, future⟩ := h
  obtain rfl : future = [] := hfuture
  rfl

/-- After an edit this holds of any number of undos: those at the end of the past and
the redos at the end of the future do nothing. -/
theorem redo_undo_iterate_of_last (k : ℕ) {h : EditHistory α} (hfuture : h.future = []) :
    redo^[k] (undo^[k] h) = h := by
  rcases Nat.le_total k h.past.length with hk | hk
  · exact redo_undo_iterate hk
  · obtain ⟨j, rfl⟩ := Nat.exists_eq_add_of_le' hk
    have hend : undo (undo^[h.past.length] h) = undo^[h.past.length] h := by
      apply undo_of_past_nil
      rw [undo_iterate_past, List.drop_length]
    rw [Function.iterate_add_apply, Function.iterate_add_apply undo, Function.iterate_fixed hend,
      redo_undo_iterate (Nat.le_refl _), Function.iterate_fixed (redo_of_future_nil hfuture)]

/-- Undo walks back along the trail, and stays at its end. -/
theorem undo_iterate_present (k : ℕ) (h : EditHistory α) :
    (undo^[k] h).present = h.trail.getD (min k h.past.length) h.present := by
  induction k generalizing h with
  | zero => simp [trail]
  | succ k ih =>
    rw [Function.iterate_succ_apply, ih]
    obtain ⟨past, present, future⟩ := h
    cases past with
    | nil => simp [undo, trail]
    | cons previous rest =>
      simp only [undo, trail, List.length_cons, Nat.add_min_add_right, List.getD_cons_succ]
      have hlt : min k rest.length < (previous :: rest).length := by
        rw [List.length_cons]
        omega
      rw [List.getD_eq_getElem _ _ hlt, List.getD_eq_getElem _ _ hlt]

theorem foldl_edit_future {edits : List α} (hne : edits ≠ []) (h : EditHistory α) :
    (edits.foldl (edit limit) h).future = [] := by
  induction edits generalizing h with
  | nil => exact absurd rfl hne
  | cons next rest ih =>
    cases rest with
    | nil => rfl
    | cons second rest => exact ih (List.cons_ne_nil second rest) (h.edit limit next)

/-- After a list of edits the trail goes back over them to what was there before, as far
as the limit allows. -/
theorem trail_edits (edits : List α) {h : EditHistory α} (hle : h.past.length ≤ limit) :
    (edits.foldl (edit limit) h).trail = (edits.reverse ++ h.trail).take (limit + 1) := by
  induction edits generalizing h with
  | nil =>
    rw [List.foldl_nil, List.reverse_nil, List.nil_append, List.take_of_length_le]
    rw [trail, List.length_cons]
    exact Nat.succ_le_succ hle
  | cons next rest ih =>
    have hnext : (h.edit limit next).past.length ≤ limit := List.length_take_le _ _
    rw [List.foldl_cons, ih hnext, trail_edit, List.reverse_cons, List.append_assoc,
      List.take_append, List.take_append]
    congr 1
    rw [List.singleton_append]
    cases hn : limit + 1 - rest.reverse.length with
    | zero => rfl
    | succ n =>
      rw [List.take_succ_cons, List.take_succ_cons, List.take_take]
      congr 2
      omega

end EditHistory
