import Mathlib.Data.List.Basic

/-! Labelled transition systems with a partial step function. All the choice of a
system sits in its labels, so that a run is a list of labels and can be evaluated.

A guard restricts the steps of a system by a condition on the state before them.
What holds of the guarded runs is stated with `Reachable step guard init`; the
unguarded system has the guard `fun _ _ => True`. -/

namespace Transition

universe u v w

variable {S : Type u} {A : Type v} {step : A → S → Option S} {guard : A → S → Prop}
  {init : S → Prop}

/-- States reached from an initial one by steps that meet the guard. -/
inductive Reachable (step : A → S → Option S) (guard : A → S → Prop) (init : S → Prop) :
    S → Prop
  | start {s : S} : init s → Reachable step guard init s
  | next {s t : S} {a : A} : Reachable step guard init s → guard a s → step a s = some t →
      Reachable step guard init t

/-- Every label is allowed. -/
abbrev Free : A → S → Prop := fun _ _ => True

/-- Perform the steps of a list in order. -/
def run (step : A → S → Option S) : List A → S → Option S
  | [], s => some s
  | a :: rest, s => (step a s).bind (run step rest)

@[simp] theorem run_nil (s : S) : run step [] s = some s := rfl

@[simp] theorem run_cons (a : A) (rest : List A) (s : S) :
    run step (a :: rest) s = (step a s).bind (run step rest) := rfl

theorem run_append (first second : List A) (s : S) :
    run step (first ++ second) s = (run step first s).bind (run step second) := by
  induction first generalizing s with
  | nil => rfl
  | cons a rest ih =>
    rw [List.cons_append, run_cons, run_cons, Option.bind_assoc]
    congr 1
    funext t
    exact ih t

/-- Every step of the list meets the guard where it is taken. -/
def Meets (step : A → S → Option S) (guard : A → S → Prop) : List A → S → Prop
  | [], _ => True
  | a :: rest, s => guard a s ∧ ∀ t, step a s = some t → Meets step guard rest t

instance Meets.decidable [∀ a s, Decidable (guard a s)] :
    ∀ (actions : List A) (s : S), Decidable (Meets step guard actions s)
  | [], _ => .isTrue trivial
  | a :: rest, s =>
    match h : step a s with
    | none => decidable_of_iff (guard a s)
        ⟨fun hg => ⟨hg, fun t ht => by rw [h] at ht; cases ht⟩, And.left⟩
    | some t =>
      have := Meets.decidable rest t
      decidable_of_iff (guard a s ∧ Meets step guard rest t)
        (and_congr_right fun _ => ⟨fun hm u hu => by rw [h] at hu; cases hu; exact hm,
          fun hm => hm t h⟩)

theorem meets_free (actions : List A) (s : S) : Meets step Free actions s := by
  induction actions generalizing s with
  | nil => trivial
  | cons a rest ih => exact ⟨trivial, fun t _ => ih t⟩

/-- Two systems whose steps agree wherever a guard allows them have the same guarded
runs. -/
theorem run_congr {step' : A → S → Option S} (hstep : ∀ a s, guard a s → step a s = step' a s)
    (actions : List A) {s : S} (h : Meets step guard actions s) :
    run step actions s = run step' actions s := by
  induction actions generalizing s with
  | nil => rfl
  | cons a rest ih =>
    rw [run_cons, run_cons, ← hstep a s h.1]
    cases ha : step a s with
    | none => rfl
    | some t => exact ih (h.2 t ha)

namespace Reachable

/-- What holds initially and survives every allowed step holds in every reachable state.
The step may use that its first state is reachable. -/
theorem invariant (inv : S → Prop) (hinit : ∀ s, init s → inv s)
    (hstep : ∀ s t a, Reachable step guard init s → inv s → guard a s → step a s = some t → inv t)
    {s : S} (h : Reachable step guard init s) : inv s := by
  induction h with
  | start h => exact hinit _ h
  | next h hg hs ih => exact hstep _ _ _ h ih hg hs

/-- A run whose steps meet the guard ends in a reachable state. -/
theorem of_meets (actions : List A) {s t : S} (hs : Reachable step guard init s)
    (hm : Meets step guard actions s) (h : run step actions s = some t) :
    Reachable step guard init t := by
  induction actions generalizing s with
  | nil => exact Option.some.inj h ▸ hs
  | cons a rest ih =>
    obtain ⟨m, ha, hr⟩ := Option.bind_eq_some_iff.mp h
    exact ih (.next hs hm.1 ha) (hm.2 m ha) hr

/-- A run of the free system ends in a reachable state. -/
theorem of_run (actions : List A) {s t : S} (hs : Reachable step Free init s)
    (h : run step actions s = some t) : Reachable step Free init t :=
  hs.of_meets actions (meets_free actions s) h

end Reachable

end Transition
