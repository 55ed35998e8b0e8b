import Mathlib.Data.List.Forall2

/-! Computations that may fail, lists that are traversed by them, and lists that are
related item by item. -/

namespace Traverse

theorem bind_eq_ok {ε α β : Type} {x : Except ε α} {f : α → Except ε β} {r : β}
    (h : x >>= f = .ok r) : ∃ a, x = .ok a ∧ f a = .ok r := by
  cases x with
  | error e => cases h
  | ok a => exact ⟨a, rfl, h⟩

theorem mapM_eq_ok_iff {ε α β : Type} {f : α → Except ε β} {xs : List α} {ys : List β} :
    xs.mapM f = .ok ys ↔ List.Forall₂ (fun x y => f x = .ok y) xs ys := by
  induction xs generalizing ys with
  | nil =>
    rw [List.mapM_nil, List.forall₂_nil_left_iff]
    exact ⟨fun h => (Except.ok.inj h).symm, fun h => h ▸ rfl⟩
  | cons x xs ih =>
    rw [List.mapM_cons]
    cases hx : f x with
    | error e =>
      refine iff_of_false (fun h => ?_) fun h => ?_
      · cases h
      · cases h with
        | cons hhead _ => cases hx.symm.trans hhead
    | ok y =>
      rw [List.forall₂_cons_left_iff]
      cases hrest : xs.mapM f with
      | error e =>
        refine iff_of_false (fun h => ?_) ?_
        · cases h
        · rintro ⟨_, ys', -, htail, -⟩
          cases hrest.symm.trans (ih.mpr htail)
      | ok rest =>
        constructor
        · intro h
          obtain rfl : y :: rest = ys := Except.ok.inj h
          exact ⟨y, rest, hx, ih.mp hrest, rfl⟩
        · rintro ⟨y', ys', hhead, htail, rfl⟩
          obtain rfl := Except.ok.inj (hx.symm.trans hhead)
          obtain rfl := Except.ok.inj (hrest.symm.trans (ih.mpr htail))
          rfl

theorem mapM_eq_ok_self_iff {ε α : Type} {f : α → Except ε α} {xs : List α} :
    xs.mapM f = .ok xs ↔ ∀ x ∈ xs, f x = .ok x :=
  mapM_eq_ok_iff.trans List.forall₂_same

/-- Parts of the items that are each determined by the other list. -/
theorem map_eq_map_of_forall₂ {α β γ : Type*} {R : α → β → Prop} {f : α → γ} {g : β → γ}
    {xs : List α} {ys : List β} (h : List.Forall₂ R xs ys)
    (hfg : ∀ x ∈ xs, ∀ y, R x y → g y = f x) : ys.map g = xs.map f := by
  induction h with
  | nil => rfl
  | cons hhead _ ih =>
    rw [List.forall_mem_cons] at hfg
    rw [List.map_cons, List.map_cons, hfg.1 _ hhead, ih hfg.2]

theorem eq_map_of_forall₂ {α β : Type*} {R : α → β → Prop} {f : α → β} {xs : List α} {ys : List β}
    (h : List.Forall₂ R xs ys) (hf : ∀ x ∈ xs, ∀ y, R x y → y = f x) : ys = xs.map f := by
  rw [← map_eq_map_of_forall₂ (g := id) h hf, List.map_id]

theorem exists_of_forall₂ {α β : Type*} {R : α → β → Prop} {xs : List α} {ys : List β}
    (h : List.Forall₂ R xs ys) {x : α} (hx : x ∈ xs) : ∃ y ∈ ys, R x y := by
  induction h with
  | nil => cases hx
  | cons hhead _ ih =>
    rcases List.mem_cons.mp hx with rfl | hx
    · exact ⟨_, List.mem_cons_self, hhead⟩
    · obtain ⟨y, hy, hr⟩ := ih hx
      exact ⟨y, List.mem_cons_of_mem _ hy, hr⟩

theorem forall₂_of_mem {α β : Type*} {R S : α → β → Prop} {xs : List α} {ys : List β}
    (h : List.Forall₂ R xs ys) (himp : ∀ x ∈ xs, ∀ y, R x y → S x y) : List.Forall₂ S xs ys := by
  induction h with
  | nil => exact .nil
  | cons hhead _ ih =>
    rw [List.forall_mem_cons] at himp
    exact .cons (himp.1 _ hhead) (ih himp.2)

/-- A relation that holds of each pair exactly if the first item meets a condition. -/
theorem forall₂_iff_of_forall₂ {α β : Type*} {R : α → β → Prop} {P : α → Prop} {xs : List α}
    {ys : List β} (h : List.Forall₂ (fun x y => R x y ↔ P x) xs ys) :
    List.Forall₂ R xs ys ↔ ∀ x ∈ xs, P x := by
  induction h with
  | nil => simp
  | cons hhead _ ih => rw [List.forall₂_cons, List.forall_mem_cons, hhead, ih]

end Traverse
