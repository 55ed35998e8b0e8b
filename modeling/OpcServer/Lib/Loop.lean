import Mathlib.Data.Nat.Notation

/-! Loops with accesses that may fail. A step of a loop goes on in a new state, returns a
result, or is `none` where it would access what is not there. An invariant and a bound on
the steps show that no access fails, that the loop returns, and what it returns. -/

namespace Loop

variable {σ ρ : Type*}

/-- Take `n` steps, or fewer if the loop returns before. -/
def run (step : σ → Option (σ ⊕ ρ)) : ℕ → σ → Option (σ ⊕ ρ)
  | 0, s => some (.inl s)
  | n + 1, s =>
    match step s with
    | some (.inl t) => run step n t
    | outcome => outcome

/-- From every state of the invariant the loop returns `result`, which no step changes; the
bound gets smaller with every step. -/
def Computes (step : σ → Option (σ ⊕ ρ)) (inv : σ → Prop) (bound : σ → ℕ) (result : σ → ρ) : Prop :=
  ∀ s, inv s → step s = some (.inr (result s)) ∨
    ∃ t, step s = some (.inl t) ∧ inv t ∧ bound t < bound s ∧ result t = result s

namespace Computes
variable {step : σ → Option (σ ⊕ ρ)} {inv : σ → Prop} {bound : σ → ℕ} {result : σ → ρ}

theorem run_eq (h : Computes step inv bound result) {s : σ} (hs : inv s) {n : ℕ} (hn : bound s < n) :
    run step n s = some (.inr (result s)) := by
  induction n generalizing s with
  | zero => cases hn
  | succ n ih =>
    obtain hreturn | ⟨t, hstep, ht, hless, hresult⟩ := h s hs
    · rw [run, hreturn]
    · rw [run, hstep]
      show run step n t = _
      rw [ih ht (by omega), hresult]

theorem run_ne_none (h : Computes step inv bound result) {s : σ} (hs : inv s) (n : ℕ) :
    run step n s ≠ none := by
  induction n generalizing s with
  | zero => exact Option.some_ne_none _
  | succ n ih =>
    obtain hreturn | ⟨t, hstep, ht, -, -⟩ := h s hs
    · rw [run, hreturn]
      exact Option.some_ne_none _
    · rw [run, hstep]
      exact ih ht

end Computes

end Loop
