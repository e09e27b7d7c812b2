import Mathlib.Logic.Function.Iterate

/-!
Contract: a deterministic step that settles.

Owns: what a step keeps under iteration, and the descent rule: a measure that each step
lowers until it is zero is zero from some iteration on.
-/

namespace SmartFecTunnel.Library

universe u

variable {σ : Type u} {step : σ → σ} {Inv : σ → Prop}

theorem iterate_invariant (keeps : ∀ state, Inv state → Inv (step state)) {state : σ}
    (holds : Inv state) (count : Nat) : Inv (step^[count] state) := by
  induction count with
  | zero => exact holds
  | succ count inductionHypothesis =>
      rw [Function.iterate_succ_apply']
      exact keeps _ inductionHypothesis

/-- The measure is lowered by every step until it is zero, and stays zero. -/
theorem measure_iterate_le {measure : σ → Nat} (keeps : ∀ state, Inv state → Inv (step state))
    (descends : ∀ state, Inv state → measure (step state) ≤ measure state - 1) {state : σ}
    (holds : Inv state) (count : Nat) : measure (step^[count] state) ≤ measure state - count := by
  induction count with
  | zero => exact Nat.le_refl _
  | succ count inductionHypothesis =>
      have lowered := descends _ (iterate_invariant keeps holds count)
      rw [Function.iterate_succ_apply']
      omega

/-- A measure that descends is zero from some iteration on. -/
theorem settles {measure : σ → Nat} (keeps : ∀ state, Inv state → Inv (step state))
    (descends : ∀ state, Inv state → measure (step state) ≤ measure state - 1) {state : σ}
    (holds : Inv state) :
    ∀ count, measure state ≤ count →
      Inv (step^[count] state) ∧ measure (step^[count] state) = 0 := by
  intro count enough
  have lowered := measure_iterate_le keeps descends holds count
  exact ⟨iterate_invariant keeps holds count, by omega⟩

end SmartFecTunnel.Library
