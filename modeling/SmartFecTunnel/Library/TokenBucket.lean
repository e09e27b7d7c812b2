import Mathlib.Algebra.Order.Field.Basic
import Mathlib.Tactic.Linarith
import Mathlib.Tactic.Ring

/-!
Contract: conformance of a token bucket.

A bucket fills at `rate` up to `capacity`.  A log of what was spent is `Metered`
when no spending and what is left after it together exceed the capacity or what
was left before it with what has flowed in since.

Owns:
- `Metered` and `spentWithin`;
- a metered log that never overdraws spends at most `capacity + rate * length`
  in any closed interval.

Does not own: how long anyone waits for a bucket to fill.
-/

namespace SmartFecTunnel.Library

/-- At `time`, `amount` was taken and `left` remained. -/
structure Spending (K : Type*) where
  time : K
  amount : K
  left : K

variable {K : Type*} [Field K] [LinearOrder K]

/-- The log of a bucket that held `level` at `time`. -/
def Metered (rate capacity : K) : (time level : K) → List (Spending K) → Prop
  | _, _, [] => True
  | time, level, spending :: rest =>
    time ≤ spending.time ∧ 0 ≤ spending.amount ∧
      spending.left + spending.amount ≤ capacity ∧
      spending.left + spending.amount ≤ level + rate * (spending.time - time) ∧
      Metered rate capacity spending.time spending.left rest

/-- What was spent in the interval, both ends included. -/
def spentWithin (start stop : K) (log : List (Spending K)) : K :=
  ((log.filter fun spending => start ≤ spending.time ∧ spending.time ≤ stop).map
    Spending.amount).sum

/-- Nothing was spent that was not there. -/
def NeverOverdrawn (log : List (Spending K)) : Prop := ∀ spending ∈ log, 0 ≤ spending.left

/-! ### One spending -/

theorem spentWithin_nil (start stop : K) : spentWithin start stop [] = 0 := rfl

theorem spentWithin_cons_of_within {start stop : K} {spending : Spending K}
    (within : start ≤ spending.time ∧ spending.time ≤ stop) (rest : List (Spending K)) :
    spentWithin start stop (spending :: rest) =
      spending.amount + spentWithin start stop rest := by
  simp [spentWithin, within]

theorem spentWithin_cons_of_outside {start stop : K} {spending : Spending K}
    (outside : ¬ (start ≤ spending.time ∧ spending.time ≤ stop)) (rest : List (Spending K)) :
    spentWithin start stop (spending :: rest) = spentWithin start stop rest := by
  simp [spentWithin, outside]

/-! ### Conformance -/

variable {rate capacity : K}

theorem Metered.nothing_before {time level start stop : K} {log : List (Spending K)}
    (metered : Metered rate capacity time level log) (early : stop < time) :
    spentWithin start stop log = 0 := by
  induction log generalizing time level with
  | nil => rfl
  | cons spending rest inductionHypothesis =>
      obtain ⟨later, _, _, _, metered⟩ := metered
      have outside : ¬ (start ≤ spending.time ∧ spending.time ≤ stop) :=
        fun within => absurd (later.trans within.2) (not_le.mpr early)
      rw [spentWithin_cons_of_outside outside]
      exact inductionHypothesis metered (early.trans_le later)

variable [IsStrictOrderedRing K]

/-- What is left never exceeds the capacity. -/
theorem Metered.left_le {time level : K} {log : List (Spending K)} {spending : Spending K}
    (metered : Metered rate capacity time level log) (member : spending ∈ log) :
    spending.left ≤ capacity := by
  induction log generalizing time level with
  | nil => cases member
  | cons first rest inductionHypothesis =>
      obtain ⟨_, amount, filled, _, metered⟩ := metered
      cases member with
      | head => linarith
      | tail _ member => exact inductionHypothesis metered member

/-- From a time when the level is known, no more is spent than that and the inflow. -/
theorem Metered.spentWithin_le {time level start stop : K} {log : List (Spending K)}
    (metered : Metered rate capacity time level log) (nonneg : 0 ≤ rate)
    (solvent : NeverOverdrawn log) (funded : 0 ≤ level) (ordered : time ≤ stop) :
    spentWithin start stop log ≤ level + rate * (stop - time) := by
  induction log generalizing time level with
  | nil =>
      rw [spentWithin_nil]
      have inflow : 0 ≤ rate * (stop - time) := mul_nonneg nonneg (sub_nonneg.mpr ordered)
      linarith
  | cons spending rest inductionHypothesis =>
      obtain ⟨later, amount, _, inflow, metered⟩ := metered
      have left : 0 ≤ spending.left := solvent spending (List.mem_cons_self)
      have solventRest : NeverOverdrawn rest :=
        fun other member => solvent other (List.mem_cons_of_mem _ member)
      rcases le_or_gt spending.time stop with reached | missed
      · have spentAfter := inductionHypothesis metered solventRest left reached
        have total : rate * (stop - time) =
            rate * (spending.time - time) + rate * (stop - spending.time) := by ring
        by_cases within : start ≤ spending.time ∧ spending.time ≤ stop
        · rw [spentWithin_cons_of_within within]
          linarith
        · rw [spentWithin_cons_of_outside within]
          linarith
      · have outside : ¬ (start ≤ spending.time ∧ spending.time ≤ stop) :=
          fun within => absurd within.2 (not_le.mpr missed)
        rw [spentWithin_cons_of_outside outside, metered.nothing_before missed]
        have flowed : 0 ≤ rate * (stop - time) := mul_nonneg nonneg (sub_nonneg.mpr ordered)
        linarith

/-- A metered log that never overdraws conforms in every interval: the first spending
inside it found at most a full bucket. -/
theorem Metered.conforms {time level start stop : K} {log : List (Spending K)}
    (metered : Metered rate capacity time level log) (nonneg : 0 ≤ rate) (room : 0 ≤ capacity)
    (solvent : NeverOverdrawn log) (ordered : start ≤ stop) :
    spentWithin start stop log ≤ capacity + rate * (stop - start) := by
  have flowed : 0 ≤ rate * (stop - start) := mul_nonneg nonneg (sub_nonneg.mpr ordered)
  induction log generalizing time level with
  | nil =>
      rw [spentWithin_nil]
      linarith
  | cons spending rest inductionHypothesis =>
      obtain ⟨_, _, filled, _, metered⟩ := metered
      have solventRest : NeverOverdrawn rest :=
        fun other member => solvent other (List.mem_cons_of_mem _ member)
      by_cases within : start ≤ spending.time ∧ spending.time ≤ stop
      · have left : 0 ≤ spending.left := solvent spending (List.mem_cons_self)
        have spentAfter : spentWithin start stop rest ≤
            spending.left + rate * (stop - spending.time) :=
          metered.spentWithin_le nonneg solventRest left within.2
        have shorter : rate * (stop - spending.time) ≤ rate * (stop - start) :=
          mul_le_mul_of_nonneg_left (by linarith [within.1]) nonneg
        rw [spentWithin_cons_of_within within]
        linarith
      · rw [spentWithin_cons_of_outside within]
        exact inductionHypothesis metered solventRest

end SmartFecTunnel.Library
