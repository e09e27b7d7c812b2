import SmartFecTunnel.Library.Convergence
import SmartFecTunnel.Fec.AdaptiveSafety

/-!
Contract: the adaptive controller under a steady loss below the bypass threshold.

The average moves into the band of the four values at most three below the loss, and
stops there.  From then on the target is fixed and the parity moves one level at a time
towards it.  Both phases descend a measure.

Owns: both measures, and that the controller settles from every state it can be in.
-/

namespace SmartFecTunnel.Fec

open SmartFecTunnel.Library

namespace Adaptive

variable {adaptive : Adaptive} {loss level : Nat}

/-- One report of the steady loss. -/
def steady (loss : Nat) (adaptive : Adaptive) : Adaptive := adaptive.report loss

/-! ### The average -/

/-- How far the average is from the band where it stops. -/
def bandDistance (loss : Nat) (adaptive : Adaptive) : Nat :=
  (adaptive.smoothedLossPpm - loss) + (loss - 3 - adaptive.smoothedLossPpm)

theorem bandDistance_eq_zero :
    bandDistance loss adaptive = 0 ↔
      loss - 3 ≤ adaptive.smoothedLossPpm ∧ adaptive.smoothedLossPpm ≤ loss := by
  unfold bandDistance
  omega

theorem bounded_steady (isLow : loss < fecBypassLossPpm) (bounded : adaptive.Bounded) :
    (steady loss adaptive).Bounded :=
  bounded.report (isLow.trans (by decide))

@[simp] theorem smoothed_reportSample (adaptive : Adaptive) :
    adaptive.reportSample.smoothedLossPpm = adaptive.smoothedLossPpm := by
  unfold reportSample
  grind

@[simp] theorem bypassed_reportSample (adaptive : Adaptive) :
    adaptive.reportSample.bypassed = false := by
  unfold reportSample
  grind

theorem smoothed_steady (isLow : loss < fecBypassLossPpm) (bounded : adaptive.Bounded) :
    (steady loss adaptive).smoothedLossPpm = (adaptive.smoothedLossPpm * 3 + loss) / 4 := by
  unfold steady
  rw [report_low bounded.smoothed isLow, smoothed_reportSample]
  rfl

/-- Above the band the average falls and stays above the loss, below it rises and stays
below the loss. -/
theorem bandDistance_steady (isLow : loss < fecBypassLossPpm) (bounded : adaptive.Bounded) :
    bandDistance loss (steady loss adaptive) ≤ bandDistance loss adaptive - 1 := by
  unfold bandDistance
  rw [smoothed_steady isLow bounded]
  omega

/-! ### The parity -/

/-- The average has stopped at `level`, and no bypass is pending. -/
structure Settled (loss level : Nat) (adaptive : Adaptive) : Prop where
  bounded : adaptive.Bounded
  smoothed : adaptive.smoothedLossPpm = level
  low : loss - 3 ≤ level
  high : level ≤ loss
  notBypassed : adaptive.bypassed = false

/-- How many reports the parity is away from the target: two for each level up and fifteen
for each level down, less those already counted. -/
def targetDistance (level : Nat) (adaptive : Adaptive) : Nat :=
  if adaptive.parity < target level then 2 * (target level - adaptive.parity) - adaptive.bad
  else if target level < adaptive.parity then
    15 * (adaptive.parity - target level) - adaptive.good
  else 0

theorem targetDistance_eq_zero (bounded : adaptive.Bounded) :
    targetDistance level adaptive = 0 ↔ adaptive.parity = target level := by
  have bad := bounded.bad
  have good := bounded.good
  unfold targetDistance
  grind

theorem Settled.steady (isLow : loss < fecBypassLossPpm) (settled : Settled loss level adaptive) :
    Settled loss level (steady loss adaptive) where
  bounded := bounded_steady isLow settled.bounded
  smoothed := by
    have low := settled.low
    have high := settled.high
    rw [smoothed_steady isLow settled.bounded, settled.smoothed]
    omega
  low := settled.low
  high := settled.high
  notBypassed := by
    unfold Adaptive.steady
    rw [report_low settled.bounded.smoothed isLow, bypassed_reportSample]

theorem targetDistance_reportSample (bounded : adaptive.Bounded)
    (smoothed : adaptive.smoothedLossPpm = level) (notBypassed : adaptive.bypassed = false) :
    targetDistance level adaptive.reportSample ≤ targetDistance level adaptive - 1 := by
  have bad := bounded.bad
  have good := bounded.good
  have highest := target_le level
  unfold targetDistance reportSample
  rw [smoothed, notBypassed]
  grind

theorem targetDistance_steady (isLow : loss < fecBypassLossPpm)
    (settled : Settled loss level adaptive) :
    targetDistance level (steady loss adaptive) ≤ targetDistance level adaptive - 1 := by
  have bounded := settled.bounded
  have smoothed := (settled.steady isLow).smoothed
  unfold steady at smoothed ⊢
  rw [report_low bounded.smoothed isLow] at smoothed ⊢
  rw [smoothed_reportSample] at smoothed
  exact targetDistance_reportSample (bounded.sampled (isLow.trans (by decide))) smoothed
    settled.notBypassed

/-! ### Both -/

/-- From every state the controller can be in, a steady loss below the threshold leads to an
average at most three below the loss and to the parity that is its target. -/
theorem adaptive_converges (past : List UInt32) (loss : Nat) (isLow : loss < fecBypassLossPpm) :
    ∃ start level, loss - 3 ≤ level ∧ level ≤ loss ∧
      ∀ count, start ≤ count →
        ((steady loss)^[count] (after past)).smoothedLossPpm = level ∧
          ((steady loss)^[count] (after past)).parity = target level := by
  have keeps : ∀ state : Adaptive, state.Bounded → (steady loss state).Bounded :=
    fun _ bounded => bounded_steady isLow bounded
  obtain ⟨bounded, inBand⟩ := settles keeps (fun _ bounded => bandDistance_steady isLow bounded)
    (bounded_after past) _ (Nat.le_refl (bandDistance loss (after past)))
  generalize isFirst : bandDistance loss (after past) = first at bounded inBand
  obtain ⟨low, high⟩ := bandDistance_eq_zero.mp inBand
  generalize isState : (steady loss)^[first] (after past) = state at bounded low high
  -- One more report clears a pending bypass, and the average does not move any more.
  have settled : Settled loss state.smoothedLossPpm (steady loss state) := by
    refine ⟨keeps state bounded, ?_, low, high, ?_⟩
    · rw [smoothed_steady isLow bounded]
      omega
    · unfold steady
      rw [report_low bounded.smoothed isLow, bypassed_reportSample]
  refine ⟨targetDistance state.smoothedLossPpm (steady loss state) + (first + 1),
    state.smoothedLossPpm, low, high, ?_⟩
  intro count late
  have split : (steady loss)^[count] (after past) =
      (steady loss)^[count - (first + 1)] (steady loss state) := by
    have next : steady loss state = (steady loss)^[first + 1] (after past) := by
      rw [Function.iterate_succ_apply', isState]
    rw [next, ← Function.iterate_add_apply]
    congr 1
    omega
  obtain ⟨last, atTarget⟩ := settles (fun _ settled => settled.steady isLow)
    (fun _ settled => targetDistance_steady isLow settled) settled (count - (first + 1)) (by omega)
  rw [split]
  exact ⟨last.smoothed, (targetDistance_eq_zero last.bounded).mp atTarget⟩

/-- A loss of eight percent after a bypass. -/
theorem adaptive_converges_after_bypass :
    ∃ start level, 79_997 ≤ level ∧ level ≤ 80_000 ∧
      ∀ count, start ≤ count →
        ((steady 80_000)^[count] (after [400_000, 500_000, 400_000])).smoothedLossPpm = level ∧
          ((steady 80_000)^[count] (after [400_000, 500_000, 400_000])).parity = target level :=
  adaptive_converges [400_000, 500_000, 400_000] 80_000 (by decide)

end Adaptive

end SmartFecTunnel.Fec
