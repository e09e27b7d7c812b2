import Mathlib.Data.List.TakeWhile
import SmartFecTunnel.Fec.Adaptive
import SmartFecTunnel.Fec.Decoder

/-!
Contract: the adaptive controller under any reports of a peer.

`reportChecked` is `report` in the integer types of the source, where an overflow is no
result.  `Tracks` compares the controller with the reports it has had: the streak and the
bypass flag are functions of the real samples since the last one below the threshold.

Owns: bounds of every counter, that no report overflows, and by how much one report moves
the parity.

Does not own: what a steady loss leads to.
-/

namespace SmartFecTunnel.Fec

namespace Adaptive

/-! ### The integer types of the source -/

/-- A value in an unsigned integer type; `none` is an overflow. -/
def fits? (bits value : Nat) : Option Nat := if value < 2 ^ bits then some value else none

theorem fits?_of_lt {bits value : Nat} (small : value < 2 ^ bits) : fits? bits value = some value :=
  if_pos small

def reportSampleChecked (adaptive : Adaptive) : Option Adaptive :=
  let adaptive := { adaptive with bypassStreak := 0 }
  let target := target adaptive.smoothedLossPpm
  if adaptive.bypassed then
    some { adaptive with parity := min target maxParity, bad := 0, good := 0, bypassed := false }
  else if adaptive.parity < target then do
    let bad ← fits? 8 (adaptive.bad + 1)
    if 2 ≤ bad then do
      let parity ← fits? 64 (adaptive.parity + 1)
      some { adaptive with parity := min parity maxParity, bad := 0, good := 0 }
    else some { adaptive with bad, good := 0 }
  else if target < adaptive.parity then do
    let good ← fits? 16 (adaptive.good + 1)
    let bad := adaptive.bad - 1
    if 15 ≤ good then do
      let parity ← checkedSub adaptive.parity 1
      some { adaptive with parity, bad, good := 0 }
    else some { adaptive with bad, good }
  else some { adaptive with bad := adaptive.bad - 1, good := 0 }

/-- `report` with every operation that can leave its type.  The others saturate. -/
def reportChecked (adaptive : Adaptive) (loss : Nat) : Option Adaptive :=
  if loss = lossSampleUnavailable then some adaptive.reportUnavailable
  else do
    let tripled ← fits? 64 (adaptive.smoothedLossPpm * 3)
    let sum ← fits? 64 (tripled + loss)
    let smoothedLossPpm ← fits? 32 (sum / 4)
    let sampled := { adaptive with unavailableReports := 0, lastLossPpm := loss, smoothedLossPpm }
    if fecBypassLossPpm ≤ loss then some sampled.reportBypass else sampled.reportSampleChecked

/-! ### Bounds -/

structure Bounded (adaptive : Adaptive) : Prop where
  parity : adaptive.parity ≤ maxParity
  bad : adaptive.bad ≤ 1
  good : adaptive.good ≤ 14
  unavailable : adaptive.unavailableReports ≤ 14
  smoothed : adaptive.smoothedLossPpm < 2 ^ 32
  bypassed : adaptive.bypassed = true → adaptive.parity = 0 ∧ 3 ≤ adaptive.bypassStreak

theorem bounded_default : default.Bounded := by
  constructor <;> decide

theorem target_le (loss : Nat) : target loss ≤ maxParity := by
  unfold target maxParity
  grind

/-- The average of two losses is a loss. -/
theorem smoothed_lt {smoothed loss : Nat} (small : smoothed < 2 ^ 32) (lossSmall : loss < 2 ^ 32) :
    (smoothed * 3 + loss) / 4 < 2 ^ 32 := by
  omega

/-- A controller that has taken in a real sample. -/
def sampled (adaptive : Adaptive) (loss : Nat) : Adaptive :=
  { adaptive with
    unavailableReports := 0
    lastLossPpm := loss
    smoothedLossPpm := (adaptive.smoothedLossPpm * 3 + loss) / 4 }

theorem report_unavailable (adaptive : Adaptive) :
    adaptive.report lossSampleUnavailable = adaptive.reportUnavailable := if_pos rfl

theorem report_high {adaptive : Adaptive} {loss : Nat} (small : adaptive.smoothedLossPpm < 2 ^ 32)
    (lossSmall : loss < 2 ^ 32) (isReal : loss ≠ lossSampleUnavailable)
    (isHigh : fecBypassLossPpm ≤ loss) :
    adaptive.report loss = (adaptive.sampled loss).reportBypass := by
  unfold report sampled
  rw [if_neg isReal]
  simp only [if_pos isHigh, Nat.mod_eq_of_lt (smoothed_lt small lossSmall)]

theorem report_low {adaptive : Adaptive} {loss : Nat} (small : adaptive.smoothedLossPpm < 2 ^ 32)
    (isLow : loss < fecBypassLossPpm) :
    adaptive.report loss = (adaptive.sampled loss).reportSample := by
  have lossSmall : loss < 2 ^ 32 := isLow.trans (by decide)
  have isReal : loss ≠ lossSampleUnavailable := (isLow.trans (by decide)).ne
  unfold report sampled
  rw [if_neg isReal]
  simp only [if_neg (Nat.not_le.mpr isLow), Nat.mod_eq_of_lt (smoothed_lt small lossSmall)]

namespace Bounded

variable {adaptive : Adaptive}

theorem sampled (bounded : adaptive.Bounded) {loss : Nat} (lossSmall : loss < 2 ^ 32) :
    (adaptive.sampled loss).Bounded where
  parity := bounded.parity
  bad := bounded.bad
  good := bounded.good
  unavailable := Nat.zero_le _
  smoothed := smoothed_lt bounded.smoothed lossSmall
  bypassed := bounded.bypassed

theorem reportUnavailable (bounded : adaptive.Bounded) : adaptive.reportUnavailable.Bounded := by
  obtain ⟨parity, bad, good, unavailable, smoothed, bypassed⟩ := bounded
  unfold Adaptive.reportUnavailable
  constructor <;> grind

theorem reportBypass (bounded : adaptive.Bounded) : adaptive.reportBypass.Bounded := by
  obtain ⟨parity, bad, good, unavailable, smoothed, bypassed⟩ := bounded
  unfold Adaptive.reportBypass
  constructor <;> grind

theorem reportSample (bounded : adaptive.Bounded) : adaptive.reportSample.Bounded := by
  obtain ⟨parity, bad, good, unavailable, smoothed, bypassed⟩ := bounded
  unfold Adaptive.reportSample
  constructor <;> grind

/-- No report of a `u32` leaves the bounds. -/
theorem report (bounded : adaptive.Bounded) {loss : Nat} (lossSmall : loss < 2 ^ 32) :
    (adaptive.report loss).Bounded := by
  by_cases isReal : loss = lossSampleUnavailable
  · rw [isReal, report_unavailable]
    exact bounded.reportUnavailable
  · by_cases isHigh : fecBypassLossPpm ≤ loss
    · rw [report_high bounded.smoothed lossSmall isReal isHigh]
      exact (bounded.sampled lossSmall).reportBypass
    · rw [report_low bounded.smoothed (Nat.not_le.mp isHigh)]
      exact (bounded.sampled lossSmall).reportSample

theorem reportSampleChecked (bounded : adaptive.Bounded) :
    adaptive.reportSampleChecked = some adaptive.reportSample := by
  obtain ⟨parity, bad, good, _, _, _⟩ := bounded
  have nextBad : fits? 8 (adaptive.bad + 1) = some (adaptive.bad + 1) := fits?_of_lt (by omega)
  have nextGood : fits? 16 (adaptive.good + 1) = some (adaptive.good + 1) := fits?_of_lt (by omega)
  have nextParity : fits? 64 (adaptive.parity + 1) = some (adaptive.parity + 1) := by
    apply fits?_of_lt
    unfold maxParity at parity
    omega
  unfold Adaptive.reportSampleChecked Adaptive.reportSample
  simp only [nextBad, nextGood, nextParity, Option.bind_eq_bind, Option.bind_some]
  split
  · rfl
  · split
    · split <;> rfl
    · split
      next falls =>
        have positive : checkedSub adaptive.parity 1 = some (adaptive.parity - 1) :=
          if_pos (by omega)
        rw [positive]
        split <;> rfl
      next => rfl

/-- No operation of a report leaves its integer type. -/
theorem reportChecked (bounded : adaptive.Bounded) {loss : Nat} (lossSmall : loss < 2 ^ 32) :
    adaptive.reportChecked loss = some (adaptive.report loss) := by
  have smoothed := bounded.smoothed
  unfold Adaptive.reportChecked
  by_cases isReal : loss = lossSampleUnavailable
  · rw [if_pos isReal, isReal, report_unavailable]
  · have tripled : fits? 64 (adaptive.smoothedLossPpm * 3) = some (adaptive.smoothedLossPpm * 3) :=
      fits?_of_lt (by omega)
    have sum : fits? 64 (adaptive.smoothedLossPpm * 3 + loss) =
        some (adaptive.smoothedLossPpm * 3 + loss) := fits?_of_lt (by omega)
    have average := fits?_of_lt (smoothed_lt smoothed lossSmall)
    simp only [if_neg isReal, tripled, sum, average, Option.bind_eq_bind, Option.bind_some]
    by_cases isHigh : fecBypassLossPpm ≤ loss
    · rw [report_high smoothed lossSmall isReal isHigh, if_pos isHigh]
      rfl
    · rw [report_low smoothed (Nat.not_le.mp isHigh), if_neg isHigh]
      exact (bounded.sampled lossSmall).reportSampleChecked

end Bounded

/-! ### The reports so far -/

/-- The controller after these reports. -/
def after (losses : List UInt32) : Adaptive :=
  losses.foldl (fun adaptive loss => adaptive.report loss.toNat) default

@[simp] theorem after_snoc (past : List UInt32) (loss : UInt32) :
    after (past ++ [loss]) = (after past).report loss.toNat := by
  simp [after]

theorem bounded_after (losses : List UInt32) : (after losses).Bounded := by
  induction losses using List.reverseRecOn with
  | nil => exact bounded_default
  | append_singleton past loss inductionHypothesis =>
      rw [after_snoc]
      exact inductionHypothesis.report loss.toNat_lt

/-- A report without a sample. -/
def IsUnavailable (loss : UInt32) : Prop := loss.toNat = lossSampleUnavailable

/-- A real sample at or above the bypass threshold. -/
def IsHigh (loss : UInt32) : Prop := ¬ IsUnavailable loss ∧ fecBypassLossPpm ≤ loss.toNat

/-- A sample below the threshold, which is always a real one. -/
def IsLow (loss : UInt32) : Prop := loss.toNat < fecBypassLossPpm

instance (loss : UInt32) : Decidable (IsUnavailable loss) := inferInstanceAs (Decidable (_ = _))

instance (loss : UInt32) : Decidable (IsHigh loss) := inferInstanceAs (Decidable (_ ∧ _))

instance (loss : UInt32) : Decidable (IsLow loss) := inferInstanceAs (Decidable (_ < _))

theorem loss_cases (loss : UInt32) : IsUnavailable loss ∨ IsHigh loss ∨ IsLow loss := by
  by_cases isUnavailable : IsUnavailable loss
  · exact Or.inl isUnavailable
  · refine Or.inr ?_
    rcases Nat.lt_or_ge loss.toNat fecBypassLossPpm with isLow | isHigh
    · exact Or.inr isLow
    · exact Or.inl ⟨isUnavailable, isHigh⟩

theorem IsLow.not_unavailable {loss : UInt32} (isLow : IsLow loss) : ¬ IsUnavailable loss := by
  unfold IsLow fecBypassLossPpm at isLow
  unfold IsUnavailable lossSampleUnavailable
  omega

theorem IsLow.not_high {loss : UInt32} (isLow : IsLow loss) : ¬ IsHigh loss :=
  fun isHigh => Nat.not_lt.mpr isHigh.2 isLow

/-- The number of real samples at or above the threshold since the last one below it. -/
def highRun (losses : List UInt32) : Nat :=
  ((losses.filter fun loss => ¬ IsUnavailable loss).reverse.takeWhile
    fun loss => IsHigh loss).length

/-- A report without a sample does not break a run. -/
theorem highRun_unavailable {loss : UInt32} (isUnavailable : IsUnavailable loss)
    (past : List UInt32) : highRun (past ++ [loss]) = highRun past := by
  simp [highRun, isUnavailable]

theorem highRun_high {loss : UInt32} (isHigh : IsHigh loss) (past : List UInt32) :
    highRun (past ++ [loss]) = highRun past + 1 := by
  simp [highRun, isHigh, isHigh.1]

theorem highRun_low {loss : UInt32} (isLow : IsLow loss) (past : List UInt32) :
    highRun (past ++ [loss]) = 0 := by
  simp [highRun, isLow.not_unavailable, isLow.not_high]

/-- The streak and the bypass flag in terms of the reports. -/
structure Tracks (losses : List UInt32) (adaptive : Adaptive) : Prop where
  streak : adaptive.bypassStreak = min (highRun losses) 255
  bypassed : adaptive.bypassed = true ↔ 3 ≤ highRun losses

namespace Tracks

variable {past : List UInt32} {adaptive : Adaptive} {loss : UInt32}

theorem reportUnavailable (tracks : Tracks past adaptive) (isUnavailable : IsUnavailable loss) :
    Tracks (past ++ [loss]) adaptive.reportUnavailable := by
  obtain ⟨streak, bypassed⟩ := tracks
  have run := highRun_unavailable isUnavailable past
  unfold Adaptive.reportUnavailable
  constructor <;> grind

theorem reportBypass (tracks : Tracks past adaptive) (isHigh : IsHigh loss) :
    Tracks (past ++ [loss]) (adaptive.sampled loss.toNat).reportBypass := by
  obtain ⟨streak, bypassed⟩ := tracks
  have run := highRun_high isHigh past
  unfold Adaptive.reportBypass sampled
  constructor <;> grind

theorem reportSample (isLow : IsLow loss) :
    Tracks (past ++ [loss]) (adaptive.sampled loss.toNat).reportSample := by
  have run := highRun_low isLow past
  unfold Adaptive.reportSample sampled
  constructor <;> grind

end Tracks

theorem tracks_after (losses : List UInt32) : Tracks losses (after losses) := by
  induction losses using List.reverseRecOn with
  | nil => constructor <;> decide
  | append_singleton past loss inductionHypothesis =>
      have smoothed := (bounded_after past).smoothed
      rw [after_snoc]
      rcases loss_cases loss with isUnavailable | isHigh | isLow
      · rw [isUnavailable, report_unavailable]
        exact inductionHypothesis.reportUnavailable isUnavailable
      · rw [report_high smoothed loss.toNat_lt isHigh.1 isHigh.2]
        exact inductionHypothesis.reportBypass isHigh
      · rw [report_low smoothed isLow]
        exact Tracks.reportSample isLow

/-! ### The parity -/

/-- The parities before and after a report that moves by one level at most. -/
def NearParity (adaptive next : Adaptive) : Prop :=
  next.parity ≤ adaptive.parity + 1 ∧ adaptive.parity ≤ next.parity + 1

theorem near_reportUnavailable (adaptive : Adaptive) :
    NearParity adaptive adaptive.reportUnavailable := by
  unfold NearParity reportUnavailable
  grind

/-- A sample at or above the threshold drops the parity or leaves it. -/
theorem parity_reportBypass (adaptive : Adaptive) :
    adaptive.reportBypass.parity =
      if 3 ≤ min (adaptive.bypassStreak + 1) 255 then 0 else adaptive.parity := by
  unfold reportBypass
  grind

/-- The first sample below the threshold after a bypass. -/
theorem parity_reportSample_of_bypassed {adaptive : Adaptive} (bypassed : adaptive.bypassed = true) :
    adaptive.reportSample.parity = min (target adaptive.reportSample.smoothedLossPpm) maxParity := by
  simp [reportSample, bypassed]

theorem near_reportSample {adaptive : Adaptive} (parity : adaptive.parity ≤ maxParity)
    (notBypassed : adaptive.bypassed = false) : NearParity adaptive adaptive.reportSample := by
  unfold NearParity reportSample
  grind

/-- After any reports: the next one overflows nothing and keeps every bound.  It drops the
parity to zero from the third sample of a run on, jumps to the target on the sample that
ends such a run, and otherwise moves the parity by at most one. -/
theorem adaptive_hysteresis (past : List UInt32) (loss : UInt32) :
    (after past).reportChecked loss.toNat = some (after (past ++ [loss])) ∧
      (after (past ++ [loss])).Bounded ∧
      if IsHigh loss ∧ 3 ≤ highRun (past ++ [loss]) then (after (past ++ [loss])).parity = 0
      else if IsLow loss ∧ 3 ≤ highRun past then
        (after (past ++ [loss])).parity =
          min (target (after (past ++ [loss])).smoothedLossPpm) maxParity
      else NearParity (after past) (after (past ++ [loss])) := by
  have bounded := bounded_after past
  have tracks := tracks_after past
  refine ⟨?_, bounded_after _, ?_⟩
  · rw [after_snoc]
    exact bounded.reportChecked loss.toNat_lt
  · rw [after_snoc]
    rcases loss_cases loss with isUnavailable | isHigh | isLow
    · rw [if_neg (fun both => both.1.1 isUnavailable),
        if_neg (fun both => IsLow.not_unavailable both.1 isUnavailable), isUnavailable,
        report_unavailable]
      exact near_reportUnavailable _
    · have notLow : ¬ IsLow loss := fun isLow => isLow.not_high isHigh
      have parity := parity_reportBypass ((after past).sampled loss.toNat)
      have streak := tracks.streak
      rw [report_high bounded.smoothed loss.toNat_lt isHigh.1 isHigh.2, highRun_high isHigh]
      unfold NearParity
      unfold sampled at parity ⊢
      grind
    · rw [if_neg (fun both => isLow.not_high both.1), report_low bounded.smoothed isLow]
      by_cases ends : 3 ≤ highRun past
      · rw [if_pos ⟨isLow, ends⟩]
        exact parity_reportSample_of_bypassed (tracks.bypassed.mpr ends)
      · rw [if_neg (fun both => ends both.2)]
        have notBypassed : (after past).bypassed = false := by
          rw [Bool.eq_false_iff]
          exact fun bypassed => ends (tracks.bypassed.mp bypassed)
        exact @near_reportSample ((after past).sampled loss.toNat) bounded.parity notBypassed

end Adaptive

end SmartFecTunnel.Fec
