import SmartFecTunnel.Fec.Frame

/-!
Contract: the adaptive redundancy controller (`Adaptive` in `src/main.rs`).

Owns the controller state and `report`, its only transition.  The unsigned
counters of the source that saturate do so here; the others are natural numbers.
-/

namespace SmartFecTunnel.Fec

structure Adaptive where
  parity : Nat
  bad : Nat
  good : Nat
  lastLossPpm : Nat
  smoothedLossPpm : Nat
  unavailableReports : Nat
  /-- Consecutive real samples at or above the bypass threshold. -/
  bypassStreak : Nat
  /-- Set by a bypass, cleared by the first real sample below the threshold. -/
  bypassed : Bool
deriving DecidableEq, Repr

namespace Adaptive

def default : Adaptive := ⟨0, 0, 0, 0, 0, 0, 0, false⟩

def target (loss : Nat) : Nat :=
  if loss ≤ 9_999 then 0
  else if loss ≤ 49_999 then 1
  else if loss ≤ 99_999 then 2
  else if loss ≤ 199_999 then 3
  else 4

/-- A report without a sample: after fifteen in a row one parity level goes. -/
def reportUnavailable (adaptive : Adaptive) : Adaptive :=
  let reports := min (adaptive.unavailableReports + 1) 255
  if 15 ≤ reports then
    let parity := adaptive.parity - 1
    { adaptive with
      parity
      unavailableReports := 0
      smoothedLossPpm := if parity = 0 then 0 else adaptive.smoothedLossPpm
      lastLossPpm := if parity = 0 then 0 else adaptive.lastLossPpm }
  else { adaptive with unavailableReports := reports }

/-- A sample at or above the bypass threshold: the third in a row drops parity. -/
def reportBypass (adaptive : Adaptive) : Adaptive :=
  let streak := min (adaptive.bypassStreak + 1) 255
  if 3 ≤ streak then
    { adaptive with
      bypassStreak := streak, parity := 0, bad := 0, good := 0, unavailableReports := 0
      bypassed := true }
  else { adaptive with bypassStreak := streak, good := 0 }

/-- A sample below the threshold: move one level after enough agreeing samples,
or jump to the target right after a bypass. -/
def reportSample (adaptive : Adaptive) : Adaptive :=
  let adaptive := { adaptive with bypassStreak := 0 }
  let target := target adaptive.smoothedLossPpm
  if adaptive.bypassed then
    { adaptive with parity := min target maxParity, bad := 0, good := 0, bypassed := false }
  else if adaptive.parity < target then
    let bad := adaptive.bad + 1
    if 2 ≤ bad then
      { adaptive with parity := min (adaptive.parity + 1) maxParity, bad := 0, good := 0 }
    else { adaptive with bad, good := 0 }
  else if target < adaptive.parity then
    let good := adaptive.good + 1
    let bad := adaptive.bad - 1
    if 15 ≤ good then { adaptive with parity := adaptive.parity - 1, bad, good := 0 }
    else { adaptive with bad, good }
  else { adaptive with bad := adaptive.bad - 1, good := 0 }

def report (adaptive : Adaptive) (loss : Nat) : Adaptive :=
  if loss = lossSampleUnavailable then adaptive.reportUnavailable
  else
    let sampled := { adaptive with
      unavailableReports := 0
      lastLossPpm := loss
      smoothedLossPpm := (adaptive.smoothedLossPpm * 3 + loss) / 4 % 2 ^ 32 }
    if fecBypassLossPpm ≤ loss then sampled.reportBypass else sampled.reportSample

end Adaptive

end SmartFecTunnel.Fec
