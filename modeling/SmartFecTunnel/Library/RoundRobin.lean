import Mathlib.Data.List.Induction
import Mathlib.Data.List.Basic

/-!
Contract: items dealt in turn to a number of lanes, and what is read back from the lanes in
any order.

Owns:
- `dealt`, the items of one lane, and how one more item changes them;
- `readFrom`, the items read from one lane of a list of reads;
- with one lane, reads that agree with the lane agree with all items.

Does not own: the queue of a lane.
-/

namespace SmartFecTunnel.Library

universe u

variable {α : Type u}

/-- The items at the positions `lane`, `lane + lanes`, `lane + 2 * lanes` and so on. -/
def dealt (lanes lane : Nat) (items : List α) : List α :=
  (items.zipIdx.filter fun item => item.2 % lanes = lane).map Prod.fst

/-- The items read from a lane. -/
def readFrom (lane : Nat) (reads : List (Nat × α)) : List α :=
  (reads.filter fun read => read.1 = lane).map Prod.snd

@[simp] theorem dealt_nil (lanes lane : Nat) : dealt lanes lane ([] : List α) = [] := rfl

@[simp] theorem readFrom_nil (lane : Nat) : readFrom lane ([] : List (Nat × α)) = [] := rfl

theorem dealt_snoc (lanes lane : Nat) (items : List α) (item : α) :
    dealt lanes lane (items ++ [item]) =
      dealt lanes lane items ++ if items.length % lanes = lane then [item] else [] := by
  unfold dealt
  rw [List.zipIdx_append, List.filter_append, List.map_append]
  by_cases isLane : items.length % lanes = lane <;> simp [isLane]

theorem readFrom_snoc (lane : Nat) (reads : List (Nat × α)) (read : Nat × α) :
    readFrom lane (reads ++ [read]) =
      readFrom lane reads ++ if read.1 = lane then [read.2] else [] := by
  unfold readFrom
  rw [List.filter_append, List.map_append]
  by_cases isLane : read.1 = lane <;> simp [isLane]

/-- One lane gets every item. -/
theorem dealt_one (items : List α) : dealt 1 0 items = items := by
  induction items using List.reverseRecOn with
  | nil => rfl
  | append_singleton items item inductionHypothesis =>
      rw [dealt_snoc, inductionHypothesis, Nat.mod_one, if_pos rfl]

theorem readFrom_zero {reads : List (Nat × α)} (oneLane : ∀ read ∈ reads, read.1 < 1) :
    readFrom 0 reads = reads.map Prod.snd := by
  unfold readFrom
  rw [List.filter_eq_self.mpr]
  intro read member
  exact decide_eq_true (Nat.lt_one_iff.mp (oneLane read member))

end SmartFecTunnel.Library
