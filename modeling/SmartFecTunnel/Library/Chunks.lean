import Mathlib.Data.List.Basic
import Mathlib.Tactic.Ring

/-!
Contract: cutting a list into consecutive chunks of one size and joining them.

Owns `divCeil`, `chunks` and the facts that the chunks concatenate to the list,
are no longer than the size, and number `divCeil length size`.
-/

namespace SmartFecTunnel.Library

/-- Division rounded up. -/
def divCeil (value size : Nat) : Nat := (value + size - 1) / size

theorem divCeil_one {size : Nat} (positive : 0 < size) : divCeil 1 size = 1 := by
  rw [divCeil, Nat.add_sub_cancel_left, Nat.div_self positive]

variable {α : Type*}

/-- Consecutive chunks of `size` elements; the last one may be shorter. -/
def chunks (size : Nat) (list : List α) : List (List α) :=
  (List.range (divCeil list.length size)).map fun index => (list.drop (index * size)).take size

@[simp] theorem length_chunks (size : Nat) (list : List α) :
    (chunks size list).length = divCeil list.length size := by
  simp [chunks]

theorem length_le_of_mem_chunks {size : Nat} {list chunk : List α}
    (member : chunk ∈ chunks size list) : chunk.length ≤ size := by
  obtain ⟨index, -, rfl⟩ := List.mem_map.mp member
  exact List.length_take_le size _

private theorem flatten_take_drop (size count : Nat) (list : List α) :
    ((List.range count).map fun index => (list.drop (index * size)).take size).flatten =
      list.take (count * size) := by
  induction count with
  | zero => simp
  | succ count inductionHypothesis =>
      rw [List.range_succ, List.map_append, List.flatten_append, inductionHypothesis]
      simp [Nat.succ_mul, List.take_add]

/-- The chunks of a list concatenate to the list. -/
theorem flatten_chunks {size : Nat} (positive : 0 < size) (list : List α) :
    (chunks size list).flatten = list := by
  rw [chunks, flatten_take_drop]
  apply List.take_of_length_le
  have rounded := Nat.lt_mul_div_succ (list.length + size - 1) positive
  rw [divCeil, Nat.mul_comm]
  have expanded : size * ((list.length + size - 1) / size + 1) =
      size * ((list.length + size - 1) / size) + size := by ring
  omega

end SmartFecTunnel.Library
