import Mathlib.Data.Nat.Basic
import Mathlib.Data.List.Basic
import Mathlib.Tactic.Positivity
import Mathlib.Tactic.Ring

/-!
Contract: fixed-width big-endian integers and bounds-checked slices of byte
strings.

Owns:
- `toBeBytes`, the `width` low-order bytes of a number, most significant first;
- `fromBeBytes`, its left inverse on numbers that fit and its right inverse on
  byte strings of that width;
- `slice?`, a half-open range that fails instead of reading out of bounds.

Does not own: any message layout.
-/

namespace SmartFecTunnel.Library

abbrev Bytes := List UInt8

/-- The `width` low-order bytes of `value`, most significant byte first. -/
def toBeBytes : (width value : Nat) → Bytes
  | 0, _ => []
  | width + 1, value => UInt8.ofNat (value / 256 ^ width) :: toBeBytes width value

def fromBeBytes (bytes : Bytes) : Nat :=
  bytes.foldl (fun acc byte => acc * 256 + byte.toNat) 0

@[simp] theorem length_toBeBytes (width value : Nat) :
    (toBeBytes width value).length = width := by
  induction width with
  | zero => rfl
  | succ width inductionHypothesis => simp [toBeBytes, inductionHypothesis]

private theorem foldl_be_eq (bytes : Bytes) (initial : Nat) :
    bytes.foldl (fun acc byte => acc * 256 + byte.toNat) initial =
      initial * 256 ^ bytes.length + fromBeBytes bytes := by
  induction bytes generalizing initial with
  | nil => simp [fromBeBytes]
  | cons head tail inductionHypothesis =>
      simp only [fromBeBytes, List.foldl_cons, List.length_cons]
      rw [inductionHypothesis, inductionHypothesis (0 * 256 + head.toNat)]
      ring

theorem fromBeBytes_cons (head : UInt8) (tail : Bytes) :
    fromBeBytes (head :: tail) = head.toNat * 256 ^ tail.length + fromBeBytes tail := by
  have peeled := foldl_be_eq tail (0 * 256 + head.toNat)
  simpa [fromBeBytes] using peeled

theorem fromBeBytes_toBeBytes_mod (width value : Nat) :
    fromBeBytes (toBeBytes width value) = value % 256 ^ width := by
  induction width with
  | zero => simp [toBeBytes, fromBeBytes, Nat.mod_one]
  | succ width inductionHypothesis =>
      rw [toBeBytes, fromBeBytes_cons, inductionHypothesis, length_toBeBytes, pow_succ,
        Nat.mod_mul]
      simp only [UInt8.toNat_ofNat']
      ring_nf

/-- Decoding inverts encoding on every number that fits the width. -/
@[simp] theorem fromBeBytes_toBeBytes {width value : Nat} (fits : value < 256 ^ width) :
    fromBeBytes (toBeBytes width value) = value := by
  rw [fromBeBytes_toBeBytes_mod, Nat.mod_eq_of_lt fits]

theorem fromBeBytes_lt (bytes : Bytes) : fromBeBytes bytes < 256 ^ bytes.length := by
  induction bytes with
  | nil => simp [fromBeBytes]
  | cons head tail inductionHypothesis =>
      rw [fromBeBytes_cons, List.length_cons, pow_succ]
      have byte : head.toNat < 256 := head.toNat_lt
      calc head.toNat * 256 ^ tail.length + fromBeBytes tail
          < head.toNat * 256 ^ tail.length + 256 ^ tail.length := by omega
        _ = (head.toNat + 1) * 256 ^ tail.length := by ring
        _ ≤ 256 * 256 ^ tail.length := Nat.mul_le_mul_right _ byte
        _ = 256 ^ tail.length * 256 := Nat.mul_comm _ _

theorem toBeBytes_add_mul (width value more : Nat) :
    toBeBytes width (more * 256 ^ width + value) = toBeBytes width value := by
  induction width generalizing more with
  | zero => rfl
  | succ width inductionHypothesis =>
      have carried : more * 256 ^ (width + 1) + value = more * 256 * 256 ^ width + value := by ring
      rw [toBeBytes, toBeBytes, carried, inductionHypothesis,
        Nat.add_comm (more * 256 * 256 ^ width), Nat.add_mul_div_right _ _ (by positivity)]
      congr 1
      apply UInt8.toNat_inj.mp
      rw [UInt8.toNat_ofNat', UInt8.toNat_ofNat']
      omega

/-- Encoding inverts decoding. -/
theorem toBeBytes_fromBeBytes {width : Nat} {bytes : Bytes} (isLength : bytes.length = width) :
    toBeBytes width (fromBeBytes bytes) = bytes := by
  induction bytes generalizing width with
  | nil =>
      subst isLength
      rfl
  | cons head tail inductionHypothesis =>
      subst isLength
      have below := fromBeBytes_lt tail
      rw [List.length_cons, toBeBytes, fromBeBytes_cons, toBeBytes_add_mul,
        inductionHypothesis rfl, Nat.add_comm (head.toNat * 256 ^ tail.length),
        Nat.add_mul_div_right _ _ (by positivity), Nat.div_eq_of_lt below, Nat.zero_add,
        UInt8.ofNat_toNat]

/-- `bytes[start..stop]`, failing where the bounds check of the range fails. -/
def slice? {α : Type*} (bytes : List α) (start stop : Nat) : Option (List α) :=
  if start ≤ stop ∧ stop ≤ bytes.length then some ((bytes.take stop).drop start) else none

theorem slice?_of_le {α : Type*} {bytes : List α} {start stop : Nat} (ordered : start ≤ stop)
    (within : stop ≤ bytes.length) :
    slice? bytes start stop = some ((bytes.take stop).drop start) := by
  simp [slice?, ordered, within]

/-- A range that covers exactly one block of a concatenation reads that block. -/
theorem slice?_block {α : Type*} (front block back : List α) {start stop : Nat}
    (atStart : start = front.length) (atStop : stop = front.length + block.length) :
    slice? (front ++ (block ++ back)) start stop = some block := by
  subst atStart atStop
  rw [slice?_of_le (by omega) (by simp)]
  simp [List.take_append]

end SmartFecTunnel.Library
