import Mathlib.Data.Finset.Card
import Mathlib.Data.List.Induction
import SmartFecTunnel.Library.BigEndian

/-!
Contract: systematic erasure codecs on equal-length byte shards.

A codec turns `data` source shards into `parity` further shards; source and
parity shards together are a codeword of `data + parity` shards.  A receiver
holds slots, some of them empty.

Owns:
- `ErasureCodec`, the two operations as a caller sees them;
- `Agrees`, the slots that hold only shards of a given list;
- `ErasureCodec.Lawful`, what a caller may rely on.

Does not own: the arithmetic of any particular code.
-/

namespace SmartFecTunnel.Library

variable {α : Type*}

/-- The number of filled slots. -/
def present (slots : List (Option α)) : Nat := slots.countP Option.isSome

/-- Position `index` holds a shard. -/
def Filled (slots : List (Option α)) (index : Nat) : Prop :=
  ∃ shard, slots[index]? = some (some shard)

theorem Filled.lt_length {slots : List (Option α)} {index : Nat} (filled : Filled slots index) :
    index < slots.length := by
  obtain ⟨shard, held⟩ := filled
  exact (List.getElem?_eq_some_iff.mp held).1

theorem not_filled_iff {slots : List (Option α)} {index : Nat} (within : index < slots.length) :
    ¬ Filled slots index ↔ slots[index]? = some none := by
  unfold Filled
  rw [List.getElem?_eq_getElem within]
  cases slots[index] <;> simp

theorem filled_set {slots : List (Option α)} {position : Nat} (within : position < slots.length)
    (shard : α) (index : Nat) :
    Filled (slots.set position (some shard)) index ↔ index = position ∨ Filled slots index := by
  unfold Filled
  by_cases same : position = index
  · subst same
    simp [within]
  · simp [List.getElem?_set_ne same, Ne.symm same]

/-- The number of filled slots is the size of the set of filled positions. -/
theorem present_eq_card {slots : List (Option α)} {positions : Finset Nat}
    (exact_ : ∀ index, index ∈ positions ↔ Filled slots index) :
    present slots = positions.card := by
  induction slots using List.reverseRecOn generalizing positions with
  | nil =>
      have none : positions = ∅ := by
        rw [Finset.eq_empty_iff_forall_notMem]
        intro index member
        obtain ⟨shard, held⟩ := (exact_ index).mp member
        cases held
      rw [none]
      rfl
  | append_singleton slots last inductionHypothesis =>
      have shorter : ∀ index, index ∈ positions.erase slots.length ↔ Filled slots index := by
        intro index
        rw [Finset.mem_erase, exact_ index]
        constructor
        · rintro ⟨notLast, shard, held⟩
          have within := (List.getElem?_eq_some_iff.mp held).1
          have before : index < slots.length := by
            rw [List.length_append, List.length_singleton] at within
            omega
          exact ⟨shard, by rw [List.getElem?_append_left before] at held; exact held⟩
        · intro filled
          have before := filled.lt_length
          obtain ⟨shard, held⟩ := filled
          exact ⟨by omega, shard, by rw [List.getElem?_append_left before]; exact held⟩
      have earlier := inductionHypothesis shorter
      have split : present (slots ++ [last]) = present slots + if last.isSome then 1 else 0 := by
        simp [present, List.countP_append]
      have lastIff : slots.length ∈ positions ↔ last.isSome := by
        rw [exact_]
        unfold Filled
        cases last <;> simp
      rw [split, earlier]
      cases filled : last.isSome with
      | true =>
          have member := lastIff.mpr filled
          have positive := Finset.card_pos.mpr ⟨_, member⟩
          rw [Finset.card_erase_of_mem member]
          simp only [↓reduceIte]
          omega
      | false =>
          have absent : slots.length ∉ positions := by
            rw [lastIff, filled]
            exact Bool.false_ne_true
          rw [Finset.erase_eq_of_notMem absent]
          rfl

/-- Every filled slot holds the shard `full` has at that position. -/
def Agrees (slots : List (Option α)) (full : List α) : Prop :=
  ∀ (index : Nat) (shard : α), slots[index]? = some (some shard) → full[index]? = some shard

theorem agrees_replicate_none (count : Nat) (full : List α) :
    Agrees (List.replicate count none) full := by
  intro index shard filled
  obtain ⟨_, impossible⟩ := List.mem_replicate.mp (List.mem_of_getElem? filled)
  cases impossible

/-- Filling one slot with the right shard keeps the agreement. -/
theorem Agrees.set {slots : List (Option α)} {full : List α} {position : Nat} {shard : α}
    (agrees : Agrees slots full) (right : full[position]? = some shard) :
    Agrees (slots.set position (some shard)) full := by
  intro index stored filled
  rw [List.getElem?_set] at filled
  split at filled
  next same =>
    split at filled
    next within =>
      cases filled
      rw [← same]
      exact right
    next => cases filled
  next => exact agrees index stored filled

theorem agrees_map_some (full : List α) : Agrees (full.map some) full := by
  intro index shard filled
  simpa using filled

/-- The operations of one code.  `none` is an error that leaves the arguments
as they were. -/
structure ErasureCodec where
  encode : List Bytes → Option (List Bytes)
  reconstruct : List (Option Bytes) → Option (List (Option Bytes))

/-- The contract of a `data + parity` code. -/
structure ErasureCodec.Lawful (codec : ErasureCodec) (data parity : Nat) : Prop where
  encode_equal :
    ∀ shards length, shards.length = data → 0 < length →
      (∀ shard ∈ shards, shard.length = length) →
      ∃ repair, codec.encode shards = some repair ∧ repair.length = parity ∧
        ∀ shard ∈ repair, shard.length = length
  reconstruct_unequal :
    ∀ slots first second, some first ∈ slots → some second ∈ slots →
      first.length ≠ second.length → codec.reconstruct slots = none
  reconstruct_fills :
    ∀ slots length, slots.length = data + parity → data ≤ present slots → 0 < length →
      (∀ shard, some shard ∈ slots → shard.length = length) →
      ∃ full, codec.reconstruct slots = some (full.map some) ∧ full.length = data + parity ∧
        (∀ shard ∈ full, shard.length = length) ∧ Agrees slots full
  reconstruct_codeword :
    ∀ shards repair slots length, shards.length = data → 0 < length →
      (∀ shard ∈ shards, shard.length = length) → codec.encode shards = some repair →
      slots.length = data + parity → Agrees slots (shards ++ repair) → data ≤ present slots →
      codec.reconstruct slots = some ((shards ++ repair).map some)

end SmartFecTunnel.Library
