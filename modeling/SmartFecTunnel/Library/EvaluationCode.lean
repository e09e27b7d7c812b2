import Mathlib.Data.List.ReduceOption
import Mathlib.FieldTheory.Finite.GaloisField
import Mathlib.LinearAlgebra.Lagrange
import SmartFecTunnel.Library.ErasureCode

/-!
Contract: lawful erasure codecs exist.

Owns:
- `repetition`, the code with one source shard;
- `evaluation`, the systematic Reed-Solomon code: byte `position` of the shards
  is a polynomial of degree below `data`, evaluated at one point for each shard;
- that both are lawful.
-/

namespace SmartFecTunnel.Library

/-! ### Repetition -/

/-- Every repair shard is a copy of the source shard. -/
def repetition (parity : Nat) : ErasureCodec where
  encode := fun shards =>
    match shards with
    | [shard] => some (List.replicate parity shard)
    | _ => none
  reconstruct := fun slots =>
    match slots.reduceOption with
    | [] => none
    | shard :: rest =>
      if rest.all fun other => other.length = shard.length then
        some (slots.map fun slot => some (slot.getD shard))
      else none

theorem reduceOption_pos {α : Type*} {slots : List (Option α)} (some_ : 1 ≤ present slots) :
    ∃ shard rest, slots.reduceOption = shard :: rest := by
  obtain ⟨slot, member, filled⟩ := List.countP_pos_iff.mp some_
  obtain ⟨shard, rfl⟩ := Option.isSome_iff_exists.mp filled
  exact List.exists_cons_of_ne_nil (List.ne_nil_of_mem (List.reduceOption_mem_iff.mpr member))

theorem repetition_lawful (parity : Nat) : (repetition parity).Lawful 1 parity where
  encode_equal := by
    intro shards length single _ equal
    obtain ⟨shard, rfl⟩ := List.length_eq_one_iff.mp single
    refine ⟨List.replicate parity shard, rfl, List.length_replicate, ?_⟩
    intro copy member
    rw [List.eq_of_mem_replicate member]
    exact equal shard (List.mem_singleton_self shard)
  reconstruct_unequal := by
    intro slots first second isFirst isSecond different
    have inFirst := List.reduceOption_mem_iff.mpr isFirst
    have inSecond := List.reduceOption_mem_iff.mpr isSecond
    unfold repetition
    dsimp only
    split
    next => rfl
    next shard rest isList =>
      rw [isList] at inFirst inSecond
      rw [if_neg]
      intro equal
      have lengths : ∀ other ∈ shard :: rest, other.length = shard.length := by
        intro other member
        rcases List.mem_cons.mp member with rfl | inRest
        · rfl
        · exact of_decide_eq_true (List.all_eq_true.mp equal other inRest)
      exact different ((lengths first inFirst).trans (lengths second inSecond).symm)
  reconstruct_fills := by
    intro slots length count enough _ equal
    obtain ⟨shard, rest, isList⟩ := reduceOption_pos enough
    have lengths : ∀ other ∈ shard :: rest, other.length = length := by
      intro other member
      rw [← isList] at member
      exact equal other (List.reduceOption_mem_iff.mp member)
    refine ⟨slots.map fun slot => slot.getD shard, ?_, ?_, ?_, ?_⟩
    · unfold repetition
      dsimp only
      rw [isList]
      dsimp only
      rw [if_pos, List.map_map]
      · rfl
      · rw [List.all_eq_true]
        intro other member
        rw [decide_eq_true_eq, lengths other (List.mem_cons_of_mem _ member),
          lengths shard List.mem_cons_self]
    · rw [List.length_map]
      exact count
    · intro full member
      obtain ⟨slot, inSlots, rfl⟩ := List.mem_map.mp member
      cases slot with
      | none => exact lengths shard List.mem_cons_self
      | some other => exact equal other inSlots
    · intro index other held
      rw [List.getElem?_map, held]
      rfl
  reconstruct_codeword := by
    intro shards repair slots length single _ _ encoded count agrees enough
    obtain ⟨source, rfl⟩ := List.length_eq_one_iff.mp single
    cases encoded
    have copies : [source] ++ List.replicate parity source =
        List.replicate (1 + parity) source := by
      rw [← List.replicate_append_replicate]
      rfl
    rw [copies] at agrees ⊢
    have isSource : ∀ other, some other ∈ slots → other = source := by
      intro other member
      obtain ⟨index, held⟩ := List.mem_iff_getElem?.mp member
      exact List.eq_of_mem_replicate (List.mem_of_getElem? (agrees index other held))
    obtain ⟨shard, rest, isList⟩ := reduceOption_pos enough
    have inList : ∀ other ∈ shard :: rest, other = source := by
      intro other member
      rw [← isList] at member
      exact isSource other (List.reduceOption_mem_iff.mp member)
    have isShard : shard = source := inList shard List.mem_cons_self
    unfold repetition
    dsimp only
    rw [isList]
    dsimp only
    rw [if_pos, isShard]
    · congr 1
      apply List.ext_getElem
      · simp only [List.length_map, List.length_replicate]
        exact count
      · intro index below _
        rw [List.length_map] at below
        simp only [List.getElem_map, List.getElem_replicate, Option.some.injEq]
        cases held : slots[index] with
        | none => rfl
        | some other => exact isSource other (by rw [← held]; exact List.getElem_mem below)
    · rw [List.all_eq_true]
      intro other member
      rw [decide_eq_true_eq, inList other (List.mem_cons_of_mem _ member), isShard]

/-! ### Evaluation -/

section Evaluation

open Polynomial

variable {K : Type*} [Field K] (symbols : UInt8 ≃ K)

/-- The evaluation point of shard `index`. -/
def node (index : Nat) : K := symbols (UInt8.ofNat index)

omit [Field K] in
theorem node_injOn {positions : Finset Nat} (below : ∀ index ∈ positions, index < 256) :
    Set.InjOn (node symbols) positions := by
  intro left isLeft right isRight same
  have bytes : UInt8.ofNat left = UInt8.ofNat right := symbols.injective same
  have numbers := congrArg UInt8.toNat bytes
  rw [UInt8.toNat_ofNat', UInt8.toNat_ofNat', Nat.mod_eq_of_lt (below left isLeft),
    Nat.mod_eq_of_lt (below right isRight)] at numbers
  exact numbers

/-- The polynomial through byte `position` of the shards at `positions`. -/
noncomputable def column (positions : Finset Nat) (shard : Nat → Bytes) (position : Nat) : K[X] :=
  Lagrange.interpolate positions (node symbols) fun index =>
    symbols ((shard index)[position]?.getD 0)

/-- Shard `index` of the codeword through the shards at `positions`. -/
noncomputable def extended (positions : Finset Nat) (shard : Nat → Bytes) (length index : Nat) :
    Bytes :=
  (List.range length).map fun position =>
    symbols.symm ((column symbols positions shard position).eval (node symbols index))

theorem length_extended (positions : Finset Nat) (shard : Nat → Bytes) (length index : Nat) :
    (extended symbols positions shard length index).length = length := by
  rw [extended, List.length_map, List.length_range]

variable {positions : Finset Nat} {shard : Nat → Bytes} {length : Nat}

theorem extended_of_mem (below : ∀ index ∈ positions, index < 256) {index : Nat}
    (member : index ∈ positions) (isLength : (shard index).length = length) :
    extended symbols positions shard length index = shard index := by
  apply List.ext_getElem
  · rw [length_extended, isLength]
  · intro position inLeft inRight
    simp only [extended, List.getElem_map, List.getElem_range, column]
    rw [Lagrange.eval_interpolate_at_node _ (node_injOn symbols below) member,
      Equiv.symm_apply_apply, List.getElem?_eq_getElem inRight, Option.getD_some]

/-- A codeword is determined by as many of its shards as it was built from. -/
theorem extended_unique {known : Finset Nat} {other : Nat → Bytes}
    (below : ∀ index ∈ positions, index < 256) (knownBelow : ∀ index ∈ known, index < 256)
    (enough : positions.card ≤ known.card)
    (agrees : ∀ index ∈ known, other index = extended symbols positions shard length index)
    (index : Nat) :
    extended symbols known other length index = extended symbols positions shard length index := by
  unfold extended
  apply List.map_congr_left
  intro position inRange
  have same : column symbols positions shard position = column symbols known other position := by
    apply Lagrange.eq_interpolate_of_eval_eq _ (node_injOn symbols knownBelow)
    · apply lt_of_lt_of_le (Lagrange.degree_interpolate_lt _ (node_injOn symbols below))
      exact_mod_cast enough
    · intro index member
      rw [agrees index member]
      have inLength : position < length := List.mem_range.mp inRange
      simp [extended, inLength]
  rw [same]

/-- The shard in slot `index`. -/
def shardAt (slots : List (Option Bytes)) (index : Nat) : Bytes := (slots[index]?.getD none).getD []

/-- The filled positions. -/
def filledPositions (slots : List (Option Bytes)) : Finset Nat :=
  (Finset.range slots.length).filter fun index => (slots[index]?.getD none).isSome

theorem mem_filledPositions {slots : List (Option Bytes)} {index : Nat} :
    index ∈ filledPositions slots ↔ Filled slots index := by
  unfold filledPositions Filled
  rw [Finset.mem_filter, Finset.mem_range]
  constructor
  · rintro ⟨below, filled⟩
    rw [List.getElem?_eq_getElem below, Option.getD_some] at filled
    obtain ⟨shard, isShard⟩ := Option.isSome_iff_exists.mp filled
    exact ⟨shard, by rw [List.getElem?_eq_getElem below, isShard]⟩
  · rintro ⟨shard, held⟩
    refine ⟨(List.getElem?_eq_some_iff.mp held).1, ?_⟩
    rw [held]
    rfl

/-- The length of the first present shard. -/
def firstLength (slots : List (Option Bytes)) : Nat := (slots.reduceOption.headD []).length

/-- The systematic Reed-Solomon code with `data` source shards. -/
noncomputable def evaluation (data parity : Nat) : ErasureCodec where
  encode := fun shards =>
    if shards.length = data ∧ ∀ shard ∈ shards, shard.length = firstLength (shards.map some) then
      some ((List.range parity).map fun index =>
        extended symbols (Finset.range data) (shardAt (shards.map some))
          (firstLength (shards.map some)) (data + index))
    else none
  reconstruct := fun slots =>
    if data ≤ present slots ∧ ∀ slot ∈ slots, ∀ shard ∈ slot, shard.length = firstLength slots then
      some ((List.range slots.length).map fun index =>
        some (extended symbols (filledPositions slots) (shardAt slots) (firstLength slots) index))
    else none

theorem firstLength_eq {slots : List (Option Bytes)} {length : Nat} (some_ : 1 ≤ present slots)
    (equal : ∀ shard, some shard ∈ slots → shard.length = length) : firstLength slots = length := by
  obtain ⟨shard, rest, isList⟩ := reduceOption_pos some_
  unfold firstLength
  rw [isList]
  exact equal shard (List.reduceOption_mem_iff.mp (by rw [isList]; exact List.mem_cons_self))

theorem present_map_some (shards : List Bytes) : present (shards.map some) = shards.length := by
  simp [present, Function.comp_def]

theorem shardAt_of_held {slots : List (Option Bytes)} {index : Nat} {shard : Bytes}
    (held : slots[index]? = some (some shard)) : shardAt slots index = shard := by
  unfold shardAt
  rw [held]
  rfl

/-- Source and repair shards are the extension of the source shards. -/
theorem codeword_eq {data parity : Nat} (bounded : data + parity ≤ 256) (positive : 1 ≤ data)
    {shards repair : List Bytes} {length : Nat} (count : shards.length = data)
    (equal : ∀ shard ∈ shards, shard.length = length)
    (encoded : (evaluation symbols data parity).encode shards = some repair) :
    shards ++ repair = (List.range (data + parity)).map
      (extended symbols (Finset.range data) (shardAt (shards.map some)) length) := by
  have isLength : firstLength (shards.map some) = length :=
    firstLength_eq (by rw [present_map_some]; omega) (by simpa using equal)
  have isRepair : repair = (List.range parity).map fun index =>
      extended symbols (Finset.range data) (shardAt (shards.map some)) length (data + index) := by
    unfold evaluation at encoded
    dsimp only at encoded
    rw [isLength, if_pos ⟨count, equal⟩] at encoded
    exact (Option.some.inj encoded).symm
  rw [List.range_add, List.map_append, isRepair, List.map_map]
  refine congrArg₂ (· ++ ·) ?_ rfl
  apply List.ext_getElem
  · rw [List.length_map, List.length_range, count]
  · intro index inShards inRange
    simp only [List.getElem_map, List.getElem_range]
    have held : (shards.map some)[index]? = some (some shards[index]) := by
      rw [List.getElem?_map, List.getElem?_eq_getElem inShards]
      rfl
    have isShard := shardAt_of_held held
    rw [extended_of_mem symbols _ (Finset.mem_range.mpr (by omega))]
    · exact isShard.symm
    · rw [isShard]
      exact equal _ (List.getElem_mem inShards)
    · intro other member
      have := Finset.mem_range.mp member
      omega

theorem evaluation_lawful {data parity : Nat} (positive : 1 ≤ data)
    (bounded : data + parity ≤ 256) : (evaluation symbols data parity).Lawful data parity where
  encode_equal := by
    intro shards length count _ equal
    have isLength : firstLength (shards.map some) = length :=
      firstLength_eq (by rw [present_map_some]; omega) (by simpa using equal)
    refine ⟨(List.range parity).map fun index => extended symbols (Finset.range data)
      (shardAt (shards.map some)) length (data + index), ?_, ?_, ?_⟩
    · unfold evaluation
      dsimp only
      rw [isLength, if_pos ⟨count, equal⟩]
    · rw [List.length_map, List.length_range]
    · intro shard member
      obtain ⟨index, _, rfl⟩ := List.mem_map.mp member
      exact length_extended symbols _ _ _ _
  reconstruct_unequal := by
    intro slots first second isFirst isSecond different
    unfold evaluation
    dsimp only
    rw [if_neg]
    rintro ⟨_, equal⟩
    exact different ((equal _ isFirst first rfl).trans (equal _ isSecond second rfl).symm)
  reconstruct_fills := by
    intro slots length count enough _ equal
    have isLength : firstLength slots = length := firstLength_eq (by omega) equal
    refine ⟨(List.range slots.length).map
      (extended symbols (filledPositions slots) (shardAt slots) length), ?_, ?_, ?_, ?_⟩
    · unfold evaluation
      dsimp only
      rw [isLength, if_pos, List.map_map]
      · rfl
      · refine ⟨enough, ?_⟩
        rintro slot member shard rfl
        exact equal shard member
    · rw [List.length_map, List.length_range, count]
    · intro shard member
      obtain ⟨index, _, rfl⟩ := List.mem_map.mp member
      exact length_extended symbols _ _ _ _
    · intro index shard held
      have below := (List.getElem?_eq_some_iff.mp held).1
      rw [List.getElem?_map, List.getElem?_range below, Option.map_some,
        extended_of_mem symbols _ (mem_filledPositions.mpr ⟨shard, held⟩), shardAt_of_held held]
      · rw [shardAt_of_held held]
        exact equal shard (List.mem_of_getElem? held)
      · intro other member
        have inSlots := (mem_filledPositions.mp member).lt_length
        omega
  reconstruct_codeword := by
    intro shards repair slots length sources _ equal encoded count agrees enough
    have isCodeword := codeword_eq symbols bounded positive sources equal encoded
    rw [isCodeword] at agrees ⊢
    have sameLength : ∀ shard, some shard ∈ slots → shard.length = length := by
      intro shard member
      obtain ⟨index, held⟩ := List.mem_iff_getElem?.mp member
      obtain ⟨other, _, isShard⟩ := List.mem_map.mp (List.mem_of_getElem? (agrees index shard held))
      rw [← isShard]
      exact length_extended symbols _ _ _ _
    have isLength : firstLength slots = length := firstLength_eq (by omega) sameLength
    have known : ∀ index ∈ filledPositions slots, shardAt slots index =
        extended symbols (Finset.range data) (shardAt (shards.map some)) length index := by
      intro index member
      obtain ⟨shard, held⟩ := mem_filledPositions.mp member
      have below := (List.getElem?_eq_some_iff.mp held).1
      have isShard := agrees index shard held
      rw [List.getElem?_map, List.getElem?_range (by omega), Option.map_some] at isShard
      rw [shardAt_of_held held]
      exact (Option.some.inj isShard).symm
    unfold evaluation
    dsimp only
    rw [isLength, if_pos, count, List.map_map]
    · apply congrArg some
      apply List.map_congr_left
      intro index _
      rw [Function.comp_apply]
      apply congrArg some
      apply extended_unique symbols _ _ _ known
      · intro other member
        have := Finset.mem_range.mp member
        omega
      · intro other member
        have inSlots := (mem_filledPositions.mp member).lt_length
        omega
      · rw [Finset.card_range, ← present_eq_card fun index => mem_filledPositions]
        exact enough
    · refine ⟨enough, ?_⟩
      rintro slot member shard rfl
      exact sameLength shard member

end Evaluation

/-- Bytes as the elements of a field with 256 elements. -/
noncomputable def byteField : UInt8 ≃ GaloisField 2 8 :=
  let finite : UInt8 ≃ Fin 256 := ⟨UInt8.toFin, UInt8.ofFin, fun _ => rfl, fun _ => rfl⟩
  finite.trans (Finite.equivFinOfCardEq (GaloisField.card 2 8 (by decide))).symm

end SmartFecTunnel.Library
