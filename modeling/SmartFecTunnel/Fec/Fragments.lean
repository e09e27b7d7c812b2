import SmartFecTunnel.Fec.Decoder

/-!
Contract: a datagram as a list of fragments, seen from both ends.

Owns:
- the chunks of a datagram and the shard of each fragment;
- the list of all fragments of a list of datagrams;
- that the receiver reads back the header the sender wrote, padded or not.

Does not own: which group carries a fragment.
-/

namespace SmartFecTunnel.Fec

open SmartFecTunnel.Library

/-- Largest datagram the tunnel reads from a socket. -/
def maxDatagram : Nat := 65535

namespace Encoder

/-! ### Fragments of one datagram -/

theorem length_datagramChunks (payload : Bytes) :
    (datagramChunks payload).length = divCeil (max payload.length 1) chunkBytes := by
  unfold datagramChunks
  cases payload with
  | nil => rfl
  | cons head tail =>
      rw [if_neg (by simp), length_chunks]
      congr 1
      simp

theorem datagramChunks_pos (payload : Bytes) : 0 < (datagramChunks payload).length := by
  rw [length_datagramChunks]
  unfold divCeil
  apply Nat.div_pos
  · have : 1 ≤ max payload.length 1 := le_max_right _ _
    omega
  · decide

theorem length_datagramChunks_le {payload : Bytes} (small : payload.length ≤ maxDatagram) :
    (datagramChunks payload).length ≤ 64 := by
  rw [length_datagramChunks]
  unfold divCeil chunkBytes shardBytes fragmentHeader
  unfold maxDatagram at small
  have bounded : max payload.length 1 ≤ 65535 := max_le small (by decide)
  omega

theorem length_le_of_mem_datagramChunks {payload chunk : Bytes}
    (member : chunk ∈ datagramChunks payload) : chunk.length ≤ chunkBytes := by
  unfold datagramChunks at member
  split at member
  · rw [List.mem_singleton] at member
    subst member
    exact Nat.zero_le _
  · exact length_le_of_mem_chunks member

/-- The fragments of a datagram concatenate to the datagram. -/
theorem flatten_datagramChunks (payload : Bytes) : (datagramChunks payload).flatten = payload := by
  unfold datagramChunks
  split
  next empty =>
    rw [List.isEmpty_iff.mp empty]
    rfl
  next => exact flatten_chunks (by decide) payload

theorem length_fragmentShard (packetId index count : Nat) (chunk : Bytes) :
    (fragmentShard packetId index count chunk).length = fragmentHeader + chunk.length := by
  simp only [fragmentShard, List.length_append, length_toBeBytes, fragmentHeader]
  omega

theorem resize_eq {length : Nat} {shard : Bytes} (fits : shard.length ≤ length) :
    resize length shard = shard ++ List.replicate (length - shard.length) 0 := by
  rw [resize, List.take_of_length_le fits]

theorem length_resize (length : Nat) (shard : Bytes) : (resize length shard).length = length := by
  unfold resize
  rw [List.length_append, List.length_take, List.length_replicate]
  omega

end Encoder

open Encoder

/-! ### Fragments by name -/

/-- A fragment is named by its packet id and its index in the packet. -/
abbrev FragmentId := Nat × Nat

/-- The shard of a fragment before padding.  Packet ids count from one. -/
def shardOf (datagrams : List Bytes) (fragment : FragmentId) : Option Bytes :=
  if fragment.1 = 0 then none
  else
    (datagrams[fragment.1 - 1]?).bind fun payload =>
      ((datagramChunks payload)[fragment.2]?).map fun chunk =>
        fragmentShard fragment.1 fragment.2 (datagramChunks payload).length chunk

/-- Every fragment of every datagram, in sending order. -/
def fragmentsFrom (first : Nat) (datagrams : List Bytes) : List FragmentId :=
  (datagrams.zipIdx first).flatMap fun entry =>
    (List.range (datagramChunks entry.1).length).map fun index => (entry.2, index)

theorem shardOf_append {datagrams : List Bytes} {fragment : FragmentId} {shard : Bytes}
    (found : shardOf datagrams fragment = some shard) (more : List Bytes) :
    shardOf (datagrams ++ more) fragment = some shard := by
  unfold shardOf at found ⊢
  split at found
  next => cases found
  next positive =>
    rw [if_neg positive]
    cases held : datagrams[fragment.1 - 1]? with
    | none =>
        rw [held] at found
        cases found
    | some payload =>
        rw [held] at found
        rw [List.getElem?_append_left (List.getElem?_eq_some_iff.mp held).1, held]
        exact found

/-- What a fragment's shard looks like. -/
theorem shardOf_spec {datagrams : List Bytes} {fragment : FragmentId} {shard : Bytes}
    (found : shardOf datagrams fragment = some shard) :
    ∃ payload chunk, 0 < fragment.1 ∧ datagrams[fragment.1 - 1]? = some payload ∧
      (datagramChunks payload)[fragment.2]? = some chunk ∧
      shard = fragmentShard fragment.1 fragment.2 (datagramChunks payload).length chunk := by
  unfold shardOf at found
  split at found
  next => cases found
  next positive =>
    obtain ⟨payload, held, rest⟩ := Option.bind_eq_some_iff.mp found
    obtain ⟨chunk, isChunk, isShard⟩ := Option.map_eq_some_iff.mp rest
    exact ⟨payload, chunk, Nat.pos_of_ne_zero positive, held, isChunk, isShard.symm⟩

theorem shardOf_size {datagrams : List Bytes} {fragment : FragmentId} {shard : Bytes}
    (found : shardOf datagrams fragment = some shard) : ShardSize shard := by
  obtain ⟨payload, chunk, _, _, isChunk, rfl⟩ := shardOf_spec found
  have short := length_le_of_mem_datagramChunks (List.mem_of_getElem? isChunk)
  unfold ShardSize
  rw [length_fragmentShard]
  unfold chunkBytes shardBytes fragmentHeader at *
  omega

theorem fragmentsFrom_append (first : Nat) (datagrams : List Bytes) (payload : Bytes) :
    fragmentsFrom first (datagrams ++ [payload]) = fragmentsFrom first datagrams ++
      (List.range (datagramChunks payload).length).map
        (fun index => (first + datagrams.length, index)) := by
  unfold fragmentsFrom
  rw [List.zipIdx_append, List.flatMap_append]
  simp

theorem mem_fragmentsFrom_one {datagrams : List Bytes} {fragment : FragmentId} :
    fragment ∈ fragmentsFrom 1 datagrams ↔ ∃ payload, 0 < fragment.1 ∧
      datagrams[fragment.1 - 1]? = some payload ∧
      fragment.2 < (datagramChunks payload).length := by
  induction datagrams using List.reverseRecOn with
  | nil => simp [fragmentsFrom]
  | append_singleton datagrams payload inductionHypothesis =>
      rw [fragmentsFrom_append, List.mem_append, inductionHypothesis]
      constructor
      · rintro (⟨old, positive, held, below⟩ | isNew)
        · refine ⟨old, positive, ?_, below⟩
          rw [List.getElem?_append_left (List.getElem?_eq_some_iff.mp held).1]
          exact held
        · obtain ⟨index, below, rfl⟩ := List.mem_map.mp isNew
          refine ⟨payload, by dsimp only; omega, ?_, List.mem_range.mp below⟩
          dsimp only
          rw [Nat.add_sub_cancel_left, List.getElem?_concat_length]
      · rintro ⟨found, positive, held, below⟩
        by_cases old : fragment.1 - 1 < datagrams.length
        · left
          refine ⟨found, positive, ?_, below⟩
          rw [← held, List.getElem?_append_left old]
        · right
          have within := (List.getElem?_eq_some_iff.mp held).1
          rw [List.length_append, List.length_singleton] at within
          have isLast : fragment.1 - 1 = datagrams.length := by omega
          rw [isLast, List.getElem?_concat_length] at held
          cases held
          refine List.mem_map.mpr ⟨fragment.2, List.mem_range.mpr below, ?_⟩
          apply Prod.ext
          · dsimp only
            omega
          · rfl

/-- No fragment is listed twice. -/
theorem nodup_fragmentsFrom_one (datagrams : List Bytes) : (fragmentsFrom 1 datagrams).Nodup := by
  induction datagrams using List.reverseRecOn with
  | nil => exact List.nodup_nil
  | append_singleton datagrams payload inductionHypothesis =>
      rw [fragmentsFrom_append]
      refine List.nodup_append.mpr ⟨inductionHypothesis, ?_, ?_⟩
      · exact List.nodup_range.map fun left right same => (Prod.mk.inj same).2
      · intro old isOld new isNew same
        obtain ⟨_, positive, held, _⟩ := mem_fragmentsFrom_one.mp isOld
        have within := (List.getElem?_eq_some_iff.mp held).1
        obtain ⟨index, _, rfl⟩ := List.mem_map.mp isNew
        rw [same] at within positive
        dsimp only at within
        omega

/-! ### Reading a fragment back -/

/-- The header in front of a fragment survives padding. -/
theorem FragmentHeader.read_fragmentShard {packetId index count : Nat} {chunk : Bytes}
    (packetFits : packetId < 2 ^ 64) (indexFits : index < 2 ^ 16) (countFits : count < 2 ^ 16)
    (lengthFits : chunk.length < 2 ^ 16) (padding : Bytes) :
    FragmentHeader.read (fragmentShard packetId index count chunk ++ padding) =
      some ⟨packetId, index, count, chunk.length⟩ := by
  have packetBytes := slice?_block [] (toBeBytes 8 packetId)
    (toBeBytes 2 index ++ (toBeBytes 2 count ++ (toBeBytes 2 chunk.length ++ (chunk ++ padding))))
    (show 0 = _ from rfl) (show 8 = _ by simp [length_toBeBytes])
  have indexBytes := slice?_block (toBeBytes 8 packetId) (toBeBytes 2 index)
    (toBeBytes 2 count ++ (toBeBytes 2 chunk.length ++ (chunk ++ padding)))
    (show 8 = _ by simp [length_toBeBytes]) (show 10 = _ by simp [length_toBeBytes])
  have countBytes := slice?_block (toBeBytes 8 packetId ++ toBeBytes 2 index) (toBeBytes 2 count)
    (toBeBytes 2 chunk.length ++ (chunk ++ padding))
    (show 10 = _ by simp [length_toBeBytes]) (show 12 = _ by simp [length_toBeBytes])
  have lengthBytes := slice?_block
    (toBeBytes 8 packetId ++ (toBeBytes 2 index ++ toBeBytes 2 count)) (toBeBytes 2 chunk.length)
    (chunk ++ padding)
    (show 12 = _ by simp [length_toBeBytes]) (show 14 = _ by simp [length_toBeBytes])
  simp only [List.append_assoc, List.nil_append] at packetBytes indexBytes countBytes lengthBytes
  unfold FragmentHeader.read fragmentShard
  simp only [List.append_assoc]
  rw [packetBytes, indexBytes, countBytes, lengthBytes]
  simp only [Option.bind_eq_bind, Option.bind_some]
  rw [fromBeBytes_toBeBytes (by omega), fromBeBytes_toBeBytes (by omega),
    fromBeBytes_toBeBytes (by omega), fromBeBytes_toBeBytes (by omega)]

theorem slice?_fragmentShard (packetId index count : Nat) (chunk padding : Bytes) :
    slice? (fragmentShard packetId index count chunk ++ padding) 14 (14 + chunk.length) =
      some chunk := by
  have block := slice?_block
    (toBeBytes 8 packetId ++ (toBeBytes 2 index ++ (toBeBytes 2 count ++
      toBeBytes 2 chunk.length))) chunk padding
    (show 14 = _ by simp [length_toBeBytes]) (show 14 + chunk.length = _ by simp [length_toBeBytes])
  simp only [List.append_assoc] at block
  unfold fragmentShard
  simp only [List.append_assoc]
  exact block

end SmartFecTunnel.Fec
