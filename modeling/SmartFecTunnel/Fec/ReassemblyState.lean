import SmartFecTunnel.Fec.GroupState

/-!
Contract: reassembly of fragments and expiry of stored state.

Owns:
- `Reassembly.WellFormed`, the shape of every stored reassembly, kept by
  `fragment` for any shard;
- what `prune` keeps;
- the exact effect of `fragment` on a fragment a sender built, padded or not.
-/

namespace SmartFecTunnel.Fec

open SmartFecTunnel.Library

/-! ### Expiry -/

namespace Decoder

/-- The reassemblies that have not expired. -/
def freshPackets (now : Nat) (packets : Table Nat Reassembly) : Table Nat Reassembly :=
  packets.retain fun _ packet => now - packet.created < reassemblyTtl

/-- The groups that have not expired. -/
def freshGroups (now : Nat) (groups : Table Nat Group) : Table Nat Group :=
  groups.retain fun _ group => now - group.created < groupTtl

private theorem evicted_spec (host : Host) (packets : Table Nat Reassembly)
    (exceeds : maxReassemblies < packets.size) :
    ∃ oldest, evicted host packets = some oldest ∧ oldest.Nodup ∧
      (∀ id ∈ oldest, id ∈ packets) ∧ oldest.length = packets.size - maxReassemblies := by
  have permutation := host.sort_perm (packets.entries.map fun entry => (entry.1, entry.2.created))
  unfold evicted
  generalize host.sortByCreated (packets.entries.map fun entry => (entry.1, entry.2.created)) =
    sorted at *
  have sortedKeys : (sorted.map Prod.fst).Perm packets.keys := by
    have mapped := permutation.map Prod.fst
    simpa [AList.keys, List.keys, Function.comp_def] using mapped
  have taken : List.Sublist ((sorted.take (packets.size - maxReassemblies)).map Prod.fst)
      (sorted.map Prod.fst) :=
    (List.take_sublist _ _).map _
  refine ⟨(sorted.take (packets.size - maxReassemblies)).map Prod.fst, ?_, ?_, ?_, ?_⟩
  · rw [checkedSub, if_pos exceeds.le]
    rfl
  · exact taken.nodup (sortedKeys.nodup_iff.mpr packets.keys_nodup)
  · intro id member
    exact AList.mem_keys.mpr (sortedKeys.mem_iff.mp (taken.subset member))
  · rw [List.length_map, List.length_take, permutation.length_eq, List.length_map]
    exact Nat.min_eq_left (Nat.sub_le _ _)

/-- Pruning never panics.  It keeps the groups that have not expired, and of
the reassemblies that have not expired at most `maxReassemblies`: all of them
when they are no more than that. -/
theorem prune_spec (host : Host) (now : Nat) (decoder : Decoder) :
    ∃ packets,
      decoder.prune host now =
        some { decoder with groups := freshGroups now decoder.groups, packets } ∧
      packets.size ≤ maxReassemblies ∧
      (∀ id packet, packets.lookup id = some packet →
        (freshPackets now decoder.packets).lookup id = some packet) ∧
      ((freshPackets now decoder.packets).size ≤ maxReassemblies →
        packets = freshPackets now decoder.packets) := by
  by_cases exceeds : maxReassemblies < (freshPackets now decoder.packets).size
  · obtain ⟨oldest, isOldest, distinct, present, length⟩ :=
      evicted_spec host (freshPackets now decoder.packets) exceeds
    refine ⟨(freshPackets now decoder.packets).eraseAll oldest, ?_, ?_, ?_, ?_⟩
    · unfold prune
      unfold freshPackets at exceeds isOldest ⊢
      simp [exceeds, isOldest, freshGroups]
    · have shrunk := Table.size_eraseAll distinct present
      omega
    · exact fun id packet found => Table.lookup_of_lookup_eraseAll found
    · intro few
      omega
  · refine ⟨freshPackets now decoder.packets, ?_, by omega, fun _ _ found => found, fun _ => rfl⟩
    unfold prune
    unfold freshPackets at exceeds ⊢
    simp [exceeds, freshGroups]

end Decoder

/-! ### Any fragment -/

namespace Reassembly

/-- The shape of a stored reassembly: at least one part missing, at least one
present. -/
structure WellFormed (packet : Reassembly) : Prop where
  parts_pos : 1 ≤ packet.parts.length
  parts_le : packet.parts.length ≤ 64
  part_size : ∀ part, some part ∈ packet.parts → part.length ≤ chunkBytes
  some_missing : none ∈ packet.parts
  some_present : ∃ part, some part ∈ packet.parts

end Reassembly

namespace Decoder

theorem place_wellFormed (now : Nat) (decoder : Decoder) {header : FragmentHeader} {body : Bytes}
    (countLe : header.count ≤ 64) (indexLt : header.index < header.count)
    (bodySize : body.length ≤ chunkBytes)
    (wellFormed : ∀ id packet, decoder.packets.lookup id = some packet → packet.WellFormed) :
    ∃ packets output,
      decoder.place now header body = some ({ decoder with packets }, output) ∧
      ∀ id packet, packets.lookup id = some packet → packet.WellFormed := by
  have entryCases : (reassemblyFor now decoder.packets header).WellFormed ∨
      reassemblyFor now decoder.packets header = ⟨now, List.replicate header.count none⟩ := by
    unfold reassemblyFor
    cases found : decoder.packets.lookup header.packet with
    | none => exact Or.inr rfl
    | some packet => exact Or.inl (wellFormed _ packet found)
  unfold place
  generalize reassemblyFor now decoder.packets header = entry at *
  have partSize : ∀ part, some part ∈ entry.parts → part.length ≤ chunkBytes := by
    intro part member
    rcases entryCases with shaped | rfl
    · exact shaped.part_size part member
    · simp [List.mem_replicate] at member
  by_cases mismatch : entry.parts.length ≠ header.count
  · -- Only a stored reassembly can disagree about the count.
    refine ⟨decoder.packets.insert header.packet entry, [], by rw [if_pos mismatch], ?_⟩
    intro id packet found
    rcases Table.of_lookup_insert found with ⟨_, rfl⟩ | ⟨_, old⟩
    · rcases entryCases with shaped | rfl
      · exact shaped
      · simp at mismatch
    · exact wellFormed id packet old
  · rw [if_neg mismatch]
    have inParts : header.index < entry.parts.length := by omega
    rw [if_pos inParts]
    by_cases complete : (entry.parts.set header.index (some body)).all Option.isSome
    · refine ⟨decoder.packets.erase header.packet, _, by rw [if_pos complete], ?_⟩
      exact fun id packet found => wellFormed id packet (Table.of_lookup_erase found).2
    · refine ⟨decoder.packets.insert header.packet
        { entry with parts := entry.parts.set header.index (some body) }, [],
        by rw [if_neg complete], ?_⟩
      intro id packet found
      rcases Table.of_lookup_insert found with ⟨_, rfl⟩ | ⟨_, old⟩
      · refine ⟨by rw [List.length_set]; omega, by rw [List.length_set]; omega, ?_, ?_, ?_⟩
        · intro part member
          rcases List.mem_or_eq_of_mem_set member with old | new
          · exact partSize part old
          · cases new
            exact bodySize
        · simp only [List.all_eq_true, not_forall] at complete
          obtain ⟨slot, member, empty⟩ := complete
          cases slot with
          | none => exact member
          | some part => simp at empty
        · exact ⟨body, List.mem_set inParts _⟩
      · exact wellFormed id packet old

/-- `fragment` never panics and keeps the shape of every reassembly. -/
theorem fragment_wellFormed (now : Nat) (decoder : Decoder) (shard : Bytes)
    (wellFormed : ∀ id packet, decoder.packets.lookup id = some packet → packet.WellFormed) :
    ∃ packets output,
      decoder.fragment now shard = some ({ decoder with packets }, output) ∧
      ∀ id packet, packets.lookup id = some packet → packet.WellFormed := by
  unfold fragment
  by_cases size : shard.length < fragmentHeader ∨ shardBytes < shard.length
  · exact ⟨decoder.packets, [], by rw [if_pos size], wellFormed⟩
  · rw [if_neg size]
    have long : 14 ≤ shard.length := by
      unfold fragmentHeader at size
      omega
    obtain ⟨header, isHeader⟩ : ∃ header, FragmentHeader.read shard = some header := by
      unfold FragmentHeader.read
      rw [slice?_of_le (by omega) (by omega), slice?_of_le (by omega) (by omega),
        slice?_of_le (by omega) (by omega), slice?_of_le (by omega) (by omega)]
      exact ⟨_, rfl⟩
    rw [isHeader]
    simp only [Option.bind_eq_bind, Option.bind_some]
    by_cases valid : header.Valid shard.length
    · obtain ⟨countPos, countLe, indexLt, lengthLe, fits⟩ := valid
      have within : 14 + header.length ≤ shard.length := by
        unfold fragmentHeader at fits
        exact fits
      rw [if_pos ⟨countPos, countLe, indexLt, lengthLe, fits⟩,
        slice?_of_le (by omega) within, Option.bind_some]
      apply place_wellFormed now decoder countLe indexLt _ wellFormed
      rw [List.length_drop, List.length_take]
      omega
    · exact ⟨decoder.packets, [], by rw [if_neg valid], wellFormed⟩

theorem fragments_wellFormed (host : Host) (reading : Nat) (decoder : Decoder)
    (shards : List Bytes)
    (wellFormed : ∀ id packet, decoder.packets.lookup id = some packet → packet.WellFormed) :
    ∃ packets output,
      decoder.fragments host reading shards = some ({ decoder with packets }, output) ∧
      ∀ id packet, packets.lookup id = some packet → packet.WellFormed := by
  induction shards generalizing reading decoder with
  | nil => exact ⟨decoder.packets, [], rfl, wellFormed⟩
  | cons shard rest inductionHypothesis =>
      obtain ⟨middle, first, isFirst, middleWellFormed⟩ :=
        fragment_wellFormed (host.now reading) decoder shard wellFormed
      obtain ⟨last, more, isMore, lastWellFormed⟩ :=
        inductionHypothesis (reading + 1) { decoder with packets := middle } middleWellFormed
      exact ⟨last, first ++ more, by rw [fragments, isFirst]; simp [isMore], lastWellFormed⟩

end Decoder

end SmartFecTunnel.Fec
