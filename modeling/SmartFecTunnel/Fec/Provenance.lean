import SmartFecTunnel.Fec.DecoderSafety
import SmartFecTunnel.Fec.HonestReceiver

/-!
Contract: where the output of a decoder comes from, for frames with arbitrary
fields.

A source shard reaches the reassembly in one of two ways.  A group without
redundancy hands over the shard of the frame that arrived.  A redundant group
hands over the source shards that have become available, received or
recovered, each from its place in the group.

Owns:
- `releases`, the shards that a frame makes a decoder hand over, with their
  sources;
- `Assembled`: what is output is put together of shards that were handed over,
  and no shard is used twice;
- `Accounts.frame`: a source is used once, as long as no redundant group is
  opened again.

Does not own: what the shards of an honest sender hold.
-/

namespace SmartFecTunnel.Fec

open SmartFecTunnel.Library

/-! ### What a group hands over -/

namespace Group

/-- What `accept` hands over, with the places of the shards. -/
def handOver (rs : ReedSolomon) (group : Group) (position : Nat) (payload : Bytes) :
    List (Nat × Bytes) :=
  match group.store position payload with
  | none => []
  | some (stored, immediate) =>
    let direct := immediate.toList.map fun shard => (position, shard)
    if stored.NeedsRecovery then
      match stored.recover rs with
      | some (_, .ok recovered) => direct ++ stored.missing.zip recovered
      | _ => []
    else direct

/-- The effect of any admissible shard on its group: the places it hands over
were empty before and are filled now. -/
structure HandsOver (group : Group) (position : Nat) (places : List Nat) (next : Group) : Prop where
  wellFormed : next.WellFormed
  parity : next.parity = group.parity
  grows : ∀ index, Filled group.shards index → Filled next.shards index
  distinct : places.Nodup
  opened : ∀ index ∈ places, ¬ Filled group.shards index ∧ Filled next.shards index
  plain : group.parity = 0 → ∀ index ∈ places, index = position

theorem HandsOver.nothing {group : Group} (wellFormed : group.WellFormed) (position : Nat) :
    HandsOver group position [] group where
  wellFormed := wellFormed
  parity := rfl
  grows := fun _ filled => filled
  distinct := List.nodup_nil
  opened := fun _ member => absurd member List.not_mem_nil
  plain := fun _ _ member => absurd member List.not_mem_nil

/-- Storing a shard in an empty slot. -/
theorem HandsOver.filled {group : Group} (wellFormed : group.WellFormed) {position : Nat}
    (inRange : position < group.data + group.parity) {payload : Bytes} (size : ShardSize payload)
    (empty : ¬ Filled group.shards position) :
    HandsOver group position (immediate group position) (group.filled position payload) := by
  have inShards : position < group.shards.length := by
    rw [wellFormed.shards_length]
    exact inRange
  have shards : (group.filled position payload).shards =
      group.shards.set position (some payload) := rfl
  refine ⟨filled_wellFormed wellFormed inRange size, rfl, ?_, nodup_immediate group position, ?_, ?_⟩
  · intro index held
    rw [shards, filled_set inShards]
    exact Or.inr held
  · intro index member
    obtain ⟨rfl, _⟩ := mem_immediate.mp member
    rw [shards, filled_set inShards]
    exact ⟨empty, Or.inl rfl⟩
  · intro _ index member
    exact (mem_immediate.mp member).1

/-- Completing the group after a shard was stored. -/
theorem HandsOver.completed {group stored : Group} {position : Nat} {places : List Nat}
    (direct : HandsOver group position places stored) (needs : stored.NeedsRecovery)
    {full : List Bytes} (length : full.length = stored.data + stored.parity)
    (complete : (stored.completed full).WellFormed) :
    HandsOver group position (places ++ stored.missing) (stored.completed full) := by
  have everywhere : ∀ index, index < stored.data + stored.parity →
      Filled (stored.completed full).shards index := by
    intro index below
    have inFull : index < full.length := by omega
    exact ⟨full[index], by simp [Group.completed, inFull]⟩
  have inStored : ∀ index, Filled stored.shards index → index < stored.data + stored.parity := by
    rintro index ⟨shard, held⟩
    rw [← direct.wellFormed.shards_length]
    exact (List.getElem?_eq_some_iff.mp held).1
  refine ⟨complete, direct.parity, ?_, ?_, ?_, ?_⟩
  · exact fun index held => everywhere index (inStored index (direct.grows index held))
  · refine List.nodup_append.mpr ⟨direct.distinct, List.nodup_range.filter _, ?_⟩
    rintro index inDirect _ inMissing rfl
    exact ((direct.wellFormed.mem_missing_iff index).mp inMissing).2 (direct.opened index inDirect).2
  · intro index member
    rcases List.mem_append.mp member with inDirect | inMissing
    · obtain ⟨empty, isFilled⟩ := direct.opened index inDirect
      exact ⟨empty, everywhere index (inStored index isFilled)⟩
    · obtain ⟨below, empty⟩ := (direct.wellFormed.mem_missing_iff index).mp inMissing
      exact ⟨fun held => empty (direct.grows index held), everywhere index (by omega)⟩
  · intro plain
    have redundant := needs.1
    rw [direct.parity, plain] at redundant
    exact absurd redundant (Nat.lt_irrefl 0)

/-- `recover_cases` with the length of the completed group. -/
theorem recover_length (rs : ReedSolomon) {group : Group} (wellFormed : group.WellFormed)
    (needs : group.NeedsRecovery) :
    group.recover rs = some (group, .error .reedSolomon) ∨
    ∃ full, full.length = group.data + group.parity ∧
      group.recover rs =
        some (group.completed full, .ok (group.missing.filterMap fun index => full[index]?)) ∧
      (group.completed full).WellFormed := by
  rcases recover_cases rs wellFormed needs with failed | ⟨full, recovered, complete⟩
  · exact Or.inl failed
  · refine Or.inr ⟨full, ?_, recovered, complete⟩
    have length := complete.shards_length
    rw [Group.completed, List.length_map] at length
    exact length

theorem zip_filterMap_getElem? {places : List Nat} {full : List Bytes}
    (within : ∀ index ∈ places, index < full.length) :
    (places.zip (places.filterMap fun index => full[index]?)).map Prod.snd =
        places.filterMap (fun index => full[index]?) ∧
      (places.zip (places.filterMap fun index => full[index]?)).map Prod.fst = places := by
  induction places with
  | nil => exact ⟨rfl, rfl⟩
  | cons index rest inductionHypothesis =>
      have below := within index List.mem_cons_self
      obtain ⟨shards, same⟩ := inductionHypothesis fun other member =>
        within other (List.mem_cons_of_mem index member)
      rw [List.filterMap_cons_some (List.getElem?_eq_getElem below), List.zip_cons_cons]
      exact ⟨congrArg _ shards, congrArg _ same⟩

/-- Any admissible shard: `handOver` lists what `accept` hands over. -/
theorem accept_handsOver (rs : ReedSolomon) {group next : Group} {position : Nat} {payload : Bytes}
    {result : Except FrameError (List Bytes)} (wellFormed : group.WellFormed)
    (inRange : position < group.data + group.parity) (size : ShardSize payload)
    (accepted : group.accept rs position payload = some (next, result)) :
    HandsOver group position ((group.handOver rs position payload).map Prod.fst) next ∧
      (group.handOver rs position payload).map Prod.snd = result.toOption.getD [] := by
  have inShards : position < group.shards.length := by
    rw [wellFormed.shards_length]
    exact inRange
  -- What storing alone hands over.
  obtain ⟨stored, immediate, places, isStored, isDirect, direct⟩ :
      ∃ stored immediate places, group.store position payload = some (stored, immediate) ∧
        (immediate.toList.map fun shard => (position, shard)).map Prod.fst = places ∧
        HandsOver group position places stored := by
    by_cases taken : Filled group.shards position
    · obtain ⟨held, isHeld⟩ := taken
      exact ⟨group, none, [], store_taken wellFormed isHeld payload, rfl, .nothing wellFormed _⟩
    · refine ⟨_, _, immediate group position,
        store_empty wellFormed ((not_filled_iff inShards).mp taken) payload, ?_,
        .filled wellFormed inRange size taken⟩
      unfold immediate
      split <;> rfl
  have isShards : (immediate.toList.map fun shard => (position, shard)).map Prod.snd =
      immediate.toList := by
    cases immediate <;> rfl
  unfold accept at accepted
  unfold handOver
  rw [isStored] at accepted ⊢
  simp only [Option.bind_eq_bind, Option.bind_some] at accepted
  dsimp only
  by_cases needs : stored.NeedsRecovery
  · rw [if_pos needs] at accepted ⊢
    rcases recover_length rs direct.wellFormed needs with failed | ⟨full, length, recovered, complete⟩
    · rw [failed] at accepted ⊢
      cases accepted
      refine ⟨⟨direct.wellFormed, direct.parity, direct.grows, ?_, ?_, ?_⟩, rfl⟩
      · exact List.nodup_nil
      · exact fun index member => absurd member List.not_mem_nil
      · exact fun _ index member => absurd member List.not_mem_nil
    · rw [recovered] at accepted ⊢
      cases accepted
      have within : ∀ index ∈ stored.missing, index < full.length := by
        intro index member
        have below := ((direct.wellFormed.mem_missing_iff index).mp member).1
        omega
      obtain ⟨shards, same⟩ := zip_filterMap_getElem? within
      rw [List.map_append, List.map_append, isDirect, isShards, shards, same]
      exact ⟨direct.completed needs length complete, rfl⟩
  · rw [if_neg needs] at accepted ⊢
    cases accepted
    rw [isDirect, isShards]
    exact ⟨direct, rfl⟩

end Group

/-! ### What an output is put together of -/

/-- The fragment that a shard carries, if `fragment` takes it. -/
def fragmentOf (shard : Bytes) : Option (FragmentHeader × Bytes) :=
  if shard.length < fragmentHeader ∨ shardBytes < shard.length then none
  else (FragmentHeader.read shard).bind fun header =>
    if header.Valid shard.length then
      (slice? shard 14 (14 + header.length)).map fun body => (header, body)
    else none

/-- The shards carry all fragments of one packet in order, and the datagram is
what they carry. -/
def IsDatagram (shards : List Bytes) (datagram : Bytes) : Prop :=
  shards ≠ [] ∧ ∃ (packet : Nat) (bodies : List Bytes), datagram = bodies.flatten ∧ bodies.length = shards.length ∧
    ∀ index shard, shards[index]? = some shard → ∃ header body,
      fragmentOf shard = some (header, body) ∧ header.packet = packet ∧ header.index = index ∧
        header.count = shards.length ∧ bodies[index]? = some body

/-- The datagram is put together of the shards at these positions. -/
def MadeOf (shards : List Bytes) (positions : List Nat) (datagram : Bytes) : Prop :=
  ∃ used, positions.map (fun position => shards[position]?) = used.map some ∧
    IsDatagram used datagram

/-- Every datagram is put together of shards of the list, and no shard is used
for two of them, or for one of them twice. -/
def Assembled (shards datagrams : List Bytes) : Prop :=
  ∃ uses : List (List Nat), uses.flatten.Nodup ∧ List.Forall₂ (MadeOf shards) uses datagrams

theorem MadeOf.mono {shards : List Bytes} {positions : List Nat} {datagram : Bytes}
    (made : MadeOf shards positions datagram) (more : List Bytes) :
    MadeOf (shards ++ more) positions datagram := by
  obtain ⟨used, isUsed, isDatagram⟩ := made
  refine ⟨used, ?_, isDatagram⟩
  rw [← isUsed]
  apply List.map_congr_left
  intro position member
  have inUsed : shards[position]? ∈ used.map some := by
    rw [← isUsed]
    exact List.mem_map_of_mem member
  obtain ⟨shard, _, isShard⟩ := List.mem_map.mp inUsed
  rw [← isShard]
  exact List.getElem?_append_left (List.getElem?_eq_some_iff.mp isShard.symm).1 ▸ isShard.symm

theorem MadeOf.lt {shards : List Bytes} {positions : List Nat} {datagram : Bytes}
    (made : MadeOf shards positions datagram) : ∀ position ∈ positions, position < shards.length := by
  obtain ⟨used, isUsed, _⟩ := made
  intro position member
  have inUsed : shards[position]? ∈ used.map some := by
    rw [← isUsed]
    exact List.mem_map_of_mem member
  obtain ⟨shard, _, isShard⟩ := List.mem_map.mp inUsed
  exact (List.getElem?_eq_some_iff.mp isShard.symm).1

theorem lt_of_uses {shards datagrams : List Bytes} {uses : List (List Nat)}
    (made : List.Forall₂ (MadeOf shards) uses datagrams) :
    ∀ position ∈ uses.flatten, position < shards.length := by
  induction made with
  | nil => exact fun _ member => absurd member List.not_mem_nil
  | cons first _ inductionHypothesis =>
      intro position member
      rw [List.flatten_cons] at member
      rcases List.mem_append.mp member with inFirst | inRest
      · exact first.lt position inFirst
      · exact inductionHypothesis position inRest

/-- The shard at a position carries this part of a packet of so many parts. -/
def Carries (shards : List Bytes) (position packet index count : Nat) (body : Bytes) : Prop :=
  ∃ shard header, shards[position]? = some shard ∧ fragmentOf shard = some (header, body) ∧
    header.packet = packet ∧ header.index = index ∧ header.count = count

/-- The datagrams are `Assembled`, and each part that a reassembly holds comes from a
shard that none of them uses. -/
def Assembling (shards datagrams : List Bytes) (packets : Table Nat Reassembly) : Prop :=
  ∃ (uses : List (List Nat)) (owner : Nat → Nat → Nat), uses.flatten.Nodup ∧
    List.Forall₂ (MadeOf shards) uses datagrams ∧
    ∀ id packet index body, packets.lookup id = some packet →
      packet.parts[index]? = some (some body) →
      owner id index ∉ uses.flatten ∧
        Carries shards (owner id index) id index packet.parts.length body

namespace Assembling

variable {shards datagrams : List Bytes} {packets : Table Nat Reassembly}

theorem empty : Assembling [] [] ∅ :=
  ⟨[], fun _ _ => 0, List.nodup_nil, List.Forall₂.nil, by intro id packet index body found; cases found⟩

theorem assembled (assembling : Assembling shards datagrams packets) :
    Assembled shards datagrams := by
  obtain ⟨uses, _, distinct, made, _⟩ := assembling
  exact ⟨uses, distinct, made⟩

/-- Reassemblies may go. -/
theorem of_lookup (assembling : Assembling shards datagrams packets) {fewer : Table Nat Reassembly}
    (kept : ∀ id packet, fewer.lookup id = some packet → packets.lookup id = some packet) :
    Assembling shards datagrams fewer := by
  obtain ⟨uses, owner, distinct, made, held⟩ := assembling
  exact ⟨uses, owner, distinct, made, fun id packet index body found =>
    held id packet index body (kept id packet found)⟩

end Assembling

theorem Carries.mono {shards : List Bytes} {position packet index count : Nat} {body : Bytes}
    (carries : Carries shards position packet index count body) (more : List Bytes) :
    Carries (shards ++ more) position packet index count body := by
  obtain ⟨shard, header, found, rest⟩ := carries
  refine ⟨shard, header, ?_, rest⟩
  rw [List.getElem?_append_left (List.getElem?_eq_some_iff.mp found).1]
  exact found

/-- A position carries one part only. -/
theorem Carries.unique {shards : List Bytes} {position packet index count : Nat} {body : Bytes}
    {otherPacket otherIndex otherCount : Nat} {otherBody : Bytes}
    (carries : Carries shards position packet index count body)
    (other : Carries shards position otherPacket otherIndex otherCount otherBody) :
    packet = otherPacket ∧ index = otherIndex := by
  obtain ⟨shard, header, found, read, rfl, rfl, _⟩ := carries
  obtain ⟨_, _, isFound, isRead, rfl, rfl, _⟩ := other
  cases found.symm.trans isFound
  cases read.symm.trans isRead
  exact ⟨rfl, rfl⟩

/-- Slots that are all filled hold the parts of one packet: what they hold is a
datagram made of the shards that carry them. -/
theorem madeOf_of_carries {shards : List Bytes} {slots : List (Option Bytes)} {packet : Nat}
    {position : Nat → Nat} (some_slot : 0 < slots.length) (all : slots.all Option.isSome)
    (carries : ∀ index body, slots[index]? = some (some body) →
      Carries shards (position index) packet index slots.length body) :
    MadeOf shards ((List.range slots.length).map position) slots.reduceOption.flatten := by
  have some_of : ∀ index, index < slots.length → ∃ body shard, slots[index]? = some (some body) ∧
      shards[position index]? = some shard ∧ ∃ header, fragmentOf shard = some (header, body) ∧
        header.packet = packet ∧ header.index = index ∧ header.count = slots.length := by
    intro index below
    obtain ⟨body, held⟩ := (Decoder.all_isSome_iff slots).mp all index below
    obtain ⟨shard, header, found, read⟩ := carries index body held
    exact ⟨body, shard, held, found, header, read⟩
  refine ⟨(List.range slots.length).map fun index => (shards[position index]?).getD [], ?_, ?_, ?_⟩
  · rw [List.map_map, List.map_map]
    apply List.map_congr_left
    intro index member
    obtain ⟨_, shard, _, found, _⟩ := some_of index (List.mem_range.mp member)
    simp [found]
  · rw [← List.length_pos_iff, List.length_map, List.length_range]
    exact some_slot
  · have full : slots.reduceOption = slots.map fun slot => slot.getD [] := by
      apply Decoder.reduceOption_of_agrees _ (List.length_map _).symm all
      intro index body held
      rw [List.getElem?_map, held]
      rfl
    refine ⟨packet, slots.reduceOption, rfl, ?_, ?_⟩
    · rw [full, List.length_map, List.length_map, List.length_range]
    · intro index shard isShard
      have below : index < slots.length := by
        have within := (List.getElem?_eq_some_iff.mp isShard).1
        rwa [List.length_map, List.length_range] at within
      obtain ⟨body, used, held, found, header, read, isPacket, isIndex, isCount⟩ :=
        some_of index below
      have same : used = shard := by
        rw [List.getElem?_map, List.getElem?_range below, Option.map_some, found,
          Option.getD_some] at isShard
        exact Option.some.inj isShard
      refine ⟨header, body, same ▸ read, isPacket, isIndex, ?_, ?_⟩
      · rw [List.length_map, List.length_range]
        exact isCount
      · rw [full, List.getElem?_map, held]
        rfl

/-- What `fragment` does with a shard: nothing, or it puts the part in its place. -/
theorem Decoder.fragment_cases {now : Nat} {decoder next : Decoder} {shard : Bytes}
    {output : List Bytes} (stepped : decoder.fragment now shard = some (next, output)) :
    (next = decoder ∧ output = []) ∨
      ∃ header body, fragmentOf shard = some (header, body) ∧
        decoder.place now header body = some (next, output) := by
  unfold Decoder.fragment at stepped
  unfold fragmentOf
  split at stepped
  next =>
    cases stepped
    exact Or.inl ⟨rfl, rfl⟩
  next sized =>
    rw [if_neg sized]
    obtain ⟨header, isHeader, isRest⟩ := Option.bind_eq_some_iff.mp stepped
    rw [isHeader, Option.bind_some]
    split at isRest
    next valid =>
      obtain ⟨body, isBody, placed⟩ := Option.bind_eq_some_iff.mp isRest
      rw [if_pos valid, isBody]
      exact Or.inr ⟨header, body, rfl, placed⟩
    next =>
      cases isRest
      exact Or.inl ⟨rfl, rfl⟩

namespace Assembling

variable {shards datagrams : List Bytes} {packets : Table Nat Reassembly}

/-- Shards that nothing is made of. -/
theorem ignored (assembling : Assembling shards datagrams packets) (more : List Bytes) :
    Assembling (shards ++ more) datagrams packets := by
  obtain ⟨uses, owner, distinct, made, held⟩ := assembling
  refine ⟨uses, owner, distinct, made.imp fun _ _ use => use.mono more, ?_⟩
  intro id packet index body found isPart
  obtain ⟨unused, carries⟩ := held id packet index body found isPart
  exact ⟨unused, carries.mono more⟩

/-- The shards of a complete packet make one more use. -/
theorem nodup_use {slots : List (Option Bytes)} {packet : Nat} {position : Nat → Nat}
    {uses : List (List Nat)} (distinct : uses.flatten.Nodup) (all : slots.all Option.isSome)
    (held : ∀ index body, slots[index]? = some (some body) → position index ∉ uses.flatten ∧
      Carries shards (position index) packet index slots.length body) :
    (uses ++ [(List.range slots.length).map position]).flatten.Nodup := by
  have slot : ∀ index ∈ List.range slots.length, ∃ body, slots[index]? = some (some body) :=
    fun index member => (Decoder.all_isSome_iff slots).mp all index (List.mem_range.mp member)
  rw [List.flatten_append, List.flatten_singleton, List.nodup_append]
  refine ⟨distinct, ?_, ?_⟩
  · apply List.nodup_range.map_on
    intro left inLeft right inRight same
    obtain ⟨leftBody, isLeft⟩ := slot left inLeft
    obtain ⟨rightBody, isRight⟩ := slot right inRight
    have atRight := (held right rightBody isRight).2
    rw [← same] at atRight
    exact ((held left leftBody isLeft).2.unique atRight).2
  · rintro position' inUses _ inUse rfl
    obtain ⟨index, inSlots, rfl⟩ := List.mem_map.mp inUse
    obtain ⟨body, isSlot⟩ := slot index inSlots
    exact (held index body isSlot).1 inUses

/-- One part is put in its place. -/
theorem place {decoder next : Decoder} (assembling : Assembling shards datagrams decoder.packets)
    {now : Nat} {shard : Bytes} {header : FragmentHeader} {body : Bytes} {output : List Bytes}
    (read : fragmentOf shard = some (header, body))
    (placed : decoder.place now header body = some (next, output)) :
    Assembling (shards ++ [shard]) (datagrams ++ output) next.packets := by
  obtain ⟨uses, owner, distinct, made, held⟩ := assembling
  have isNew : shards.length ∉ uses.flatten := fun member =>
    Nat.lt_irrefl _ (lt_of_uses made shards.length member)
  have made : List.Forall₂ (MadeOf (shards ++ [shard])) uses datagrams :=
    made.imp fun _ _ use => use.mono [shard]
  have held : ∀ id packet index part, decoder.packets.lookup id = some packet →
      packet.parts[index]? = some (some part) → owner id index ∉ uses.flatten ∧
        Carries (shards ++ [shard]) (owner id index) id index packet.parts.length part := by
    intro id packet index part found isPart
    obtain ⟨unused, carries⟩ := held id packet index part found isPart
    exact ⟨unused, carries.mono [shard]⟩
  have heldEntry : ∀ index part,
      (Decoder.reassemblyFor now decoder.packets header).parts[index]? = some (some part) →
      owner header.packet index ∉ uses.flatten ∧
        Carries (shards ++ [shard]) (owner header.packet index) header.packet index
          (Decoder.reassemblyFor now decoder.packets header).parts.length part := by
    unfold Decoder.reassemblyFor
    cases found : decoder.packets.lookup header.packet with
    | none =>
        intro index part isPart
        rw [Option.getD_none, List.getElem?_replicate] at isPart
        split at isPart <;> cases isPart
    | some entry => exact fun index part isPart => held header.packet entry index part found isPart
  unfold Decoder.place at placed
  generalize Decoder.reassemblyFor now decoder.packets header = entry at *
  dsimp only at placed
  split at placed
  next =>
    cases placed
    rw [List.append_nil]
    refine ⟨uses, owner, distinct, made, ?_⟩
    intro id packet index part found isPart
    rcases Table.of_lookup_insert found with ⟨rfl, rfl⟩ | ⟨_, old⟩
    · exact heldEntry index part isPart
    · exact held id packet index part old isPart
  next sameCount =>
    split at placed
    next inParts =>
      -- The part that arrived comes from the new shard, every other one from where it came before.
      obtain ⟨owner', isOwner⟩ : ∃ owner' : Nat → Nat, ∀ index, owner' index =
          if index = header.index then shards.length else owner header.packet index :=
        ⟨_, fun _ => rfl⟩
      have heldSlot : ∀ index part,
          (entry.parts.set header.index (some body))[index]? = some (some part) →
          owner' index ∉ uses.flatten ∧
            Carries (shards ++ [shard]) (owner' index) header.packet index entry.parts.length
              part := by
        intro index part isPart
        by_cases same : index = header.index
        · rw [same, List.getElem?_set_self inParts] at isPart
          cases isPart
          rw [isOwner, if_pos same]
          refine ⟨isNew, shard, header, List.getElem?_concat_length, read, rfl, same.symm, ?_⟩
          exact (not_not.mp sameCount).symm
        · rw [List.getElem?_set_ne (Ne.symm same)] at isPart
          rw [isOwner, if_neg same]
          exact heldEntry index part isPart
      split at placed
      next complete =>
        cases placed
        have long : (entry.parts.set header.index (some body)).length = entry.parts.length :=
          List.length_set
        rw [← long] at heldSlot
        have positive : 0 < (entry.parts.set header.index (some body)).length := by omega
        refine ⟨uses ++ [(List.range (entry.parts.set header.index (some body)).length).map owner'],
          owner, nodup_use distinct complete heldSlot,
          List.rel_append made (.cons (madeOf_of_carries positive complete fun index part isPart =>
            (heldSlot index part isPart).2) .nil), ?_⟩
        intro id packet index part found isPart
        obtain ⟨different, old⟩ := Table.of_lookup_erase found
        obtain ⟨unused, carries⟩ := held id packet index part old isPart
        refine ⟨?_, carries⟩
        rw [List.flatten_append, List.flatten_singleton, List.mem_append]
        rintro (inUses | inUse)
        · exact unused inUses
        · obtain ⟨slot, inSlots, same⟩ := List.mem_map.mp inUse
          obtain ⟨held, isHeld⟩ :=
            (Decoder.all_isSome_iff _).mp complete slot (List.mem_range.mp inSlots)
          have atSlot := (heldSlot slot held isHeld).2
          rw [same] at atSlot
          exact different (carries.unique atSlot).1
      next =>
        cases placed
        rw [List.append_nil]
        refine ⟨uses, fun id index => if id = header.packet then owner' index else owner id index,
          distinct, made, ?_⟩
        intro id packet index part found isPart
        rcases Table.of_lookup_insert found with ⟨rfl, rfl⟩ | ⟨different, old⟩
        · dsimp only at isPart ⊢
          rw [if_pos rfl, List.length_set]
          exact heldSlot index part isPart
        · dsimp only
          rw [if_neg different]
          exact held id packet index part old isPart
    next => cases placed

theorem fragment {decoder next : Decoder} (assembling : Assembling shards datagrams decoder.packets)
    {now : Nat} {shard : Bytes} {output : List Bytes}
    (stepped : decoder.fragment now shard = some (next, output)) :
    Assembling (shards ++ [shard]) (datagrams ++ output) next.packets := by
  rcases Decoder.fragment_cases stepped with ⟨rfl, rfl⟩ | ⟨header, body, read, placed⟩
  · rw [List.append_nil]
    exact assembling.ignored [shard]
  · exact assembling.place read placed

theorem fragments {host : Host} {reading : Nat} {decoder next : Decoder}
    (assembling : Assembling shards datagrams decoder.packets) {more output : List Bytes}
    (stepped : decoder.fragments host reading more = some (next, output)) :
    Assembling (shards ++ more) (datagrams ++ output) next.packets := by
  induction more generalizing shards datagrams decoder reading output with
  | nil =>
      cases stepped
      rw [List.append_nil, List.append_nil]
      exact assembling
  | cons shard rest inductionHypothesis =>
      obtain ⟨⟨middle, first⟩, isFirst, isRest⟩ := Option.bind_eq_some_iff.mp stepped
      obtain ⟨⟨last, later⟩, isLast, isOutput⟩ := Option.bind_eq_some_iff.mp isRest
      cases isOutput
      have whole := inductionHypothesis (assembling.fragment isFirst) isLast
      rw [List.append_assoc, List.append_assoc] at whole
      exact whole

end Assembling

/-! ### What a frame makes a decoder hand over -/

/-- Where a shard comes from: the frame that carried it or, with redundancy, its
place in its group, whether it arrived or was recovered. -/
inductive Source where
  | frame (sequence : Nat)
  | place (group index : Nat)
deriving DecidableEq, Repr

structure Release where
  source : Source
  shard : Bytes
deriving DecidableEq, Repr

/-- What the frame makes its group hand over from this place. -/
def Frame.source (frame : Frame) (index : Nat) : Source :=
  if frame.parity = 0 then .frame frame.sequence else .place frame.group index

namespace Decoder

/-- The group that takes the shard of a frame: the frame is a new shard of the
session, and the group has these dimensions, or there is room for a new one. -/
def taking (host : Host) (decoder : Decoder) (frame : Frame) : Option Group :=
  let groups := freshGroups (host.now 0) decoder.groups
  let group := (groups.lookup frame.group).getD
    (Group.fresh (host.now 1) frame.data frame.parity)
  if decoder.session = frame.session ∧ (decoder.observeSeq frame.sequence).2 = true ∧
      frame.IsShard ∧ Admissible frame ∧ (frame.group ∈ groups ∨ groups.size < maxGroups) ∧
      group.data = frame.data ∧ group.parity = frame.parity then some group
  else none

/-- The shards that a frame makes the decoder hand over to the reassembly. -/
def releases (rs : ReedSolomon) (host : Host) (decoder : Decoder) (frame : Frame) :
    List Release :=
  match decoder.taking host frame with
  | none => []
  | some group =>
    (group.handOver rs frame.index frame.payload).map fun handed =>
      ⟨frame.source handed.1, handed.2⟩

theorem taking_eq_some {host : Host} {decoder : Decoder} {frame : Frame} {group : Group}
    (taken : decoder.taking host frame = some group) :
    (decoder.observeSeq frame.sequence).2 = true ∧ Admissible frame ∧
      group = ((freshGroups (host.now 0) decoder.groups).lookup frame.group).getD
        (Group.fresh (host.now 1) frame.data frame.parity) ∧
      group.data = frame.data ∧ group.parity = frame.parity := by
  unfold taking at taken
  dsimp only at taken
  split at taken
  next all =>
    cases taken
    exact ⟨all.2.1, all.2.2.2.1, rfl, all.2.2.2.2.2⟩
  next => cases taken

/-- What a frame does to the stores of a decoder and what it outputs. -/
structure Handles (rs : ReedSolomon) (host : Host) (decoder : Decoder) (frame : Frame)
    (next : Decoder) (output : List Bytes) : Prop where
  safe : next.Safe
  assembled : ∃ before after : Decoder, before.fragments host 2
      ((decoder.releases rs host frame).map Release.shard) = some (after, output) ∧
    (∀ id packet, before.packets.lookup id = some packet →
      decoder.packets.lookup id = some packet) ∧
    ∀ id packet, next.packets.lookup id = some packet → after.packets.lookup id = some packet
  taken : ∀ group, decoder.taking host frame = some group → ∃ after,
    group.HandsOver frame.index ((group.handOver rs frame.index frame.payload).map Prod.fst) after ∧
      ∀ stored, next.groups.lookup frame.group = some stored → stored = after
  kept : ∀ id stored, next.groups.lookup id = some stored →
    (id = frame.group → decoder.taking host frame = none) →
    decoder.groups.lookup id = some stored

/-- A frame that no group takes: stored state may expire, and nothing else changes. -/
theorem Handles.refused {rs : ReedSolomon} {host : Host} {decoder next : Decoder} {frame : Frame}
    (safe : next.Safe) (notTaken : decoder.taking host frame = none)
    (packets : ∀ id packet, next.packets.lookup id = some packet →
      decoder.packets.lookup id = some packet)
    (groups : ∀ id group, next.groups.lookup id = some group →
      decoder.groups.lookup id = some group) : Handles rs host decoder frame next [] where
  safe := safe
  assembled := by
    refine ⟨decoder, decoder, ?_, fun _ _ found => found, packets⟩
    unfold releases
    rw [notTaken]
    rfl
  taken := by
    intro group isTaken
    cases notTaken.symm.trans isTaken
  kept := fun id stored found _ => groups id stored found

theorem Handles.of_sameStores {rs : ReedSolomon} {host : Host} {decoder next : Decoder}
    {frame : Frame} (safe : decoder.Safe) (same : SameStores next decoder)
    (notTaken : decoder.taking host frame = none) : Handles rs host decoder frame next [] := by
  refine .refused (safe.of_sameStores same) notTaken ?_ ?_
  · intro id packet found
    rw [← same.packets]
    exact found
  · intro id group found
    rw [← same.groups]
    exact found

/-- `storeShard` on the groups that have not expired. -/
theorem storeShard_handsOver {rs : ReedSolomon} {host : Host} {decoder pruned stored : Decoder}
    {frame : Frame} {result : Except FrameError (List Bytes)}
    (groups : pruned.groups = freshGroups (host.now 0) decoder.groups) (safe : pruned.Safe)
    (session : decoder.session = frame.session)
    (fresh : (decoder.observeSeq frame.sequence).2 = true) (isShard : frame.IsShard)
    (admissible : Admissible frame)
    (isStored : pruned.storeShard rs host frame = some (stored, result)) :
    (decoder.releases rs host frame).map Release.shard = result.toOption.getD [] ∧
      (∀ taken, decoder.taking host frame = some taken → ∃ group,
        taken.HandsOver frame.index ((taken.handOver rs frame.index frame.payload).map Prod.fst)
          group ∧ stored.groups.lookup frame.group = some group) ∧
      ∀ id group, stored.groups.lookup id = some group →
        (id = frame.group → decoder.taking host frame = none) →
        pruned.groups.lookup id = some group := by
  have wellFormed := safe.toShaped.groupFor admissible (host.now 1)
  have nothing : decoder.taking host frame = none → decoder.releases rs host frame = [] ∧
      ∀ taken, decoder.taking host frame = some taken → ∃ group,
        taken.HandsOver frame.index ((taken.handOver rs frame.index frame.payload).map Prod.fst)
          group ∧ stored.groups.lookup frame.group = some group := by
    intro notTaken
    rw [releases, notTaken]
    exact ⟨rfl, fun _ impossible => by cases impossible⟩
  unfold storeShard at isStored
  rw [groups] at isStored wellFormed
  by_cases full : frame.group ∉ freshGroups (host.now 0) decoder.groups ∧
      maxGroups ≤ (freshGroups (host.now 0) decoder.groups).size
  · rw [if_pos full] at isStored
    cases isStored
    have notTaken : decoder.taking host frame = none := by
      apply if_neg
      rintro ⟨_, _, _, _, room, _⟩
      exact room.elim full.1 fun few => absurd few (not_lt.mpr full.2)
    obtain ⟨noRelease, notStored⟩ := nothing notTaken
    rw [noRelease]
    exact ⟨rfl, notStored, fun id group found _ => found⟩
  · rw [if_neg full] at isStored
    dsimp only at isStored
    by_cases mismatch : (((freshGroups (host.now 0) decoder.groups).lookup frame.group).getD
        (Group.fresh (host.now 1) frame.data frame.parity)).data ≠ frame.data ∨
      (((freshGroups (host.now 0) decoder.groups).lookup frame.group).getD
        (Group.fresh (host.now 1) frame.data frame.parity)).parity ≠ frame.parity
    · rw [if_pos mismatch] at isStored
      cases isStored
      have notTaken : decoder.taking host frame = none := by
        apply if_neg
        rintro ⟨_, _, _, _, _, data, parity⟩
        exact mismatch.elim (fun differs => differs data) fun differs => differs parity
      obtain ⟨noRelease, notStored⟩ := nothing notTaken
      rw [noRelease]
      refine ⟨rfl, notStored, ?_⟩
      intro id group found _
      rw [groups]
      rcases Table.of_lookup_insert found with ⟨rfl, rfl⟩ | ⟨_, old⟩
      · -- Only a stored group can have other dimensions than the frame.
        cases record : (freshGroups (host.now 0) decoder.groups).lookup frame.group with
        | none =>
            rw [record, Option.getD_none] at mismatch
            exact mismatch.elim (fun differs => absurd rfl differs) fun differs => absurd rfl differs
        | some held => rfl
      · exact old
    · rw [if_neg mismatch] at isStored
      push Not at mismatch
      have isTaken : decoder.taking host frame =
          some (((freshGroups (host.now 0) decoder.groups).lookup frame.group).getD
            (Group.fresh (host.now 1) frame.data frame.parity)) := by
        apply if_pos
        refine ⟨session, fresh, isShard, admissible, ?_, mismatch⟩
        by_cases record : frame.group ∈ freshGroups (host.now 0) decoder.groups
        · exact Or.inl record
        · exact Or.inr (not_le.mp fun many => full ⟨record, many⟩)
      generalize ((freshGroups (host.now 0) decoder.groups).lookup frame.group).getD
        (Group.fresh (host.now 1) frame.data frame.parity) = group at *
      obtain ⟨_, _, _, inRange, low, high⟩ := admissible
      obtain ⟨⟨next, outcome⟩, accepted, isNext⟩ := Option.bind_eq_some_iff.mp isStored
      cases isNext
      obtain ⟨handsOver, shards⟩ := Group.accept_handsOver rs wellFormed
        (by rw [mismatch.1, mismatch.2]; exact inRange) ⟨low, high⟩ accepted
      refine ⟨?_, ?_, ?_⟩
      · rw [releases, isTaken, ← shards, List.map_map]
        rfl
      · intro taken isGroup
        cases isTaken.symm.trans isGroup
        exact ⟨next, handsOver, AList.lookup_insert _⟩
      · intro id stored found notTaken
        rcases Table.of_lookup_insert found with ⟨same, _⟩ | ⟨_, old⟩
        · cases isTaken.symm.trans (notTaken same)
        · rw [groups]
          exact old

/-- The part of `frame` that stores a shard. -/
theorem Handles.shardFrame {rs : ReedSolomon} {host : Host} {decoder observed next : Decoder}
    {frame : Frame} {result : Except FrameError (List Bytes)} (safe : decoder.Safe)
    (same : SameStores observed decoder) (session : decoder.session = frame.session)
    (fresh : (decoder.observeSeq frame.sequence).2 = true) (isShard : frame.IsShard)
    (admissible : Admissible frame)
    (stepped : observed.shardFrame rs host frame = some (next, result)) :
    Handles rs host decoder frame next (result.toOption.getD []) := by
  have nextSafe : next.Safe := by
    obtain ⟨after, outcome, called, afterSafe⟩ :=
      (safe.of_sameStores same).toShaped.shardFrame rs host admissible
    cases called.symm.trans stepped
    exact afterSafe
  obtain ⟨pruned, isPruned, isRest⟩ := Option.bind_eq_some_iff.mp stepped
  obtain ⟨⟨stored, outcome⟩, isStored, isLast⟩ := Option.bind_eq_some_iff.mp isRest
  obtain ⟨_, isStep, first⟩ := prune_step host (host.now 0) observed
  cases isStep.symm.trans isPruned
  obtain ⟨_, isSafe, prunedSafe⟩ := (safe.of_sameStores same).toShaped.prune host (host.now 0)
  cases isSafe.symm.trans isPruned
  obtain ⟨_, _, isShaped, storedShaped, samePackets⟩ :=
    prunedSafe.toShaped.storeShard rs host admissible
  cases isShaped.symm.trans isStored
  have groups : pruned.groups = freshGroups (host.now 0) decoder.groups := by
    rw [first.groups, same.groups]
  obtain ⟨shards, taken, stores⟩ :=
    storeShard_handsOver groups prunedSafe session fresh isShard admissible isStored
  have packets : ∀ id packet, stored.packets.lookup id = some packet →
      decoder.packets.lookup id = some packet := by
    intro id packet found
    rw [samePackets] at found
    rw [← same.packets]
    exact (first.lookup_packet found).1
  have kept : ∀ id group, stored.groups.lookup id = some group →
      (id = frame.group → decoder.taking host frame = none) →
      decoder.groups.lookup id = some group := by
    intro id group found notTaken
    have before := (first.lookup_group.mp (stores id group found notTaken)).1
    rw [same.groups] at before
    exact before
  have isTaken : ∀ group, decoder.taking host frame = some group → ∃ after,
      group.HandsOver frame.index ((group.handOver rs frame.index frame.payload).map Prod.fst)
        after ∧ ∀ held, stored.groups.lookup frame.group = some held → held = after := by
    intro group isGroup
    obtain ⟨after, handsOver, found⟩ := taken group isGroup
    exact ⟨after, handsOver, fun held isHeld => Option.some.inj (isHeld.symm.trans found)⟩
  cases outcome with
  | error error =>
      cases isLast
      exact ⟨nextSafe, ⟨next, next, by rw [shards]; rfl, packets, fun _ _ found => found⟩, isTaken,
        kept⟩
  | ok released =>
      obtain ⟨⟨assembled, output⟩, isAssembled, isFinal⟩ := Option.bind_eq_some_iff.mp isLast
      obtain ⟨final, isPruned, isNext⟩ := Option.bind_eq_some_iff.mp isFinal
      cases isNext
      obtain ⟨_, isStep, last⟩ := prune_step host (host.now (2 + released.length)) assembled
      cases isStep.symm.trans isPruned
      have inStored : ∀ id group, next.groups.lookup id = some group →
          stored.groups.lookup id = some group := by
        intro id group found
        have inAssembled := (last.lookup_group.mp found).1
        obtain ⟨_, _, isSame, _⟩ := fragments_wellFormed host 2 stored released storedShaped.packet
        cases isSame.symm.trans isAssembled
        exact inAssembled
      refine ⟨nextSafe, ⟨stored, assembled, ?_, packets, ?_⟩, ?_, ?_⟩
      · rw [shards]
        exact isAssembled
      · exact fun id packet found => (last.lookup_packet found).1
      · intro group isGroup
        obtain ⟨after, handsOver, unique⟩ := isTaken group isGroup
        exact ⟨after, handsOver, fun held found => unique held (inStored _ held found)⟩
      · exact fun id group found => kept id group (inStored id group found)

/-- One frame with arbitrary fields. -/
theorem Safe.handles {rs : ReedSolomon} {host : Host} {decoder next : Decoder} {frame : Frame}
    {result : Except FrameError (List Bytes)} (safe : decoder.Safe)
    (stepped : decoder.frame rs host frame = some (next, result)) :
    Handles rs host decoder frame next (result.toOption.getD []) := by
  have observed := observeSeq_sameStores decoder frame.sequence
  unfold Decoder.frame at stepped
  split at stepped
  next other =>
    cases stepped
    exact .of_sameStores safe ⟨rfl, rfl, rfl⟩ (if_neg fun all => other all.1)
  next session =>
    dsimp only at stepped
    split at stepped
    next refused =>
      cases stepped
      refine .of_sameStores safe observed (if_neg fun all => ?_)
      rw [refused] at all
      exact Bool.false_ne_true all.2.1
    next fresh =>
      split at stepped
      next isReport =>
        cases stepped
        refine .of_sameStores safe observed (if_neg fun all => ?_)
        rcases all.2.2.1 with isData | isParity
        · exact absurd (isReport.symm.trans isData) (by decide)
        · exact absurd (isReport.symm.trans isParity) (by decide)
      next =>
        split at stepped
        next notShard =>
          cases stepped
          exact .of_sameStores safe observed (if_neg fun all => notShard all.2.2.1)
        next isShard =>
          split at stepped
          next notAdmissible =>
            cases stepped
            exact .of_sameStores safe observed (if_neg fun all => notAdmissible all.2.2.2.1)
          next admissible =>
            exact .shardFrame safe observed (not_not.mp session)
              (Bool.eq_true_of_not_eq_false fresh) (not_not.mp isShard) (not_not.mp admissible)
              stepped

end Decoder

/-! ### The account of a session -/

/-- What the decoders of a session do. -/
inductive Handling where
  /-- A redundant group takes a shard. -/
  | stored (group : Nat)
  | released (release : Release)
  | output (datagram : Bytes)
deriving DecidableEq, Repr

def storedGroups (past : List Handling) : List Nat :=
  past.filterMap fun
    | .stored group => some group
    | _ => none

def releasesOf (past : List Handling) : List Release :=
  past.filterMap fun
    | .released release => some release
    | _ => none

def outputsOf (past : List Handling) : List Bytes :=
  past.filterMap fun
    | .output datagram => some datagram
    | _ => none

/-- The sources of everything handed over. -/
def sourcesOf (past : List Handling) : List Source := (releasesOf past).map Release.source

/-- What a frame makes the decoder do before it outputs anything. -/
def Decoder.handling (rs : ReedSolomon) (host : Host) (decoder : Decoder) (frame : Frame) :
    List Handling :=
  (if (decoder.taking host frame).isSome ∧ 0 < frame.parity then [.stored frame.group] else []) ++
    (decoder.releases rs host frame).map Handling.released

section Lists

variable (past later : List Handling)

theorem storedGroups_append :
    storedGroups (past ++ later) = storedGroups past ++ storedGroups later :=
  List.filterMap_append

theorem releasesOf_append : releasesOf (past ++ later) = releasesOf past ++ releasesOf later :=
  List.filterMap_append

theorem outputsOf_append : outputsOf (past ++ later) = outputsOf past ++ outputsOf later :=
  List.filterMap_append

theorem sourcesOf_append : sourcesOf (past ++ later) = sourcesOf past ++ sourcesOf later := by
  unfold sourcesOf
  rw [releasesOf_append, List.map_append]

theorem releasesOf_outputs (datagrams : List Bytes) :
    releasesOf (datagrams.map Handling.output) = [] := by
  unfold releasesOf
  rw [List.filterMap_map]
  exact List.filterMap_eq_nil_iff.mpr fun _ _ => rfl

theorem outputsOf_outputs (datagrams : List Bytes) :
    outputsOf (datagrams.map Handling.output) = datagrams := by
  unfold outputsOf
  rw [List.filterMap_map]
  exact List.filterMap_some

theorem releasesOf_handling (rs : ReedSolomon) (host : Host) (decoder : Decoder) (frame : Frame) :
    releasesOf (decoder.handling rs host frame) = decoder.releases rs host frame := by
  have stored : releasesOf (if (decoder.taking host frame).isSome ∧ 0 < frame.parity then
      [Handling.stored frame.group] else []) = [] := by
    split <;> rfl
  unfold Decoder.handling
  rw [releasesOf_append, stored, List.nil_append]
  unfold releasesOf
  rw [List.filterMap_map]
  exact List.filterMap_some

theorem outputsOf_handling (rs : ReedSolomon) (host : Host) (decoder : Decoder) (frame : Frame) :
    outputsOf (decoder.handling rs host frame) = [] := by
  unfold Decoder.handling
  rw [outputsOf_append, List.append_eq_nil_iff]
  refine ⟨by split <;> rfl, ?_⟩
  unfold outputsOf
  rw [List.filterMap_map]
  exact List.filterMap_eq_nil_iff.mpr fun _ _ => rfl

end Lists

/-- The frame does not open a redundant group again: where it stores a shard in a group with
redundancy that took one before, that group still has its record. -/
def KeepsGroup (past : List Handling) (decoder : Decoder) (host : Host) (frame : Frame) : Prop :=
  (decoder.taking host frame).isSome → 0 < frame.parity → frame.group ∈ storedGroups past →
    frame.group ∈ Decoder.freshGroups (host.now 0) decoder.groups

instance (past : List Handling) (decoder : Decoder) (host : Host) (frame : Frame) :
    Decidable (KeepsGroup past decoder host frame) :=
  inferInstanceAs (Decidable (_ → _))

/-- No source was used twice, every output is `Assembled` of what was handed over, and the
decoder knows which places of its redundant groups were used. -/
structure Accounts (accepted : List Nat) (past : List Handling) (decoder : Decoder) : Prop where
  safe : decoder.Safe
  distinct : (sourcesOf past).Nodup
  frames : ∀ sequence, .frame sequence ∈ sourcesOf past → sequence ∈ accepted
  places : ∀ group index, .place group index ∈ sourcesOf past → group ∈ storedGroups past
  delivered : ∀ id group index, decoder.groups.lookup id = some group → 0 < group.parity →
    .place id index ∈ sourcesOf past → Filled group.shards index
  assembling : Assembling ((releasesOf past).map Release.shard) (outputsOf past) decoder.packets

namespace Accounts

variable {accepted more : List Nat} {past : List Handling} {decoder next : Decoder}

theorem new (session : Nat) : Accounts [] [] (Decoder.new session) where
  safe := Decoder.safe_new session
  distinct := List.nodup_nil
  frames := fun _ member => absurd member List.not_mem_nil
  places := fun _ _ member => absurd member List.not_mem_nil
  delivered := by intro id group index found; cases found
  assembling := Assembling.empty

/-- A decoder that starts again knows nothing, and holds nothing. -/
theorem restart (accounts : Accounts accepted past decoder) (session : Nat) :
    Accounts accepted past (Decoder.new session) where
  safe := Decoder.safe_new session
  distinct := accounts.distinct
  frames := accounts.frames
  places := accounts.places
  delivered := by intro id group index found; cases found
  assembling := accounts.assembling.of_lookup (by intro id packet found; cases found)

theorem of_sameStores (accounts : Accounts accepted past decoder)
    (same : Decoder.SameStores next decoder) (subset : accepted ⊆ more) :
    Accounts more past next where
  safe := accounts.safe.of_sameStores same
  distinct := accounts.distinct
  frames := fun sequence member => subset (accounts.frames sequence member)
  places := accounts.places
  delivered := by
    rw [same.groups]
    exact accounts.delivered
  assembling := by
    rw [same.packets]
    exact accounts.assembling

/-- The sources of what a taken frame makes its group hand over. -/
theorem sourcesOf_handling {rs : ReedSolomon} {host : Host} {frame : Frame} {group : Group}
    (isTaken : decoder.taking host frame = some group) :
    sourcesOf (decoder.handling rs host frame) =
      ((group.handOver rs frame.index frame.payload).map Prod.fst).map frame.source := by
  unfold sourcesOf
  rw [releasesOf_handling, Decoder.releases, isTaken, List.map_map, List.map_map]
  rfl

theorem nodup_sources {group after : Group} {frame : Frame} {places : List Nat}
    (parity : group.parity = frame.parity)
    (handsOver : group.HandsOver frame.index places after) :
    (places.map frame.source).Nodup := by
  apply handsOver.distinct.map_on
  intro left inLeft right inRight same
  by_cases plain : frame.parity = 0
  · rw [handsOver.plain (parity.trans plain) left inLeft,
      handsOver.plain (parity.trans plain) right inRight]
  · unfold Frame.source at same
    rw [if_neg plain, if_neg plain] at same
    exact (Source.place.inj same).2

/-- A frame that is taken: its sources were not used before, and its group remembers them. -/
theorem take (accounts : Accounts accepted past decoder) {host : Host}
    {frame : Frame} {group after : Group} {places : List Nat}
    (isTaken : decoder.taking host frame = some group)
    (handsOver : group.HandsOver frame.index places after)
    (isNew : frame.sequence ∉ accepted)
    (keeps : 0 < frame.parity → frame.group ∈ storedGroups past →
      frame.group ∈ Decoder.freshGroups (host.now 0) decoder.groups) :
    (∀ source ∈ places.map frame.source, source ∉ sourcesOf past) ∧
      (0 < frame.parity → ∀ index, .place frame.group index ∈
        sourcesOf past ++ places.map frame.source → Filled after.shards index) := by
  obtain ⟨_, _, isGroup, _, sameParity⟩ := Decoder.taking_eq_some isTaken
  -- A place that was used is filled in the group, whose record is still there.
  have used : 0 < frame.parity → ∀ index, .place frame.group index ∈ sourcesOf past →
      Filled group.shards index := by
    intro redundant index member
    obtain ⟨record, found⟩ := Table.mem_iff_exists_lookup.mp
      (keeps redundant (accounts.places frame.group index member))
    rw [found, Option.getD_some] at isGroup
    subst isGroup
    exact accounts.delivered frame.group group index (Table.lookup_of_lookup_retain found)
      (by rw [sameParity]; exact redundant) member
  refine ⟨?_, ?_⟩
  · intro source inNew inPast
    obtain ⟨index, inPlaces, rfl⟩ := List.mem_map.mp inNew
    unfold Frame.source at inPast
    split at inPast
    next => exact isNew (accounts.frames frame.sequence inPast)
    next redundant =>
      exact (handsOver.opened index inPlaces).1 (used (Nat.pos_of_ne_zero redundant) index inPast)
  · intro redundant index member
    rcases List.mem_append.mp member with inPast | inNew
    · exact handsOver.grows index (used redundant index inPast)
    · obtain ⟨position, inPlaces, same⟩ := List.mem_map.mp inNew
      unfold Frame.source at same
      rw [if_neg (Nat.ne_of_gt redundant)] at same
      rw [← (Source.place.inj same).2]
      exact (handsOver.opened position inPlaces).2

/-- One frame: nothing is used twice, as long as a taken frame is a new one and no redundant
group that took a shard before is opened again. -/
theorem frame (accounts : Accounts accepted past decoder) {rs : ReedSolomon} {host : Host}
    {frame : Frame} {result : Except FrameError (List Bytes)}
    (stepped : decoder.frame rs host frame = some (next, result)) (subset : accepted ⊆ more)
    (isNew : (decoder.taking host frame).isSome → frame.sequence ∉ accepted ∧
      frame.sequence ∈ more)
    (keeps : KeepsGroup past decoder host frame) :
    Accounts more (past ++ (decoder.handling rs host frame ++
      (result.toOption.getD []).map Handling.output)) next := by
  have handles := accounts.safe.handles stepped
  obtain ⟨before, last, assembled, entered, left⟩ := handles.assembled
  have sources : sourcesOf (past ++ (decoder.handling rs host frame ++
      (result.toOption.getD []).map Handling.output)) =
        sourcesOf past ++ sourcesOf (decoder.handling rs host frame) := by
    rw [sourcesOf_append, sourcesOf_append, sourcesOf, sourcesOf, sourcesOf, releasesOf_outputs,
      List.map_nil, List.append_nil]
  have assembling : Assembling ((releasesOf (past ++ (decoder.handling rs host frame ++
      (result.toOption.getD []).map Handling.output))).map Release.shard)
      (outputsOf (past ++ (decoder.handling rs host frame ++
        (result.toOption.getD []).map Handling.output))) next.packets := by
    rw [releasesOf_append, releasesOf_append, releasesOf_outputs, List.append_nil,
      releasesOf_handling, List.map_append, outputsOf_append, outputsOf_append,
      outputsOf_handling, outputsOf_outputs, List.nil_append]
    exact ((accounts.assembling.of_lookup entered).fragments assembled).of_lookup left
  cases isTaken : decoder.taking host frame with
  | none =>
      have nothing : sourcesOf (decoder.handling rs host frame) = [] := by
        rw [sourcesOf, releasesOf_handling, Decoder.releases, isTaken]
        rfl
      rw [nothing, List.append_nil] at sources
      refine ⟨handles.safe, ?_, ?_, ?_, ?_, assembling⟩
      · rw [sources]
        exact accounts.distinct
      · rw [sources]
        exact fun sequence member => subset (accounts.frames sequence member)
      · rw [sources, storedGroups_append]
        exact fun group index member =>
          List.mem_append_left _ (accounts.places group index member)
      · rw [sources]
        exact fun id group index found =>
          accounts.delivered id group index (handles.kept id group found fun _ => isTaken)
  | some group =>
      have taken : (decoder.taking host frame).isSome := by rw [isTaken]; rfl
      obtain ⟨_, _, _, _, sameParity⟩ := Decoder.taking_eq_some isTaken
      obtain ⟨after, handsOver, isAfter⟩ := handles.taken group isTaken
      obtain ⟨fresh, remembered⟩ :=
        accounts.take isTaken handsOver (isNew taken).1 (keeps taken)
      rw [sourcesOf_handling isTaken] at sources
      refine ⟨handles.safe, ?_, ?_, ?_, ?_, assembling⟩
      · rw [sources, List.nodup_append]
        refine ⟨accounts.distinct, nodup_sources sameParity handsOver, ?_⟩
        rintro source inPast _ inNew rfl
        exact fresh source inNew inPast
      · rw [sources]
        intro sequence member
        rcases List.mem_append.mp member with inPast | inNew
        · exact subset (accounts.frames sequence inPast)
        · obtain ⟨index, _, same⟩ := List.mem_map.mp inNew
          unfold Frame.source at same
          split at same
          next =>
            cases same
            exact (isNew taken).2
          next => cases same
      · rw [sources, storedGroups_append]
        intro id index member
        rcases List.mem_append.mp member with inPast | inNew
        · exact List.mem_append_left _ (accounts.places id index inPast)
        · obtain ⟨position, _, same⟩ := List.mem_map.mp inNew
          unfold Frame.source at same
          split at same
          next => cases same
          next redundant =>
            cases same
            refine List.mem_append_right _ ?_
            rw [storedGroups_append]
            refine List.mem_append_left _ ?_
            unfold Decoder.handling
            rw [if_pos ⟨taken, Nat.pos_of_ne_zero redundant⟩]
            exact List.mem_cons_self
      · rw [sources]
        intro id stored index found redundant member
        by_cases same : id = frame.group
        · subst same
          rw [isAfter stored found] at redundant ⊢
          rw [handsOver.parity, sameParity] at redundant
          exact remembered redundant index member
        · have old := handles.kept id stored found fun equal => absurd equal same
          refine accounts.delivered id stored index old redundant ?_
          rcases List.mem_append.mp member with inPast | inNew
          · exact inPast
          · obtain ⟨position, _, isPlace⟩ := List.mem_map.mp inNew
            unfold Frame.source at isPlace
            split at isPlace
            next => cases isPlace
            next =>
              cases isPlace
              exact absurd rfl same

end Accounts

end SmartFecTunnel.Fec
