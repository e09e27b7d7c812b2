import SmartFecTunnel.Fec.DecoderSafety
import SmartFecTunnel.Fec.SenderLog

/-!
Contract: a decoder that is fed frames of one encoder only.

`Decoder.Honest log` says what everything stored is in terms of the sender's
log: every group holds shards of the group sent under its number, and every
reassembly holds fragments of the datagram with its packet id.  Which of them
are present is left open, so expiry and eviction keep it.

Owns:
- the effect of one honest fragment (`FragmentStep`) and the rule for several;
- the effect of one honest shard frame on its group (`ShardStep`);
- integrity: everything output is a datagram that was sent.
-/

namespace SmartFecTunnel.Fec

open SmartFecTunnel.Library
open Encoder

/-- A log whose datagrams and packet ids fit their fields. -/
structure SenderLog.Fits (log : SenderLog) : Prop where
  small : ∀ payload ∈ log.datagrams, payload.length ≤ maxDatagram
  packets : log.datagrams.length < 2 ^ 64

/-- The datagrams with the given packet ids. -/
def SenderLog.payloads (log : SenderLog) (ids : List Nat) : List Bytes :=
  ids.filterMap fun id => log.datagrams[id - 1]?

theorem SenderLog.payloads_append (log : SenderLog) (front back : List Nat) :
    log.payloads (front ++ back) = log.payloads front ++ log.payloads back :=
  List.filterMap_append

/-- The reassembly holds chunks of `payload`, each in its place. -/
structure Reassembly.Follows (packet : Reassembly) (payload : Bytes) : Prop where
  count : packet.parts.length = (datagramChunks payload).length
  agrees : Agrees packet.parts (datagramChunks payload)

/-- The group holds shards of `sent`, of which it has received some positions. -/
structure Group.Follows (group : Group) (sent : SentGroup) (received : Finset Nat) : Prop where
  data : group.data = sent.fragments.length
  parity : group.parity = sent.parity
  tracks : group.Tracks sent.full received

namespace Decoder

structure Honest (log : SenderLog) (decoder : Decoder) : Prop where
  group : ∀ id group, decoder.groups.lookup id = some group →
    ∃ sent received, log.IsGroup id sent ∧ group.Follows sent received
  packet : ∀ id packet, decoder.packets.lookup id = some packet →
    ∃ payload, log.IsPacket id payload ∧ packet.Follows payload

/-- The fragment is present in a stored reassembly. -/
def Holds (decoder : Decoder) (fragment : FragmentId) : Prop :=
  ∃ packet, decoder.packets.lookup fragment.1 = some packet ∧ Filled packet.parts fragment.2

theorem honest_new (log : SenderLog) (session : Nat) : (Decoder.new session).Honest log where
  group := by intro id group found; cases found
  packet := by intro id packet found; cases found

theorem not_holds_new (session : Nat) (fragment : FragmentId) :
    ¬ (Decoder.new session).Holds fragment := by
  rintro ⟨packet, found, _⟩
  cases found

theorem Honest.of_sameStores {log : SenderLog} {decoder next : Decoder}
    (honest : decoder.Honest log) (same : SameStores next decoder) : next.Honest log where
  group := by rw [same.groups]; exact honest.group
  packet := by rw [same.packets]; exact honest.packet

theorem holds_of_sameStores {decoder next : Decoder} (same : SameStores next decoder)
    (fragment : FragmentId) : next.Holds fragment ↔ decoder.Holds fragment := by
  unfold Holds
  rw [same.packets]

/-! ### Expiry -/

/-- What an expiry pass leaves. -/
structure PruneStep (now : Nat) (before after : Decoder) : Prop where
  groups : after.groups = freshGroups now before.groups
  packets : ∀ id packet, after.packets.lookup id = some packet →
    (freshPackets now before.packets).lookup id = some packet
  kept : (freshPackets now before.packets).size ≤ maxReassemblies →
    after.packets = freshPackets now before.packets
  rest : after = { before with groups := after.groups, packets := after.packets }

theorem prune_step (host : Host) (now : Nat) (decoder : Decoder) :
    ∃ next, decoder.prune host now = some next ∧ PruneStep now decoder next := by
  obtain ⟨packets, pruned, _, kept, equal⟩ := prune_spec host now decoder
  exact ⟨_, pruned, rfl, kept, equal, rfl⟩

namespace PruneStep

variable {now : Nat} {before after : Decoder}

theorem lookup_group (step : PruneStep now before after) {id : Nat} {group : Group} :
    after.groups.lookup id = some group ↔
      before.groups.lookup id = some group ∧ now - group.created < groupTtl := by
  rw [step.groups, freshGroups, Table.lookup_retain]
  simp [Option.filter_eq_some_iff]

theorem lookup_packet (step : PruneStep now before after) {id : Nat} {packet : Reassembly}
    (found : after.packets.lookup id = some packet) :
    before.packets.lookup id = some packet ∧ now - packet.created < reassemblyTtl := by
  have fresh := step.packets id packet found
  rw [freshPackets, Table.lookup_retain] at fresh
  simpa [Option.filter_eq_some_iff] using fresh

theorem honest {log : SenderLog} (step : PruneStep now before after) (honest : before.Honest log) :
    after.Honest log where
  group := fun id group found => honest.group id group (step.lookup_group.mp found).1
  packet := fun id packet found => honest.packet id packet (step.lookup_packet found).1

theorem holds (step : PruneStep now before after) {fragment : FragmentId}
    (held : after.Holds fragment) : before.Holds fragment := by
  obtain ⟨packet, found, filled⟩ := held
  exact ⟨packet, (step.lookup_packet found).1, filled⟩

end PruneStep

/-! ### One fragment -/

/-- What processing one fragment does.  `ids` lists the packets it completes. -/
structure FragmentStep (log : SenderLog) (now : Nat) (fragment : FragmentId)
    (before after : Decoder) (ids : List Nat) : Prop where
  effect : ∃ payload, log.IsPacket fragment.1 payload ∧
    fragment.2 < (datagramChunks payload).length ∧
    ((ids = [] ∧
        (∃ index, index < (datagramChunks payload).length ∧ index ≠ fragment.2 ∧
          ¬ before.Holds (fragment.1, index)) ∧
        ∀ other, after.Holds other ↔ other = fragment ∨ before.Holds other) ∨
      (ids = [fragment.1] ∧
        (∀ index, index < (datagramChunks payload).length → index ≠ fragment.2 →
          before.Holds (fragment.1, index)) ∧
        ∀ other, after.Holds other ↔ other.1 ≠ fragment.1 ∧ before.Holds other))
  packets : ∀ id packet, after.packets.lookup id = some packet →
    (id = fragment.1 ∧ Filled packet.parts fragment.2 ∧
      (packet.created = now ∨
        ∃ earlier, before.packets.lookup id = some earlier ∧
          earlier.created = packet.created)) ∨
      before.packets.lookup id = some packet
  honest : after.Honest log
  rest : after = { before with packets := after.packets }

/-- Slots that agree with a list and are all filled are that list. -/
theorem reduceOption_of_agrees {α : Type*} {slots : List (Option α)} {full : List α}
    (agrees : Agrees slots full) (count : slots.length = full.length)
    (all : slots.all Option.isSome) : slots.reduceOption = full := by
  have equal : slots = full.map some := by
    apply List.ext_getElem (by rw [List.length_map]; exact count)
    intro index below _
    have present := List.all_eq_true.mp all slots[index] (List.getElem_mem below)
    obtain ⟨shard, isShard⟩ := Option.isSome_iff_exists.mp present
    have held : slots[index]? = some (some shard) := by
      rw [List.getElem?_eq_getElem below, isShard]
    obtain ⟨within, isFull⟩ := List.getElem?_eq_some_iff.mp (agrees index shard held)
    rw [isShard, List.getElem_map, isFull]
  rw [equal]
  clear equal agrees count all
  induction full with
  | nil => rfl
  | cons head tail inductionHypothesis =>
      rw [List.map_cons, List.reduceOption_cons_of_some, inductionHypothesis]

theorem all_isSome_iff {α : Type*} (slots : List (Option α)) :
    slots.all Option.isSome ↔ ∀ index, index < slots.length → Filled slots index := by
  rw [List.all_eq_true]
  constructor
  · intro all index below
    obtain ⟨shard, isShard⟩ :=
      Option.isSome_iff_exists.mp (all slots[index] (List.getElem_mem below))
    exact ⟨shard, by rw [List.getElem?_eq_getElem below, isShard]⟩
  · intro all slot member
    obtain ⟨index, below, rfl⟩ := List.getElem_of_mem member
    obtain ⟨shard, held⟩ := all index below
    rw [List.getElem?_eq_getElem below] at held
    rw [Option.some.inj held]
    rfl

/-- The reassembly a fragment goes to holds chunks of the fragment's datagram,
and is what the decoder holds of it. -/
private theorem Honest.reassemblyFor {log : SenderLog} {decoder : Decoder}
    (honest : decoder.Honest log) (now : Nat) (header : FragmentHeader) {payload : Bytes}
    (isPacket : log.IsPacket header.packet payload)
    (count : header.count = (datagramChunks payload).length) :
    (reassemblyFor now decoder.packets header).Follows payload ∧
      (∀ index, Filled (reassemblyFor now decoder.packets header).parts index ↔
        decoder.Holds (header.packet, index)) ∧
      ((reassemblyFor now decoder.packets header).created = now ∨
        ∃ earlier, decoder.packets.lookup header.packet = some earlier ∧
          earlier.created = (reassemblyFor now decoder.packets header).created) := by
  unfold Decoder.reassemblyFor Holds
  cases found : decoder.packets.lookup header.packet with
  | none =>
      refine ⟨⟨?_, agrees_replicate_none _ _⟩, ?_, Or.inl rfl⟩
      · rw [Option.getD_none, List.length_replicate]
        exact count
      · intro index
        simp [Filled, List.getElem?_replicate, found]
  | some packet =>
      obtain ⟨stored, isStored, follows⟩ := honest.packet header.packet packet found
      rw [isPacket.unique isStored]
      exact ⟨follows, by simp [found], Or.inr ⟨packet, rfl, rfl⟩⟩

private theorem Honest.insertPacket {log : SenderLog} {decoder : Decoder}
    (honest : decoder.Honest log) {id : Nat} {payload : Bytes} {packet : Reassembly}
    (isPacket : log.IsPacket id payload) (follows : packet.Follows payload) :
    ({ decoder with packets := decoder.packets.insert id packet } : Decoder).Honest log where
  group := honest.group
  packet := by
    intro other stored found
    rcases Table.of_lookup_insert found with ⟨rfl, rfl⟩ | ⟨_, old⟩
    · exact ⟨payload, isPacket, follows⟩
    · exact honest.packet other stored old

private theorem Honest.erasePacket {log : SenderLog} {decoder : Decoder}
    (honest : decoder.Honest log) (id : Nat) :
    Honest log { decoder with packets := decoder.packets.erase id } where
  group := honest.group
  packet := fun other stored found => honest.packet other stored (Table.of_lookup_erase found).2

theorem holds_erase (decoder : Decoder) (id : Nat) (other : FragmentId) :
    Holds { decoder with packets := decoder.packets.erase id } other ↔
      other.1 ≠ id ∧ decoder.Holds other := by
  unfold Holds
  dsimp only
  rw [Table.lookup_erase_eq]
  split
  next same => simp [same]
  next different => simp [different]

theorem holds_insert {decoder : Decoder} {id index : Nat} {entry : Reassembly}
    (inParts : index < entry.parts.length)
    (held : ∀ other, Filled entry.parts other ↔ decoder.Holds (id, other)) (chunk : Bytes)
    (other : FragmentId) :
    Holds { decoder with
      packets := decoder.packets.insert id ⟨entry.created, entry.parts.set index (some chunk)⟩ }
      other ↔ other = (id, index) ∨ decoder.Holds other := by
  have before := held other.2
  unfold Holds at before ⊢
  dsimp only
  rw [Table.lookup_insert_eq]
  split
  next same =>
    rw [← same] at before
    simp only [Option.some.injEq, exists_eq_left', filled_set inParts, before]
    constructor
    · rintro (isIndex | old)
      · exact Or.inl (Prod.ext same isIndex)
      · exact Or.inr old
    · rintro (rfl | old)
      · exact Or.inl rfl
      · exact Or.inr old
  next different =>
    constructor
    · exact Or.inr
    · rintro (rfl | old)
      · exact absurd rfl different
      · exact old

theorem Honest.place {log : SenderLog} {decoder : Decoder} (honest : decoder.Honest log)
    (now : Nat) {fragment : FragmentId} {payload chunk : Bytes}
    (isPacket : log.IsPacket fragment.1 payload)
    (isChunk : (datagramChunks payload)[fragment.2]? = some chunk) :
    ∃ next ids,
      decoder.place now
          ⟨fragment.1, fragment.2, (datagramChunks payload).length, chunk.length⟩ chunk =
        some (next, log.payloads ids) ∧
      FragmentStep log now fragment decoder next ids := by
  have within : fragment.2 < (datagramChunks payload).length :=
    (List.getElem?_eq_some_iff.mp isChunk).1
  obtain ⟨follows, filledIff, created⟩ := honest.reassemblyFor now
    ⟨fragment.1, fragment.2, (datagramChunks payload).length, chunk.length⟩ isPacket rfl
  unfold Decoder.place
  generalize Decoder.reassemblyFor now decoder.packets
    ⟨fragment.1, fragment.2, (datagramChunks payload).length, chunk.length⟩ = entry at *
  have inParts : fragment.2 < entry.parts.length := by
    rw [follows.count]
    exact within
  have setFollows : Reassembly.Follows ⟨entry.created, entry.parts.set fragment.2 (some chunk)⟩
      payload :=
    ⟨by rw [List.length_set]; exact follows.count, follows.agrees.set isChunk⟩
  rw [if_neg (not_not.mpr follows.count), if_pos inParts]
  by_cases complete : (entry.parts.set fragment.2 (some chunk)).all Option.isSome
  · -- The last missing fragment: the datagram is output and forgotten.
    have whole := reduceOption_of_agrees setFollows.agrees setFollows.count complete
    have output : log.payloads [fragment.1] = [payload] := by
      simp [SenderLog.payloads, isPacket.2]
    refine ⟨{ decoder with packets := decoder.packets.erase fragment.1 }, [fragment.1], ?_, ?_⟩
    · rw [if_pos complete, whole, flatten_datagramChunks, output]
    · refine ⟨⟨payload, isPacket, within, Or.inr ⟨rfl, ?_, holds_erase decoder fragment.1⟩⟩, ?_,
        honest.erasePacket fragment.1, rfl⟩
      · intro index below different
        rw [← filledIff]
        have filled := (all_isSome_iff _).mp complete index (by
          rw [List.length_set, follows.count]
          exact below)
        exact ((filled_set inParts chunk index).mp filled).resolve_left different
      · exact fun id packet found => Or.inr (Table.of_lookup_erase found).2
  · refine ⟨{ decoder with
      packets := decoder.packets.insert fragment.1
        ⟨entry.created, entry.parts.set fragment.2 (some chunk)⟩ }, [], ?_, ?_⟩
    · rw [if_neg complete]
      rfl
    · refine ⟨⟨payload, isPacket, within, Or.inl ⟨rfl, ?_, holds_insert inParts filledIff chunk⟩⟩, ?_,
        honest.insertPacket isPacket setFollows, rfl⟩
      · rw [all_isSome_iff] at complete
        push Not at complete
        obtain ⟨index, below, empty⟩ := complete
        rw [filled_set inParts, not_or, filledIff] at empty
        rw [List.length_set, follows.count] at below
        exact ⟨index, below, empty.1, empty.2⟩
      · intro id packet found
        rcases Table.of_lookup_insert found with ⟨rfl, rfl⟩ | ⟨_, old⟩
        · exact Or.inl ⟨rfl, (filled_set inParts chunk fragment.2).mpr (Or.inl rfl), created⟩
        · exact Or.inr old

section Sender

variable {log : SenderLog} {rs : ReedSolomon} {encoder : Encoder}

/-- The receiver processes the shard of a source position as the fragment it
carries. -/
theorem Honest.fragment {decoder : Decoder} (honest : decoder.Honest log)
    (explains : log.Explains rs encoder) (fits : log.Fits) (now : Nat) {id index : Nat}
    {sent : SentGroup} {fragment : FragmentId} {shard : Bytes} (isGroup : log.IsGroup id sent)
    (placed : sent.fragments[index]? = some fragment) (isShard : sent.full[index]? = some shard) :
    ∃ next ids, decoder.fragment now shard = some (next, log.payloads ids) ∧
      FragmentStep log now fragment decoder next ids := by
  obtain ⟨payload, chunk, padding, isPacket, isChunk, isFull⟩ :=
    explains.shard_of_placedAt isGroup placed
  have equal := Option.some.inj (isShard.symm.trans isFull)
  have size := (explains.valid sent isGroup.mem).codeword.size shard (List.mem_of_getElem? isShard)
  have chunkLe := length_le_of_mem_datagramChunks (List.mem_of_getElem? isChunk)
  have countLe := length_datagramChunks_le (fits.small payload (List.mem_of_getElem? isPacket.2))
  have indexLt := (List.getElem?_eq_some_iff.mp isChunk).1
  have packetLt : fragment.1 < 2 ^ 64 := by
    have below := (List.getElem?_eq_some_iff.mp isPacket.2).1
    have bounded := fits.packets
    omega
  have chunkSmall : chunk.length ≤ 1326 := chunkLe
  have long : fragmentHeader + chunk.length ≤ shard.length := by
    rw [equal, List.length_append, length_fragmentShard]
    omega
  have read : FragmentHeader.read shard =
      some ⟨fragment.1, fragment.2, (datagramChunks payload).length, chunk.length⟩ := by
    rw [equal]
    exact FragmentHeader.read_fragmentShard packetLt (by omega) (by omega) (by omega) padding
  have valid : FragmentHeader.Valid
      ⟨fragment.1, fragment.2, (datagramChunks payload).length, chunk.length⟩ shard.length := by
    refine ⟨?_, countLe, indexLt, chunkLe, long⟩
    dsimp only
    omega
  have body : slice? shard 14 (14 + chunk.length) = some chunk := by
    rw [equal]
    exact slice?_fragmentShard fragment.1 fragment.2 (datagramChunks payload).length chunk padding
  obtain ⟨next, ids, placedAs, step⟩ := honest.place now isPacket isChunk
  refine ⟨next, ids, ?_, step⟩
  unfold Decoder.fragment
  obtain ⟨low, high⟩ := size
  rw [if_neg (by omega), read]
  simp only [Option.bind_eq_bind, Option.bind_some, valid, ↓reduceIte, body]
  exact placedAs

/-- The fragments of one call, processed one after the other. -/
inductive FragmentSteps (log : SenderLog) (host : Host) :
    Nat → Decoder → List FragmentId → Decoder → List Nat → Prop
  | nil (reading : Nat) (decoder : Decoder) : FragmentSteps log host reading decoder [] decoder []
  | cons {reading : Nat} {before middle after : Decoder} {fragment : FragmentId}
      {rest : List FragmentId} {first more : List Nat}
      (step : FragmentStep log (host.now reading) fragment before middle first)
      (steps : FragmentSteps log host (reading + 1) middle rest after more) :
      FragmentSteps log host reading before (fragment :: rest) after (first ++ more)

theorem FragmentSteps.rest {host : Host} {reading : Nat} {before after : Decoder}
    {batch : List FragmentId} {ids : List Nat}
    (steps : FragmentSteps log host reading before batch after ids) :
    after = { before with packets := after.packets } := by
  induction steps with
  | nil => rfl
  | cons step steps inductionHypothesis => rw [inductionHypothesis, step.rest]

theorem FragmentSteps.honest {host : Host} {reading : Nat} {before after : Decoder}
    {batch : List FragmentId} {ids : List Nat}
    (steps : FragmentSteps log host reading before batch after ids)
    (honest : before.Honest log) : after.Honest log := by
  induction steps with
  | nil => exact honest
  | cons step steps inductionHypothesis => exact inductionHypothesis step.honest

theorem Honest.fragments {decoder : Decoder} (honest : decoder.Honest log)
    (explains : log.Explains rs encoder) (fits : log.Fits) (host : Host) (reading : Nat)
    {id : Nat} {sent : SentGroup} (isGroup : log.IsGroup id sent) (positions : List Nat)
    (source : ∀ index ∈ positions, index < sent.fragments.length) :
    ∃ next ids,
      decoder.fragments host reading (positions.filterMap fun index => sent.full[index]?) =
        some (next, log.payloads ids) ∧
      FragmentSteps log host reading decoder
        (positions.filterMap fun index => sent.fragments[index]?) next ids := by
  induction positions generalizing decoder reading with
  | nil => exact ⟨decoder, [], rfl, FragmentSteps.nil reading decoder⟩
  | cons position rest inductionHypothesis =>
      have below := source position (List.mem_cons_self ..)
      have placed : sent.fragments[position]? = some sent.fragments[position] :=
        List.getElem?_eq_getElem below
      obtain ⟨_, _, _, _, _, isShard⟩ := explains.shard_of_placedAt isGroup placed
      obtain ⟨middle, first, isFirst, step⟩ :=
        honest.fragment explains fits (host.now reading) isGroup placed isShard
      obtain ⟨next, ids, isNext, steps⟩ :=
        inductionHypothesis step.honest (reading + 1)
          (fun index member => source index (List.mem_cons_of_mem _ member))
      refine ⟨next, first ++ ids, ?_, ?_⟩
      · rw [List.filterMap_cons_some isShard, Decoder.fragments, isFirst]
        simp only [Option.bind_eq_bind, Option.bind_some, isNext]
        rw [SenderLog.payloads_append]
      · rw [List.filterMap_cons_some placed]
        exact FragmentSteps.cons step steps

/-! ### One shard frame -/

/-- What storing one shard does.  `released` lists the source positions that
become available. -/
structure ShardStep (log : SenderLog) (created : Nat) (frame : Frame) (sent : SentGroup)
    (before after : Decoder) (released : List Nat) : Prop where
  effect : ∃ old new,
    old = (before.groups.lookup frame.group).getD
      (Group.fresh created frame.data frame.parity) ∧
    (∃ received, old.Follows sent received) ∧
    (∀ received, old.Follows sent received → new.Follows sent (insert frame.index received)) ∧
    new.created = old.created ∧
    after = { before with groups := before.groups.insert frame.group new } ∧
    ∀ index, index ∈ released ↔
      index < sent.fragments.length ∧ ¬ Filled old.shards index ∧ Filled new.shards index
  distinct : released.Nodup
  source : ∀ index ∈ released, index < sent.fragments.length
  honest : after.Honest log

/-- A new group is one of which nothing has arrived. -/
theorem fresh_follows (explains : log.Explains rs encoder) {frame : Frame}
    {sent : SentGroup} (describes : log.Describes frame sent) (created : Nat) :
    (Group.fresh created frame.data frame.parity).Follows sent ∅ := by
  have valid := explains.valid sent describes.group.mem
  have dataPos := valid.data_pos
  have dataLe := valid.data_le
  have parityLe := valid.parity_le
  unfold dataShards at dataLe
  unfold maxParity at parityLe
  refine ⟨describes.data, describes.parity, ?_⟩
  rw [describes.data, describes.parity]
  exact Group.fresh_tracks sent.full dataPos (by omega) (by omega)

private theorem Honest.groupFor {decoder : Decoder} (honest : decoder.Honest log)
    (explains : log.Explains rs encoder) {frame : Frame} {sent : SentGroup}
    (describes : log.Describes frame sent) (created : Nat) :
    ∃ received, ((decoder.groups.lookup frame.group).getD
      (Group.fresh created frame.data frame.parity)).Follows sent received := by
  cases found : decoder.groups.lookup frame.group with
  | none =>
      rw [Option.getD_none]
      exact ⟨∅, fresh_follows explains describes created⟩
  | some group =>
      obtain ⟨stored, received, isStored, follows⟩ := honest.group frame.group group found
      rw [describes.group.unique isStored]
      exact ⟨received, follows⟩

/-- An honest shard is refused only by a full table; otherwise its group takes
it. -/
theorem Honest.storeShard {decoder : Decoder} (honest : decoder.Honest log)
    (explains : log.Explains rs encoder) (host : Host) {frame : Frame} {sent : SentGroup}
    (describes : log.Describes frame sent) :
    ((frame.group ∉ decoder.groups ∧ maxGroups ≤ decoder.groups.size) ∧
      decoder.storeShard rs host frame = some (decoder, .error .tooManyFecGroups)) ∨
    (¬ (frame.group ∉ decoder.groups ∧ maxGroups ≤ decoder.groups.size) ∧
      ∃ next released,
        decoder.storeShard rs host frame =
          some (next, .ok (released.filterMap fun index => sent.full[index]?)) ∧
        ShardStep log (host.now 1) frame sent decoder next released) := by
  unfold Decoder.storeShard
  by_cases full : frame.group ∉ decoder.groups ∧ maxGroups ≤ decoder.groups.size
  · exact Or.inl ⟨full, if_pos full⟩
  · right
    refine ⟨full, ?_⟩
    rw [if_neg full]
    dsimp only
    obtain ⟨received, follows⟩ := honest.groupFor explains describes (host.now 1)
    generalize old : (decoder.groups.lookup frame.group).getD
      (Group.fresh (host.now 1) frame.data frame.parity) = group at follows ⊢
    have matching : ¬ (group.data ≠ frame.data ∨ group.parity ≠ frame.parity) := by
      rw [follows.data, follows.parity, describes.data, describes.parity]
      simp
    have codeword := (explains.valid sent describes.group.mem).codeword
    rw [← follows.data, ← follows.parity] at codeword
    obtain ⟨next, released, accepted, sameCreated, sameData, sameParity, tracks, distinct,
      releasedIff⟩ := follows.tracks.accept codeword describes.payload
    have nextFollows : ∀ received, group.Follows sent received →
        next.Follows sent (insert frame.index received) := by
      intro other otherFollows
      obtain ⟨otherNext, _, otherAccepted, _, _, _, otherTracks, _, _⟩ :=
        otherFollows.tracks.accept codeword describes.payload
      have same : otherNext = next := by
        rw [accepted] at otherAccepted
        exact (congrArg Prod.fst (Option.some.inj otherAccepted)).symm
      rw [same] at otherTracks
      exact ⟨sameData.trans follows.data, sameParity.trans follows.parity, otherTracks⟩
    rw [follows.data] at releasedIff
    refine ⟨{ decoder with groups := decoder.groups.insert frame.group next }, released, ?_,
      ⟨group, next, old.symm, ⟨received, follows⟩, nextFollows, sameCreated, rfl, releasedIff⟩,
      distinct, fun index member => ((releasedIff index).mp member).1, ?_⟩
    · rw [if_neg matching, accepted]
      rfl
    · refine ⟨?_, honest.packet⟩
      intro id stored found
      rcases Table.of_lookup_insert found with ⟨rfl, rfl⟩ | ⟨_, old⟩
      · exact ⟨sent, _, describes.group, nextFollows received follows⟩
      · exact honest.group id stored old

/-! ### One frame -/

/-- What one honest frame does.  `batch` lists the fragments it makes available
and `ids` the packets it completes. -/
inductive FrameStep (log : SenderLog) (host : Host) (frame : Frame) (before : Decoder) :
    Decoder → List FragmentId → List Nat → Prop
  /-- A sequence number not accepted, or a report frame. -/
  | ignored {after : Decoder} (same : SameStores after before)
      (skipped : (before.observeSeq frame.sequence).2 = false ∨ ¬ frame.IsShard) :
      FrameStep log host frame before after [] []
  /-- A shard of a new group that finds the table full. -/
  | refused {after : Decoder} (fresh : (before.observeSeq frame.sequence).2 = true)
      (isShard : frame.IsShard)
      (pruned : PruneStep (host.now 0) (before.observeSeq frame.sequence).1 after)
      (full : frame.group ∉ after.groups ∧ maxGroups ≤ after.groups.size) :
      FrameStep log host frame before after [] []
  /-- A shard that its group takes. -/
  | stored {pruned stored assembled after : Decoder} {sent : SentGroup} {released ids : List Nat}
      (fresh : (before.observeSeq frame.sequence).2 = true) (isShard : frame.IsShard)
      (describes : log.Describes frame sent)
      (first : PruneStep (host.now 0) (before.observeSeq frame.sequence).1 pruned)
      (room : ¬ (frame.group ∉ pruned.groups ∧ maxGroups ≤ pruned.groups.size))
      (store : ShardStep log (host.now 1) frame sent pruned stored released)
      (fragments : FragmentSteps log host 2 stored
        (released.filterMap fun index => sent.fragments[index]?) assembled ids)
      (last : PruneStep
        (host.now (2 + (released.filterMap fun index => sent.full[index]?).length)) assembled after) :
      FrameStep log host frame before after
        (released.filterMap fun index => sent.fragments[index]?) ids

theorem admissible_of_describes (explains : log.Explains rs encoder) {frame : Frame}
    {sent : SentGroup} (describes : log.Describes frame sent) : Admissible frame := by
  have valid := explains.valid sent describes.group.mem
  have dataPos := valid.data_pos
  have dataLe := valid.data_le
  have parityLe := valid.parity_le
  have size := valid.codeword.size frame.payload (List.mem_of_getElem? describes.payload)
  have within := (List.getElem?_eq_some_iff.mp describes.payload).1
  rw [valid.codeword.length] at within
  unfold dataShards at dataLe
  unfold maxParity at parityLe
  unfold Admissible
  rw [describes.data, describes.parity]
  exact ⟨by omega, by omega, by omega, within, size.1, size.2⟩

/-- One honest frame: the call has a result, outputs only sent datagrams, and
moves the window as `observe_seq` does. -/
theorem Honest.frame {decoder : Decoder} (honest : decoder.Honest log)
    (explains : log.Explains rs encoder) (fits : log.Fits) (host : Host) {frame : Frame}
    (member : frame ∈ log.frames) (session : decoder.session = encoder.session) :
    ∃ next result batch ids,
      decoder.frame rs host frame = some (next, result) ∧
      result.toOption.getD [] = log.payloads ids ∧
      FrameStep log host frame decoder next batch ids ∧
      next.Honest log ∧ SameWindow next (decoder.observeSeq frame.sequence).1 := by
  unfold Decoder.frame
  rw [if_neg (by rw [session, (explains.identity frame member).1]; simp)]
  have stores := observeSeq_sameStores decoder frame.sequence
  have observedHonest := honest.of_sameStores stores
  by_cases fresh : (decoder.observeSeq frame.sequence).2 = true
  · rcases explains.described frame member with report | ⟨sent, describes⟩
    · refine ⟨_, .ok [], [], [], ?_, rfl, FrameStep.ignored stores ?_, observedHonest,
        ⟨rfl, rfl, rfl, rfl⟩⟩
      · simp [fresh, report]
      · exact Or.inr (not_isShard_of_report report)
    · have isShard := describes.isShard
      have notReport : frame.kind ≠ kindReport := fun report =>
        not_isShard_of_report report isShard
      have admissible := admissible_of_describes explains describes
      obtain ⟨pruned, isPruned, first⟩ :=
        prune_step host (host.now 0) (decoder.observeSeq frame.sequence).1
      have prunedHonest := first.honest observedHonest
      simp only [fresh, Bool.true_eq_false, ↓reduceIte, notReport, isShard, not_true_eq_false,
        admissible, Decoder.shardFrame, isPruned, Option.bind_eq_bind, Option.bind_some]
      rcases prunedHonest.storeShard explains host describes with
        ⟨full, refused⟩ | ⟨room, stored, released, isStored, store⟩
      · refine ⟨pruned, .error .tooManyFecGroups, [], [], by simp [refused], rfl,
          FrameStep.refused fresh isShard first full, prunedHonest, ?_⟩
        rw [first.rest]
        exact ⟨rfl, rfl, rfl, rfl⟩
      · obtain ⟨assembled, ids, isAssembled, steps⟩ :=
          store.honest.fragments explains fits host 2 describes.group released store.source
        obtain ⟨next, isNext, last⟩ := prune_step host
          (host.now (2 + (released.filterMap fun index => sent.full[index]?).length)) assembled
        refine ⟨next, .ok (log.payloads ids), _, ids, ?_, rfl,
          FrameStep.stored fresh isShard describes first room store steps last,
          last.honest (steps.honest store.honest), ?_⟩
        · simp [isStored, isAssembled, isNext]
        · obtain ⟨_, _, _, _, _, _, isAfter, _⟩ := store.effect
          rw [last.rest, steps.rest, isAfter, first.rest]
          exact ⟨rfl, rfl, rfl, rfl⟩
  · rw [Bool.not_eq_true] at fresh
    refine ⟨_, .ok [], [], [], ?_, rfl, FrameStep.ignored stores (Or.inl fresh), observedHonest,
      ⟨rfl, rfl, rfl, rfl⟩⟩
    simp [fresh]

end Sender

/-- A report call keeps an honest decoder honest. -/
theorem Honest.sequenceReport {log : SenderLog} {decoder : Decoder} (honest : decoder.Honest log) :
    ∃ next report, decoder.sequenceReport = some (next, report) ∧ next.Honest log ∧
      SameStores next decoder := by
  rcases sequenceReport_cases decoder with ⟨_, equal⟩ | ⟨_, equal⟩
  · exact ⟨_, _, equal, honest, ⟨rfl, rfl, rfl⟩⟩
  · have stores := sequenceReport_sameStores equal
    exact ⟨_, _, equal, honest.of_sameStores stores, stores⟩

end Decoder

/-! ### Integrity -/

/-- The log of a finished run, ready for a receiver. -/
theorem SenderLog.of_calls {rs : ReedSolomon} {session version keyId : Nat} {hook : Option Nat}
    {sent : List Encoder.Call} {encoder : Encoder} {frames : List Frame}
    (small : ∀ payload ∈ Encoder.datagrams sent, payload.length ≤ maxDatagram)
    (ran : (withIdentity session version keyId hook).calls rs sent = some (encoder, frames))
    (fits : encoder.CountersFit) :
    ∃ log : SenderLog, log.Settled rs encoder ∧ log.Fits ∧
      log.datagrams = Encoder.datagrams sent ∧ log.frames = frames ∧
      SameIdentity encoder (withIdentity session version keyId hook) := by
  obtain ⟨settledEncoder, log, settledRan, settled, datagrams, identity⟩ :=
    SenderLog.settled_of_calls rs session version keyId hook sent small
  rw [ran] at settledRan
  cases settledRan
  refine ⟨log, settled, ⟨?_, ?_⟩, datagrams, rfl, identity⟩
  · rw [datagrams]
    exact small
  · have packet := settled.packet
    have bounded := fits.packet
    omega

/-- A decoder that is fed frames of the log only outputs datagrams of the log. -/
theorem Decoder.honest_run {rs : ReedSolomon} {encoder : Encoder} {log : SenderLog}
    (explains : log.Explains rs encoder) (fits : log.Fits) {received : List Decoder.Call}
    (drawn : ∀ frame host, Decoder.Call.frame frame host ∈ received → frame ∈ log.frames) :
    ∃ decoder outputs,
      run (Decoder.call rs) (Decoder.new encoder.session) received = some (decoder, outputs) ∧
      ∀ output ∈ outputs, output ∈ log.datagrams := by
  obtain ⟨decoder, outputs, decoded, _, _, sound⟩ :=
    run_induction (Decoder.call rs) (Decoder.new encoder.session) received
      (fun _ outputs decoder => decoder.Honest log ∧ decoder.session = encoder.session ∧
        ∀ output ∈ outputs, output ∈ log.datagrams)
      ⟨Decoder.honest_new log encoder.session, rfl, by intro output member; cases member⟩
      (by
        rintro past call outputs decoder isPrefix _ ⟨honest, session, sound⟩
        have inReceived := mem_of_front isPrefix
        cases call with
        | frame frame host =>
            obtain ⟨next, result, batch, ids, called, output, _, nextHonest, window⟩ :=
              honest.frame explains fits host (drawn frame host inReceived) session
            refine ⟨next, result.toOption.getD [], by simp [Decoder.call, called], nextHonest, ?_,
              ?_⟩
            · rw [window.session, (Decoder.observeSeq_sameStores decoder frame.sequence).session]
              exact session
            · intro datagram member
              rcases List.mem_append.mp member with old | new
              · exact sound datagram old
              · rw [output] at new
                obtain ⟨id, _, found⟩ := List.mem_filterMap.mp new
                exact List.mem_of_getElem? found
        | sequenceReport =>
            obtain ⟨next, report, called, nextHonest, stores⟩ := honest.sequenceReport
            refine ⟨next, [], by simp [Decoder.call, called], nextHonest, ?_, ?_⟩
            · rw [stores.session]
              exact session
            · rw [List.append_nil]
              exact sound)
  exact ⟨decoder, outputs, decoded, sound⟩

/-- Integrity under any channel and any timing: whatever frames of one encoder
arrive, in whatever order, as often and as late as may be, everything the
decoder outputs is a datagram that was given to the encoder. -/
theorem integrity (rs : ReedSolomon) (session version keyId : Nat) (hook : Option Nat)
    (sent : List Encoder.Call) (encoder : Encoder) (frames : List Frame)
    (received : List Decoder.Call)
    (small : ∀ payload ∈ Encoder.datagrams sent, payload.length ≤ maxDatagram)
    (ran : (withIdentity session version keyId hook).calls rs sent = some (encoder, frames))
    (fits : encoder.CountersFit)
    (drawn : ∀ frame host, Decoder.Call.frame frame host ∈ received → frame ∈ frames) :
    ∃ decoder outputs,
      run (Decoder.call rs) (Decoder.new session) received = some (decoder, outputs) ∧
      ∀ output ∈ outputs, output ∈ Encoder.datagrams sent := by
  obtain ⟨log, settled, logFits, datagrams, rfl, identity⟩ := SenderLog.of_calls small ran fits
  have decoded := Decoder.honest_run settled.toExplains logFits drawn
  have isSession : encoder.session = session := identity.session
  rw [isSession, datagrams] at decoded
  exact decoded

/-! ### A group with one data and one repair frame -/

/-- Three loss reports of twenty percent raise the parity; then one datagram is
sent. -/
def pairCalls : List Encoder.Call :=
  [.adaptiveReport 200_000, .adaptiveReport 200_000, .adaptiveReport 200_000,
    .encodeDatagram [1, 2, 3], .flush]

/-- The data frame (`index = 0`) and the repair frame (`index = 1`) it becomes. -/
def pairFrame (index : Nat) : Frame where
  version := versionV3
  keyId := 1
  kind := if index = 0 then kindData else kindParity
  session := 7
  sequence := 1 + index
  group := 1
  index := index
  data := 1
  parity := 1
  payload := [0, 0, 0, 0, 0, 0, 0, 1, 0, 0, 0, 1, 0, 3, 1, 2, 3]

theorem pair_sent :
    ∃ encoder, (withIdentity 7 versionV3 1 none).calls ReedSolomon.standard pairCalls =
        some (encoder, [pairFrame 0, pairFrame 1]) ∧ encoder.CountersFit :=
  ⟨_, rfl, by decide +kernel, by decide +kernel, by decide +kernel⟩

theorem pair_small : ∀ payload ∈ Encoder.datagrams pairCalls, payload.length ≤ maxDatagram := by
  decide +kernel

/-- The data frame is lost; the repair frame alone brings the datagram. -/
theorem integrity_repair_frame_alone :
    ∃ encoder decoder outputs,
      (withIdentity 7 versionV3 1 none).calls ReedSolomon.standard pairCalls =
        some (encoder, [pairFrame 0, pairFrame 1]) ∧
      run (Decoder.call ReedSolomon.standard) (Decoder.new 7)
        [.frame (pairFrame 1) (Host.at 0)] = some (decoder, outputs) ∧
      outputs = [[1, 2, 3]] ∧ ∀ output ∈ outputs, output ∈ Encoder.datagrams pairCalls := by
  obtain ⟨encoder, sent, fits⟩ := pair_sent
  obtain ⟨decoder, outputs, ran, sound⟩ := integrity ReedSolomon.standard 7 versionV3 1 none
    pairCalls encoder [pairFrame 0, pairFrame 1] [.frame (pairFrame 1) (Host.at 0)]
    pair_small sent fits (by
      intro frame host member
      cases List.mem_singleton.mp member
      exact List.mem_of_getElem? (show [pairFrame 0, pairFrame 1][1]? = _ from rfl))
  have computed : (run (Decoder.call ReedSolomon.standard) (Decoder.new 7)
      [.frame (pairFrame 1) (Host.at 0)]).map Prod.snd = some [[1, 2, 3]] := by
    decide +kernel
  rw [ran, Option.map_some] at computed
  exact ⟨encoder, decoder, outputs, sent, ran, Option.some.inj computed, sound⟩

end SmartFecTunnel.Fec
