import SmartFecTunnel.Fec.Availability

/-!
Contract: recovery is exact.

While nothing expires that is still needed and the tables have room, the outputs
of a decoder are the datagrams that the delivered frames determine, each once.

Owns:
- `Delivery`, the provisions on order of time, acceptance, expiry and room;
- `GroupsTrack`: a stored group has received exactly the delivered positions;
- `PartsTrack`: a stored reassembly holds exactly the available fragments;
- the equality of the outputs with the recoverable datagrams, up to order.
-/

namespace SmartFecTunnel.Fec

open SmartFecTunnel.Library
open Encoder

namespace Decoder

/-! ### Deliveries -/

def Call.delivered : Call → Option Frame
  | .frame given _ => some given
  | .sequenceReport => none

/-- The frames a list of calls delivers. -/
def framesOf (calls : List Call) : List Frame := calls.filterMap Call.delivered

/-- The frame makes a fragment available that was not available before. -/
def MakesAvailable (emitted : List Frame) (past : List Call) (frame : Frame) (id index : Nat) :
    Prop :=
  ¬ Available emitted (framesOf past) id index ∧
    Available emitted (framesOf past ++ [frame]) id index

/-- The first shard frame of group `id` was processed when the clock showed
`time`. -/
def FirstAt (calls : List Call) (id time : Nat) : Prop :=
  ∃ past frame host, past ++ [Call.frame frame host] <+: calls ∧ frame.IsShard ∧ frame.group = id ∧
    (∀ earlier ∈ framesOf past, earlier.IsShard → earlier.group ≠ id) ∧ host.now 1 = time

/-- Some fragment of packet `id` became available in a call whose clock showed
`time` while fragments were processed. -/
def BornAt (emitted : List Frame) (calls : List Call) (id time : Nat) : Prop :=
  ∃ past frame host index reading, past ++ [Call.frame frame host] <+: calls ∧
    MakesAvailable emitted past frame id index ∧ 2 ≤ reading ∧ host.now reading = time

/-- Some but not all fragments of packet `id` are available, and the first of
them for less than the reassembly lifetime. -/
def LivePacket (emitted : List Frame) (datagrams : List Bytes) (calls : List Call)
    (now id : Nat) : Prop :=
  (∃ payload, datagrams[id - 1]? = some payload ∧
    ¬ Recoverable emitted (framesOf calls) id payload) ∧
  ∃ time, BornAt emitted calls id time ∧ now - time < reassemblyTtl

/-- A delivery in which nothing expires while it is needed and the tables have
room. -/
structure Delivery (rs : ReedSolomon) (session : Nat) (emitted : List Frame)
    (datagrams : List Bytes) (calls : List Call) : Prop where
  /-- The clock of one call does not go back. -/
  monotone : ∀ frame host, Call.frame frame host ∈ calls → Monotone host.now
  /-- Nor from one call to a later one. -/
  ordered : ∀ past frame host, past ++ [Call.frame frame host] <+: calls →
    ∀ earlier earlierHost, Call.frame earlier earlierHost ∈ past →
    ∀ first second, earlierHost.now first ≤ host.now second
  /-- The first copy of every shard frame is accepted. -/
  accepted : ∀ past frame host state outputs, past ++ [Call.frame frame host] <+: calls →
    run (Decoder.call rs) (Decoder.new session) past = some (state, outputs) →
    frame ∉ framesOf past → frame.IsShard → (state.observeSeq frame.sequence).2 = true
  /-- The frames of one group are processed within the group lifetime. -/
  groups : ∀ past frame host, past ++ [Call.frame frame host] <+: calls → frame ∉ framesOf past →
    frame.IsShard → ∀ time, FirstAt past frame.group time → host.now 0 - time < groupTtl
  /-- The fragments of one datagram are processed within the reassembly lifetime. -/
  fragments : ∀ past frame host id index, past ++ [Call.frame frame host] <+: calls →
    MakesAvailable emitted past frame id index →
    ∀ time, BornAt emitted past id time → host.now 0 - time < reassemblyTtl
  /-- At most `maxGroups` groups are live. -/
  groupRoom : ∀ past frame host, past ++ [Call.frame frame host] <+: calls → ∀ live : Finset Nat,
    (∀ id ∈ live, ∃ time, FirstAt (past ++ [Call.frame frame host]) id time ∧
      host.now 0 - time < groupTtl) → live.card ≤ maxGroups
  /-- At most `maxReassemblies` incomplete packets are live. -/
  packetRoom : ∀ past frame host, past ++ [Call.frame frame host] <+: calls →
    ∀ (reading : Nat) (live : Finset Nat),
    (∀ id ∈ live, LivePacket emitted datagrams (past ++ [Call.frame frame host])
      (host.now reading) id) → live.card ≤ maxReassemblies

theorem framesOf_snoc_frame (past : List Call) (frame : Frame) (host : Host) :
    framesOf (past ++ [Call.frame frame host]) = framesOf past ++ [frame] := by
  unfold framesOf
  rw [List.filterMap_append]
  rfl

theorem framesOf_snoc_report (past : List Call) :
    framesOf (past ++ [Call.sequenceReport]) = framesOf past := by
  unfold framesOf
  rw [List.filterMap_append]
  exact List.append_nil _

theorem mem_framesOf_of_front {past calls : List Call} {frame other : Frame} {host : Host}
    (isPrefix : past ++ [Call.frame frame host] <+: calls)
    (member : other ∈ framesOf past ++ [frame]) : other ∈ framesOf calls := by
  rw [← framesOf_snoc_frame past frame host] at member
  exact (isPrefix.filterMap Call.delivered).subset member

theorem FirstAt.mono {calls more : List Call} {id time : Nat} (first : FirstAt calls id time)
    (isPrefix : calls <+: more) : FirstAt more id time := by
  obtain ⟨past, frame, host, inside, rest⟩ := first
  exact ⟨past, frame, host, inside.trans isPrefix, rest⟩

theorem BornAt.mono {emitted : List Frame} {calls more : List Call} {id time : Nat}
    (born : BornAt emitted calls id time) (isPrefix : calls <+: more) :
    BornAt emitted more id time := by
  obtain ⟨past, frame, host, index, reading, inside, rest⟩ := born
  exact ⟨past, frame, host, index, reading, inside.trans isPrefix, rest⟩

/-! ### Groups -/

/-- Every stored group has received exactly the delivered positions; a group
that was dropped had expired when the clock showed `clock`. -/
structure GroupsTrack (log : SenderLog) (past : List Call) (clock : Nat) (decoder : Decoder) :
    Prop where
  stored : ∀ id group, decoder.groups.lookup id = some group →
    ∃ sent, log.IsGroup id sent ∧ group.Follows sent (arrived (framesOf past) id) ∧
      FirstAt past id group.created
  dropped : ∀ id, decoder.groups.lookup id = none → (arrived (framesOf past) id).Nonempty →
    ∃ time, FirstAt past id time ∧ groupTtl ≤ clock - time

namespace GroupsTrack

variable {log : SenderLog} {past : List Call} {clock : Nat} {decoder next : Decoder}

theorem prune {now : Nat} (track : GroupsTrack log past clock decoder)
    (step : PruneStep now decoder next) (isLater : clock ≤ now) :
    GroupsTrack log past now next where
  stored := fun id group found => track.stored id group (step.lookup_group.mp found).1
  dropped := by
    intro id notFound someArrived
    cases before : decoder.groups.lookup id with
    | none =>
        obtain ⟨time, first, expired⟩ := track.dropped id before someArrived
        exact ⟨time, first, by omega⟩
    | some group =>
        obtain ⟨_, _, _, first⟩ := track.stored id group before
        refine ⟨group.created, first, ?_⟩
        by_contra alive
        rw [step.lookup_group.mpr ⟨before, by omega⟩] at notFound
        cases notFound

theorem of_sameGroups (track : GroupsTrack log past clock decoder)
    (groups : next.groups = decoder.groups) : GroupsTrack log past clock next where
  stored := by
    rw [groups]
    exact track.stored
  dropped := by
    rw [groups]
    exact track.dropped

/-- A call that delivers nothing new. -/
theorem unchanged {call : Call} (track : GroupsTrack log past clock decoder)
    (same : ∀ id, arrived (framesOf (past ++ [call])) id = arrived (framesOf past) id)
    (groups : next.groups = decoder.groups) :
    GroupsTrack log (past ++ [call]) clock next where
  stored := by
    intro id group found
    rw [groups] at found
    obtain ⟨sent, isGroup, follows, first⟩ := track.stored id group found
    rw [same]
    exact ⟨sent, isGroup, follows, first.mono (List.prefix_append _ _)⟩
  dropped := by
    intro id notFound someArrived
    rw [groups] at notFound
    rw [same] at someArrived
    obtain ⟨time, first, expired⟩ := track.dropped id notFound someArrived
    exact ⟨time, first.mono (List.prefix_append _ _), expired⟩

variable {rs : ReedSolomon} {encoder : Encoder}

/-- A new shard frame whose group has not expired: its group takes the position,
and releases the source positions that become open. -/
theorem store {host : Host} {frame : Frame} {sent : SentGroup} {released : List Nat}
    (explains : log.Explains rs encoder) (track : GroupsTrack log past clock decoder)
    (isShard : frame.IsShard) (describes : log.Describes frame sent)
    (alive : ∀ time, FirstAt past frame.group time → clock - time < groupTtl)
    (step : ShardStep log (host.now 1) frame sent decoder next released) :
    GroupsTrack log (past ++ [Call.frame frame host]) clock next ∧
    ∀ index, index ∈ released ↔ index < sent.fragments.length ∧
      ¬ SenderLog.Open (framesOf past) frame.group sent.fragments.length index ∧
      SenderLog.Open (framesOf past ++ [frame]) frame.group sent.fragments.length index := by
  obtain ⟨old, new, isOld, _, follows, sameCreated, isNext, releasedIff⟩ := step.effect
  have inserted : arrived (framesOf past ++ [frame]) frame.group =
      insert frame.index (arrived (framesOf past) frame.group) := by
    rw [arrived_snoc, if_pos ⟨isShard, rfl⟩]
  -- The group has received the delivered positions, or none was delivered.
  have oldFollows : old.Follows sent (arrived (framesOf past) frame.group) ∧
      FirstAt (past ++ [Call.frame frame host]) frame.group old.created := by
    cases found : decoder.groups.lookup frame.group with
    | some group =>
        rw [found, Option.getD_some] at isOld
        subst isOld
        obtain ⟨other, isGroup, follows, first⟩ := track.stored frame.group old found
        rw [isGroup.unique describes.group] at follows
        exact ⟨follows, first.mono (List.prefix_append _ _)⟩
    | none =>
        have noneArrived : arrived (framesOf past) frame.group = ∅ := by
          by_contra nonempty
          obtain ⟨time, first, expired⟩ :=
            track.dropped frame.group found (Finset.nonempty_iff_ne_empty.mpr nonempty)
          have := alive time first
          omega
        rw [found, Option.getD_none] at isOld
        rw [noneArrived, isOld]
        constructor
        · exact fresh_follows explains describes _
        · refine ⟨past, frame, host, List.prefix_rfl, isShard, rfl, ?_, rfl⟩
          intro earlier inPast earlierShard sameGroup
          have position : earlier.index ∈ arrived (framesOf past) frame.group :=
            mem_arrived.mpr ⟨earlier, inPast, earlierShard, sameGroup, rfl⟩
          rw [noneArrived] at position
          exact absurd position (Finset.notMem_empty _)
  have newFollows := follows _ oldFollows.1
  rw [← inserted] at newFollows
  refine ⟨⟨?_, ?_⟩, ?_⟩
  · intro id group found
    rw [isNext] at found
    rw [framesOf_snoc_frame]
    rcases Table.of_lookup_insert found with ⟨rfl, rfl⟩ | ⟨different, unchanged⟩
    · refine ⟨sent, describes.group, newFollows, ?_⟩
      rw [sameCreated]
      exact oldFollows.2
    · obtain ⟨other, isGroup, otherFollows, first⟩ := track.stored id group unchanged
      rw [arrived_snoc, if_neg (fun belongs => different belongs.2.symm)]
      exact ⟨other, isGroup, otherFollows, first.mono (List.prefix_append _ _)⟩
  · intro id notFound someArrived
    rw [isNext] at notFound
    dsimp only at notFound
    rw [Table.lookup_insert_eq] at notFound
    rw [framesOf_snoc_frame] at someArrived
    split at notFound
    next => cases notFound
    next different =>
      rw [arrived_snoc, if_neg (fun belongs => different belongs.2.symm)] at someArrived
      obtain ⟨time, first, expired⟩ := track.dropped id notFound someArrived
      exact ⟨time, first.mono (List.prefix_append _ _), expired⟩
  · intro index
    rw [releasedIff index]
    constructor
    · rintro ⟨source, empty, filled⟩
      rw [oldFollows.1.tracks.filled_iff (by rw [oldFollows.1.data]; exact source),
        oldFollows.1.data] at empty
      rw [newFollows.tracks.filled_iff (by rw [newFollows.data]; exact source),
        newFollows.data] at filled
      exact ⟨source, empty, filled⟩
    · rintro ⟨source, empty, filled⟩
      refine ⟨source, ?_, ?_⟩
      · rw [oldFollows.1.tracks.filled_iff (by rw [oldFollows.1.data]; exact source),
          oldFollows.1.data]
        exact empty
      · rw [newFollows.tracks.filled_iff (by rw [newFollows.data]; exact source),
          newFollows.data]
        exact filled

/-- `store` with the fragments and the expiry pass that follow it. -/
theorem storeFrame {host : Host} {frame : Frame} {sent : SentGroup}
    {pruned stored assembled : Decoder} {released ids : List Nat} {batch : List FragmentId}
    {last : Nat} (explains : log.Explains rs encoder)
    (track : GroupsTrack log past (host.now 0) pruned) (isShard : frame.IsShard)
    (describes : log.Describes frame sent)
    (alive : ∀ time, FirstAt past frame.group time → host.now 0 - time < groupTtl)
    (store : ShardStep log (host.now 1) frame sent pruned stored released)
    (steps : FragmentSteps log host 2 stored batch assembled ids)
    (pass : PruneStep (host.now last) assembled next) (noEarlier : host.now 0 ≤ host.now last) :
    GroupsTrack log (past ++ [Call.frame frame host]) (host.now last) next := by
  have storedGroups := (track.store explains isShard describes alive store).1
  have sameGroups : assembled.groups = stored.groups := by rw [steps.rest]
  exact (storedGroups.of_sameGroups sameGroups).prune pass noEarlier

/-- A shard frame finds its group's record or a free slot, where few groups are live. -/
theorem not_full {host : Host} {frame : Frame} {pruned : Decoder} {observed : Decoder}
    (track : GroupsTrack log past (host.now 0) pruned)
    (first : PruneStep (host.now 0) observed pruned) (isShard : frame.IsShard)
    (alive : ∀ time, FirstAt past frame.group time → host.now 0 - time < groupTtl)
    (noEarlier : host.now 0 ≤ host.now 1)
    (room : ∀ live : Finset Nat, (∀ id ∈ live, ∃ time,
      FirstAt (past ++ [Call.frame frame host]) id time ∧ host.now 0 - time < groupTtl) →
        live.card ≤ maxGroups) :
    ¬ (frame.group ∉ pruned.groups ∧ maxGroups ≤ pruned.groups.size) := by
  rintro ⟨unrecorded, full⟩
  have ownFirst : FirstAt (past ++ [Call.frame frame host]) frame.group (host.now 1) := by
    refine ⟨past, frame, host, List.prefix_rfl, isShard, rfl, ?_, rfl⟩
    intro earlier member earlierShard sameGroup
    obtain ⟨time, isFirst, expired⟩ := track.dropped frame.group
      (AList.lookup_eq_none.mpr unrecorded)
      ⟨earlier.index, mem_arrived.mpr ⟨earlier, member, earlierShard, sameGroup, rfl⟩⟩
    have stillAlive := alive time isFirst
    omega
  obtain ⟨keys, card, isKey⟩ := pruned.groups.exists_keySet
  have bounded := room (insert frame.group keys) (by
    intro id member
    rcases Finset.mem_insert.mp member with rfl | inKeys
    · refine ⟨host.now 1, ownFirst, ?_⟩
      unfold groupTtl
      omega
    · obtain ⟨group, found⟩ := Table.mem_iff_exists_lookup.mp ((isKey id).mp inKeys)
      obtain ⟨_, _, _, isFirst⟩ := track.stored id group found
      exact ⟨group.created, isFirst.mono (List.prefix_append _ _),
        (first.lookup_group.mp found).2⟩)
  rw [Finset.card_insert_of_notMem (by rw [isKey]; exact unrecorded), card] at bounded
  omega

end GroupsTrack

/-! ### Reassemblies -/

/-- Every stored reassembly holds exactly the available fragments of its packet
and misses one; a packet with available fragments and no reassembly is complete
or had expired when the clock showed `clock`; the completed packets are those
with every fragment available. -/
structure PartsTrack (log : SenderLog) (available : FragmentId → Prop) (born : Nat → Nat → Prop)
    (clock : Nat) (ids : List Nat) (decoder : Decoder) : Prop where
  held : ∀ id index other, decoder.Holds (id, index) →
    (decoder.Holds (id, other) ↔ available (id, other))
  incomplete : ∀ id payload index, log.IsPacket id payload → decoder.Holds (id, index) →
    ∃ other, other < (datagramChunks payload).length ∧ ¬ available (id, other)
  absent : ∀ id payload index, log.IsPacket id payload → available (id, index) →
    (∀ other, ¬ decoder.Holds (id, other)) →
    (∀ other, other < (datagramChunks payload).length → available (id, other)) ∨
      ∃ time, born id time ∧ reassemblyTtl ≤ clock - time
  packets : ∀ id packet, decoder.packets.lookup id = some packet →
    born id packet.created ∧ ∃ index, decoder.Holds (id, index)
  done : ∀ id payload, log.IsPacket id payload →
    (id ∈ ids ↔ ∀ index, index < (datagramChunks payload).length → available (id, index))
  known : ∀ id ∈ ids, ∃ payload, log.IsPacket id payload
  distinct : ids.Nodup

namespace PartsTrack

variable {log : SenderLog} {available : FragmentId → Prop} {born : Nat → Nat → Prop}
  {clock : Nat} {ids : List Nat} {decoder : Decoder}

/-- What the decoder holds of a packet that is alive and not complete is what was available
of it. -/
theorem holds_iff_available (parts : PartsTrack log available born clock ids decoder)
    {fragment : FragmentId} {payload : Bytes} (isPacket : log.IsPacket fragment.1 payload)
    (within : fragment.2 < (datagramChunks payload).length) (isNew : ¬ available fragment)
    (alive : ∀ time, born fragment.1 time → clock - time < reassemblyTtl) (other : Nat) :
    decoder.Holds (fragment.1, other) ↔ available (fragment.1, other) := by
  by_cases something : ∃ index, decoder.Holds (fragment.1, index)
  · obtain ⟨index, isHeld⟩ := something
    exact parts.held fragment.1 index other isHeld
  · push Not at something
    refine ⟨fun isHeld => absurd isHeld (something other), ?_⟩
    intro isAvailable
    rcases parts.absent fragment.1 payload other isPacket isAvailable something with
      complete | ⟨time, isBorn, expired⟩
    · exact absurd (complete fragment.2 within) isNew
    · have := alive time isBorn
      omega

/-- A fragment after which its packet still misses another one. -/
private theorem fragment_pending {now missing : Nat} {fragment : FragmentId} {next : Decoder}
    {payload : Bytes} (parts : PartsTrack log available born clock ids decoder)
    (step : FragmentStep log now fragment decoder next []) (isBorn : born fragment.1 now)
    (isPacket : log.IsPacket fragment.1 payload)
    (heldIff : ∀ other, decoder.Holds (fragment.1, other) ↔ available (fragment.1, other))
    (inside : missing < (datagramChunks payload).length) (different : missing ≠ fragment.2)
    (notHeld : ¬ decoder.Holds (fragment.1, missing))
    (holds : ∀ other, next.Holds other ↔ other = fragment ∨ decoder.Holds other) :
    PartsTrack log (fun other => other = fragment ∨ available other) born clock ids next := by
  have notAvailable : ¬ available (fragment.1, missing) := by
    rw [← heldIff]
    exact notHeld
  have stillMissing : ¬ ((fragment.1, missing) = fragment ∨ available (fragment.1, missing)) := by
    rintro (same | isAvailable)
    · exact different (congrArg Prod.snd same)
    · exact notAvailable isAvailable
  refine ⟨?_, ?_, ?_, ?_, ?_, parts.known, parts.distinct⟩
  · intro id index other isHeld
    rw [holds]
    by_cases same : id = fragment.1
    · subst same
      rw [heldIff]
    · rcases (holds (id, index)).mp isHeld with isFragment | before
      · exact absurd (congrArg Prod.fst isFragment) same
      · rw [parts.held id index other before]
  · intro id other index isOther isHeld
    by_cases same : id = fragment.1
    · subst same
      rw [isOther.unique isPacket]
      exact ⟨missing, inside, stillMissing⟩
    · rcases (holds (id, index)).mp isHeld with isFragment | before
      · exact absurd (congrArg Prod.fst isFragment) same
      · obtain ⟨lacking, lackingInside, lacks⟩ := parts.incomplete id other index isOther before
        refine ⟨lacking, lackingInside, ?_⟩
        rintro (isFragment | isAvailable)
        · exact same (congrArg Prod.fst isFragment)
        · exact lacks isAvailable
  · intro id other index isOther isAvailable nothing
    rcases isAvailable with isFragment | before
    · exact absurd ((holds (id, index)).mpr (Or.inl isFragment)) (nothing index)
    · have nothingBefore : ∀ other, ¬ decoder.Holds (id, other) := fun other isHeld =>
        nothing other ((holds (id, other)).mpr (Or.inr isHeld))
      rcases parts.absent id other index isOther before nothingBefore with complete | expired
      · exact Or.inl fun position positionInside => Or.inr (complete position positionInside)
      · exact Or.inr expired
  · intro id packet found
    rcases step.packets id packet found with ⟨rfl, _, isCreated⟩ | before
    · refine ⟨?_, fragment.2, (holds fragment).mpr (Or.inl rfl)⟩
      rcases isCreated with isNow | ⟨earlier, isEarlier, sameCreated⟩
      · rw [isNow]
        exact isBorn
      · rw [← sameCreated]
        exact (parts.packets fragment.1 earlier isEarlier).1
    · obtain ⟨bornBefore, index, isHeld⟩ := parts.packets id packet before
      exact ⟨bornBefore, index, (holds (id, index)).mpr (Or.inr isHeld)⟩
  · intro id other isOther
    rw [parts.done id other isOther]
    constructor
    · exact fun all index inside => Or.inr (all index inside)
    · intro all index inside'
      by_cases same : id = fragment.1
      · subst same
        rw [isOther.unique isPacket] at all
        exact absurd (all missing inside) stillMissing
      · rcases all index inside' with isFragment | isAvailable
        · exact absurd (congrArg Prod.fst isFragment) same
        · exact isAvailable

/-- The last fragment of a packet, whose reassembly then is gone. -/
private theorem fragment_completed {now : Nat} {fragment : FragmentId} {next : Decoder}
    {payload : Bytes} (parts : PartsTrack log available born clock ids decoder)
    (step : FragmentStep log now fragment decoder next [fragment.1])
    (isNew : ¬ available fragment) (isPacket : log.IsPacket fragment.1 payload)
    (within : fragment.2 < (datagramChunks payload).length)
    (heldIff : ∀ other, decoder.Holds (fragment.1, other) ↔ available (fragment.1, other))
    (others : ∀ index, index < (datagramChunks payload).length → index ≠ fragment.2 →
      decoder.Holds (fragment.1, index))
    (holds : ∀ other, next.Holds other ↔ other.1 ≠ fragment.1 ∧ decoder.Holds other) :
    PartsTrack log (fun other => other = fragment ∨ available other) born clock
      (ids ++ [fragment.1]) next := by
  have complete : ∀ index, index < (datagramChunks payload).length →
      (fragment.1, index) = fragment ∨ available (fragment.1, index) := by
    intro index inside
    by_cases same : index = fragment.2
    · subst same
      exact Or.inl rfl
    · right
      rw [← heldIff]
      exact others index inside same
  have notDone : fragment.1 ∉ ids := by
    rw [parts.done fragment.1 payload isPacket]
    exact fun all => isNew (all fragment.2 within)
  refine ⟨?_, ?_, ?_, ?_, ?_, ?_, ?_⟩
  · intro id index other isHeld
    obtain ⟨same, before⟩ := (holds (id, index)).mp isHeld
    rw [holds, parts.held id index other before]
    constructor
    · exact fun isAvailable => Or.inr isAvailable.2
    · rintro (isFragment | isAvailable)
      · exact absurd (congrArg Prod.fst isFragment) same
      · exact ⟨same, isAvailable⟩
  · intro id other index isOther isHeld
    obtain ⟨same, before⟩ := (holds (id, index)).mp isHeld
    obtain ⟨lacking, lackingInside, lacks⟩ := parts.incomplete id other index isOther before
    refine ⟨lacking, lackingInside, ?_⟩
    rintro (isFragment | isAvailable)
    · exact same (show id = fragment.1 from congrArg Prod.fst isFragment)
    · exact lacks isAvailable
  · intro id other index isOther isAvailable nothing
    by_cases same : id = fragment.1
    · subst same
      left
      rw [isOther.unique isPacket]
      exact complete
    · have before : available (id, index) :=
        isAvailable.resolve_left fun isFragment => same (congrArg Prod.fst isFragment)
      have nothingBefore : ∀ other, ¬ decoder.Holds (id, other) := fun other isHeld =>
        nothing other ((holds (id, other)).mpr ⟨same, isHeld⟩)
      rcases parts.absent id other index isOther before nothingBefore with all | expired
      · exact Or.inl fun position positionInside => Or.inr (all position positionInside)
      · exact Or.inr expired
  · intro id packet found
    rcases step.packets id packet found with ⟨rfl, filled, _⟩ | before
    · exact absurd rfl ((holds fragment).mp ⟨packet, found, filled⟩).1
    · obtain ⟨bornBefore, index, isHeld⟩ := parts.packets id packet before
      refine ⟨bornBefore, ?_⟩
      obtain ⟨stored, isStored, filled⟩ := isHeld
      have sameStored := Option.some.inj (before.symm.trans isStored)
      subst sameStored
      exact ⟨index, packet, found, filled⟩
  · intro id other isOther
    rw [List.mem_append, List.mem_singleton, parts.done id other isOther]
    constructor
    · rintro (all | rfl)
      · exact fun index inside => Or.inr (all index inside)
      · rw [isOther.unique isPacket]
        exact complete
    · intro all
      by_cases same : id = fragment.1
      · exact Or.inr same
      · left
        intro index inside
        exact (all index inside).resolve_left fun isFragment =>
          same (congrArg Prod.fst isFragment)
  · intro id member
    rcases List.mem_append.mp member with old | new
    · exact parts.known id old
    · rw [List.mem_singleton] at new
      subst new
      exact ⟨payload, isPacket⟩
  · refine List.nodup_append.mpr ⟨parts.distinct, List.nodup_singleton _, ?_⟩
    intro left inLeft right inRight
    rw [List.mem_singleton] at inRight
    rintro rfl
    exact notDone (inRight ▸ inLeft)

/-- A fragment that becomes available while its packet is alive. -/
theorem fragmentStep {now : Nat} {fragment : FragmentId} {next : Decoder} {new : List Nat}
    (parts : PartsTrack log available born clock ids decoder)
    (step : FragmentStep log now fragment decoder next new) (isNew : ¬ available fragment)
    (isBorn : born fragment.1 now)
    (alive : ∀ time, born fragment.1 time → clock - time < reassemblyTtl) :
    PartsTrack log (fun other => other = fragment ∨ available other) born clock (ids ++ new)
      next := by
  obtain ⟨payload, isPacket, within, effect⟩ := step.effect
  have heldIff := parts.holds_iff_available isPacket within isNew alive
  obtain ⟨rfl, ⟨missing, inside, different, notHeld⟩, holds⟩ | ⟨rfl, others, holds⟩ := effect
  · rw [List.append_nil]
    exact parts.fragment_pending step isBorn isPacket heldIff inside different notHeld holds
  · exact parts.fragment_completed step isNew isPacket within heldIff others holds

/-- The same facts under equivalent descriptions, at a later time. -/
theorem congr {other : FragmentId → Prop} {more : Nat → Nat → Prop} {later : Nat}
    {next : Decoder} (parts : PartsTrack log available born clock ids decoder)
    (same : ∀ fragment, available fragment ↔ other fragment)
    (bornMore : ∀ id time, born id time → more id time) (isLater : clock ≤ later)
    (packets : next.packets = decoder.packets) :
    PartsTrack log other more later ids next := by
  have holds : ∀ fragment, next.Holds fragment ↔ decoder.Holds fragment := by
    intro fragment
    unfold Holds
    rw [packets]
  refine ⟨?_, ?_, ?_, ?_, ?_, parts.known, parts.distinct⟩
  · intro id index position isHeld
    rw [holds] at isHeld
    rw [holds, parts.held id index position isHeld, same]
  · intro id payload index isPacket isHeld
    obtain ⟨lacking, inside, lacks⟩ :=
      parts.incomplete id payload index isPacket ((holds _).mp isHeld)
    exact ⟨lacking, inside, by rw [← same]; exact lacks⟩
  · intro id payload index isPacket isAvailable nothing
    rcases parts.absent id payload index isPacket ((same _).mpr isAvailable)
      (fun position isHeld => nothing position ((holds _).mpr isHeld)) with
      complete | ⟨time, isBorn, expired⟩
    · exact Or.inl fun position inside => (same _).mp (complete position inside)
    · exact Or.inr ⟨time, bornMore id time isBorn, by omega⟩
  · intro id packet found
    rw [packets] at found
    obtain ⟨isBorn, index, isHeld⟩ := parts.packets id packet found
    exact ⟨bornMore id _ isBorn, index, (holds _).mpr isHeld⟩
  · intro id payload isPacket
    rw [parts.done id payload isPacket]
    simp only [same]

theorem fragmentSteps {host : Host} {reading : Nat} {next : Decoder} {batch : List FragmentId}
    {new : List Nat} (parts : PartsTrack log available born clock ids decoder)
    (steps : FragmentSteps log host reading decoder batch next new) (distinct : batch.Nodup)
    (isNew : ∀ fragment ∈ batch, ¬ available fragment)
    (isBorn : ∀ fragment ∈ batch, ∀ later, reading ≤ later → born fragment.1 (host.now later))
    (alive : ∀ fragment ∈ batch, ∀ time, born fragment.1 time → clock - time < reassemblyTtl) :
    PartsTrack log (fun other => other ∈ batch ∨ available other) born clock (ids ++ new)
      next := by
  induction steps generalizing available ids with
  | nil =>
      rw [List.append_nil]
      apply parts.congr _ (fun _ _ isBorn => isBorn) (Nat.le_refl _) rfl
      intro fragment
      simp
  | cons step steps inductionHypothesis =>
      obtain ⟨notLater, restDistinct⟩ := List.nodup_cons.mp distinct
      have first := parts.fragmentStep step (isNew _ List.mem_cons_self)
        (isBorn _ List.mem_cons_self _ (Nat.le_refl _)) (alive _ List.mem_cons_self)
      have rest := inductionHypothesis first restDistinct
        (by
          rintro fragment inRest (rfl | isAvailable)
          · exact notLater inRest
          · exact isNew fragment (List.mem_cons_of_mem _ inRest) isAvailable)
        (fun fragment inRest later isLater =>
          isBorn fragment (List.mem_cons_of_mem _ inRest) later (by omega))
        (fun fragment inRest => alive fragment (List.mem_cons_of_mem _ inRest))
      rw [List.append_assoc] at rest
      apply rest.congr _ (fun _ _ isBorn => isBorn) (Nat.le_refl _) rfl
      intro fragment
      rw [List.mem_cons]
      tauto

/-- An expiry pass that evicts nothing. -/
theorem prune {now : Nat} {next : Decoder}
    (parts : PartsTrack log available born clock ids decoder) (step : PruneStep now decoder next)
    (isLater : clock ≤ now) (room : (freshPackets now decoder.packets).size ≤ maxReassemblies) :
    PartsTrack log available born now ids next := by
  have kept := step.kept room
  have holdsSame : ∀ id index other, next.Holds (id, index) →
      (next.Holds (id, other) ↔ decoder.Holds (id, other)) := by
    rintro id index other ⟨packet, found, _⟩
    have before := (step.lookup_packet found).1
    unfold Holds
    dsimp only at found ⊢
    rw [found, before]
  refine ⟨?_, ?_, ?_, ?_, parts.done, parts.known, parts.distinct⟩
  · intro id index other isHeld
    rw [holdsSame id index other isHeld]
    exact parts.held id index other (step.holds isHeld)
  · intro id payload index isPacket isHeld
    exact parts.incomplete id payload index isPacket (step.holds isHeld)
  · intro id payload index isPacket isAvailable nothing
    by_cases something : ∃ other, decoder.Holds (id, other)
    · -- The reassembly was there and has expired.
      right
      obtain ⟨other, packet, found, filled⟩ := something
      refine ⟨packet.created, (parts.packets id packet found).1, ?_⟩
      by_contra alive
      apply nothing other
      refine ⟨packet, ?_, filled⟩
      rw [kept, freshPackets]
      exact Table.lookup_retain_of_keep found (decide_eq_true (by omega))
    · push Not at something
      rcases parts.absent id payload index isPacket isAvailable something with
        complete | ⟨time, isBorn, expired⟩
      · exact Or.inl complete
      · exact Or.inr ⟨time, isBorn, by omega⟩
  · intro id packet found
    obtain ⟨isBorn, index, stored, isStored, filled⟩ :=
      parts.packets id packet (step.lookup_packet found).1
    have sameStored := Option.some.inj ((step.lookup_packet found).1.symm.trans isStored)
    subst sameStored
    exact ⟨isBorn, index, packet, found, filled⟩

end PartsTrack

/-! ### Runs -/

/-- What holds along a delivery. -/
structure Exact (log : SenderLog) (session : Nat) (past : List Call) (outputs : List Bytes)
    (decoder : Decoder) : Prop where
  isSession : decoder.session = session
  honest : decoder.Honest log
  safe : decoder.Safe
  history : ∃ accepted ids clock, Window accepted decoder ∧
    (∀ frame ∈ framesOf past, frame.IsShard → frame.sequence ∈ accepted) ∧
    (clock = 0 ∨ ∃ frame host reading, Call.frame frame host ∈ past ∧ clock = host.now reading) ∧
    GroupsTrack log past clock decoder ∧
    PartsTrack log (log.Reaches (framesOf past)) (BornAt log.frames past) clock ids decoder ∧
    outputs = log.payloads ids

/-- A reading of an earlier call stays one. -/
theorem reading_snoc {past : List Call} {clock : Nat}
    (isClock : clock = 0 ∨
      ∃ frame host reading, Call.frame frame host ∈ past ∧ clock = host.now reading)
    (call : Call) :
    clock = 0 ∨
      ∃ frame host reading, Call.frame frame host ∈ past ++ [call] ∧ clock = host.now reading := by
  rcases isClock with zero | ⟨frame, host, reading, member, isReading⟩
  · exact Or.inl zero
  · exact Or.inr ⟨frame, host, reading, List.mem_append_left _ member, isReading⟩

theorem exact_new (log : SenderLog) (session : Nat) :
    Exact log session [] [] (Decoder.new session) where
  isSession := rfl
  honest := honest_new log session
  safe := safe_new session
  history := by
    have nothing : ∀ fragment, ¬ log.Reaches (framesOf []) fragment := by
      rintro fragment ⟨id, sent, index, isGroup, placed, direct | enough⟩
      · obtain ⟨frame, member, _⟩ := mem_arrived.mp direct
        cases member
      · have source := (List.getElem?_eq_some_iff.mp placed).1
        have none : (arrived (framesOf []) id).card = 0 := rfl
        omega
    refine ⟨[], [], 0, window_new session, ?_, Or.inl rfl, ⟨?_, ?_⟩, ⟨?_, ?_, ?_, ?_, ?_, ?_,
      List.nodup_nil⟩, rfl⟩
    · intro frame member
      cases member
    · intro id group found
      cases found
    · intro id _ someArrived
      exact absurd someArrived Finset.not_nonempty_empty
    · intro id index other isHeld
      exact absurd isHeld (not_holds_new session _)
    · intro id payload index _ isHeld
      exact absurd isHeld (not_holds_new session _)
    · intro id payload index _ reached
      exact absurd reached (nothing _)
    · intro id packet found
      cases found
    · intro id payload _
      refine ⟨fun member => absurd member List.not_mem_nil, ?_⟩
      intro all
      exact absurd (all 0 (datagramChunks_pos payload)) (nothing _)
    · intro id member
      cases member

namespace Exact

variable {rs : ReedSolomon} {session : Nat} {log : SenderLog} {past : List Call}
  {outputs : List Bytes} {decoder : Decoder} {encoder : Encoder} {calls : List Call}

theorem sequenceReport (exact_ : Exact log session past outputs decoder) :
    ∃ next emitted, decoder.call rs .sequenceReport = some (next, emitted) ∧
      Exact log session (past ++ [Call.sequenceReport]) (outputs ++ emitted) next := by
  obtain ⟨next, report, reported, nextHonest, stores⟩ := exact_.honest.sequenceReport
  obtain ⟨accepted, ids, clock, window, known, isClock, groups, parts, isOutputs⟩ := exact_.history
  refine ⟨next, [], by simp [Decoder.call, reported], ?_, nextHonest,
    exact_.safe.of_sameStores stores, accepted, ids, clock, window.report reported, ?_,
    reading_snoc isClock _, ?_, ?_, ?_⟩
  · rw [stores.session]
    exact exact_.isSession
  · rw [framesOf_snoc_report]
    exact known
  · exact groups.unchanged (fun id => by rw [framesOf_snoc_report]) stores.groups
  · rw [framesOf_snoc_report]
    exact parts.congr (fun _ => Iff.rfl)
      (fun _ _ born => born.mono (List.prefix_append _ _)) (Nat.le_refl _) stores.packets
  · rw [List.append_nil]
    exact isOutputs

/-- A frame that delivers nothing new. -/
private theorem ignored {frame : Frame} (host : Host) {next : Decoder} {accepted ids : List Nat}
    {clock : Nat} (known : frame.IsShard → frame ∈ framesOf past)
    (same : SameStores next decoder) (groups : GroupsTrack log past clock decoder)
    (parts : PartsTrack log (log.Reaches (framesOf past)) (BornAt log.frames past) clock ids
      decoder)
    (accepts : ∀ frame ∈ framesOf past, frame.IsShard → frame.sequence ∈ accepted) :
    GroupsTrack log (past ++ [Call.frame frame host]) clock next ∧
    PartsTrack log (log.Reaches (framesOf (past ++ [Call.frame frame host])))
      (BornAt log.frames (past ++ [Call.frame frame host])) clock ids next ∧
    ∀ other ∈ framesOf (past ++ [Call.frame frame host]), other.IsShard →
      other.sequence ∈ accepted := by
  have sameArrived : ∀ id, arrived (framesOf past ++ [frame]) id = arrived (framesOf past) id :=
    arrived_snoc_of_known known
  rw [framesOf_snoc_frame]
  refine ⟨groups.unchanged (fun id => by rw [framesOf_snoc_frame]; exact sameArrived id)
    same.groups, parts.congr ?_ (fun _ _ born => born.mono (List.prefix_append _ _))
      (Nat.le_refl _) same.packets, ?_⟩
  · intro fragment
    constructor
    · exact fun reached => reached.of_arrived fun id => (sameArrived id).symm.subset
    · exact fun reached => reached.of_arrived fun id => (sameArrived id).subset
  · intro other member isShard
    rcases List.mem_append.mp member with old | new
    · exact accepts other old isShard
    · rw [List.mem_singleton] at new
      subst new
      exact accepts other (known isShard) isShard

variable {datagrams : List Bytes} (delivery : Delivery rs session log.frames datagrams calls)

include delivery

theorem clock_le {frame : Frame} {host : Host} {clock : Nat}
    (isPrefix : past ++ [Call.frame frame host] <+: calls)
    (isClock : clock = 0 ∨
      ∃ frame host reading, Call.frame frame host ∈ past ∧ clock = host.now reading)
    (reading : Nat) : clock ≤ host.now reading := by
  rcases isClock with zero | ⟨earlier, earlierHost, earlierReading, member, isReading⟩
  · omega
  · rw [isReading]
    exact delivery.ordered past frame host isPrefix earlier earlierHost member _ _

/-- The incomplete packets have room after the fragments of a call. -/
private theorem packets_room {frame : Frame} {host : Host} {assembled : Decoder} {clock : Nat}
    {ids : List Nat} (isPrefix : past ++ [Call.frame frame host] <+: calls)
    (explains : log.Explains rs encoder) (fits : log.Fits) (isDatagrams : log.datagrams = datagrams)
    (drawn : ∀ frame ∈ framesOf calls, frame ∈ log.frames)
    (honest : assembled.Honest log)
    (parts : PartsTrack log (log.Reaches (framesOf past ++ [frame]))
      (BornAt log.frames (past ++ [Call.frame frame host])) clock ids assembled) (reading : Nat) :
    (freshPackets (host.now reading) assembled.packets).size ≤ maxReassemblies := by
  obtain ⟨keys, card, isKey⟩ := (freshPackets (host.now reading) assembled.packets).exists_keySet
  rw [← card]
  apply delivery.packetRoom past frame host isPrefix reading keys
  intro id inKeys
  obtain ⟨packet, fresh⟩ := Table.mem_iff_exists_lookup.mp ((isKey id).mp inKeys)
  have found := Table.lookup_of_lookup_retain fresh
  have notExpired : host.now reading - packet.created < reassemblyTtl := by
    rw [freshPackets, Table.lookup_retain, found] at fresh
    simpa [Option.filter_eq_some_iff] using fresh
  obtain ⟨isBorn, index, isHeld⟩ := parts.packets id packet found
  obtain ⟨payload, isPacket, _⟩ := honest.packet id packet found
  obtain ⟨other, inside, unreached⟩ := parts.incomplete id payload index isPacket isHeld
  refine ⟨⟨payload, by rw [← isDatagrams]; exact isPacket.2, ?_⟩, packet.created, isBorn,
    notExpired⟩
  intro all
  apply unreached
  have drawnPast : ∀ other ∈ framesOf past ++ [frame], other ∈ log.frames := fun other member =>
    drawn other (mem_framesOf_of_front isPrefix member)
  rw [← explains.available_iff fits drawnPast, ← framesOf_snoc_frame past frame host]
  exact all other inside

/-- A new shard frame that its group takes. -/
private theorem stored {frame : Frame} {host : Host} {sent : SentGroup}
    {pruned stored assembled next : Decoder} {released ids new : List Nat} {last : Nat}
    (isPrefix : past ++ [Call.frame frame host] <+: calls) (settled : log.Settled rs encoder)
    (fits : log.Fits) (isDatagrams : log.datagrams = datagrams)
    (drawn : ∀ frame ∈ framesOf calls, frame ∈ log.frames) (isNew : frame ∉ framesOf past)
    (isShard : frame.IsShard) (describes : log.Describes frame sent)
    (groups : GroupsTrack log past (host.now 0) pruned)
    (parts : PartsTrack log (log.Reaches (framesOf past)) (BornAt log.frames past) (host.now 0) ids
      pruned)
    (store : ShardStep log (host.now 1) frame sent pruned stored released)
    (steps : FragmentSteps log host 2 stored
      (released.filterMap fun index => sent.fragments[index]?) assembled new)
    (pass : PruneStep (host.now last) assembled next) :
    GroupsTrack log (past ++ [Call.frame frame host]) (host.now last) next ∧
    PartsTrack log (log.Reaches (framesOf (past ++ [Call.frame frame host])))
      (BornAt log.frames (past ++ [Call.frame frame host])) (host.now last) (ids ++ new) next := by
  have inCalls := mem_of_front isPrefix
  have noEarlier : ∀ reading, host.now 0 ≤ host.now reading := fun reading =>
    delivery.monotone frame host inCalls (Nat.zero_le reading)
  have drawnNow : ∀ other ∈ framesOf past ++ [frame], other ∈ log.frames := fun other member =>
    drawn other (mem_framesOf_of_front isPrefix member)
  have drawnPast : ∀ other ∈ framesOf past, other ∈ log.frames := fun other member =>
    drawnNow other (List.mem_append_left _ member)
  have alive := delivery.groups past frame host isPrefix isNew isShard
  have releasedIff := (groups.store settled.toExplains isShard describes alive store).2
  obtain ⟨_, _, _, _, _, _, isStored, _⟩ := store.effect
  -- The batch consists of the fragments that this frame makes available.
  have inBatch : ∀ fragment, fragment ∈ (released.filterMap fun index => sent.fragments[index]?) ↔
      ∃ index, sent.fragments[index]? = some fragment ∧
        ¬ SenderLog.Open (framesOf past) frame.group sent.fragments.length index ∧
        SenderLog.Open (framesOf past ++ [frame]) frame.group sent.fragments.length index := by
    intro fragment
    rw [List.mem_filterMap]
    constructor
    · rintro ⟨index, inReleased, placed⟩
      exact ⟨index, placed, ((releasedIff index).mp inReleased).2⟩
    · rintro ⟨index, placed, change⟩
      exact ⟨index, (releasedIff index).mpr ⟨(List.getElem?_eq_some_iff.mp placed).1, change⟩,
        placed⟩
  have reachesIff : ∀ fragment, log.Reaches (framesOf past ++ [frame]) fragment ↔
      fragment ∈ (released.filterMap fun index => sent.fragments[index]?) ∨
        log.Reaches (framesOf past) fragment := by
    intro fragment
    rw [(settled.reaches_snoc (framesOf past) describes fragment).1, inBatch fragment]
  have batchNew : ∀ fragment ∈ (released.filterMap fun index => sent.fragments[index]?),
      ¬ log.Reaches (framesOf past) fragment := by
    intro fragment member
    obtain ⟨index, placed, closed, _⟩ := (inBatch fragment).mp member
    exact (settled.reaches_snoc (framesOf past) describes fragment).2 index placed closed
  have makes : ∀ fragment ∈ (released.filterMap fun index => sent.fragments[index]?),
      MakesAvailable log.frames past frame fragment.1 fragment.2 := by
    intro fragment member
    unfold MakesAvailable
    rw [settled.available_iff fits drawnPast, settled.available_iff fits drawnNow]
    exact ⟨batchNew fragment member, (reachesIff fragment).mpr (Or.inl member)⟩
  have storedParts : PartsTrack log (log.Reaches (framesOf past))
      (BornAt log.frames (past ++ [Call.frame frame host])) (host.now 0) ids stored := by
    apply parts.congr (fun _ => Iff.rfl) (fun _ _ born => born.mono (List.prefix_append _ _))
      (Nat.le_refl _)
    rw [isStored]
  have distinct : (released.filterMap fun index => sent.fragments[index]?).Nodup := by
    apply store.distinct.filterMap
    intro left right fragment isLeft isRight
    exact (settled.placedAt_unique ⟨sent, describes.group, isLeft⟩
      ⟨sent, describes.group, isRight⟩).2
  have assembledParts := storedParts.fragmentSteps steps distinct batchNew
    (by
      intro fragment member later isLater
      exact ⟨past, frame, host, fragment.2, later, List.prefix_rfl, makes fragment member, isLater,
        rfl⟩)
    (by
      rintro fragment member time
        ⟨bornPast, bornFrame, bornHost, bornIndex, reading, inside, bornMakes, low, rfl⟩
      rcases List.prefix_concat_iff.mp inside with isLast | earlier
      · -- A fragment of this very call.
        have same := List.append_inj_right' isLast rfl
        cases same
        have := noEarlier reading
        unfold reassemblyTtl
        omega
      · exact delivery.fragments past frame host fragment.1 fragment.2 isPrefix
          (makes fragment member) _ ⟨bornPast, bornFrame, bornHost, bornIndex, reading, earlier,
            bornMakes, low, rfl⟩)
  have nowParts : PartsTrack log (log.Reaches (framesOf past ++ [frame]))
      (BornAt log.frames (past ++ [Call.frame frame host])) (host.now 0) (ids ++ new) assembled :=
    assembledParts.congr (fun fragment => (reachesIff fragment).symm) (fun _ _ born => born)
      (Nat.le_refl _) rfl
  have assembledHonest := steps.honest store.honest
  refine ⟨groups.storeFrame settled.toExplains isShard describes alive store steps pass
    (noEarlier last), ?_⟩
  rw [framesOf_snoc_frame]
  exact nowParts.prune pass (noEarlier last)
    (packets_room delivery isPrefix settled.toExplains fits isDatagrams drawn assembledHonest
      nowParts last)

theorem frame {frame : Frame} {host : Host} (isPrefix : past ++ [Call.frame frame host] <+: calls)
    (settled : log.Settled rs encoder) (fits : log.Fits) (isDatagrams : log.datagrams = datagrams)
    (drawn : ∀ frame ∈ framesOf calls, frame ∈ log.frames)
    (isSession : encoder.session = session)
    (ran : run (Decoder.call rs) (Decoder.new session) past = some (decoder, outputs))
    (exact_ : Exact log session past outputs decoder) :
    ∃ next emitted, decoder.call rs (.frame frame host) = some (next, emitted) ∧
      Exact log session (past ++ [Call.frame frame host]) (outputs ++ emitted) next := by
  obtain ⟨accepted, ids, clock, window, known, isClock, groups, parts, isOutputs⟩ := exact_.history
  have member : frame ∈ log.frames :=
    drawn frame (mem_framesOf_of_front isPrefix List.mem_concat_self)
  obtain ⟨next, result, batch, new, called, isEmitted, step, nextHonest, sameWindow⟩ :=
    exact_.honest.frame settled.toExplains fits host member
      (exact_.isSession.trans isSession.symm)
  obtain ⟨safeNext, safeResult, safeCalled, nextSafe⟩ := exact_.safe.frame rs host frame
  rw [called] at safeCalled
  cases safeCalled
  obtain ⟨isFresh, observedWindow⟩ := window.observe frame.sequence
  have nextWindow := observedWindow.of_sameWindow sameWindow
  have observed := observeSeq_sameStores decoder frame.sequence
  have laterClock := clock_le delivery isPrefix isClock 0
  have isNow : Call.frame frame host ∈ past ++ [Call.frame frame host] := List.mem_concat_self
  -- A frame accepted now was not delivered before.
  have newIfFresh : (decoder.observeSeq frame.sequence).2 = true → frame.IsShard →
      frame ∉ framesOf past := fun fresh isShard old => isFresh fresh (known frame old isShard)
  refine ⟨next, log.payloads new, by simp [Decoder.call, called, isEmitted], ?_, nextHonest,
    nextSafe, ?_⟩
  · rw [sameWindow.session, observed.session]
    exact exact_.isSession
  · have isAll : outputs ++ log.payloads new = log.payloads (ids ++ new) := by
      rw [isOutputs, SenderLog.payloads_append]
    have prunedTracks : ∀ {pruned},
        PruneStep (host.now 0) (decoder.observeSeq frame.sequence).1 pruned →
        GroupsTrack log past (host.now 0) pruned ∧
        PartsTrack log (log.Reaches (framesOf past)) (BornAt log.frames past) (host.now 0) ids
          pruned := by
      intro pruned first
      have observedGroups := groups.of_sameGroups observed.groups
      have observedParts := parts.congr (fun _ => Iff.rfl) (fun _ _ born => born) (Nat.le_refl _)
        observed.packets
      refine ⟨observedGroups.prune first laterClock, observedParts.prune first laterClock ?_⟩
      rw [observed.packets]
      exact (Table.size_retain_le _ _).trans exact_.safe.packets_size
    cases step with
    | ignored same skipped =>
        have old : frame.IsShard → frame ∈ framesOf past := by
          intro isShard
          by_contra isNew
          have fresh := delivery.accepted past frame host decoder outputs isPrefix ran isNew isShard
          rcases skipped with rejected | noShard
          · rw [fresh] at rejected
            cases rejected
          · exact noShard isShard
        obtain ⟨nextGroups, nextParts, nextKnown⟩ :=
          ignored host old same groups parts known
        refine ⟨_, ids ++ [], clock, nextWindow, ?_, reading_snoc isClock _, nextGroups, ?_, isAll⟩
        · intro other inNow isShard
          have inAccepted := nextKnown other inNow isShard
          split
          · exact List.mem_append_left _ inAccepted
          · exact inAccepted
        · rw [List.append_nil]
          exact nextParts
    | refused fresh isShard pruned full =>
        have inCalls := mem_of_front isPrefix
        exact absurd full ((prunedTracks pruned).1.not_full pruned isShard
          (delivery.groups past frame host isPrefix (newIfFresh fresh isShard) isShard)
          (delivery.monotone frame host inCalls (Nat.zero_le 1))
          (delivery.groupRoom past frame host isPrefix))
    | stored fresh isShard describes first room store fragments last =>
        obtain ⟨prunedGroups, prunedParts⟩ := prunedTracks first
        obtain ⟨nextGroups, nextParts⟩ := stored delivery isPrefix settled fits isDatagrams drawn
          (newIfFresh fresh isShard) isShard describes prunedGroups prunedParts store fragments last
        refine ⟨_, _, _, nextWindow, ?_, Or.inr ⟨frame, host, _, isNow, rfl⟩, nextGroups, nextParts,
          isAll⟩
        intro other inNow otherShard
        rw [if_pos fresh]
        rw [framesOf_snoc_frame] at inNow
        rcases List.mem_append.mp inNow with old | new
        · exact List.mem_append_left _ (known other old otherShard)
        · rw [List.mem_singleton] at new
          subst new
          exact List.mem_concat_self

end Exact

end Decoder

/-- A list of exactly the recoverable packet ids selects the recoverable
datagrams. -/
theorem SenderLog.payloads_perm_recoverable {log : SenderLog} {delivered : List Frame}
    {ids : List Nat} (distinct : ids.Nodup) (known : ∀ id ∈ ids, ∃ payload, log.IsPacket id payload)
    (exactly : ∀ id payload, log.IsPacket id payload →
      (id ∈ ids ↔ Recoverable log.frames delivered id payload)) :
    (log.payloads ids).Perm (recoverable log.frames delivered log.datagrams) := by
  have entries : ∀ entry ∈ log.datagrams.zipIdx 1, log.IsPacket entry.2 entry.1 := by
    intro entry member
    obtain ⟨low, _, isEntry⟩ := List.mem_zipIdx member
    refine ⟨low, ?_⟩
    rw [List.getElem?_eq_some_iff]
    exact ⟨_, isEntry.symm⟩
  have chosenIds : ids.Perm (((log.datagrams.zipIdx 1).filter fun entry =>
      Recoverable log.frames delivered entry.2 entry.1).map Prod.snd) := by
    rw [List.perm_ext_iff_of_nodup distinct]
    · intro id
      rw [List.mem_map]
      constructor
      · intro member
        obtain ⟨payload, isPacket⟩ := known id member
        refine ⟨(payload, id), List.mem_filter.mpr ⟨?_, ?_⟩, rfl⟩
        · rw [List.mem_iff_getElem?]
          refine ⟨id - 1, ?_⟩
          have positive := isPacket.1
          rw [List.getElem?_zipIdx, isPacket.2, Option.map_some,
            show 1 + (id - 1) = id by omega]
        · exact decide_eq_true ((exactly id payload isPacket).mp member)
      · rintro ⟨entry, member, rfl⟩
        obtain ⟨inAll, isRecoverable⟩ := List.mem_filter.mp member
        exact (exactly entry.2 entry.1 (entries entry inAll)).mpr (of_decide_eq_true isRecoverable)
    · apply List.Nodup.sublist (List.filter_sublist.map _)
      rw [List.zipIdx_map_snd]
      exact List.nodup_range'
  have selected : log.payloads (((log.datagrams.zipIdx 1).filter fun entry =>
      Recoverable log.frames delivered entry.2 entry.1).map Prod.snd) =
        recoverable log.frames delivered log.datagrams := by
    unfold SenderLog.payloads recoverable
    rw [List.filterMap_map, ← List.filterMap_eq_map]
    apply List.filterMap_congr
    intro entry member
    exact (entries entry (List.mem_filter.mp member).1).2
  rw [← selected]
  exact chosenIds.filterMap _

/-- The outputs of a delivery in terms of the sender's log. -/
theorem Decoder.outputs_of_delivery {rs : ReedSolomon} {log : SenderLog} {encoder : Encoder}
    {received : List Decoder.Call} (settled : log.Settled rs encoder) (fits : log.Fits)
    (drawn : ∀ frame ∈ Decoder.framesOf received, frame ∈ log.frames)
    (delivery : Decoder.Delivery rs encoder.session log.frames log.datagrams received) :
    ∃ decoder outputs,
      run (Decoder.call rs) (Decoder.new encoder.session) received = some (decoder, outputs) ∧
      outputs.Perm (recoverable log.frames (Decoder.framesOf received) log.datagrams) := by
  obtain ⟨decoder, outputs, decoded, exact_⟩ :=
    run_induction (Decoder.call rs) (Decoder.new encoder.session) received
      (Decoder.Exact log encoder.session) (Decoder.exact_new log encoder.session) (by
        intro past call outputs decoder isPrefix ranPast exact_
        cases call with
        | frame frame host =>
            exact Decoder.Exact.frame delivery isPrefix settled fits rfl drawn rfl ranPast exact_
        | sequenceReport => exact exact_.sequenceReport)
  obtain ⟨_, ids, _, _, _, _, _, parts, isOutputs⟩ := exact_.history
  refine ⟨decoder, outputs, decoded, ?_⟩
  rw [isOutputs]
  apply SenderLog.payloads_perm_recoverable parts.distinct parts.known
  intro id payload isPacket
  rw [parts.done id payload isPacket]
  unfold Recoverable
  simp only [settled.available_iff fits drawn]

/-- Recovery is exact: the outputs of a delivery in which nothing expires while
it is needed are the datagrams that the delivered frames determine, each once
for every time it was sent. -/
theorem recovery_exact (rs : ReedSolomon) (session version keyId : Nat) (hook : Option Nat)
    (sent : List Encoder.Call) (encoder : Encoder) (frames : List Frame)
    (received : List Decoder.Call)
    (small : ∀ payload ∈ Encoder.datagrams sent, payload.length ≤ maxDatagram)
    (ran : (withIdentity session version keyId hook).calls rs sent = some (encoder, frames))
    (fits : encoder.CountersFit)
    (drawn : ∀ frame ∈ Decoder.framesOf received, frame ∈ frames)
    (delivery : Decoder.Delivery rs session frames (Encoder.datagrams sent) received) :
    ∃ decoder outputs,
      run (Decoder.call rs) (Decoder.new session) received = some (decoder, outputs) ∧
      outputs.Perm (recoverable frames (Decoder.framesOf received) (Encoder.datagrams sent)) := by
  obtain ⟨log, settled, logFits, datagrams, rfl, identity⟩ := SenderLog.of_calls small ran fits
  have isSession : encoder.session = session := identity.session
  subst isSession
  rw [← datagrams] at delivery ⊢
  exact Decoder.outputs_of_delivery settled logFits drawn delivery

/-- The repair frame alone is such a delivery. -/
theorem pair_delivery : Decoder.Delivery ReedSolomon.standard 7 [pairFrame 0, pairFrame 1]
    (Encoder.datagrams pairCalls) [.frame (pairFrame 1) (Host.at 0)] := by
  have only : ∀ {past : List Decoder.Call} {frame : Frame} {host : Host},
      past ++ [Decoder.Call.frame frame host] <+: [.frame (pairFrame 1) (Host.at 0)] →
        past = [] ∧ frame = pairFrame 1 ∧ host = Host.at 0 := by
    intro past frame host isPrefix
    rcases past with _ | ⟨first, rest⟩
    · have same := List.prefix_iff_eq_take.mp isPrefix
      cases same
      exact ⟨rfl, rfl, rfl⟩
    · have longer := isPrefix.length_le
      simp at longer
  have nothing : ∀ {past : List Decoder.Call} {frame : Frame} {host : Host},
      ¬ past ++ [Decoder.Call.frame frame host] <+: [] := by
    intro past frame host isPrefix
    exact absurd (List.prefix_nil.mp isPrefix) (by simp)
  refine ⟨?_, ?_, ?_, ?_, ?_, ?_, ?_⟩
  · intro frame host member
    cases List.mem_singleton.mp member
    exact monotone_const
  · intro past frame host isPrefix earlier earlierHost member
    rw [(only isPrefix).1] at member
    cases member
  · intro past frame host state outputs isPrefix ran _ _
    obtain ⟨rfl, rfl, rfl⟩ := only isPrefix
    cases ran
    decide +kernel
  · rintro past frame host isPrefix _ _ time ⟨_, _, _, inside, _⟩
    rw [(only isPrefix).1] at inside
    exact absurd inside nothing
  · rintro past frame host id index isPrefix _ time ⟨_, _, _, _, _, inside, _⟩
    rw [(only isPrefix).1] at inside
    exact absurd inside nothing
  · intro past frame host isPrefix live isLive
    obtain ⟨rfl, rfl, rfl⟩ := only isPrefix
    have one : live ⊆ {1} := by
      intro id member
      obtain ⟨_, ⟨_, _, _, inside, _, isGroup, _⟩, _⟩ := isLive id member
      rw [(only inside).2.1] at isGroup
      exact Finset.mem_singleton.mpr isGroup.symm
    exact (Finset.card_le_card one).trans (by decide)
  · intro past frame host isPrefix reading live isLive
    have few : live ⊆ {0, 1} := by
      intro id member
      obtain ⟨⟨payload, found, _⟩, _⟩ := isLive id member
      have below : id - 1 < 1 := (List.getElem?_eq_some_iff.mp found).1
      simp only [Finset.mem_insert, Finset.mem_singleton]
      omega
    exact (Finset.card_le_card few).trans (by decide)

theorem recovery_exact_repair_frame_alone :
    ∃ encoder decoder outputs,
      (withIdentity 7 versionV3 1 none).calls ReedSolomon.standard pairCalls =
        some (encoder, [pairFrame 0, pairFrame 1]) ∧
      run (Decoder.call ReedSolomon.standard) (Decoder.new 7)
        [.frame (pairFrame 1) (Host.at 0)] = some (decoder, outputs) ∧
      outputs.Perm [[1, 2, 3]] := by
  obtain ⟨encoder, sent, fits⟩ := pair_sent
  obtain ⟨decoder, outputs, ran, same⟩ := recovery_exact ReedSolomon.standard 7 versionV3 1 none
    pairCalls encoder [pairFrame 0, pairFrame 1] [.frame (pairFrame 1) (Host.at 0)]
    pair_small sent fits
    (by
      intro frame member
      cases List.mem_singleton.mp member
      exact List.mem_of_getElem? (show [pairFrame 0, pairFrame 1][1]? = _ from rfl))
    pair_delivery
  have all : recoverable [pairFrame 0, pairFrame 1]
      (Decoder.framesOf [.frame (pairFrame 1) (Host.at 0)]) (Encoder.datagrams pairCalls) =
        [[1, 2, 3]] := by
    decide +kernel
  rw [all] at same
  exact ⟨encoder, decoder, outputs, sent, ran, same⟩

end SmartFecTunnel.Fec
