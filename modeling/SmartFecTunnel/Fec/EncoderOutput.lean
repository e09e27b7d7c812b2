import SmartFecTunnel.Fec.SenderLog
import SmartFecTunnel.Wire.RoundTrip

/-!
Contract: everything an encoder hands to the network is well formed, and no call
on it fails.

`FlushedGroup` says what the frames of one group look like, `Emitted` that the
shard frames sent so far are the flushed groups one after the other.

Owns:
- that the frames of a run are numbered without gap or repetition;
- that groups have fresh numbers and dimensions a receiver accepts;
- that a sealed frame fits the receive buffers.

Does not own: what the shards of a group contain.
-/

namespace SmartFecTunnel.Fec

open SmartFecTunnel.Library
open SmartFecTunnel.Wire

open Encoder

/-- Size of the buffers the client and the server receive into. -/
def receiveBuffer : Nat := 2048

/-! ### One group -/

/-- The frames of group `id` with `data` source and `parity` repair shards, in the
order they are sent. -/
structure FlushedGroup (id data parity : Nat) (group : List Frame) : Prop where
  data_pos : 1 ≤ data
  data_le : data ≤ dataShards
  parity_le : parity ≤ min maxParity data
  indices : group.map Frame.index = List.range (data + parity)
  same : ∀ frame ∈ group, frame.group = id ∧ frame.data = data ∧ frame.parity = parity
  kind : ∀ frame ∈ group, frame.kind = if frame.index < data then kindData else kindParity
  size : ∀ frame ∈ group, ShardSize frame.payload
  equal : 0 < parity → ∀ left ∈ group, ∀ right ∈ group,
    left.payload.length = right.payload.length

namespace FlushedGroup

variable {id data parity : Nat} {group : List Frame}

theorem isShard (flushed : FlushedGroup id data parity group) {frame : Frame}
    (member : frame ∈ group) : frame.IsShard := by
  have kind := flushed.kind frame member
  unfold Frame.IsShard
  split at kind
  · exact Or.inl kind
  · exact Or.inr kind

/-- `Decoder::frame` accepts the dimensions and the payload. -/
theorem admissible (flushed : FlushedGroup id data parity group) {frame : Frame}
    (member : frame ∈ group) : Decoder.Admissible frame := by
  obtain ⟨_, isData, isParity⟩ := flushed.same frame member
  have inRange : frame.index ∈ List.range (data + parity) := by
    rw [← flushed.indices]
    exact List.mem_map_of_mem member
  have dataPos := flushed.data_pos
  have dataLe := flushed.data_le
  have parityLe := flushed.parity_le
  unfold dataShards at dataLe
  unfold maxParity at parityLe
  have below := List.mem_range.mp inRange
  unfold Decoder.Admissible
  rw [isData, isParity]
  exact ⟨by omega, by omega, by omega, below, flushed.size frame member⟩

end FlushedGroup

/-- The redundancy of a group never exceeds its source shards. -/
theorem Encoder.parityFor_le (encoder : Encoder) (data : Nat) :
    encoder.parityFor data ≤ min maxParity data := by
  apply le_min
  · exact min_le_right _ _
  · unfold parityFor
    split
    · exact (min_le_left _ _).trans (min_le_right _ _)
    · split
      · exact (min_le_left _ _).trans (Nat.zero_le _)
      · split
        · exact (min_le_left _ _).trans (min_le_right _ _)
        next full =>
          apply (min_le_right _ _).trans
          unfold dataShards at full
          unfold maxParity
          omega

/-- The shards of a group with redundancy have one length. -/
theorem Group.Codeword.equal_length {rs : ReedSolomon} {data parity : Nat} {full : List Bytes}
    (codeword : Group.Codeword rs data parity full) (dataPos : 1 ≤ data)
    (bounded : data + parity ≤ 256) (redundant : 0 < parity) :
    ∃ shardLen, ∀ shard ∈ full, shard.length = shardLen := by
  obtain ⟨codec, source, repair, shardLen, _, lawful, split, isData, encoded, positive, equal⟩ :=
    codeword.lawful dataPos bounded redundant
  obtain ⟨others, isOthers, _, othersLength⟩ :=
    lawful.encode_equal source shardLen isData positive equal
  have sameRepair : others = repair := Option.some.inj (isOthers.symm.trans encoded)
  refine ⟨shardLen, ?_⟩
  intro shard member
  rw [split] at member
  rcases List.mem_append.mp member with inSource | inRepair
  · exact equal shard inSource
  · rw [← sameRepair] at inRepair
    exact othersLength shard inRepair

/-- The frames of a group that `flush` sends. -/
theorem SentGroup.flushedGroup {rs : ReedSolomon} {encoder : Encoder} {sent : SentGroup}
    (dataPos : 1 ≤ sent.fragments.length) (dataLe : sent.fragments.length ≤ dataShards)
    (parityLe : sent.parity ≤ min maxParity sent.fragments.length)
    (codeword : Group.Codeword rs sent.fragments.length sent.parity sent.full) :
    FlushedGroup encoder.group sent.fragments.length sent.parity (sent.framesAt encoder) where
  data_pos := dataPos
  data_le := dataLe
  parity_le := parityLe
  indices := by
    unfold SentGroup.framesAt
    rw [← codeword.length, List.map_map]
    exact (List.zipIdx_map_snd 0 sent.full).trans List.range_eq_range'.symm
  same := by
    intro frame member
    obtain ⟨entry, _, rfl⟩ := List.mem_map.mp member
    exact ⟨rfl, rfl, rfl⟩
  kind := by
    intro frame member
    obtain ⟨entry, _, rfl⟩ := List.mem_map.mp member
    rfl
  size := by
    intro frame member
    obtain ⟨entry, inFull, rfl⟩ := List.mem_map.mp member
    exact codeword.size _ (List.fst_mem_of_mem_zipIdx inFull)
  equal := by
    intro redundant left isLeft right isRight
    have bounded : sent.fragments.length + sent.parity ≤ 256 := by
      unfold dataShards at dataLe
      unfold maxParity at parityLe
      omega
    obtain ⟨shardLen, equal⟩ := codeword.equal_length dataPos bounded redundant
    obtain ⟨leftEntry, inLeft, rfl⟩ := List.mem_map.mp isLeft
    obtain ⟨rightEntry, inRight, rfl⟩ := List.mem_map.mp isRight
    exact (equal _ (List.fst_mem_of_mem_zipIdx inLeft)).trans
      (equal _ (List.fst_mem_of_mem_zipIdx inRight)).symm

/-! ### Everything sent so far -/

/-- `frames` have been sent by `encoder`: report frames, and the shard frames of
`groups` one group after the other. -/
structure Emitted (encoder : Encoder) (frames : List Frame) (groups : List (List Frame)) :
    Prop where
  group : encoder.group = groups.length + 1
  sequence : encoder.sequence = frames.length + 1
  sequences : frames.map Frame.sequence = List.range' 1 frames.length
  shards : frames.filter (fun frame => decide frame.IsShard) = groups.flatten
  reports : ∀ frame ∈ frames, ¬ frame.IsShard →
    frame.kind = kindReport ∧ frame.payload.length = 4
  version : ∀ frame ∈ frames, frame.version = encoder.version
  flushed : ∀ (index : Nat) (group : List Frame), groups[index]? = some group →
    ∃ data parity, FlushedGroup (index + 1) data parity group
  pending : ∀ shard ∈ encoder.shards, ShardSize shard

namespace Emitted

variable {rs : ReedSolomon} {encoder : Encoder} {frames : List Frame} {groups : List (List Frame)}

theorem initial (session version keyId : Nat) (hook : Option Nat) :
    Emitted (withIdentity session version keyId hook) [] [] where
  group := rfl
  sequence := rfl
  sequences := rfl
  shards := rfl
  reports := by intro frame member; cases member
  version := by intro frame member; cases member
  flushed := by intro index group found; cases found
  pending := by intro shard member; cases member

/-- Only the counters, the version and the pending shards of an encoder matter. -/
theorem of_same (emitted : Emitted encoder frames groups) {other : Encoder}
    (group : other.group = encoder.group) (sequence : other.sequence = encoder.sequence)
    (version : other.version = encoder.version)
    (pending : ∀ shard ∈ other.shards, ShardSize shard) : Emitted other frames groups where
  group := group.trans emitted.group
  sequence := sequence.trans emitted.sequence
  sequences := emitted.sequences
  shards := emitted.shards
  reports := emitted.reports
  version := by
    rw [version]
    exact emitted.version
  flushed := emitted.flushed
  pending := pending

/-- A shard frame belongs to one of the flushed groups. -/
theorem mem_group (emitted : Emitted encoder frames groups) {frame : Frame}
    (member : frame ∈ frames) (isShard : frame.IsShard) :
    ∃ index data parity group, groups[index]? = some group ∧
      FlushedGroup (index + 1) data parity group ∧ frame ∈ group := by
  have inGroups : frame ∈ groups.flatten := by
    rw [← emitted.shards]
    exact List.mem_filter.mpr ⟨member, decide_eq_true isShard⟩
  obtain ⟨group, isGroup, inGroup⟩ := List.mem_flatten.mp inGroups
  obtain ⟨index, held⟩ := List.mem_iff_getElem?.mp isGroup
  obtain ⟨data, parity, flushed⟩ := emitted.flushed index group held
  exact ⟨index, data, parity, group, held, flushed, inGroup⟩

/-- A flushed group has a number that the encoder has used. -/
theorem group_lt (emitted : Emitted encoder frames groups) {frame : Frame}
    (member : frame ∈ frames) (isShard : frame.IsShard) : frame.group < encoder.group := by
  obtain ⟨index, _, _, group, held, flushed, inGroup⟩ := emitted.mem_group member isShard
  have within := (List.getElem?_eq_some_iff.mp held).1
  rw [(flushed.same frame inGroup).1, emitted.group]
  omega

/-- The shard frames sent on top of others are in groups not used before. -/
theorem group_le_of_new (emitted : Emitted encoder frames groups) {next : Encoder}
    {more : List Frame} {later : List (List Frame)}
    (nextEmitted : Emitted next (frames ++ more) later) (extended : groups <+: later)
    {frame : Frame} (member : frame ∈ more) (isShard : frame.IsShard) :
    encoder.group ≤ frame.group := by
  obtain ⟨rest, rfl⟩ := extended
  have shards := nextEmitted.shards
  rw [List.filter_append, emitted.shards, List.flatten_append, List.append_cancel_left_eq] at shards
  have inRest : frame ∈ rest.flatten := by
    rw [← shards]
    exact List.mem_filter.mpr ⟨member, decide_eq_true isShard⟩
  obtain ⟨group, isGroup, inGroup⟩ := List.mem_flatten.mp inRest
  obtain ⟨index, held⟩ := List.mem_iff_getElem?.mp isGroup
  have inLater : (groups ++ rest)[groups.length + index]? = some group := by
    rw [List.getElem?_append_right (Nat.le_add_right _ _), Nat.add_sub_cancel_left]
    exact held
  obtain ⟨data, parity, flushed⟩ := nextEmitted.flushed _ group inLater
  rw [(flushed.same frame inGroup).1, emitted.group]
  omega

/-- The payload of every frame is at most one shard. -/
theorem payload_le (emitted : Emitted encoder frames groups) {frame : Frame}
    (member : frame ∈ frames) : frame.payload.length ≤ shardBytes := by
  by_cases isShard : frame.IsShard
  · obtain ⟨_, _, _, _, _, flushed, inGroup⟩ := emitted.mem_group member isShard
    exact (flushed.size frame inGroup).2
  · rw [(emitted.reports frame member isShard).2]
    decide

/-- One more group, with the number and the sequence numbers that are next. -/
theorem sendGroup (emitted : Emitted encoder frames groups) {group : List Frame}
    {data parity : Nat} (flushed : FlushedGroup encoder.group data parity group)
    (numbered : group.map Frame.sequence = List.range' encoder.sequence group.length)
    (version : ∀ frame ∈ group, frame.version = encoder.version) :
    Emitted
      { encoder with
        shards := [], sequence := encoder.sequence + group.length, group := encoder.group + 1 }
      (frames ++ group) (groups ++ [group]) where
  group := by
    show encoder.group + 1 = (groups ++ [group]).length + 1
    rw [emitted.group, List.length_append, List.length_singleton]
  sequence := by
    show encoder.sequence + group.length = (frames ++ group).length + 1
    rw [emitted.sequence, List.length_append]
    omega
  sequences := by
    rw [List.map_append, emitted.sequences, numbered, emitted.sequence, List.length_append,
      ← List.range'_append, Nat.one_mul, Nat.add_comm 1]
  shards := by
    have allShards : group.filter (fun frame => decide frame.IsShard) = group := by
      apply List.filter_eq_self.mpr
      intro frame member
      exact decide_eq_true (flushed.isShard member)
    rw [List.filter_append, emitted.shards, allShards, List.flatten_append, List.flatten_singleton]
  reports := by
    intro frame member notShard
    rcases List.mem_append.mp member with old | new
    · exact emitted.reports frame old notShard
    · exact absurd (flushed.isShard new) notShard
  version := by
    intro frame member
    rcases List.mem_append.mp member with old | new
    · exact emitted.version frame old
    · exact version frame new
  flushed := by
    intro index other held
    rcases Nat.lt_or_ge index groups.length with old | new
    · rw [List.getElem?_append_left old] at held
      exact emitted.flushed index other held
    · have within := (List.getElem?_eq_some_iff.mp held).1
      rw [List.length_append, List.length_singleton] at within
      have isLast : index = groups.length := by omega
      subst isLast
      rw [List.getElem?_concat_length] at held
      cases held
      rw [← emitted.group]
      exact ⟨data, parity, flushed⟩
  pending := by intro shard member; cases member

/-- `flush` succeeds; it sends nothing or one group. -/
theorem flush (emitted : Emitted encoder frames groups)
    (few : encoder.shards.length ≤ dataShards) :
    ∃ (next : Encoder) (more : List Frame) (later : List (List Frame)),
      encoder.flush rs = (next, .ok more) ∧ Emitted next (frames ++ more) later ∧
      next.shards = [] ∧ groups <+: later ∧
      more.length ≤ encoder.shards.length + maxParity := by
  by_cases empty : encoder.shards = []
  · refine ⟨encoder, [], groups, by simp [Encoder.flush, empty], ?_, empty, List.prefix_rfl,
      Nat.zero_le _⟩
    rw [List.append_nil]
    exact emitted
  · -- Contents do not matter here, so any names do for the pending shards.
    obtain ⟨sent, carries, isParity, flushed, codeword, _⟩ := @Encoder.flush_sends rs encoder empty
      few emitted.pending (List.replicate encoder.shards.length (0, 0)) List.length_replicate
    have count : sent.fragments.length = encoder.shards.length := by
      rw [carries, List.length_replicate]
    have isGroup : FlushedGroup encoder.group _ _ (sent.framesAt encoder) :=
      SentGroup.flushedGroup (by rw [count]; exact List.length_pos_iff.mpr empty)
        (by rw [count]; exact few)
        (by rw [count, isParity]; exact encoder.parityFor_le _) codeword
    have later := emitted.sendGroup isGroup
      (by rw [sent.length_framesAt]; exact sent.sequences_framesAt encoder)
      (by
        intro frame member
        obtain ⟨entry, _, rfl⟩ := List.mem_map.mp member
        rfl)
    rw [sent.length_framesAt] at later
    refine ⟨_, _, _, flushed, later, rfl, List.prefix_append _ _, ?_⟩
    rw [sent.length_framesAt, codeword.length, count, isParity]
    exact Nat.add_le_add_left (min_le_right _ _) _

/-- The fragment loop succeeds and leaves fewer than ten shards pending.  Ten shards make
at most fourteen frames. -/
theorem pushChunks (emitted : Emitted encoder frames groups)
    (few : encoder.shards.length < dataShards) (packetId count index : Nat) (rest : List Bytes)
    (small : ∀ chunk ∈ rest, chunk.length ≤ chunkBytes) (earlier : List Frame) :
    ∃ (next : Encoder) (more : List Frame) (later : List (List Frame)),
      Encoder.pushChunks rs packetId count index rest encoder earlier =
        (next, .ok (earlier ++ more)) ∧
      Emitted next (frames ++ more) later ∧ next.shards.length < dataShards ∧
      groups <+: later ∧
      10 * more.length + 14 * next.shards.length ≤
        14 * (encoder.shards.length + rest.length) := by
  induction rest generalizing encoder frames groups index earlier with
  | nil =>
      refine ⟨encoder, [], groups, ?_, ?_, few, List.prefix_rfl, by simp⟩
      · rw [Encoder.pushChunks, List.append_nil]
      · rw [List.append_nil]
        exact emitted
  | cons chunk rest inductionHypothesis =>
      have size : ShardSize (fragmentShard packetId index count chunk) := by
        have bound := small chunk (by simp)
        rw [ShardSize, length_fragmentShard]
        unfold chunkBytes shardBytes fragmentHeader at *
        omega
      have pushed : Emitted { encoder with
          shards := encoder.shards ++ [fragmentShard packetId index count chunk] } frames groups := by
        refine emitted.of_same rfl rfl rfl ?_
        intro shard member
        rcases List.mem_append.mp member with old | new
        · exact emitted.pending shard old
        · rw [List.mem_singleton] at new
          subst new
          exact size
      have smallRest : ∀ chunk ∈ rest, chunk.length ≤ chunkBytes := by
        intro other member
        exact small other (List.mem_cons_of_mem _ member)
      rw [Encoder.pushChunks]
      dsimp only
      split
      next full =>
        obtain ⟨flushed, sent, middle, isFlushed, sentEmitted, emptied, extended, sentCount⟩ :=
          @Emitted.flush rs _ _ _ pushed full.le
        rw [isFlushed]
        obtain ⟨next, more, later, isNext, nextEmitted, nextFew, nextExtended, moreCount⟩ :=
          inductionHypothesis sentEmitted (by rw [emptied]; decide) (index + 1) smallRest
            (earlier ++ sent)
        refine ⟨next, sent ++ more, later, ?_, ?_, nextFew, extended.trans nextExtended, ?_⟩
        · dsimp only
          rw [isNext, List.append_assoc]
        · rw [← List.append_assoc]
          exact nextEmitted
        · rw [emptied, List.length_nil] at moreCount
          dsimp only at sentCount
          rw [List.length_append, List.length_singleton] at full sentCount
          rw [List.length_append, List.length_cons]
          unfold dataShards at full
          unfold maxParity at sentCount
          omega
      next notFull =>
        rw [List.length_append, List.length_singleton] at notFull
        obtain ⟨next, more, later, isNext, nextEmitted, nextFew, extended, moreCount⟩ :=
          inductionHypothesis pushed
            (by rw [List.length_append, List.length_singleton]; omega) (index + 1) smallRest earlier
        refine ⟨next, more, later, isNext, nextEmitted, nextFew, extended, ?_⟩
        rw [List.length_append, List.length_singleton] at moreCount
        rw [List.length_cons]
        omega

/-- `encode_datagram` succeeds on every datagram the tunnel reads. -/
theorem encodeDatagram (emitted : Emitted encoder frames groups)
    (few : encoder.shards.length < dataShards) {payload : Bytes}
    (small : payload.length ≤ maxDatagram) :
    ∃ (next : Encoder) (more : List Frame) (later : List (List Frame)),
      encoder.encodeDatagram rs payload = (next, .ok more) ∧
      Emitted next (frames ++ more) later ∧ next.shards.length < dataShards ∧
      groups <+: later ∧
      10 * more.length + 14 * next.shards.length ≤
        14 * (encoder.shards.length + (datagramChunks payload).length) := by
  have counted : Emitted { encoder with packet := encoder.packet + 1 } frames groups :=
    emitted.of_same rfl rfl rfl emitted.pending
  have fewChunks := length_datagramChunks_le small
  rw [length_datagramChunks] at fewChunks
  unfold Encoder.encodeDatagram
  dsimp only
  rw [if_neg (by omega)]
  apply counted.pushChunks few
  intro chunk member
  exact length_le_of_mem_datagramChunks member

theorem reportFrame (emitted : Emitted encoder frames groups) (lossPpm : Nat) :
    Emitted (encoder.reportFrame lossPpm).1 (frames ++ [(encoder.reportFrame lossPpm).2]) groups
    where
  group := emitted.group
  sequence := by
    show encoder.sequence + 1 = (frames ++ [_]).length + 1
    rw [emitted.sequence, List.length_append, List.length_singleton]
  sequences := by
    rw [List.map_append, emitted.sequences, List.length_append, List.length_singleton,
      ← List.range'_append, Nat.one_mul, Nat.add_comm 1, ← emitted.sequence]
    rfl
  shards := by
    rw [List.filter_append, emitted.shards]
    exact List.append_nil _
  reports := by
    intro frame member notShard
    rcases List.mem_append.mp member with old | new
    · exact emitted.reports frame old notShard
    · rw [List.mem_singleton] at new
      subst new
      exact ⟨rfl, length_toBeBytes 4 lossPpm⟩
  version := by
    intro frame member
    rcases List.mem_append.mp member with old | new
    · exact emitted.version frame old
    · rw [List.mem_singleton] at new
      subst new
      rfl
  flushed := emitted.flushed
  pending := emitted.pending

end Emitted

/-! ### Runs -/

namespace Encoder

/-- The call returns `Ok`; `report_frame` and `adaptive.report` cannot do otherwise. -/
def Succeeds (rs : ReedSolomon) (encoder : Encoder) : Call → Prop
  | .encodeDatagram payload => ∃ frames, (encoder.encodeDatagram rs payload).2 = .ok frames
  | .flush => ∃ frames, (encoder.flush rs).2 = .ok frames
  | .reportFrame _ => True
  | .adaptiveReport _ => True

end Encoder

/-- Every call returns `Ok`, keeps what has been sent well formed and sends at most 102
frames, the shard frames among them in new groups. -/
theorem Emitted.call {rs : ReedSolomon} {encoder : Encoder} {frames : List Frame}
    {groups : List (List Frame)} (emitted : Emitted encoder frames groups)
    (few : encoder.shards.length < dataShards) {call : Encoder.Call}
    (small : ∀ payload, call = .encodeDatagram payload → payload.length ≤ maxDatagram) :
    encoder.Succeeds rs call ∧
      ∃ later, Emitted (encoder.call rs call).1 (frames ++ (encoder.call rs call).2) later ∧
        (encoder.call rs call).1.shards.length < dataShards ∧ groups <+: later ∧
        (encoder.call rs call).2.length ≤ 102 := by
  unfold dataShards at few
  cases call with
  | encodeDatagram payload =>
      obtain ⟨next, more, later, isNext, nextEmitted, nextFew, extended, count⟩ :=
        @Emitted.encodeDatagram rs _ _ _ emitted few payload (small payload rfl)
      have fewChunks := length_datagramChunks_le (small payload rfl)
      simp only [Encoder.Succeeds, Encoder.call, isNext]
      exact ⟨⟨more, rfl⟩, later, nextEmitted, nextFew, extended,
        show more.length ≤ 102 by omega⟩
  | flush =>
      obtain ⟨next, more, later, isNext, nextEmitted, emptied, extended, count⟩ :=
        @Emitted.flush rs _ _ _ emitted few.le
      unfold maxParity at count
      simp only [Encoder.Succeeds, Encoder.call, isNext]
      exact ⟨⟨more, rfl⟩, later, nextEmitted, by rw [emptied]; decide, extended,
        show more.length ≤ 102 by omega⟩
  | reportFrame lossPpm =>
      exact ⟨trivial, groups, emitted.reportFrame lossPpm, few, List.prefix_rfl,
        show 1 ≤ 102 by decide⟩
  | adaptiveReport loss =>
      refine ⟨trivial, groups, ?_, few, List.prefix_rfl, Nat.zero_le _⟩
      simp only [Encoder.call, List.append_nil]
      exact emitted.of_same rfl rfl rfl emitted.pending

/-- A run of an encoder that was given datagrams the tunnel can read. -/
theorem emitted_of_calls (rs : ReedSolomon) (session version keyId : Nat) (hook : Option Nat)
    (calls : List Encoder.Call)
    (small : ∀ payload ∈ Encoder.datagrams calls, payload.length ≤ maxDatagram) :
    ∃ (encoder : Encoder) (frames : List Frame) (groups : List (List Frame)),
      (withIdentity session version keyId hook).calls rs calls = some (encoder, frames) ∧
      Emitted encoder frames groups ∧ encoder.shards.length < dataShards ∧
      encoder.version = version := by
  obtain ⟨encoder, frames, ran, few, isVersion, groups, emitted⟩ :=
    run_induction (fun state input => some (Encoder.call rs state input))
      (withIdentity session version keyId hook) calls
      (fun _ frames encoder => encoder.shards.length < dataShards ∧ encoder.version = version ∧
        ∃ groups, Emitted encoder frames groups)
      ⟨show 0 < dataShards by decide, rfl, [], Emitted.initial session version keyId hook⟩
      (by
        rintro past call frames encoder isPrefix _ ⟨few, isVersion, groups, emitted⟩
        have callSmall : ∀ payload, call = .encodeDatagram payload →
            payload.length ≤ maxDatagram := by
          rintro payload rfl
          exact small payload (mem_datagrams_of_front isPrefix)
        obtain ⟨_, later, laterEmitted, laterFew, _⟩ :=
          @Emitted.call rs _ _ _ emitted few _ callSmall
        exact ⟨_, _, rfl, laterFew, (call_sameIdentity rs encoder call).version.trans isVersion,
          later, laterEmitted⟩)
  exact ⟨encoder, frames, groups, ran, emitted, few, isVersion⟩

/-- A sealed frame of the run fits the receive buffers. -/
theorem Emitted.sealed_fits {encoder : Encoder} {frames : List Frame} {groups : List (List Frame)}
    (emitted : Emitted encoder frames groups) {frame : Frame} (member : frame ∈ frames)
    (isV3 : frame.version = versionV3) (blake : Blake3) (aead : Aead) (random : Randomness)
    (key : Bytes) :
    ∃ buf, encodeWire blake aead random frame key = .ok buf ∧ buf.length ≤ 1419 ∧
      buf.length ≤ receiveBuffer := by
  have payload := emitted.payload_le member
  unfold shardBytes at payload
  obtain ⟨buf, encoded⟩ := @encodeWire_ok blake aead frame isV3 (by omega) random key
  have size := (encodeWire_shape isV3 encoded).1
  unfold v3Selector v3Nonce v3InnerHeader tag at size
  refine ⟨buf, encoded, by omega, ?_⟩
  unfold receiveBuffer
  omega

/-- The numbers of a frame fit their fields as long as the counters do. -/
theorem Emitted.numbers_fit {encoder : Encoder} {frames : List Frame} {groups : List (List Frame)}
    (emitted : Emitted encoder frames groups) (fits : encoder.CountersFit) {frame : Frame}
    (member : frame ∈ frames) :
    frame.sequence < 2 ^ 64 ∧ (frame.IsShard → frame.group < 2 ^ 64) := by
  have sequence := fits.sequence
  have group := fits.group
  rw [emitted.sequence] at sequence
  rw [emitted.group] at group
  constructor
  · have inRange : frame.sequence ∈ List.range' 1 frames.length := by
      rw [← emitted.sequences]
      exact List.mem_map_of_mem member
    have below := (List.mem_range'_1.mp inRange).2
    omega
  · intro isShard
    have inGroups : frame ∈ groups.flatten := by
      rw [← emitted.shards]
      exact List.mem_filter.mpr ⟨member, decide_eq_true isShard⟩
    obtain ⟨sent, inSent, inGroup⟩ := List.mem_flatten.mp inGroups
    obtain ⟨index, found⟩ := List.mem_iff_getElem?.mp inSent
    obtain ⟨_, _, flushed⟩ := emitted.flushed index sent found
    have isGroup := (flushed.same frame inGroup).1
    have below := (List.getElem?_eq_some_iff.mp found).1
    omega

/-- Whatever calls are made on a new encoder whose counters do not wrap, each returns
`Ok` and leaves fewer than ten shards pending; the frames sent are numbered 1, 2, 3 and
so on, the shard frames among them are the groups 1, 2, 3 and so on, each complete and
acceptable to a decoder, no header field is cut off, and every sealed frame has at most
1419 bytes. -/
theorem encoder_output_wellFormed (rs : ReedSolomon) (session version keyId : Nat)
    (hook : Option Nat) (calls : List Encoder.Call)
    (small : ∀ payload ∈ Encoder.datagrams calls, payload.length ≤ maxDatagram)
    (fits : ∀ encoder frames,
      (withIdentity session version keyId hook).calls rs calls = some (encoder, frames) →
      encoder.CountersFit) :
    (∀ front call, front ++ [call] <+: calls →
      ∃ before sent, (withIdentity session version keyId hook).calls rs front =
          some (before, sent) ∧
        before.shards.length < dataShards ∧ before.Succeeds rs call) ∧
    ∃ (encoder : Encoder) (frames : List Frame) (groups : List (List Frame)),
      (withIdentity session version keyId hook).calls rs calls = some (encoder, frames) ∧
      encoder.shards.length < dataShards ∧
      frames.map Frame.sequence = List.range' 1 frames.length ∧
      frames.filter (fun frame => decide frame.IsShard) = groups.flatten ∧
      (∀ (index : Nat) (group : List Frame), groups[index]? = some group →
        ∃ data parity, FlushedGroup (index + 1) data parity group) ∧
      (∀ frame ∈ frames, frame.IsShard ∧ Decoder.Admissible frame ∨ frame.kind = kindReport) ∧
      (∀ payload ∈ Encoder.datagrams calls, (datagramChunks payload).length < 2 ^ 16 ∧
        ∀ chunk ∈ datagramChunks payload, chunk.length < 2 ^ 16) ∧
      (∀ frame ∈ frames, frame.sequence < 2 ^ 64 ∧ (frame.IsShard → frame.group < 2 ^ 64)) ∧
      (∀ frame ∈ frames, frame.version = version) ∧
      (version = versionV3 → ∀ frame ∈ frames, ∀ blake aead random key,
        ∃ buf, encodeWire blake aead random frame key = .ok buf ∧ buf.length ≤ 1419 ∧
          buf.length ≤ receiveBuffer) := by
  constructor
  · intro front call isPrefix
    have inCalls : ∀ payload ∈ Encoder.datagrams (front ++ [call]),
        payload.length ≤ maxDatagram := by
      intro payload member
      exact small payload ((isPrefix.filterMap _).subset member)
    obtain ⟨before, sent, groups, ran, emitted, few, _⟩ :=
      emitted_of_calls rs session version keyId hook front (by
        intro payload member
        apply inCalls payload
        unfold Encoder.datagrams
        rw [List.filterMap_append]
        exact List.mem_append_left _ member)
    refine ⟨before, sent, ran, few, (emitted.call few ?_).1⟩
    rintro payload rfl
    apply inCalls payload
    simp [Encoder.datagrams, Call.datagram]
  · obtain ⟨encoder, frames, groups, ran, emitted, few, isVersion⟩ :=
      emitted_of_calls rs session version keyId hook calls small
    refine ⟨encoder, frames, groups, ran, few, emitted.sequences, emitted.shards, emitted.flushed,
      ?_, ?_, fun frame member => emitted.numbers_fit (fits encoder frames ran) member, ?_, ?_⟩
    · intro frame member
      by_cases isShard : frame.IsShard
      · obtain ⟨_, _, _, _, _, flushed, inGroup⟩ := emitted.mem_group member isShard
        exact Or.inl ⟨isShard, flushed.admissible inGroup⟩
      · exact Or.inr (emitted.reports frame member isShard).1
    · intro payload member
      have fewChunks := length_datagramChunks_le (small payload member)
      refine ⟨by omega, ?_⟩
      intro chunk inChunks
      have bound := length_le_of_mem_datagramChunks inChunks
      unfold chunkBytes shardBytes fragmentHeader at bound
      omega
    · intro frame member
      exact (emitted.version frame member).trans isVersion
    · intro isV3 frame member blake aead random key
      have sealedVersion := ((emitted.version frame member).trans isVersion).trans isV3
      exact emitted.sealed_fits member sealedVersion blake aead random key

/-- A group with redundancy, then a report. -/
theorem encoder_output_wellFormed_pair :
    ∃ (encoder : Encoder) (frames : List Frame),
      (withIdentity 7 versionV3 1 none).calls ReedSolomon.standard
        [.adaptiveReport 200_000, .adaptiveReport 200_000, .adaptiveReport 200_000,
          .encodeDatagram [1], .flush, .reportFrame 5] = some (encoder, frames) ∧
      encoder.shards.length < dataShards ∧
      frames.map Frame.sequence = List.range' 1 frames.length := by
  have both := encoder_output_wellFormed ReedSolomon.standard 7 versionV3 1 none
    [.adaptiveReport 200_000, .adaptiveReport 200_000, .adaptiveReport 200_000,
      .encodeDatagram [1], .flush, .reportFrame 5] (by decide) (by
        intro encoder frames ran
        cases ran
        exact ⟨by decide +kernel, by decide +kernel, by decide +kernel⟩)
  obtain ⟨_, encoder, frames, _, ran, few, sequences, _⟩ := both
  exact ⟨encoder, frames, ran, few, sequences⟩

end SmartFecTunnel.Fec
