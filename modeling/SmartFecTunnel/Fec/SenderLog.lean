import SmartFecTunnel.Fec.Fragments
import SmartFecTunnel.Fec.GroupState

/-!
Contract: what an encoder has sent, in terms of the datagrams given to it.

A `SenderLog` lists the datagrams, the groups flushed with the fragments each
carries, the fragments still pending and the frames handed out.
`SenderLog.Explains` ties it to the encoder state.

Owns:
- that every call on an explained encoder succeeds and extends the log;
- that every fragment of every datagram has exactly one place, in a group or
  among the pending ones.

Does not own: anything a receiver does.
-/

namespace SmartFecTunnel.Fec

open SmartFecTunnel.Library

open Encoder

/-! ### The log -/

/-- One flushed group: the fragments it carries, its redundancy and its shards. -/
structure SentGroup where
  fragments : List FragmentId
  parity : Nat
  full : List Bytes

structure SenderLog where
  datagrams : List Bytes
  groups : List SentGroup
  pending : List FragmentId
  frames : List Frame

/-- A group a sender can have sent. -/
structure SentGroup.Valid (rs : ReedSolomon) (datagrams : List Bytes) (sent : SentGroup) :
    Prop where
  data_pos : 1 ≤ sent.fragments.length
  data_le : sent.fragments.length ≤ dataShards
  parity_le : sent.parity ≤ maxParity
  codeword : Group.Codeword rs sent.fragments.length sent.parity sent.full
  source : ∀ (index : Nat) (fragment : FragmentId), sent.fragments[index]? = some fragment →
    ∃ shard padding, shardOf datagrams fragment = some shard ∧
      sent.full[index]? = some (shard ++ padding)

theorem SentGroup.Valid.append {rs : ReedSolomon} {datagrams : List Bytes} {sent : SentGroup}
    (valid : sent.Valid rs datagrams) (more : List Bytes) : sent.Valid rs (datagrams ++ more) where
  data_pos := valid.data_pos
  data_le := valid.data_le
  parity_le := valid.parity_le
  codeword := valid.codeword
  source := by
    intro index fragment held
    obtain ⟨shard, padding, isShard, isFull⟩ := valid.source index fragment held
    exact ⟨shard, padding, shardOf_append isShard more, isFull⟩

/-- The frame that carries position `index` of a group. -/
def SentGroup.frameAt (encoder : Encoder) (sent : SentGroup) (index : Nat) (payload : Bytes) :
    Frame where
  version := encoder.version
  keyId := encoder.keyId
  kind := if index < sent.fragments.length then kindData else kindParity
  session := encoder.session
  sequence := encoder.sequence + index
  group := encoder.group
  index := index
  data := sent.fragments.length
  parity := sent.parity
  payload := payload

/-- The frames of one group, in sending order. -/
def SentGroup.framesAt (encoder : Encoder) (sent : SentGroup) : List Frame :=
  sent.full.zipIdx.map fun entry => sent.frameAt encoder entry.2 entry.1

theorem SentGroup.length_framesAt (encoder : Encoder) (sent : SentGroup) :
    (sent.framesAt encoder).length = sent.full.length := by
  rw [SentGroup.framesAt, List.length_map, List.length_zipIdx]

/-- The frames of a group take the next sequence numbers of the encoder. -/
theorem SentGroup.sequences_framesAt (encoder : Encoder) (sent : SentGroup) :
    (sent.framesAt encoder).map Frame.sequence =
      List.range' encoder.sequence sent.full.length := by
  rw [List.range'_eq_map_range, List.range_eq_range', ← List.zipIdx_map_snd 0 sent.full,
    SentGroup.framesAt, List.map_map, List.map_map]
  rfl

/-! ### One flush -/

section Flushing

variable {rs : ReedSolomon} {encoder : Encoder}

/-- The padded length is the length of the longest pending shard. -/
private theorem padded_length (sized : ∀ shard ∈ encoder.shards, ShardSize shard)
    (some_ : encoder.shards ≠ []) :
    ∃ shardLen, (encoder.shards.map List.length).max?.getD fragmentHeader = shardLen ∧
      fragmentHeader ≤ shardLen ∧ shardLen ≤ shardBytes ∧
      ∀ shard ∈ encoder.shards, shard.length ≤ shardLen := by
  cases found : (encoder.shards.map List.length).max? with
  | none => exact absurd (List.map_eq_nil_iff.mp (List.max?_eq_none_iff.mp found)) some_
  | some shardLen =>
      obtain ⟨member, bound⟩ := List.max?_eq_some_iff.mp found
      obtain ⟨longest, inShards, isLength⟩ := List.mem_map.mp member
      have size := sized longest inShards
      rw [ShardSize, isLength] at size
      refine ⟨shardLen, rfl, size.1, size.2, ?_⟩
      intro shard inShards
      exact bound shard.length (List.mem_map.mpr ⟨shard, inShards, rfl⟩)

/-- The padded shards and their repair shards are a codeword. -/
private theorem padded_codeword (some_ : encoder.shards ≠ [])
    (few : encoder.shards.length ≤ dataShards) {parity : Nat} (parityPos : 1 ≤ parity)
    (parityLe : parity ≤ maxParity) {shardLen : Nat} (lower : fragmentHeader ≤ shardLen)
    (upper : shardLen ≤ shardBytes) :
    ∃ codec repair, rs.new encoder.shards.length parity = some codec ∧
      codec.encode (encoder.shards.map (resize shardLen)) = some repair ∧
      repair.length = parity ∧
      Group.Codeword rs encoder.shards.length parity
        (encoder.shards.map (resize shardLen) ++ repair) := by
  have dataPos : 1 ≤ encoder.shards.length := List.length_pos_iff.mpr some_
  have equalLength : ∀ shard ∈ encoder.shards.map (resize shardLen), shard.length = shardLen := by
    intro shard member
    obtain ⟨original, _, rfl⟩ := List.mem_map.mp member
    exact length_resize shardLen original
  unfold dataShards at few
  unfold maxParity at parityLe
  obtain ⟨codec, isCodec, lawful⟩ :=
    rs.new_lawful encoder.shards.length parity dataPos parityPos (by omega)
  obtain ⟨repair, encoded, repairCount, repairLength⟩ :=
    lawful.encode_equal (encoder.shards.map (resize shardLen)) shardLen (by simp)
      (by unfold fragmentHeader at lower; omega) equalLength
  refine ⟨codec, repair, isCodec, encoded, repairCount, ?_, ?_, ?_⟩
  · rw [List.length_append, List.length_map, repairCount]
  · intro shard member
    have isLength : shard.length = shardLen := by
      rcases List.mem_append.mp member with inSource | inRepair
      · exact equalLength shard inSource
      · exact repairLength shard inRepair
    rw [ShardSize, isLength]
    exact ⟨lower, upper⟩
  · intro _
    exact ⟨codec, encoder.shards.map (resize shardLen), repair, shardLen, isCodec, rfl,
      List.length_map _, encoded, equalLength⟩

/-- The frames of `flush` are the frames of the group it records. -/
private theorem shardFrames_eq {fragments : List FragmentId} {parity : Nat}
    {source repair : List Bytes} (few : source.length ≤ dataShards)
    (count : fragments.length = source.length) (parityLe : parity ≤ maxParity)
    (repairCount : repair.length ≤ maxParity) :
    encoder.shardFrames kindData source.length parity 0 source ++
        encoder.shardFrames kindParity source.length parity source.length repair =
      SentGroup.framesAt encoder ⟨fragments, parity, source ++ repair⟩ := by
  unfold dataShards at few
  unfold maxParity at parityLe repairCount
  have dataByte : source.length % 2 ^ 8 = source.length := Nat.mod_eq_of_lt (by omega)
  have parityByte : parity % 2 ^ 8 = parity := Nat.mod_eq_of_lt (by omega)
  unfold SentGroup.framesAt shardFrames
  rw [List.zipIdx_append, List.map_append, dataByte, parityByte]
  congr 1
  · apply List.map_congr_left
    intro entry member
    have below := (List.mem_zipIdx member).2.1
    have index : (0 + entry.2) % 2 ^ 16 = entry.2 := by
      rw [Nat.zero_add]
      exact Nat.mod_eq_of_lt (by omega)
    have isSource : entry.2 < fragments.length := by omega
    rw [index, Nat.add_zero, SentGroup.frameAt, if_pos isSource, ← count]
  · rw [Nat.zero_add, @List.zipIdx_eq_map_add _ repair source.length, List.map_map]
    apply List.map_congr_left
    intro entry member
    have below := (List.mem_zipIdx member).2.1
    have index : (source.length + entry.2) % 2 ^ 16 = source.length + entry.2 :=
      Nat.mod_eq_of_lt (by omega)
    have notSource : ¬ source.length + entry.2 < fragments.length := by omega
    simp only [Function.comp_apply]
    rw [index, SentGroup.frameAt, if_neg notSource, Nat.add_assoc, ← count]

/-- `flush` succeeds and sends the pending shards as one group, padded where the
group has redundancy.  `fragments` are the names of the pending shards. -/
theorem Encoder.flush_sends (some_ : encoder.shards ≠ [])
    (few : encoder.shards.length ≤ dataShards)
    (sized : ∀ shard ∈ encoder.shards, ShardSize shard) {fragments : List FragmentId}
    (count : fragments.length = encoder.shards.length) :
    ∃ sent : SentGroup, sent.fragments = fragments ∧
      sent.parity = encoder.parityFor encoder.shards.length ∧
      encoder.flush rs =
        ({ encoder with
            shards := [], sequence := encoder.sequence + sent.full.length
            group := encoder.group + 1 },
          .ok (sent.framesAt encoder)) ∧
      Group.Codeword rs sent.fragments.length sent.parity sent.full ∧
      ∀ (index : Nat) (shard : Bytes), encoder.shards[index]? = some shard →
        ∃ padding, sent.full[index]? = some (shard ++ padding) := by
  unfold Encoder.flush
  rw [if_neg (by rw [List.isEmpty_iff]; exact some_)]
  dsimp only
  have parityLe : encoder.parityFor encoder.shards.length ≤ maxParity := min_le_right _ _
  generalize encoder.parityFor encoder.shards.length = parity at *
  rcases Nat.eq_zero_or_pos parity with rfl | redundant
  · rw [if_neg (Nat.lt_irrefl 0), if_neg (Nat.lt_irrefl 0)]
    refine ⟨⟨fragments, 0, encoder.shards⟩, rfl, rfl, ?_,
      ⟨count.symm, sized, fun impossible => absurd impossible (Nat.lt_irrefl 0)⟩, ?_⟩
    · have both := @shardFrames_eq encoder fragments 0 encoder.shards [] few count
        (Nat.zero_le _) (Nat.zero_le _)
      rw [List.append_nil] at both
      rw [← both]
      exact congrArg _ (congrArg _ (List.append_nil _).symm)
    · intro index shard held
      exact ⟨[], by rw [List.append_nil]; exact held⟩
  · rw [if_pos redundant, if_pos redundant]
    obtain ⟨shardLen, isLength, lower, upper, longest⟩ := padded_length sized some_
    obtain ⟨codec, repair, isCodec, encoded, repairCount, codeword⟩ :=
      @padded_codeword rs encoder some_ few parity redundant parityLe shardLen lower upper
    rw [isLength, isCodec]
    dsimp only
    rw [encoded]
    dsimp only
    have padded : (encoder.shards.map (resize shardLen)).length = encoder.shards.length :=
      List.length_map _
    refine ⟨⟨fragments, parity, encoder.shards.map (resize shardLen) ++ repair⟩, rfl, rfl, ?_,
      by rw [count]; exact codeword, ?_⟩
    · have frames := @shardFrames_eq encoder fragments parity
        (encoder.shards.map (resize shardLen)) repair (by rw [padded]; exact few)
        (by rw [padded]; exact count) parityLe (by rw [repairCount]; exact parityLe)
      rw [padded] at frames
      dsimp only
      rw [frames, List.length_append, padded, Nat.add_assoc]
    · intro index shard held
      have within := (List.getElem?_eq_some_iff.mp held).1
      refine ⟨List.replicate (shardLen - shard.length) 0, ?_⟩
      dsimp only
      rw [List.getElem?_append_left (by rw [padded]; exact within), List.getElem?_map, held,
        Option.map_some, resize_eq (longest shard (List.mem_of_getElem? held))]

end Flushing

theorem not_isShard_of_report {frame : Frame} (report : frame.kind = kindReport) :
    ¬ frame.IsShard := by
  unfold Frame.IsShard
  rw [report]
  decide

namespace SenderLog

/-- The group a shard frame belongs to, and its place there. -/
structure Describes (log : SenderLog) (frame : Frame) (sent : SentGroup) : Prop where
  group_pos : 0 < frame.group
  isGroup : log.groups[frame.group - 1]? = some sent
  data : frame.data = sent.fragments.length
  parity : frame.parity = sent.parity
  payload : sent.full[frame.index]? = some frame.payload
  kind : frame.kind = if frame.index < sent.fragments.length then kindData else kindParity

theorem Describes.isShard {log : SenderLog} {frame : Frame} {sent : SentGroup}
    (describes : log.Describes frame sent) : frame.IsShard := by
  unfold Frame.IsShard
  rw [describes.kind]
  split
  · exact Or.inl rfl
  · exact Or.inr rfl

structure Explains (log : SenderLog) (rs : ReedSolomon) (encoder : Encoder) : Prop where
  packet : encoder.packet = log.datagrams.length + 1
  group : encoder.group = log.groups.length + 1
  sequence : encoder.sequence = log.frames.length + 1
  shards : encoder.shards.map some = log.pending.map (shardOf log.datagrams)
  valid : ∀ sent ∈ log.groups, sent.Valid rs log.datagrams
  described : ∀ frame ∈ log.frames, frame.kind = kindReport ∨ ∃ sent, log.Describes frame sent
  covered : ∀ (id : Nat) (sent : SentGroup), log.groups[id]? = some sent →
    ∀ index, index < sent.full.length →
      ∃ frame ∈ log.frames, frame.IsShard ∧ frame.group = id + 1 ∧ frame.index = index
  unique : ∀ left ∈ log.frames, ∀ right ∈ log.frames, left.IsShard → right.IsShard →
    left.group = right.group → left.index = right.index → left.sequence = right.sequence
  sequences : log.frames.map Frame.sequence = List.range' 1 log.frames.length
  identity : ∀ frame ∈ log.frames, frame.session = encoder.session ∧
    frame.version = encoder.version ∧ frame.keyId = encoder.keyId

/-- All fragments that have a place. -/
def fragments (log : SenderLog) : List FragmentId :=
  log.groups.flatMap SentGroup.fragments ++ log.pending

def empty : SenderLog := ⟨[], [], [], []⟩

theorem explains_empty (rs : ReedSolomon) (session version keyId : Nat) (hook : Option Nat) :
    empty.Explains rs (withIdentity session version keyId hook) where
  packet := rfl
  group := rfl
  sequence := rfl
  shards := rfl
  valid := by intro sent member; cases member
  described := by intro frame member; cases member
  covered := by intro id sent found; cases found
  unique := by intro left member; cases member
  sequences := rfl
  identity := by intro frame member; cases member

/-- One log continues another. -/
structure Extends (later earlier : SenderLog) : Prop where
  datagrams : earlier.datagrams <+: later.datagrams
  groups : earlier.groups <+: later.groups
  frames : earlier.frames <+: later.frames

theorem Extends.refl (log : SenderLog) : log.Extends log :=
  ⟨List.prefix_rfl, List.prefix_rfl, List.prefix_rfl⟩

theorem Extends.trans {first second third : SenderLog} (late : third.Extends second)
    (early : second.Extends first) : third.Extends first :=
  ⟨early.datagrams.trans late.datagrams, early.groups.trans late.groups,
    early.frames.trans late.frames⟩

theorem Describes.extends {later earlier : SenderLog} (extends_ : later.Extends earlier)
    {frame : Frame} {sent : SentGroup} (describes : earlier.Describes frame sent) :
    later.Describes frame sent := by
  refine ⟨describes.group_pos, ?_, describes.data, describes.parity, describes.payload,
    describes.kind⟩
  obtain ⟨more, equal⟩ := extends_.groups
  have within := (List.getElem?_eq_some_iff.mp describes.isGroup).1
  rw [← equal, List.getElem?_append_left within]
  exact describes.isGroup

/-! ### Flushing -/

namespace Explains

variable {log : SenderLog} {rs : ReedSolomon} {encoder : Encoder}

theorem shards_length (explains : log.Explains rs encoder) :
    encoder.shards.length = log.pending.length := by
  have lengths := congrArg List.length explains.shards
  simpa using lengths

theorem pending_shard (explains : log.Explains rs encoder) {index : Nat} {fragment : FragmentId}
    (held : log.pending[index]? = some fragment) :
    ∃ shard, encoder.shards[index]? = some shard ∧ shardOf log.datagrams fragment = some shard := by
  have atIndex := congrArg (fun list => list[index]?) explains.shards
  simp only [List.getElem?_map, held, Option.map_some] at atIndex
  obtain ⟨shard, isShard, equal⟩ := Option.map_eq_some_iff.mp atIndex
  exact ⟨shard, isShard, equal.symm⟩

theorem shard_size (explains : log.Explains rs encoder) {shard : Bytes}
    (member : shard ∈ encoder.shards) : ShardSize shard := by
  have inMapped : some shard ∈ log.pending.map (shardOf log.datagrams) := by
    rw [← explains.shards]
    exact List.mem_map.mpr ⟨shard, member, rfl⟩
  obtain ⟨fragment, _, found⟩ := List.mem_map.mp inMapped
  exact shardOf_size found

end Explains

/-- The log after the pending fragments were sent as one group. -/
def sendGroup (log : SenderLog) (encoder : Encoder) (sent : SentGroup) : SenderLog :=
  { log with
    groups := log.groups ++ [sent], pending := [], frames := log.frames ++ sent.framesAt encoder }

theorem sendGroup_extends (log : SenderLog) (encoder : Encoder) (sent : SentGroup) :
    (log.sendGroup encoder sent).Extends log :=
  ⟨List.prefix_rfl, List.prefix_append _ _, List.prefix_append _ _⟩

theorem sendGroup_fragments (log : SenderLog) (encoder : Encoder) {sent : SentGroup}
    (carries : sent.fragments = log.pending) :
    (log.sendGroup encoder sent).fragments = log.fragments := by
  unfold fragments sendGroup
  simp [carries]

namespace Explains

variable {log : SenderLog} {rs : ReedSolomon} {encoder : Encoder}

private theorem describes_frameAt (explains : log.Explains rs encoder) {sent : SentGroup}
    {frame : Frame} (member : frame ∈ sent.framesAt encoder) :
    (log.sendGroup encoder sent).Describes frame sent := by
  obtain ⟨entry, inFull, rfl⟩ := List.mem_map.mp member
  refine ⟨?_, ?_, rfl, rfl, List.mem_zipIdx_iff_getElem?.mp inFull, rfl⟩
  · show 0 < encoder.group
    rw [explains.group]
    exact Nat.succ_pos _
  · show (log.groups ++ [sent])[encoder.group - 1]? = some sent
    rw [explains.group, Nat.add_sub_cancel, List.getElem?_concat_length]

/-- A shard frame handed out belongs to a group sent before. -/
theorem group_le (explains : log.Explains rs encoder) {frame : Frame} (member : frame ∈ log.frames)
    (isShard : frame.IsShard) : frame.group ≤ log.groups.length := by
  rcases explains.described frame member with report | ⟨sent, describes⟩
  · exact absurd isShard (not_isShard_of_report report)
  · have within := (List.getElem?_eq_some_iff.mp describes.isGroup).1
    omega

theorem sendGroup (explains : log.Explains rs encoder) {sent : SentGroup}
    (valid : sent.Valid rs log.datagrams) :
    (log.sendGroup encoder sent).Explains rs
      { encoder with
        shards := [], sequence := encoder.sequence + sent.full.length,
        group := encoder.group + 1 } where
  packet := explains.packet
  group := by
    show encoder.group + 1 = (log.groups ++ [sent]).length + 1
    rw [explains.group, List.length_append, List.length_singleton]
  sequence := by
    show encoder.sequence + sent.full.length = (log.frames ++ sent.framesAt encoder).length + 1
    rw [explains.sequence, List.length_append, sent.length_framesAt]
    omega
  shards := rfl
  valid := by
    intro other member
    rcases List.mem_append.mp member with old | new
    · exact explains.valid other old
    · rw [List.mem_singleton] at new
      subst new
      exact valid
  described := by
    intro frame member
    rcases List.mem_append.mp member with old | new
    · rcases explains.described frame old with report | ⟨other, describes⟩
      · exact Or.inl report
      · exact Or.inr ⟨other, describes.extends (log.sendGroup_extends encoder sent)⟩
    · exact Or.inr ⟨sent, explains.describes_frameAt new⟩
  covered := by
    intro id other found index below
    rcases Nat.lt_or_ge id log.groups.length with old | new
    · have held : log.groups[id]? = some other := by
        rw [← List.getElem?_append_left old]
        exact found
      obtain ⟨frame, member, isShard, isGroup, isIndex⟩ := explains.covered id other held index below
      exact ⟨frame, List.mem_append_left _ member, isShard, isGroup, isIndex⟩
    · have within := (List.getElem?_eq_some_iff.mp found).1
      have isLast : id = log.groups.length := by
        have length : (log.sendGroup encoder sent).groups.length = log.groups.length + 1 := by
          simp [SenderLog.sendGroup]
        omega
      have same : other = sent := by
        have last : (log.groups ++ [sent])[id]? = some other := found
        rw [isLast, List.getElem?_concat_length] at last
        exact (Option.some.inj last).symm
      subst same
      refine ⟨other.frameAt encoder index other.full[index], ?_, ?_, ?_, rfl⟩
      · apply List.mem_append_right
        refine List.mem_map.mpr ⟨(other.full[index], index), ?_, rfl⟩
        exact List.mem_zipIdx_iff_getElem?.mpr (List.getElem?_eq_getElem below)
      · unfold Frame.IsShard SentGroup.frameAt
        dsimp only
        split
        · exact Or.inl rfl
        · exact Or.inr rfl
      · show encoder.group = id + 1
        rw [explains.group, isLast]
  unique := by
    intro left isLeft right isRight leftShard rightShard sameGroup sameIndex
    rcases List.mem_append.mp isLeft with leftOld | leftNew
    · have older := explains.group_le leftOld leftShard
      rcases List.mem_append.mp isRight with rightOld | rightNew
      · exact explains.unique left leftOld right rightOld leftShard rightShard sameGroup sameIndex
      · obtain ⟨entry, _, rfl⟩ := List.mem_map.mp rightNew
        have newer : left.group = log.groups.length + 1 := sameGroup.trans explains.group
        omega
    · obtain ⟨leftEntry, _, rfl⟩ := List.mem_map.mp leftNew
      rcases List.mem_append.mp isRight with rightOld | rightNew
      · have older := explains.group_le rightOld rightShard
        have newer : right.group = log.groups.length + 1 := sameGroup.symm.trans explains.group
        omega
      · obtain ⟨rightEntry, _, rfl⟩ := List.mem_map.mp rightNew
        have same : leftEntry.2 = rightEntry.2 := sameIndex
        show encoder.sequence + leftEntry.2 = encoder.sequence + rightEntry.2
        rw [same]
  sequences := by
    show (log.frames ++ sent.framesAt encoder).map Frame.sequence = _
    rw [List.map_append, explains.sequences, sent.sequences_framesAt, explains.sequence]
    show _ = List.range' 1 (log.frames ++ sent.framesAt encoder).length
    rw [List.length_append, sent.length_framesAt, ← List.range'_append, Nat.one_mul,
      Nat.add_comm 1]
  identity := by
    intro frame member
    rcases List.mem_append.mp member with old | new
    · exact explains.identity frame old
    · obtain ⟨entry, _, rfl⟩ := List.mem_map.mp new
      exact ⟨rfl, rfl, rfl⟩

end Explains

/-- What one operation of the encoder leaves behind: a later log that explains
the new state and has the frames it returned at its end. -/
structure Continues (rs : ReedSolomon) (log later : SenderLog) (next : Encoder)
    (frames : List Frame) : Prop where
  explains : later.Explains rs next
  extends_ : later.Extends log
  frames : later.frames = log.frames ++ frames

namespace Explains

variable {log : SenderLog} {rs : ReedSolomon} {encoder : Encoder}

/-- `flush` succeeds and moves the pending fragments into one new group. -/
theorem flush (explains : log.Explains rs encoder) (few : encoder.shards.length ≤ dataShards) :
    ∃ (next : Encoder) (later : SenderLog) (frames : List Frame),
      encoder.flush rs = (next, .ok frames) ∧ Continues rs log later next frames ∧
      later.datagrams = log.datagrams ∧ later.fragments = log.fragments ∧ next.shards = [] := by
  by_cases empty : encoder.shards = []
  · have unchanged : Continues rs log log encoder [] :=
      ⟨explains, Extends.refl log, (List.append_nil _).symm⟩
    exact ⟨encoder, log, [], by simp [Encoder.flush, empty], unchanged, rfl, rfl, empty⟩
  · have count := explains.shards_length
    obtain ⟨sent, carries, isParity, flushed, codeword, padded⟩ := @Encoder.flush_sends rs encoder
      empty few (fun shard member => explains.shard_size member) log.pending count.symm
    have valid : sent.Valid rs log.datagrams := by
      refine ⟨?_, ?_, ?_, codeword, ?_⟩
      · rw [carries, ← count]
        exact List.length_pos_iff.mpr empty
      · rw [carries, ← count]
        exact few
      · rw [isParity]
        exact min_le_right _ _
      · intro index fragment held
        rw [carries] at held
        obtain ⟨shard, isShard, found⟩ := explains.pending_shard held
        obtain ⟨padding, isFull⟩ := padded index shard isShard
        exact ⟨shard, padding, found, isFull⟩
    exact ⟨_, _, _, flushed,
      ⟨explains.sendGroup valid, log.sendGroup_extends encoder _, rfl⟩, rfl,
      log.sendGroup_fragments encoder carries, rfl⟩

/-! ### Encoding a datagram -/

/-- A datagram without fragments yet. -/
theorem addDatagram (explains : log.Explains rs encoder) (payload : Bytes) :
    Explains { log with datagrams := log.datagrams ++ [payload] } rs
      { encoder with packet := encoder.packet + 1 } where
  packet := by
    show encoder.packet + 1 = (log.datagrams ++ [payload]).length + 1
    rw [explains.packet, List.length_append, List.length_singleton]
  group := explains.group
  sequence := explains.sequence
  shards := by
    show encoder.shards.map some = log.pending.map (shardOf (log.datagrams ++ [payload]))
    rw [explains.shards]
    apply List.map_congr_left
    intro fragment member
    have mapped : shardOf log.datagrams fragment ∈ encoder.shards.map some := by
      rw [explains.shards]
      exact List.mem_map.mpr ⟨fragment, member, rfl⟩
    obtain ⟨shard, _, found⟩ := List.mem_map.mp mapped
    rw [shardOf_append found.symm [payload], ← found]
  valid := fun sent member => (explains.valid sent member).append [payload]
  described := by
    have longer : Extends { log with datagrams := log.datagrams ++ [payload] } log :=
      ⟨List.prefix_append _ _, List.prefix_rfl, List.prefix_rfl⟩
    exact fun frame member => (explains.described frame member).imp id fun ⟨sent, describes⟩ =>
      ⟨sent, describes.extends longer⟩
  covered := explains.covered
  unique := explains.unique
  sequences := explains.sequences
  identity := explains.identity

/-- One more pending fragment. -/
theorem addFragment (explains : log.Explains rs encoder) {fragment : FragmentId} {shard : Bytes}
    (found : shardOf log.datagrams fragment = some shard) :
    Explains { log with pending := log.pending ++ [fragment] } rs
      { encoder with shards := encoder.shards ++ [shard] } where
  packet := explains.packet
  group := explains.group
  sequence := explains.sequence
  shards := by
    show (encoder.shards ++ [shard]).map some =
      (log.pending ++ [fragment]).map (shardOf log.datagrams)
    rw [List.map_append, List.map_append, explains.shards, List.map_singleton, List.map_singleton,
      found]
  valid := explains.valid
  described := by
    have same : Extends { log with pending := log.pending ++ [fragment] } log :=
      ⟨List.prefix_rfl, List.prefix_rfl, List.prefix_rfl⟩
    exact fun frame member => (explains.described frame member).imp id fun ⟨sent, describes⟩ =>
      ⟨sent, describes.extends same⟩
  covered := explains.covered
  unique := explains.unique
  sequences := explains.sequences
  identity := explains.identity

/-- The fragment loop places every remaining fragment of the datagram. -/
theorem pushChunks (explains : log.Explains rs encoder) {packetId : Nat} {payload : Bytes}
    (positive : packetId ≠ 0) (isPacket : log.datagrams[packetId - 1]? = some payload)
    (index : Nat) (rest : List Bytes) (isRest : (datagramChunks payload).drop index = rest)
    (few : encoder.shards.length < dataShards) (frames : List Frame) :
    ∃ (next : Encoder) (later : SenderLog) (more : List Frame),
      Encoder.pushChunks rs packetId (datagramChunks payload).length index rest encoder frames =
        (next, .ok (frames ++ more)) ∧
      Continues rs log later next more ∧ later.datagrams = log.datagrams ∧
      later.fragments = log.fragments ++
        (List.range' index rest.length).map (fun position => (packetId, position)) ∧
      next.shards.length < dataShards := by
  induction rest generalizing log encoder index frames with
  | nil =>
      refine ⟨encoder, log, [], ?_, ⟨explains, Extends.refl log, ?_⟩, rfl, ?_, few⟩
      · rw [Encoder.pushChunks, List.append_nil]
      · rw [List.append_nil]
      · simp
  | cons chunk rest inductionHypothesis =>
      have isChunk : (datagramChunks payload)[index]? = some chunk := by
        have first : ((datagramChunks payload).drop index)[0]? = some chunk := by
          rw [isRest]
          rfl
        rw [List.getElem?_drop, Nat.add_zero] at first
        exact first
      have isNextRest : (datagramChunks payload).drop (index + 1) = rest := by
        rw [← List.tail_drop, isRest]
        rfl
      have found : shardOf log.datagrams (packetId, index) =
          some (fragmentShard packetId index (datagramChunks payload).length chunk) := by
        unfold shardOf
        rw [if_neg positive]
        simp only [isPacket, isChunk, Option.bind_some, Option.map_some]
      have pushed := explains.addFragment found
      have pushedExtends : Extends { log with pending := log.pending ++ [(packetId, index)] } log :=
        ⟨List.prefix_rfl, List.prefix_rfl, List.prefix_rfl⟩
      have pushedFragments : SenderLog.fragments
          { log with pending := log.pending ++ [(packetId, index)] } =
            log.fragments ++ [(packetId, index)] := (List.append_assoc _ _ _).symm
      have positions : (List.range' index (chunk :: rest).length).map
          (fun position => (packetId, position)) =
            [(packetId, index)] ++ (List.range' (index + 1) rest.length).map
              (fun position => (packetId, position)) := by
        rw [List.length_cons, List.range'_succ]
        rfl
      rw [Encoder.pushChunks]
      dsimp only
      split
      · obtain ⟨flushed, flushedLog, emitted, isFlushed, continues, sameDatagrams, sameFragments,
          emptied⟩ := pushed.flush (by
            rw [List.length_append, List.length_singleton]
            omega)
        rw [isFlushed]
        obtain ⟨next, later, more, isNext, nextContinues, nextDatagrams, nextFragments, nextFew⟩ :=
          inductionHypothesis continues.explains (by rw [sameDatagrams]; exact isPacket) (index + 1)
            isNextRest (by rw [emptied]; decide) (frames ++ emitted)
        refine ⟨next, later, emitted ++ more, ?_, ?_, ?_, ?_, nextFew⟩
        · dsimp only
          rw [isNext, List.append_assoc]
        · refine ⟨nextContinues.explains,
            nextContinues.extends_.trans (continues.extends_.trans pushedExtends), ?_⟩
          rw [nextContinues.frames, continues.frames, List.append_assoc]
        · rw [nextDatagrams, sameDatagrams]
        · rw [nextFragments, sameFragments, pushedFragments, positions, List.append_assoc]
      next notFull =>
        rw [List.length_append, List.length_singleton] at notFull
        obtain ⟨next, later, more, isNext, nextContinues, nextDatagrams, nextFragments, nextFew⟩ :=
          inductionHypothesis pushed isPacket (index + 1) isNextRest (by
            rw [List.length_append, List.length_singleton]
            omega) frames
        refine ⟨next, later, more, isNext, ?_, nextDatagrams, ?_, nextFew⟩
        · exact ⟨nextContinues.explains, nextContinues.extends_.trans pushedExtends,
            nextContinues.frames⟩
        · rw [nextFragments, pushedFragments, positions, List.append_assoc]

/-! ### Calls -/

/-- `report_frame` adds one frame that belongs to no group. -/
theorem reportFrame (explains : log.Explains rs encoder) (lossPpm : Nat) :
    Continues rs log { log with frames := log.frames ++ [(encoder.reportFrame lossPpm).2] }
      (encoder.reportFrame lossPpm).1 [(encoder.reportFrame lossPpm).2] where
  extends_ := ⟨List.prefix_rfl, List.prefix_rfl, List.prefix_append _ _⟩
  frames := rfl
  explains :=
    { packet := explains.packet
      group := explains.group
      sequence := by
        show encoder.sequence + 1 = (log.frames ++ [_]).length + 1
        rw [explains.sequence, List.length_append, List.length_singleton]
      shards := explains.shards
      valid := explains.valid
      described := by
        intro frame member
        rcases List.mem_append.mp member with old | new
        · rcases explains.described frame old with report | ⟨sent, describes⟩
          · exact Or.inl report
          · have longer : Extends { log with
                frames := log.frames ++ [(encoder.reportFrame lossPpm).2] } log :=
              ⟨List.prefix_rfl, List.prefix_rfl, List.prefix_append _ _⟩
            exact Or.inr ⟨sent, describes.extends longer⟩
        · rw [List.mem_singleton] at new
          subst new
          exact Or.inl rfl
      covered := by
        intro id sent found index below
        obtain ⟨frame, member, rest⟩ := explains.covered id sent found index below
        exact ⟨frame, List.mem_append_left _ member, rest⟩
      unique := by
        intro left isLeft right isRight leftShard rightShard
        have old : ∀ frame ∈ log.frames ++ [(encoder.reportFrame lossPpm).2],
            frame.IsShard → frame ∈ log.frames := by
          intro frame member isShard
          rcases List.mem_append.mp member with old | new
          · exact old
          · rw [List.mem_singleton] at new
            subst new
            exact absurd isShard (not_isShard_of_report rfl)
        exact explains.unique left (old left isLeft leftShard) right (old right isRight rightShard)
          leftShard rightShard
      sequences := by
        show (log.frames ++ [_]).map Frame.sequence = List.range' 1 (log.frames ++ [_]).length
        rw [List.map_append, explains.sequences, List.length_append, List.length_singleton,
          ← List.range'_append, Nat.one_mul, Nat.add_comm 1, ← explains.sequence]
        rfl
      identity := by
        intro frame member
        rcases List.mem_append.mp member with old | new
        · exact explains.identity frame old
        · rw [List.mem_singleton] at new
          subst new
          exact ⟨rfl, rfl, rfl⟩ }

end Explains

/-! ### Places -/

/-- The group with number `id`. -/
def IsGroup (log : SenderLog) (id : Nat) (sent : SentGroup) : Prop :=
  0 < id ∧ log.groups[id - 1]? = some sent

/-- The datagram with packet id `id`. -/
def IsPacket (log : SenderLog) (id : Nat) (payload : Bytes) : Prop :=
  0 < id ∧ log.datagrams[id - 1]? = some payload

/-- The fragment is the source shard `index` of group `id`. -/
def PlacedAt (log : SenderLog) (fragment : FragmentId) (id index : Nat) : Prop :=
  ∃ sent, log.IsGroup id sent ∧ sent.fragments[index]? = some fragment

theorem IsGroup.unique {log : SenderLog} {id : Nat} {left right : SentGroup}
    (isLeft : log.IsGroup id left) (isRight : log.IsGroup id right) : left = right :=
  Option.some.inj (isLeft.2.symm.trans isRight.2)

theorem IsPacket.unique {log : SenderLog} {id : Nat} {left right : Bytes}
    (isLeft : log.IsPacket id left) (isRight : log.IsPacket id right) : left = right :=
  Option.some.inj (isLeft.2.symm.trans isRight.2)

theorem IsGroup.mem {log : SenderLog} {id : Nat} {sent : SentGroup} (isGroup : log.IsGroup id sent) :
    sent ∈ log.groups :=
  List.mem_of_getElem? isGroup.2

theorem Describes.group {log : SenderLog} {frame : Frame} {sent : SentGroup}
    (describes : log.Describes frame sent) : log.IsGroup frame.group sent :=
  ⟨describes.group_pos, describes.isGroup⟩

/-- What a place says about the fragment and its shard. -/
theorem Explains.shard_of_placedAt {log : SenderLog} {rs : ReedSolomon} {encoder : Encoder}
    (explains : log.Explains rs encoder) {id index : Nat} {sent : SentGroup}
    {fragment : FragmentId} (isGroup : log.IsGroup id sent)
    (placed : sent.fragments[index]? = some fragment) :
    ∃ payload chunk padding, log.IsPacket fragment.1 payload ∧
      (datagramChunks payload)[fragment.2]? = some chunk ∧
      sent.full[index]? = some
        (fragmentShard fragment.1 fragment.2 (datagramChunks payload).length chunk ++ padding) := by
  obtain ⟨shard, padding, found, isFull⟩ :=
    (explains.valid sent isGroup.mem).source index fragment placed
  obtain ⟨payload, chunk, positive, held, isChunk, rfl⟩ := shardOf_spec found
  exact ⟨payload, chunk, padding, ⟨positive, held⟩, isChunk, isFull⟩

/-- A log that explains an encoder between two calls. -/
structure Settled (log : SenderLog) (rs : ReedSolomon) (encoder : Encoder) : Prop extends
    Explains log rs encoder where
  few : encoder.shards.length < dataShards
  placed : log.fragments = fragmentsFrom 1 log.datagrams

namespace Settled

variable {log : SenderLog} {rs : ReedSolomon} {encoder : Encoder}

/-- `encode_datagram` succeeds and places every fragment of the datagram. -/
theorem encodeDatagram (settled : log.Settled rs encoder) {payload : Bytes}
    (small : payload.length ≤ maxDatagram) :
    ∃ (next : Encoder) (later : SenderLog) (frames : List Frame),
      encoder.encodeDatagram rs payload = (next, .ok frames) ∧
      Continues rs log later next frames ∧ later.Settled rs next ∧
      later.datagrams = log.datagrams ++ [payload] := by
  have counted := settled.toExplains.addDatagram payload
  have isPacket : (log.datagrams ++ [payload])[encoder.packet - 1]? = some payload := by
    rw [settled.packet, Nat.add_sub_cancel, List.getElem?_concat_length]
  have positive : encoder.packet ≠ 0 := by
    rw [settled.packet]
    exact Nat.succ_ne_zero _
  obtain ⟨next, later, frames, pushed, continues, sameDatagrams, fragments, few⟩ :=
    counted.pushChunks positive isPacket 0 (datagramChunks payload) rfl settled.few []
  have fewChunks := length_datagramChunks_le small
  refine ⟨next, later, frames, ?_, ?_, ?_, sameDatagrams⟩
  · unfold Encoder.encodeDatagram
    rw [← length_datagramChunks, if_neg (by omega)]
    exact pushed
  · refine ⟨continues.explains, continues.extends_.trans ⟨?_, ?_, ?_⟩, continues.frames⟩
    · exact List.prefix_append _ _
    · exact List.prefix_rfl
    · exact List.prefix_rfl
  · refine ⟨continues.explains, few, ?_⟩
    have earlier : SenderLog.fragments { log with datagrams := log.datagrams ++ [payload] } =
        fragmentsFrom 1 log.datagrams := settled.placed
    rw [fragments, earlier, sameDatagrams, fragmentsFrom_append, settled.packet,
      List.range_eq_range', Nat.add_comm 1]

/-- A fragment has one place. -/
theorem placedAt_unique (settled : log.Settled rs encoder) {fragment : FragmentId}
    {leftGroup leftIndex rightGroup rightIndex : Nat}
    (left : log.PlacedAt fragment leftGroup leftIndex)
    (right : log.PlacedAt fragment rightGroup rightIndex) :
    leftGroup = rightGroup ∧ leftIndex = rightIndex := by
  obtain ⟨leftSent, ⟨leftPos, isLeft⟩, leftPlaced⟩ := left
  obtain ⟨rightSent, ⟨rightPos, isRight⟩, rightPlaced⟩ := right
  have distinct : (log.groups.flatMap SentGroup.fragments).Nodup := by
    have all := nodup_fragmentsFrom_one log.datagrams
    rw [← settled.placed] at all
    exact (List.nodup_append.mp all).1
  obtain ⟨within, across⟩ := List.nodup_flatMap.mp distinct
  obtain ⟨leftLt, rfl⟩ := List.getElem?_eq_some_iff.mp isLeft
  obtain ⟨rightLt, rfl⟩ := List.getElem?_eq_some_iff.mp isRight
  have sameGroup : leftGroup - 1 = rightGroup - 1 := by
    by_contra different
    have disjoint : ∀ first second (firstLt : first < log.groups.length)
        (secondLt : second < log.groups.length), first < second →
          fragment ∈ log.groups[first].fragments → fragment ∈ log.groups[second].fragments →
            False := by
      intro first second firstLt secondLt ordered inFirst inSecond
      exact (List.pairwise_iff_getElem.mp across first second firstLt secondLt ordered)
        inFirst inSecond
    rcases Nat.lt_or_gt_of_ne different with before | after
    · exact disjoint _ _ leftLt rightLt before (List.mem_of_getElem? leftPlaced)
        (List.mem_of_getElem? rightPlaced)
    · exact disjoint _ _ rightLt leftLt after (List.mem_of_getElem? rightPlaced)
        (List.mem_of_getElem? leftPlaced)
  have sameNumber : leftGroup = rightGroup := by omega
  subst sameNumber
  obtain ⟨leftIn, leftIs⟩ := List.getElem?_eq_some_iff.mp leftPlaced
  obtain ⟨rightIn, rightIs⟩ := List.getElem?_eq_some_iff.mp rightPlaced
  have nodup := within log.groups[leftGroup - 1] (List.getElem_mem leftLt)
  exact ⟨rfl, (List.Nodup.getElem_inj_iff nodup).mp (leftIs.trans rightIs.symm)⟩

/-- Every call keeps the log settled and extends it by what it sends. -/
theorem call (settled : log.Settled rs encoder) {call : Encoder.Call}
    (small : ∀ payload, call = .encodeDatagram payload → payload.length ≤ maxDatagram) :
    ∃ later : SenderLog, Continues rs log later (encoder.call rs call).1 (encoder.call rs call).2 ∧
      later.Settled rs (encoder.call rs call).1 ∧
      later.datagrams = log.datagrams ++ call.datagram.toList := by
  cases call with
  | encodeDatagram payload =>
      obtain ⟨next, later, frames, encoded, continues, nextSettled, datagrams⟩ :=
        settled.encodeDatagram (small payload rfl)
      refine ⟨later, ?_, ?_, datagrams⟩
      · simp only [Encoder.call, encoded]
        exact continues
      · simp only [Encoder.call, encoded]
        exact nextSettled
  | flush =>
      obtain ⟨next, later, frames, flushed, continues, datagrams, fragments, emptied⟩ :=
        settled.toExplains.flush settled.few.le
      refine ⟨later, ?_, ?_, ?_⟩
      · simp only [Encoder.call, flushed]
        exact continues
      · simp only [Encoder.call, flushed]
        refine ⟨continues.explains, by rw [emptied]; decide, ?_⟩
        rw [fragments, settled.placed, datagrams]
      · rw [datagrams]
        exact (List.append_nil _).symm
  | reportFrame lossPpm =>
      have continues := settled.toExplains.reportFrame lossPpm
      exact ⟨_, continues, ⟨continues.explains, settled.few, settled.placed⟩,
        (List.append_nil _).symm⟩
  | adaptiveReport loss =>
      have explains : log.Explains rs { encoder with adaptive := encoder.adaptive.report loss } :=
        ⟨settled.packet, settled.group, settled.sequence, settled.shards, settled.valid,
          settled.described, settled.covered, settled.unique, settled.sequences, settled.identity⟩
      exact ⟨log, ⟨explains, Extends.refl log, (List.append_nil _).symm⟩,
        ⟨explains, settled.few, settled.placed⟩, (List.append_nil _).symm⟩

end Settled

/-- Every run of an encoder has a settled log with the datagrams it was given
and the frames it handed out. -/
theorem settled_of_calls (rs : ReedSolomon) (session version keyId : Nat) (hook : Option Nat)
    (calls : List Encoder.Call)
    (small : ∀ payload ∈ Encoder.datagrams calls, payload.length ≤ maxDatagram) :
    ∃ (encoder : Encoder) (log : SenderLog),
      (withIdentity session version keyId hook).calls rs calls = some (encoder, log.frames) ∧
      log.Settled rs encoder ∧ log.datagrams = Encoder.datagrams calls ∧
      SameIdentity encoder (withIdentity session version keyId hook) := by
  obtain ⟨encoder, frames, ran, log, settled, isFrames, isDatagrams, identity⟩ :=
    run_induction (fun state input => some (Encoder.call rs state input))
      (withIdentity session version keyId hook) calls
      (fun past frames encoder => ∃ log : SenderLog, log.Settled rs encoder ∧
        log.frames = frames ∧ log.datagrams = Encoder.datagrams past ∧
        SameIdentity encoder (withIdentity session version keyId hook))
      ⟨empty, ⟨explains_empty rs session version keyId hook, show 0 < dataShards by decide, rfl⟩,
        rfl, rfl, ⟨rfl, rfl, rfl⟩⟩
      (by
        rintro past call frames encoder isPrefix _ ⟨log, settled, rfl, isDatagrams, identity⟩
        have callSmall : ∀ payload, call = .encodeDatagram payload →
            payload.length ≤ maxDatagram := by
          rintro payload rfl
          exact small payload (mem_datagrams_of_front isPrefix)
        obtain ⟨later, continues, laterSettled, laterDatagrams⟩ := settled.call callSmall
        refine ⟨_, _, rfl, later, laterSettled, continues.frames, ?_,
          (call_sameIdentity rs encoder call).trans identity⟩
        rw [laterDatagrams, isDatagrams]
        unfold Encoder.datagrams
        rw [List.filterMap_append]
        cases call <;> rfl)
  refine ⟨encoder, log, ?_, settled, isDatagrams, identity⟩
  rw [isFrames]
  exact ran

end SenderLog

end SmartFecTunnel.Fec
