import SmartFecTunnel.Fec.HonestReceiver

/-!
Contract: which fragments a set of delivered frames makes available.

A fragment is available when its own data frame is delivered, or as many
distinct frames of its group as the group has data shards.  The definitions
speak about frames only; `available_iff` restates them in terms of the sender's
log.

Owns:
- `Available`, `Recoverable` and the list of recoverable datagrams;
- that one more frame makes exactly the shards available that its group releases.
-/

namespace SmartFecTunnel.Fec

open SmartFecTunnel.Library
open Encoder

/-- A data frame that carries fragment `index` of packet `id`. -/
def Frame.Carries (frame : Frame) (id index : Nat) : Prop :=
  frame.kind = kindData ∧
    (FragmentHeader.read frame.payload).map (fun header => (header.packet, header.index)) =
      some (id, index)

instance (frame : Frame) (id index : Nat) : Decidable (frame.Carries id index) :=
  inferInstanceAs (Decidable (_ ∧ _))

/-- The distinct delivered shard frames of one group. -/
def groupFrames (delivered : List Frame) (id : Nat) : Finset Frame :=
  (delivered.filter fun frame => frame.IsShard ∧ frame.group = id).toFinset

/-- The fragment's own data frame is delivered, or enough frames of its group
are. -/
def Available (emitted delivered : List Frame) (id index : Nat) : Prop :=
  ∃ own ∈ emitted, own.Carries id index ∧
    (own ∈ delivered ∨ own.data ≤ (groupFrames delivered own.group).card)

instance (emitted delivered : List Frame) (id index : Nat) :
    Decidable (Available emitted delivered id index) :=
  inferInstanceAs (Decidable (∃ own ∈ emitted, _))

/-- Every fragment of the datagram is available. -/
def Recoverable (emitted delivered : List Frame) (id : Nat) (payload : Bytes) : Prop :=
  ∀ index, index < (datagramChunks payload).length → Available emitted delivered id index

instance (emitted delivered : List Frame) (id : Nat) (payload : Bytes) :
    Decidable (Recoverable emitted delivered id payload) :=
  inferInstanceAs (Decidable (∀ index, index < _ → _))

/-- The datagrams that the delivered frames determine, in sending order. -/
def recoverable (emitted delivered : List Frame) (datagrams : List Bytes) : List Bytes :=
  ((datagrams.zipIdx 1).filter fun entry => Recoverable emitted delivered entry.2 entry.1).map
    Prod.fst

/-- The positions of a group whose frames are delivered. -/
def arrived (delivered : List Frame) (id : Nat) : Finset Nat :=
  (groupFrames delivered id).image Frame.index

theorem mem_groupFrames {delivered : List Frame} {id : Nat} {frame : Frame} :
    frame ∈ groupFrames delivered id ↔
      frame ∈ delivered ∧ frame.IsShard ∧ frame.group = id := by
  simp [groupFrames]

theorem mem_arrived {delivered : List Frame} {id index : Nat} :
    index ∈ arrived delivered id ↔
      ∃ frame ∈ delivered, frame.IsShard ∧ frame.group = id ∧ frame.index = index := by
  unfold arrived
  simp only [Finset.mem_image, mem_groupFrames]
  constructor
  · rintro ⟨frame, ⟨member, isShard, isGroup⟩, isIndex⟩
    exact ⟨frame, member, isShard, isGroup, isIndex⟩
  · rintro ⟨frame, member, isShard, isGroup, isIndex⟩
    exact ⟨frame, ⟨member, isShard, isGroup⟩, isIndex⟩

theorem arrived_snoc (delivered : List Frame) (frame : Frame) (id : Nat) :
    arrived (delivered ++ [frame]) id =
      if frame.IsShard ∧ frame.group = id then insert frame.index (arrived delivered id)
      else arrived delivered id := by
  ext index
  split
  next belongs =>
    rw [Finset.mem_insert, mem_arrived, mem_arrived]
    simp only [List.mem_append, List.mem_singleton]
    constructor
    · rintro ⟨other, old | rfl, isShard, isGroup, isIndex⟩
      · exact Or.inr ⟨other, old, isShard, isGroup, isIndex⟩
      · exact Or.inl isIndex.symm
    · rintro (isIndex | ⟨other, old, rest⟩)
      · exact ⟨frame, Or.inr rfl, belongs.1, belongs.2, isIndex.symm⟩
      · exact ⟨other, Or.inl old, rest⟩
  next foreign =>
    rw [mem_arrived, mem_arrived]
    simp only [List.mem_append, List.mem_singleton]
    constructor
    · rintro ⟨other, old | rfl, isShard, isGroup, isIndex⟩
      · exact ⟨other, old, isShard, isGroup, isIndex⟩
      · exact absurd ⟨isShard, isGroup⟩ foreign
    · rintro ⟨other, old, rest⟩
      exact ⟨other, Or.inl old, rest⟩

/-- A frame that is no shard, or was delivered before, adds no position. -/
theorem arrived_snoc_of_known {delivered : List Frame} {frame : Frame}
    (known : frame.IsShard → frame ∈ delivered) (id : Nat) :
    arrived (delivered ++ [frame]) id = arrived delivered id := by
  rw [arrived_snoc]
  split
  next belongs =>
    apply Finset.insert_eq_of_mem
    exact mem_arrived.mpr ⟨frame, known belongs.1, belongs.1, belongs.2, rfl⟩
  next => rfl

namespace SenderLog

variable {log : SenderLog} {rs : ReedSolomon} {encoder : Encoder}

/-- A sequence number names one frame. -/
theorem Explains.frame_of_sequence (explains : log.Explains rs encoder) {left right : Frame}
    (isLeft : left ∈ log.frames) (isRight : right ∈ log.frames)
    (same : left.sequence = right.sequence) : left = right := by
  have distinct : (log.frames.map Frame.sequence).Nodup := by
    rw [explains.sequences]
    exact List.nodup_range'
  exact List.inj_on_of_nodup_map distinct isLeft isRight same

/-- A place names one shard frame. -/
theorem Explains.frame_of_place (explains : log.Explains rs encoder) {left right : Frame}
    (isLeft : left ∈ log.frames) (isRight : right ∈ log.frames) (leftShard : left.IsShard)
    (rightShard : right.IsShard) (sameGroup : left.group = right.group)
    (sameIndex : left.index = right.index) : left = right :=
  explains.frame_of_sequence isLeft isRight
    (explains.unique left isLeft right isRight leftShard rightShard sameGroup sameIndex)

theorem Explains.card_arrived (explains : log.Explains rs encoder) {delivered : List Frame}
    (drawn : ∀ frame ∈ delivered, frame ∈ log.frames) (id : Nat) :
    (arrived delivered id).card = (groupFrames delivered id).card := by
  apply Finset.card_image_of_injOn
  intro left isLeft right isRight same
  obtain ⟨inLeft, leftShard, leftGroup⟩ := mem_groupFrames.mp isLeft
  obtain ⟨inRight, rightShard, rightGroup⟩ := mem_groupFrames.mp isRight
  exact explains.frame_of_place (drawn left inLeft) (drawn right inRight) leftShard rightShard
    (leftGroup.trans rightGroup.symm) same

/-- Source position `index` of group `id` can be released. -/
def Open (delivered : List Frame) (id data index : Nat) : Prop :=
  index ∈ arrived delivered id ∨ data ≤ (arrived delivered id).card

/-- Availability in terms of the log. -/
def Reaches (log : SenderLog) (delivered : List Frame) (fragment : FragmentId) : Prop :=
  ∃ id sent index, log.IsGroup id sent ∧ sent.fragments[index]? = some fragment ∧
    Open delivered id sent.fragments.length index

/-- A data frame carries the fragment of its place. -/
theorem Explains.carries_iff (explains : log.Explains rs encoder) (fits : log.Fits) {frame : Frame}
    {sent : SentGroup} (describes : log.Describes frame sent) (fragment : FragmentId) :
    frame.Carries fragment.1 fragment.2 ↔ sent.fragments[frame.index]? = some fragment := by
  have header : ∀ placed, sent.fragments[frame.index]? = some placed →
      (FragmentHeader.read frame.payload).map (fun header => (header.packet, header.index)) =
        some placed := by
    intro placed isPlaced
    obtain ⟨payload, chunk, padding, isPacket, isChunk, isFull⟩ :=
      explains.shard_of_placedAt describes.group isPlaced
    have equal := Option.some.inj (describes.payload.symm.trans isFull)
    have chunkLe := length_le_of_mem_datagramChunks (List.mem_of_getElem? isChunk)
    have countLe := length_datagramChunks_le (fits.small payload (List.mem_of_getElem? isPacket.2))
    have indexLt := (List.getElem?_eq_some_iff.mp isChunk).1
    have packetLt : placed.1 < 2 ^ 64 := by
      have below := (List.getElem?_eq_some_iff.mp isPacket.2).1
      have bounded := fits.packets
      omega
    have chunkSmall : chunk.length ≤ 1326 := chunkLe
    rw [equal, FragmentHeader.read_fragmentShard packetLt (by omega) (by omega) (by omega)]
    rfl
  unfold Frame.Carries
  rw [describes.kind]
  constructor
  · rintro ⟨isData, isFragment⟩
    have source : frame.index < sent.fragments.length := by
      by_contra notSource
      rw [if_neg notSource] at isData
      exact absurd isData (by decide)
    have isPlaced := List.getElem?_eq_getElem source
    rw [header _ isPlaced] at isFragment
    rw [isPlaced]
    exact isFragment
  · intro isPlaced
    exact ⟨if_pos (List.getElem?_eq_some_iff.mp isPlaced).1, header fragment isPlaced⟩

theorem Explains.available_iff (explains : log.Explains rs encoder) (fits : log.Fits)
    {delivered : List Frame} (drawn : ∀ frame ∈ delivered, frame ∈ log.frames) (id index : Nat) :
    Available log.frames delivered id index ↔ log.Reaches delivered (id, index) := by
  constructor
  · rintro ⟨own, inFrames, carries, reached⟩
    rcases explains.described own inFrames with report | ⟨sent, describes⟩
    · exact absurd (report.symm.trans carries.1) (by decide)
    · have placed := (explains.carries_iff fits describes (id, index)).mp carries
      refine ⟨own.group, sent, own.index, describes.group, placed, ?_⟩
      rcases reached with direct | enough
      · exact Or.inl (mem_arrived.mpr ⟨own, direct, Or.inl carries.1, rfl, rfl⟩)
      · right
        rw [explains.card_arrived drawn, ← describes.data]
        exact enough
  · rintro ⟨group, sent, position, isGroup, placed, reached⟩
    have source := (List.getElem?_eq_some_iff.mp placed).1
    have inFull : position < sent.full.length := by
      rw [(explains.valid sent isGroup.mem).codeword.length]
      omega
    obtain ⟨own, inFrames, isShard, isNumber, isIndex⟩ :=
      explains.covered (group - 1) sent isGroup.2 position inFull
    have sameGroup : own.group = group := by
      have positive := isGroup.1
      omega
    rcases explains.described own inFrames with report | ⟨other, describes⟩
    · exact absurd isShard (not_isShard_of_report report)
    · have otherGroup := describes.group
      rw [sameGroup] at otherGroup
      have sameSent := otherGroup.unique isGroup
      subst sameSent
      refine ⟨own, inFrames, (explains.carries_iff fits describes (id, index)).mpr ?_, ?_⟩
      · rw [isIndex]
        exact placed
      · rcases reached with direct | enough
        · left
          obtain ⟨frame, member, frameShard, frameGroup, frameIndex⟩ := mem_arrived.mp direct
          have same := explains.frame_of_place (drawn frame member) inFrames frameShard isShard
            (frameGroup.trans sameGroup.symm) (frameIndex.trans isIndex.symm)
          rw [← same]
          exact member
        · right
          rw [sameGroup, ← explains.card_arrived drawn, describes.data]
          exact enough

theorem Reaches.of_arrived {delivered more : List Frame} {fragment : FragmentId}
    (reaches : log.Reaches delivered fragment)
    (grows : ∀ id, arrived delivered id ⊆ arrived more id) : log.Reaches more fragment := by
  obtain ⟨id, sent, index, isGroup, placed, isOpen⟩ := reaches
  refine ⟨id, sent, index, isGroup, placed, ?_⟩
  rcases isOpen with direct | enough
  · exact Or.inl (grows id direct)
  · exact Or.inr (enough.trans (Finset.card_le_card (grows id)))

/-- One more shard frame adds the fragments its group can release now. -/
theorem Settled.reaches_snoc (settled : log.Settled rs encoder) (delivered : List Frame)
    {frame : Frame} {sent : SentGroup} (describes : log.Describes frame sent)
    (fragment : FragmentId) :
    (log.Reaches (delivered ++ [frame]) fragment ↔
      (∃ index, sent.fragments[index]? = some fragment ∧
        ¬ Open delivered frame.group sent.fragments.length index ∧
        Open (delivered ++ [frame]) frame.group sent.fragments.length index) ∨
      log.Reaches delivered fragment) ∧
    ∀ index, sent.fragments[index]? = some fragment →
      ¬ Open delivered frame.group sent.fragments.length index →
      ¬ log.Reaches delivered fragment := by
  have grows : ∀ id, arrived delivered id ⊆ arrived (delivered ++ [frame]) id := by
    intro id
    rw [arrived_snoc]
    split
    · exact Finset.subset_insert _ _
    · exact Finset.Subset.refl _
  refine ⟨⟨?_, ?_⟩, ?_⟩
  · rintro ⟨id, other, index, isGroup, placed, isOpen⟩
    by_cases sameGroup : frame.group = id
    · subst sameGroup
      have sameSent := isGroup.unique describes.group
      subst sameSent
      by_cases before : Open delivered frame.group other.fragments.length index
      · exact Or.inr ⟨frame.group, other, index, isGroup, placed, before⟩
      · exact Or.inl ⟨index, placed, before, isOpen⟩
    · right
      refine ⟨id, other, index, isGroup, placed, ?_⟩
      unfold Open at isOpen
      rw [arrived_snoc, if_neg (fun belongs => sameGroup belongs.2)] at isOpen
      exact isOpen
  · rintro (⟨index, placed, _, isOpen⟩ | before)
    · exact ⟨frame.group, sent, index, describes.group, placed, isOpen⟩
    · exact before.of_arrived grows
  · rintro index placed notOpen ⟨id, other, position, isGroup, otherPlaced, isOpen⟩
    obtain ⟨sameGroup, sameIndex⟩ := settled.placedAt_unique ⟨other, isGroup, otherPlaced⟩
      ⟨sent, describes.group, placed⟩
    subst sameGroup sameIndex
    have sameSent := isGroup.unique describes.group
    subst sameSent
    exact notOpen isOpen

end SenderLog

end SmartFecTunnel.Fec
