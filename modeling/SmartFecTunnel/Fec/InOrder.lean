import SmartFecTunnel.Fec.EncoderOutput
import SmartFecTunnel.Fec.Recovery

/-!
Contract: delivery in order and without loss.

A sender numbers its groups and the shards of a group in sending order, so every
front part of its frames holds all shards up to some place.  A fragment is then
available exactly when its own data frame has arrived, and at most one datagram is
incomplete at a time.

Owns:
- `Frame.Before`, the sending order of shard frames, and of the fragments in them;
- `Processes`: a decoder processes arrivals at their times;
- `InOrder`, and that the provisions of a `Delivery` follow from conditions on the
  arrival times.

Does not own: when frames are sent.
-/

namespace SmartFecTunnel.Fec

open SmartFecTunnel.Library
open Encoder

/-! ### Sending order -/

/-- The place of the left frame comes before that of the right one. -/
def Frame.Before (left right : Frame) : Prop :=
  left.group < right.group ∨ left.group = right.group ∧ left.index < right.index

theorem Frame.Before.asymm {left right : Frame} (before : left.Before right) :
    ¬ right.Before left := by
  unfold Frame.Before at before ⊢
  omega

namespace Emitted

variable {encoder : Encoder} {frames : List Frame} {groups : List (List Frame)}

/-- Shard frames are sent in the order of their places. -/
theorem pairwise_before (emitted : Emitted encoder frames groups) :
    (frames.filter fun frame => decide frame.IsShard).Pairwise Frame.Before := by
  rw [emitted.shards, List.pairwise_flatten]
  constructor
  · intro group isGroup
    obtain ⟨index, held⟩ := List.mem_iff_getElem?.mp isGroup
    obtain ⟨data, parity, flushed⟩ := emitted.flushed index group held
    have increasing : (group.map Frame.index).Pairwise (· < ·) := by
      rw [flushed.indices]
      exact List.pairwise_lt_range
    apply (List.pairwise_map.mp increasing).imp_of_mem
    intro left right isLeft isRight smaller
    exact Or.inr ⟨(flushed.same left isLeft).1.trans (flushed.same right isRight).1.symm, smaller⟩
  · rw [List.pairwise_iff_getElem]
    intro first second firstLt secondLt ordered left isLeft right isRight
    obtain ⟨_, _, leftFlushed⟩ := emitted.flushed first _ (List.getElem?_eq_getElem firstLt)
    obtain ⟨_, _, rightFlushed⟩ := emitted.flushed second _ (List.getElem?_eq_getElem secondLt)
    left
    rw [(leftFlushed.same left isLeft).1, (rightFlushed.same right isRight).1]
    omega

/-- A front part that holds a shard frame holds those before it. -/
theorem mem_front (emitted : Emitted encoder frames groups) {front : List Frame}
    (isFront : front <+: frames) {left right : Frame} (isLeft : left ∈ frames)
    (isRight : right ∈ front) (leftShard : left.IsShard) (rightShard : right.IsShard)
    (before : left.Before right) : left ∈ front := by
  obtain ⟨back, rfl⟩ := isFront
  rcases List.mem_append.mp isLeft with inFront | inBack
  · exact inFront
  · have ordered := emitted.pairwise_before
    rw [List.filter_append, List.pairwise_append] at ordered
    have reversed := ordered.2.2 right
      (List.mem_filter.mpr ⟨isRight, decide_eq_true rightShard⟩) left
      (List.mem_filter.mpr ⟨inBack, decide_eq_true leftShard⟩)
    exact absurd reversed before.asymm

/-- Every number below the encoder's next one has a group, whose first frame has index
zero. -/
theorem exists_first (emitted : Emitted encoder frames groups) {id : Nat} (positive : 0 < id)
    (used : id < encoder.group) :
    ∃ first ∈ frames, first.IsShard ∧ first.group = id ∧ first.index = 0 := by
  have within : id - 1 < groups.length := by
    rw [emitted.group] at used
    omega
  obtain ⟨data, parity, flushed⟩ := emitted.flushed (id - 1) _ (List.getElem?_eq_getElem within)
  have hasFirst : 0 ∈ groups[id - 1].map Frame.index := by
    have dataPos := flushed.data_pos
    rw [flushed.indices, List.mem_range]
    omega
  obtain ⟨first, inGroup, isIndex⟩ := List.mem_map.mp hasFirst
  have inFrames : first ∈ frames.filter fun frame => decide frame.IsShard := by
    rw [emitted.shards]
    exact List.mem_flatten.mpr ⟨_, List.getElem_mem within, inGroup⟩
  refine ⟨first, (List.mem_filter.mp inFrames).1, flushed.isShard inGroup, ?_, isIndex⟩
  rw [(flushed.same first inGroup).1]
  omega

/-- A shard frame has a positive group number. -/
theorem group_pos (emitted : Emitted encoder frames groups) {frame : Frame}
    (member : frame ∈ frames) (isShard : frame.IsShard) : 0 < frame.group := by
  obtain ⟨index, _, _, group, _, flushed, inGroup⟩ := emitted.mem_group member isShard
  rw [(flushed.same frame inGroup).1]
  exact Nat.succ_pos index

end Emitted

/-! ### Order of the fragments -/

/-- Fragments are listed datagram after datagram. -/
theorem pairwise_fragmentsFrom (first : Nat) (datagrams : List Bytes) :
    (fragmentsFrom first datagrams).Pairwise fun left right => left.1 ≤ right.1 := by
  unfold fragmentsFrom
  rw [List.pairwise_flatMap]
  constructor
  · intro entry _
    rw [List.pairwise_map]
    exact List.pairwise_of_forall fun _ _ => Nat.le_refl _
  · have increasing : ((datagrams.zipIdx first).map Prod.snd).Pairwise (· < ·) := by
      rw [List.zipIdx_map_snd]
      exact List.pairwise_lt_range'
    apply (List.pairwise_map.mp increasing).imp
    intro left right smaller leftFragment isLeft rightFragment isRight
    obtain ⟨_, _, rfl⟩ := List.mem_map.mp isLeft
    obtain ⟨_, _, rfl⟩ := List.mem_map.mp isRight
    exact smaller.le

namespace SenderLog

variable {log : SenderLog} {rs : ReedSolomon} {encoder : Encoder}

/-- The place of a fragment that a frame carries. -/
theorem Explains.place_of_carries (explains : log.Explains rs encoder) (fits : log.Fits)
    {frame : Frame} (member : frame ∈ log.frames) {id index : Nat}
    (carries : frame.Carries id index) :
    ∃ sent, log.Describes frame sent ∧ sent.fragments[frame.index]? = some (id, index) := by
  rcases explains.described frame member with report | ⟨sent, describes⟩
  · exact absurd (report.symm.trans carries.1) (by decide)
  · exact ⟨sent, describes, (explains.carries_iff fits describes (id, index)).mp carries⟩

/-- Later frames carry fragments of later datagrams. -/
theorem Settled.packet_le (settled : log.Settled rs encoder) (fits : log.Fits)
    {left right : Frame} (isLeft : left ∈ log.frames) (isRight : right ∈ log.frames)
    {leftId leftIndex rightId rightIndex : Nat} (leftCarries : left.Carries leftId leftIndex)
    (rightCarries : right.Carries rightId rightIndex) (before : left.Before right) :
    leftId ≤ rightId := by
  obtain ⟨leftSent, leftDescribes, leftPlaced⟩ :=
    settled.place_of_carries fits isLeft leftCarries
  obtain ⟨rightSent, rightDescribes, rightPlaced⟩ :=
    settled.place_of_carries fits isRight rightCarries
  have ordered := pairwise_fragmentsFrom 1 log.datagrams
  rw [← settled.placed, fragments, List.pairwise_append, List.pairwise_flatMap] at ordered
  obtain ⟨⟨within, across⟩, _⟩ := ordered
  rcases before with earlierGroup | ⟨sameGroup, earlierIndex⟩
  · obtain ⟨leftLt, leftIs⟩ := List.getElem?_eq_some_iff.mp leftDescribes.isGroup
    obtain ⟨rightLt, rightIs⟩ := List.getElem?_eq_some_iff.mp rightDescribes.isGroup
    have positive := leftDescribes.group_pos
    have pair := List.pairwise_iff_getElem.mp across _ _ leftLt rightLt (by omega)
    rw [leftIs, rightIs] at pair
    exact pair _ (List.mem_of_getElem? leftPlaced) _ (List.mem_of_getElem? rightPlaced)
  · have rightGroup := rightDescribes.group
    rw [← sameGroup] at rightGroup
    have sameSent := rightGroup.unique leftDescribes.group
    subst sameSent
    obtain ⟨leftLt, leftIs⟩ := List.getElem?_eq_some_iff.mp leftPlaced
    obtain ⟨rightLt, rightIs⟩ := List.getElem?_eq_some_iff.mp rightPlaced
    have pair := List.pairwise_iff_getElem.mp (within _ leftDescribes.group.mem) _ _ leftLt rightLt
      earlierIndex
    rw [leftIs, rightIs] at pair
    exact pair

/-- A fragment that no frame carries is pending, and of no earlier datagram than any that
was sent. -/
theorem Settled.packet_le_pending (settled : log.Settled rs encoder) (fits : log.Fits)
    {left : Frame} (isLeft : left ∈ log.frames) {leftId leftIndex : Nat}
    (leftCarries : left.Carries leftId leftIndex) {fragment : FragmentId}
    (pending : fragment ∈ log.pending) : leftId ≤ fragment.1 := by
  obtain ⟨leftSent, leftDescribes, leftPlaced⟩ :=
    settled.place_of_carries fits isLeft leftCarries
  have ordered := pairwise_fragmentsFrom 1 log.datagrams
  rw [← settled.placed, fragments, List.pairwise_append] at ordered
  refine ordered.2.2 (leftId, leftIndex) ?_ fragment pending
  exact List.mem_flatMap.mpr
    ⟨leftSent, leftDescribes.group.mem, List.mem_of_getElem? leftPlaced⟩

/-- Every fragment of a datagram is carried by a frame or still pending. -/
theorem Settled.carried_or_pending (settled : log.Settled rs encoder) (fits : log.Fits)
    {id index : Nat} {payload : Bytes} (isPacket : log.IsPacket id payload)
    (within : index < (datagramChunks payload).length) :
    (∃ own ∈ log.frames, own.Carries id index) ∨ (id, index) ∈ log.pending := by
  have listed : (id, index) ∈ log.fragments := by
    rw [settled.placed]
    exact mem_fragmentsFrom_one.mpr ⟨payload, isPacket.1, isPacket.2, within⟩
  rcases List.mem_append.mp listed with placed | pending
  · left
    obtain ⟨sent, isSent, inSent⟩ := List.mem_flatMap.mp placed
    obtain ⟨group, held⟩ := List.mem_iff_getElem?.mp isSent
    obtain ⟨position, isPosition⟩ := List.mem_iff_getElem?.mp inSent
    have source := (List.getElem?_eq_some_iff.mp isPosition).1
    have inFull : position < sent.full.length := by
      rw [(settled.valid sent isSent).codeword.length]
      omega
    obtain ⟨own, inFrames, isShard, isGroup, isIndex⟩ :=
      settled.covered group sent held position inFull
    rcases settled.described own inFrames with report | ⟨other, describes⟩
    · exact absurd isShard (not_isShard_of_report report)
    · have sameSent : other = sent := by
        have found := describes.isGroup
        rw [isGroup, Nat.add_sub_cancel, held] at found
        exact (Option.some.inj found).symm
      subst sameSent
      refine ⟨own, inFrames, (settled.carries_iff fits describes (id, index)).mpr ?_⟩
      rw [isIndex]
      exact isPosition
  · exact Or.inr pending

/-- In order, a fragment is available exactly when its own data frame has arrived. -/
theorem Explains.available_front (explains : log.Explains rs encoder) (fits : log.Fits)
    {groups : List (List Frame)} (emitted : Emitted encoder log.frames groups)
    {front : List Frame} (isFront : front <+: log.frames) (id index : Nat) :
    Available log.frames front id index ↔ ∃ own ∈ front, own.Carries id index := by
  constructor
  · rintro ⟨own, inFrames, carries, direct | enough⟩
    · exact ⟨own, direct, carries⟩
    · refine ⟨own, ?_, carries⟩
      have isShard : own.IsShard := Or.inl carries.1
      obtain ⟨sent, describes, placed⟩ := explains.place_of_carries fits inFrames carries
      have source : own.index < own.data := by
        rw [describes.data]
        exact (List.getElem?_eq_some_iff.mp placed).1
      -- More frames of the group have arrived than there are positions before this one.
      have beyond : ∃ position ∈ arrived front own.group, own.index ≤ position := by
        by_contra none
        push Not at none
        have few : arrived front own.group ⊆ Finset.range own.index := by
          intro position isArrived
          exact Finset.mem_range.mpr (none position isArrived)
        have card := Finset.card_le_card few
        rw [explains.card_arrived (fun frame member => isFront.subset member),
          Finset.card_range] at card
        omega
      obtain ⟨position, isArrived, notBefore⟩ := beyond
      obtain ⟨frame, inFront, frameShard, sameGroup, isPosition⟩ := mem_arrived.mp isArrived
      rcases Nat.eq_or_lt_of_le notBefore with same | before
      · have sameFrame := explains.frame_of_place inFrames (isFront.subset inFront) isShard
          frameShard sameGroup.symm (same.trans isPosition.symm)
        rw [sameFrame]
        exact inFront
      · apply emitted.mem_front isFront inFrames inFront isShard frameShard
        exact Or.inr ⟨sameGroup.symm, isPosition ▸ before⟩
  · rintro ⟨own, inFront, carries⟩
    exact ⟨own, isFront.subset inFront, carries, Or.inl inFront⟩

/-- In order, at most one datagram is incomplete: one that some but not all fragments of
have arrived. -/
theorem Settled.incomplete_unique (settled : log.Settled rs encoder) (fits : log.Fits)
    {groups : List (List Frame)} (emitted : Emitted encoder log.frames groups)
    {front : List Frame} (isFront : front <+: log.frames) {early late : Nat} {payload : Bytes}
    (isPacket : log.IsPacket early payload)
    (missing : ¬ Recoverable log.frames front early payload) {own : Frame} (inFront : own ∈ front)
    {index : Nat} (carries : own.Carries late index) : late ≤ early := by
  unfold Recoverable at missing
  push Not at missing
  obtain ⟨lost, within, unavailable⟩ := missing
  rw [settled.available_front fits emitted isFront] at unavailable
  rcases settled.carried_or_pending fits isPacket within with ⟨other, inFrames, otherCarries⟩ | pending
  · by_contra earlier
    have otherShard : other.IsShard := Or.inl otherCarries.1
    have ownShard : own.IsShard := Or.inl carries.1
    have notIn : other ∉ front := fun inside => unavailable ⟨other, inside, otherCarries⟩
    have notBefore : ¬ other.Before own := fun before =>
      notIn (emitted.mem_front isFront inFrames inFront otherShard ownShard before)
    have notAfter : ¬ own.Before other := fun before =>
      earlier (settled.packet_le fits (isFront.subset inFront) inFrames carries otherCarries before)
    unfold Frame.Before at notBefore notAfter
    have same := settled.frame_of_place inFrames (isFront.subset inFront) otherShard ownShard
      (by omega) (by omega)
    rw [same] at notIn
    exact notIn inFront
  · exact settled.packet_le_pending fits (isFront.subset inFront) carries pending

end SenderLog

/-! ### Arrivals -/

/-- A frame and the time when a decoder processes it. -/
abbrev Arrival := Frame × Nat

namespace Decoder

/-- The frame a call processes and what the runtime decides for it. -/
def Call.input : Call → Option (Frame × Host)
  | .frame given host => some (given, host)
  | .sequenceReport => none

/-- The calls process the arrivals in order, each in an instant, with any number of
sequence reports in between. -/
def Processes (arrivals : List Arrival) (received : List Call) : Prop :=
  List.Forall₂
    (fun arrival input => input.1 = arrival.1 ∧ ∀ reading, input.2.now reading = arrival.2)
    arrivals (received.filterMap Call.input)

namespace Processes

variable {arrivals : List Arrival} {received : List Call}

theorem framesOf_eq (processes : Processes arrivals received) :
    framesOf received = arrivals.map Prod.fst := by
  have inputs : framesOf received = (received.filterMap Call.input).map Prod.fst := by
    unfold framesOf
    rw [List.map_filterMap]
    congr 1
    funext call
    cases call <;> rfl
  have same : List.Forall₂ (· = ·) (arrivals.map Prod.fst)
      ((received.filterMap Call.input).map Prod.fst) := by
    rw [List.forall₂_map_left_iff, List.forall₂_map_right_iff]
    exact processes.imp fun _ _ related => related.1.symm
  rw [inputs]
  exact (List.forall₂_eq_eq_eq ▸ same).symm

/-- One more frame. -/
theorem snoc (processes : Processes arrivals received) {frame : Frame} {host : Host} {time : Nat}
    (isTime : ∀ reading, host.now reading = time) :
    Processes (arrivals ++ [(frame, time)]) (received ++ [Call.frame frame host]) := by
  unfold Processes
  rw [List.filterMap_append]
  exact List.rel_append processes (List.Forall₂.cons ⟨rfl, isTime⟩ List.Forall₂.nil)

/-- The arrival of a call. -/
theorem arrival_of_call (processes : Processes arrivals received) {past : List Call}
    {frame : Frame} {host : Host} (isPrefix : past ++ [Call.frame frame host] <+: received) :
    ∃ front time, front ++ [(frame, time)] <+: arrivals ∧ Processes front past ∧
      ∀ reading, host.now reading = time := by
  obtain ⟨back, rfl⟩ := isPrefix
  unfold Processes at processes
  rw [List.append_assoc, List.filterMap_append] at processes
  have front := List.forall₂_take_append _ _ _ processes
  have rest := List.forall₂_drop_append _ _ _ processes
  obtain ⟨arrival, tail, related, _, isDrop⟩ := List.forall₂_cons_right_iff.mp rest
  refine ⟨_, arrival.2, ⟨tail, ?_⟩, front, related.2⟩
  have isArrival : (frame, arrival.2) = arrival := Prod.ext related.1 rfl
  rw [isArrival, List.append_assoc, List.singleton_append, ← isDrop, List.take_append_drop]

/-- The call of an arrival. -/
theorem call_of_arrival (processes : Processes arrivals received) {front : List Arrival}
    {frame : Frame} {time : Nat} (isPrefix : front ++ [(frame, time)] <+: arrivals) :
    ∃ past host, past ++ [Call.frame frame host] <+: received ∧ Processes front past ∧
      ∀ reading, host.now reading = time := by
  obtain ⟨back, rfl⟩ := isPrefix
  rw [List.append_assoc] at processes
  have early := List.forall₂_take_append _ _ _ processes.flip
  have rest := List.forall₂_drop_append _ _ _ processes.flip
  obtain ⟨⟨given, host⟩, tail, related, _, isDrop⟩ := List.forall₂_cons_right_iff.mp rest
  have sameFrame : given = frame := related.1
  subst sameFrame
  have split := (List.take_append_drop front.length (received.filterMap Call.input)).symm
  rw [isDrop] at split
  obtain ⟨first, others, rfl, isFirst, isOthers⟩ := List.filterMap_eq_append_iff.mp split
  obtain ⟨reports, call, last, rfl, noInput, isCall, _⟩ := List.filterMap_eq_cons_iff.mp isOthers
  have isFrame : call = Call.frame given host := by
    cases call with
    | frame other otherHost =>
        cases isCall
        rfl
    | sequenceReport => cases isCall
  subst isFrame
  refine ⟨first ++ reports, host, ⟨last, by simp⟩, ?_, related.2⟩
  unfold Processes
  rw [List.filterMap_append, isFirst, List.filterMap_eq_nil_iff.mpr noInput, List.append_nil]
  exact early.flip

end Processes

/-! ### Acceptance -/

/-- A sequence number above all observed ones is accepted. -/
theorem Window.accepts_above {accepted : List Nat} {decoder : Decoder}
    (window : Window accepted decoder) {seq : Nat} (above : decoder.highestSequence < seq) :
    (decoder.observeSeq seq).2 = true := by
  rcases Nat.eq_zero_or_pos decoder.highestSequence with zero | started
  · rw [window.observeSeq_first zero (by omega)]
  · rw [window.observeSeq_true_iff started]
    refine ⟨window.ordered.trans_lt above, ?_⟩
    intro old
    have bounded := window.le_highest seq old
    omega

/-- The highest sequence number that a decoder of one session has seen. -/
theorem highest_le_of_run {rs : ReedSolomon} {session bound : Nat} {past : List Call}
    {decoder : Decoder} {outputs : List Bytes}
    (ran : run (Decoder.call rs) (Decoder.new session) past = some (decoder, outputs))
    (bounded : ∀ frame ∈ framesOf past, frame.session = session ∧ frame.sequence ≤ bound) :
    ∃ accepted, Window accepted decoder ∧ decoder.highestSequence ≤ bound := by
  obtain ⟨accepted, window, _, highest⟩ := run_invariant ran
    (fun _ _ decoder => ∃ accepted, Window accepted decoder ∧ decoder.session = session ∧
      decoder.highestSequence ≤ bound)
    ⟨[], window_new session, rfl, Nat.zero_le bound⟩
    (by
      rintro front call outputs decoder next emitted isPrefix _ stepped
        ⟨accepted, window, isSession, highest⟩
      cases call with
      | frame frame host =>
          obtain ⟨⟨after, result⟩, called, isNext⟩ := Option.map_eq_some_iff.mp stepped
          cases isNext
          obtain ⟨ownSession, ownBound⟩ :=
            bounded frame (mem_framesOf_of_front isPrefix List.mem_concat_self)
          have same := frame_sameWindow called (isSession.trans ownSession.symm)
          refine ⟨_, (window.observe frame.sequence).2.of_sameWindow same, ?_, ?_⟩
          · exact (frame_session called).trans isSession
          · rw [same.highest, window.observeSeq_highest]
            exact max_le highest ownBound
      | sequenceReport =>
          obtain ⟨⟨after, report⟩, reported, isNext⟩ := Option.map_eq_some_iff.mp stepped
          cases isNext
          refine ⟨accepted, window.report reported, ?_, ?_⟩
          · exact (sequenceReport_sameStores reported).session.trans isSession
          · rcases sequenceReport_cases decoder with ⟨_, equal⟩ | ⟨_, equal⟩
            · rw [equal] at reported
              cases reported
              exact highest
            · rw [equal] at reported
              cases reported
              exact highest)
  exact ⟨accepted, window, highest⟩

end Decoder

/-- The sequence numbers of a front part. -/
theorem SenderLog.Explains.sequences_front {log : SenderLog} {rs : ReedSolomon} {encoder : Encoder}
    (explains : log.Explains rs encoder) {front : List Frame} (isFront : front <+: log.frames) :
    front.map Frame.sequence = List.range' 1 front.length := by
  have isTake : front.map Frame.sequence = (log.frames.map Frame.sequence).take front.length := by
    rw [← List.map_take, ← List.prefix_iff_eq_take.mp isFront]
  rw [isTake, explains.sequences, List.take_range'_of_length_ge isFront.length_le]

/-! ### Delivery in order -/

/-- The arrivals are the frames, in order and each once, and the shards of one group
arrive within the group lifetime. -/
structure InOrder (frames : List Frame) (arrivals : List Arrival) : Prop where
  frames : arrivals.map Prod.fst = frames
  ordered : arrivals.Pairwise fun left right => left.2 ≤ right.2
  close : ∀ left ∈ arrivals, ∀ right ∈ arrivals, left.1.IsShard → right.1.IsShard →
    left.1.group = right.1.group → right.2 - left.2 < groupTtl

/-- Of any 2049 groups in a row, the last starts at least one group lifetime after the
first. -/
def GroupsSpaced (arrivals : List Arrival) : Prop :=
  ∀ left ∈ arrivals, ∀ right ∈ arrivals, left.1.IsShard → right.1.IsShard →
    left.1.index = 0 → right.1.index = 0 → right.1.group = left.1.group + maxGroups →
    groupTtl ≤ right.2 - left.2

/-- The fragments of one datagram arrive within the reassembly lifetime. -/
def FragmentsClose (arrivals : List Arrival) : Prop :=
  ∀ left ∈ arrivals, ∀ right ∈ arrivals, ∀ id leftIndex rightIndex,
    left.1.Carries id leftIndex → right.1.Carries id rightIndex →
    right.2 - left.2 < reassemblyTtl

namespace InOrder

variable {frames : List Frame} {arrivals front : List Arrival}

theorem frames_front (inOrder : InOrder frames arrivals) (isFront : front <+: arrivals) :
    front.map Prod.fst <+: frames := by
  rw [← inOrder.frames]
  exact isFront.map Prod.fst

/-- Nothing arrives after the last arrival. -/
theorem le_last (inOrder : InOrder frames arrivals) {frame : Frame} {time : Nat}
    (isFront : front ++ [(frame, time)] <+: arrivals) {arrival : Arrival}
    (member : arrival ∈ front ++ [(frame, time)]) : arrival.2 ≤ time := by
  rcases List.mem_append.mp member with earlier | last
  · exact earlier_of_front inOrder.ordered isFront arrival earlier
  · rw [List.mem_singleton.mp last]

variable {encoder : Encoder} {groups : List (List Frame)}

/-- Shards arrive in the order of their places. -/
theorem before_of_earlier (inOrder : InOrder frames arrivals)
    (emitted : Emitted encoder frames groups) {back : List Arrival} {right : Arrival}
    (split : arrivals = front ++ right :: back) {left : Arrival} (member : left ∈ front)
    (leftShard : left.1.IsShard) (rightShard : right.1.IsShard) : left.1.Before right.1 := by
  have ordered := emitted.pairwise_before
  rw [← inOrder.frames, split, List.map_append, List.filter_append, List.pairwise_append] at ordered
  apply ordered.2.2
  · exact List.mem_filter.mpr ⟨List.mem_map_of_mem member, decide_eq_true leftShard⟩
  · exact List.mem_filter.mpr
      ⟨List.mem_map_of_mem List.mem_cons_self, decide_eq_true rightShard⟩

/-- A shard that is not behind another arrives no later. -/
theorem le_of_not_before (inOrder : InOrder frames arrivals)
    (emitted : Emitted encoder frames groups) {left right : Arrival} (isLeft : left ∈ arrivals)
    (isRight : right ∈ arrivals) (leftShard : left.1.IsShard) (rightShard : right.1.IsShard)
    (notBehind : ¬ right.1.Before left.1) : left.2 ≤ right.2 := by
  obtain ⟨front, back, split⟩ := List.append_of_mem isLeft
  rw [split] at isRight
  rcases List.mem_append.mp isRight with earlier | later
  · exact absurd (inOrder.before_of_earlier emitted split earlier rightShard leftShard) notBehind
  · have ordered := inOrder.ordered
    rw [split, List.pairwise_append, List.pairwise_cons] at ordered
    rcases List.mem_cons.mp later with rfl | inBack
    · exact Nat.le_refl _
    · exact ordered.2.1.1 right inBack

/-- When a group has arrived in part, the first frames of it and of all groups before
have arrived. -/
theorem exists_first (inOrder : InOrder frames arrivals) (emitted : Emitted encoder frames groups)
    (isFront : front <+: arrivals) {arrival : Arrival} (member : arrival ∈ front)
    (isShard : arrival.1.IsShard) {id : Nat} (positive : 0 < id) (notAfter : id ≤ arrival.1.group) :
    ∃ first ∈ front, first.1.IsShard ∧ first.1.group = id ∧ first.1.index = 0 := by
  have inFront : arrival.1 ∈ front.map Prod.fst := List.mem_map_of_mem member
  have isFrames := inOrder.frames_front isFront
  have used := emitted.group_lt (isFrames.subset inFront) isShard
  obtain ⟨frame, inFrames, frameShard, isGroup, isIndex⟩ :=
    emitted.exists_first positive (by omega)
  by_cases before : frame.Before arrival.1
  · have arrivedToo := emitted.mem_front isFrames inFrames inFront frameShard isShard before
    obtain ⟨first, isFirst, rfl⟩ := List.mem_map.mp arrivedToo
    exact ⟨first, isFirst, frameShard, isGroup, isIndex⟩
  · unfold Frame.Before at before
    exact ⟨arrival, member, isShard, by omega, by omega⟩

/-- The first frame of a group to arrive is its frame with index zero. -/
theorem first_arrival (inOrder : InOrder frames arrivals) (emitted : Emitted encoder frames groups)
    {past : List Decoder.Call} (isFront : front <+: arrivals)
    (processes : Decoder.Processes front past) {id time : Nat}
    (first : Decoder.FirstAt past id time) :
    ∃ arrival ∈ front, arrival.1.IsShard ∧ arrival.1.group = id ∧ arrival.1.index = 0 ∧
      arrival.2 = time := by
  obtain ⟨before, frame, host, inside, isShard, isGroup, noneBefore, isTime⟩ := first
  obtain ⟨earlier, now, isEarlier, processesEarlier, isNow⟩ := processes.arrival_of_call inside
  have member : (frame, now) ∈ earlier ++ [(frame, now)] := List.mem_concat_self
  have positive : 0 < id := by
    rw [← isGroup]
    apply emitted.group_pos _ isShard
    exact (inOrder.frames_front (isEarlier.trans isFront)).subset (List.mem_map_of_mem member)
  obtain ⟨start, isStart, startShard, startGroup, startIndex⟩ :=
    inOrder.exists_first emitted (isEarlier.trans isFront) member isShard positive
      (Nat.le_of_eq isGroup.symm)
  rcases List.mem_append.mp isStart with old | last
  · have inFrames : start.1 ∈ Decoder.framesOf before := by
      rw [processesEarlier.framesOf_eq]
      exact List.mem_map_of_mem old
    exact absurd startGroup (noneBefore start.1 inFrames startShard)
  · rw [List.mem_singleton] at last
    subst last
    exact ⟨_, isEarlier.subset member, startShard, startGroup, startIndex,
      (isNow 1).symm.trans isTime⟩

/-- Spaced groups leave room in the table. -/
theorem live_groups_le (inOrder : InOrder frames arrivals)
    (emitted : Emitted encoder frames groups) (spaced : GroupsSpaced arrivals)
    {frame : Frame} {time : Nat} (isFront : front ++ [(frame, time)] <+: arrivals)
    {past : List Decoder.Call} (processes : Decoder.Processes (front ++ [(frame, time)]) past)
    (live : Finset Nat)
    (isLive : ∀ id ∈ live, ∃ start, Decoder.FirstAt past id start ∧ time - start < groupTtl) :
    live.card ≤ maxGroups := by
  by_contra crowded
  have nonempty : live.Nonempty := by
    rw [← Finset.card_pos]
    omega
  -- The numbers of that many groups spread over more than the limit.
  have spread : live.min' nonempty + maxGroups ≤ live.max' nonempty := by
    have inside : live ⊆ Finset.Icc (live.min' nonempty) (live.max' nonempty) := by
      intro id member
      exact Finset.mem_Icc.mpr ⟨live.min'_le id member, live.le_max' id member⟩
    have card := Finset.card_le_card inside
    rw [Nat.card_Icc] at card
    omega
  obtain ⟨lowStart, lowFirst, lowAlive⟩ := isLive _ (live.min'_mem nonempty)
  obtain ⟨highStart, highFirst, _⟩ := isLive _ (live.max'_mem nonempty)
  obtain ⟨low, isLow, lowShard, lowGroup, lowIndex, lowTime⟩ :=
    inOrder.first_arrival emitted isFront processes lowFirst
  obtain ⟨high, isHigh, highShard, highGroup, _⟩ :=
    inOrder.first_arrival emitted isFront processes highFirst
  obtain ⟨middle, isMiddle, middleShard, middleGroup, middleIndex⟩ :=
    inOrder.exists_first emitted isFront isHigh highShard
      (show 0 < live.min' nonempty + maxGroups by unfold maxGroups; omega)
      (by rw [highGroup]; exact spread)
  have apart := spaced low (isFront.subset isLow) middle (isFront.subset isMiddle) lowShard
    middleShard lowIndex middleIndex (by rw [middleGroup, lowGroup])
  have notLater := inOrder.le_last isFront isMiddle
  omega

variable {log : SenderLog} {rs : ReedSolomon} {past : List Decoder.Call}

/-- The sequence number of an arrival is above all earlier ones, and so accepted. -/
theorem accepts (inOrder : InOrder log.frames arrivals) (explains : log.Explains rs encoder)
    {frame : Frame} {time : Nat} (isFront : front ++ [(frame, time)] <+: arrivals)
    (processes : Decoder.Processes front past) {decoder : Decoder} {outputs : List Bytes}
    (ran : run (Decoder.call rs) (Decoder.new encoder.session) past = some (decoder, outputs)) :
    (decoder.observeSeq frame.sequence).2 = true := by
  have isEarlier : front <+: arrivals := (List.prefix_append _ _).trans isFront
  have earlier := explains.sequences_front (inOrder.frames_front isEarlier)
  have now := explains.sequences_front (inOrder.frames_front isFront)
  rw [List.map_append, List.map_append, earlier, List.length_append, List.map_singleton,
    List.map_singleton, List.length_singleton, List.range'_concat] at now
  have isSequence : frame.sequence = 1 + 1 * (front.map Prod.fst).length :=
    List.singleton_inj.mp (List.append_cancel_left now)
  obtain ⟨accepted, window, highest⟩ :=
    @Decoder.highest_le_of_run rs encoder.session front.length past decoder outputs ran (by
      intro other member
      rw [processes.framesOf_eq] at member
      refine ⟨(explains.identity other ((inOrder.frames_front isEarlier).subset member)).1, ?_⟩
      have inRange : other.sequence ∈ (front.map Prod.fst).map Frame.sequence :=
        List.mem_map_of_mem member
      rw [earlier, List.mem_range'_1, List.length_map] at inRange
      omega)
  apply window.accepts_above
  rw [List.length_map] at isSequence
  omega

/-- In order, a frame makes no fragment available but the one it carries. -/
theorem carries_of_makesAvailable (inOrder : InOrder log.frames arrivals)
    (explains : log.Explains rs encoder) (fits : log.Fits)
    (emitted : Emitted encoder log.frames groups) {frame : Frame} {time : Nat}
    (isFront : front ++ [(frame, time)] <+: arrivals) (processes : Decoder.Processes front past)
    {id index : Nat} (makes : Decoder.MakesAvailable log.frames past frame id index) :
    frame.Carries id index := by
  have isNow := inOrder.frames_front isFront
  have isEarlier := inOrder.frames_front ((List.prefix_append _ _).trans isFront)
  obtain ⟨before, after⟩ := makes
  rw [processes.framesOf_eq] at before after
  rw [List.map_append] at isNow
  obtain ⟨own, inNow, carries⟩ := (explains.available_front fits emitted isNow id index).mp after
  rcases List.mem_append.mp inNow with old | new
  · exact absurd ((explains.available_front fits emitted isEarlier id index).mpr
      ⟨own, old, carries⟩) before
  · rw [List.mem_singleton.mp new] at carries
    exact carries

/-- A fragment became available when the frame that carries it arrived. -/
theorem born_arrival (inOrder : InOrder log.frames arrivals) (explains : log.Explains rs encoder)
    (fits : log.Fits) (emitted : Emitted encoder log.frames groups) (isFront : front <+: arrivals)
    (processes : Decoder.Processes front past) {id time : Nat}
    (born : Decoder.BornAt log.frames past id time) :
    ∃ arrival ∈ front, ∃ index, arrival.1.Carries id index ∧ arrival.2 = time := by
  obtain ⟨before, frame, host, index, reading, inside, makes, _, isTime⟩ := born
  obtain ⟨earlier, now, isEarlier, processesEarlier, isNow⟩ := processes.arrival_of_call inside
  refine ⟨(frame, now), mem_of_front isEarlier, index, ?_, (isNow reading).symm.trans isTime⟩
  exact inOrder.carries_of_makesAvailable explains fits emitted (isEarlier.trans isFront)
    processesEarlier makes

/-- One reassembly at a time is live. -/
theorem live_packets_le (inOrder : InOrder log.frames arrivals) (settled : log.Settled rs encoder)
    (fits : log.Fits) (emitted : Emitted encoder log.frames groups) (isFront : front <+: arrivals)
    (processes : Decoder.Processes front past) {now : Nat} (live : Finset Nat)
    (isLive : ∀ id ∈ live, Decoder.LivePacket log.frames log.datagrams past now id) :
    live.card ≤ 1 := by
  have isFrames := inOrder.frames_front isFront
  have ordered : ∀ early ∈ live, ∀ late ∈ live, late ≤ early := by
    intro early isEarly late isLate
    obtain ⟨⟨payload, held, missing⟩, _, earlyBorn, _⟩ := isLive early isEarly
    obtain ⟨_, _, lateBorn, _⟩ := isLive late isLate
    obtain ⟨own, inFront, index, carries, _⟩ := inOrder.born_arrival settled.toExplains fits emitted
      isFront processes earlyBorn
    obtain ⟨other, otherInFront, _, otherCarries, _⟩ :=
      inOrder.born_arrival settled.toExplains fits emitted isFront processes lateBorn
    obtain ⟨sent, describes, placed⟩ := settled.place_of_carries fits
      (isFrames.subset (List.mem_map_of_mem inFront)) carries
    obtain ⟨_, _, _, ⟨positive, _⟩, _⟩ := settled.shard_of_placedAt describes.group placed
    rw [processes.framesOf_eq] at missing
    exact settled.incomplete_unique fits emitted isFrames ⟨positive, held⟩ missing
      (List.mem_map_of_mem otherInFront) otherCarries
  rw [Finset.card_le_one]
  intro left isLeft right isRight
  exact Nat.le_antisymm (ordered right isRight left isLeft) (ordered left isLeft right isRight)

variable {received : List Decoder.Call}

/-- The clock of a call stands still. -/
theorem clock_constant (processes : Decoder.Processes arrivals received) {frame : Frame}
    {host : Host} (member : Decoder.Call.frame frame host ∈ received) (first second : Nat) :
    host.now first = host.now second := by
  obtain ⟨front, back, rfl⟩ := List.append_of_mem member
  obtain ⟨_, time, _, _, isTime⟩ :=
    @Decoder.Processes.arrival_of_call _ _ processes front frame host ⟨back, by simp⟩
  rw [isTime first, isTime second]

/-- The clock of a call shows no less than that of an earlier one. -/
theorem clock_le (inOrder : InOrder log.frames arrivals)
    (processes : Decoder.Processes arrivals received) {frame : Frame} {host : Host}
    (isPrefix : past ++ [Decoder.Call.frame frame host] <+: received) {earlier : Frame}
    {earlierHost : Host} (member : Decoder.Call.frame earlier earlierHost ∈ past)
    (first second : Nat) : earlierHost.now first ≤ host.now second := by
  obtain ⟨front, time, isFront, processesPast, isTime⟩ := processes.arrival_of_call isPrefix
  obtain ⟨before, after, rfl⟩ := List.append_of_mem member
  obtain ⟨_, earlierTime, inside, _, isEarlier⟩ :=
    @Decoder.Processes.arrival_of_call _ _ processesPast before earlier earlierHost
      ⟨after, by simp⟩
  rw [isTime second, isEarlier first]
  apply @InOrder.le_last _ _ _ inOrder frame time isFront (earlier, earlierTime)
  apply List.mem_append_left
  exact mem_of_front inside

/-- The group of an arriving shard has not expired. -/
theorem group_alive (inOrder : InOrder log.frames arrivals)
    (emitted : Emitted encoder log.frames groups)
    (processes : Decoder.Processes arrivals received) {frame : Frame} {host : Host}
    (isPrefix : past ++ [Decoder.Call.frame frame host] <+: received) (isShard : frame.IsShard)
    {start : Nat} (first : Decoder.FirstAt past frame.group start) :
    host.now 0 - start < groupTtl := by
  obtain ⟨front, time, isFront, processesPast, isTime⟩ := processes.arrival_of_call isPrefix
  have isEarlier : front <+: arrivals := (List.prefix_append _ _).trans isFront
  obtain ⟨arrival, member, startShard, sameGroup, _, rfl⟩ :=
    inOrder.first_arrival emitted isEarlier processesPast first
  rw [isTime 0]
  exact inOrder.close arrival (isEarlier.subset member) (frame, time) (mem_of_front isFront)
    startShard isShard sameGroup

/-- Spaced groups leave room at every call. -/
theorem group_room (inOrder : InOrder log.frames arrivals)
    (emitted : Emitted encoder log.frames groups) (spaced : GroupsSpaced arrivals)
    (processes : Decoder.Processes arrivals received) {frame : Frame} {host : Host}
    (isPrefix : past ++ [Decoder.Call.frame frame host] <+: received) (live : Finset Nat)
    (isLive : ∀ id ∈ live, ∃ time,
      Decoder.FirstAt (past ++ [Decoder.Call.frame frame host]) id time ∧
        host.now 0 - time < groupTtl) : live.card ≤ maxGroups := by
  obtain ⟨front, time, isFront, processesPast, isTime⟩ := processes.arrival_of_call isPrefix
  rw [isTime 0] at isLive
  exact inOrder.live_groups_le emitted spaced isFront (processesPast.snoc isTime) live isLive

/-- In order and with groups and fragments spaced as the tables expect, nothing expires
while it is needed and the tables have room. -/
theorem delivery (inOrder : InOrder log.frames arrivals) (settled : log.Settled rs encoder)
    (fits : log.Fits) (emitted : Emitted encoder log.frames groups)
    (spaced : GroupsSpaced arrivals) (close : FragmentsClose arrivals)
    (processes : Decoder.Processes arrivals received) :
    Decoder.Delivery rs encoder.session log.frames log.datagrams received where
  monotone := fun _ _ member first second _ => (clock_constant processes member first second).le
  ordered := fun _ _ _ isPrefix _ _ member first second =>
    inOrder.clock_le processes isPrefix member first second
  accepted := by
    intro past frame host decoder outputs isPrefix ran _ _
    obtain ⟨front, time, isFront, processesPast, _⟩ := processes.arrival_of_call isPrefix
    exact inOrder.accepts settled.toExplains isFront processesPast ran
  groups := fun _ _ _ isPrefix _ isShard _ first =>
    inOrder.group_alive emitted processes isPrefix isShard first
  fragments := by
    intro past frame host id index isPrefix makes start born
    obtain ⟨front, time, isFront, processesPast, isTime⟩ := processes.arrival_of_call isPrefix
    have isEarlier : front <+: arrivals := (List.prefix_append _ _).trans isFront
    obtain ⟨arrival, member, other, carries, rfl⟩ :=
      inOrder.born_arrival settled.toExplains fits emitted isEarlier processesPast born
    rw [isTime 0]
    exact close arrival (isEarlier.subset member) (frame, time) (mem_of_front isFront) id other
      index carries
      (inOrder.carries_of_makesAvailable settled.toExplains fits emitted isFront processesPast
        makes)
  groupRoom := fun _ _ _ isPrefix live isLive =>
    inOrder.group_room emitted spaced processes isPrefix live isLive
  packetRoom := by
    intro past frame host isPrefix reading live isLive
    obtain ⟨front, time, isFront, processesPast, isTime⟩ := processes.arrival_of_call isPrefix
    exact (inOrder.live_packets_le settled fits emitted isFront (processesPast.snoc isTime) live
      isLive).trans (by decide)

end InOrder

end SmartFecTunnel.Fec
