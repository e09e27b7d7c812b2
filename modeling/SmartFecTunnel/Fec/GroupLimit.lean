import SmartFecTunnel.Fec.InOrder
import SmartFecTunnel.Fec.Pacing

/-!
Contract: the group limit of a decoder against the rate of a paced sender.

A completed group stays in the table until it expires, so a decoder refuses the frame
that starts a group when 2048 groups started within the group lifetime before it.  The
pacer counts bytes and not groups, and at the rates it accepts admits more than that.

Owns:
- when `Decoder::frame` fails with "too many fec groups";
- that a decoder behind a lossless channel with constant delay never fails so exactly
  when no 2049 groups in a row start within the group lifetime;
- that it then outputs every datagram whose fragments arrive within the reassembly
  lifetime;
- a stream that exceeds the limit.
-/

namespace SmartFecTunnel.Fec

open SmartFecTunnel.Library
open Encoder

namespace Decoder

/-! ### Refusal -/

/-- No record of the frame's group is left, and no room for one. -/
def Full (now : Nat) (decoder : Decoder) (frame : Frame) : Prop :=
  frame.group ∉ freshGroups now decoder.groups ∧
    maxGroups ≤ (freshGroups now decoder.groups).size

/-- `Decoder::frame` fails with "too many fec groups". -/
def Refuses (rs : ReedSolomon) (decoder : Decoder) (frame : Frame) (host : Host) : Prop :=
  ∃ next, decoder.frame rs host frame = some (next, .error .tooManyFecGroups)

/-- A frame of the sender is refused exactly when it is a new shard and the table is full. -/
theorem Honest.refuses_iff {log : SenderLog} {rs : ReedSolomon} {encoder : Encoder}
    {decoder : Decoder} (honest : decoder.Honest log) (explains : log.Explains rs encoder)
    (fits : log.Fits) (host : Host) {frame : Frame} (member : frame ∈ log.frames)
    (session : decoder.session = encoder.session) :
    Refuses rs decoder frame host ↔ (decoder.observeSeq frame.sequence).2 = true ∧
      frame.IsShard ∧ Full (host.now 0) decoder frame := by
  unfold Refuses Decoder.frame
  rw [if_neg (by rw [session, (explains.identity frame member).1]; simp)]
  have stores := observeSeq_sameStores decoder frame.sequence
  by_cases fresh : (decoder.observeSeq frame.sequence).2 = true
  · rcases explains.described frame member with report | ⟨sent, describes⟩
    · simp [fresh, report, not_isShard_of_report report]
    · have isShard := describes.isShard
      have notReport : frame.kind ≠ kindReport := fun report =>
        not_isShard_of_report report isShard
      have admissible := admissible_of_describes explains describes
      obtain ⟨pruned, isPruned, first⟩ :=
        prune_step host (host.now 0) (decoder.observeSeq frame.sequence).1
      have prunedHonest := first.honest (honest.of_sameStores stores)
      have sameFull : (frame.group ∉ pruned.groups ∧ maxGroups ≤ pruned.groups.size) ↔
          Full (host.now 0) decoder frame := by
        unfold Full
        rw [first.groups, stores.groups]
      simp only [fresh, Bool.true_eq_false, ↓reduceIte, notReport, isShard, not_true_eq_false,
        admissible, Decoder.shardFrame, isPruned, Option.bind_eq_bind, Option.bind_some, true_and]
      rw [← sameFull]
      rcases prunedHonest.storeShard explains host describes with
        ⟨full, refused⟩ | ⟨room, stored, released, isStored, store⟩
      · exact ⟨fun _ => full, fun _ => ⟨pruned, by simp [refused]⟩⟩
      · refine ⟨?_, fun full => absurd full room⟩
        obtain ⟨assembled, ids, isAssembled, _⟩ :=
          store.honest.fragments explains fits host 2 describes.group released store.source
        obtain ⟨next, isNext, _⟩ := prune_step host
          (host.now (2 + (released.filterMap fun index => sent.full[index]?).length)) assembled
        rintro ⟨other, isOther⟩
        simp [isStored, isAssembled, isNext] at isOther
  · simp [fresh]

/-- `Decoder::frame` never fails so while the calls are made. -/
def NeverRefuses (rs : ReedSolomon) (session : Nat) (received : List Call) : Prop :=
  ∀ past frame host, past ++ [Call.frame frame host] <+: received →
    ∀ decoder outputs, run (Decoder.call rs) (Decoder.new session) past = some (decoder, outputs) →
      ¬ Refuses rs decoder frame host

theorem NeverRefuses.front {rs : ReedSolomon} {session : Nat} {past received : List Call}
    (never : NeverRefuses rs session received) (isPrefix : past <+: received) :
    NeverRefuses rs session past := by
  intro before frame host inside
  exact never before frame host (inside.trans isPrefix)

/-! ### The table while nothing is refused -/

/-- While nothing is refused, the table has a record of every group that started within
the group lifetime. -/
structure Tracked (log : SenderLog) (session : Nat) (past : List Call) (decoder : Decoder) :
    Prop where
  isSession : decoder.session = session
  honest : decoder.Honest log
  history : ∃ clock,
    (clock = 0 ∨ ∃ frame host reading, Call.frame frame host ∈ past ∧ clock = host.now reading) ∧
    GroupsTrack log past clock decoder

theorem tracked_new (log : SenderLog) (session : Nat) :
    Tracked log session [] (Decoder.new session) where
  isSession := rfl
  honest := honest_new log session
  history := by
    refine ⟨0, Or.inl rfl, ?_, ?_⟩
    · intro id group found
      cases found
    · intro id _ someArrived
      exact absurd someArrived Finset.not_nonempty_empty

namespace Tracked

variable {rs : ReedSolomon} {log : SenderLog} {encoder : Encoder} {groups : List (List Frame)}
  {arrivals : List Arrival} {past received : List Call} {decoder : Decoder}

theorem sequenceReport {session : Nat} (tracked : Tracked log session past decoder) :
    ∃ next emitted, decoder.call rs .sequenceReport = some (next, emitted) ∧
      Tracked log session (past ++ [Call.sequenceReport]) next := by
  obtain ⟨next, report, reported, nextHonest, stores⟩ := tracked.honest.sequenceReport
  obtain ⟨clock, isClock, track⟩ := tracked.history
  refine ⟨next, [], by simp [Decoder.call, reported], ?_, nextHonest, clock,
    reading_snoc isClock _, ?_⟩
  · rw [stores.session]
    exact tracked.isSession
  · exact track.unchanged (fun id => by rw [framesOf_snoc_report]) stores.groups

/-- The records after the first expiry pass of a call. -/
theorem pruned {session : Nat} (tracked : Tracked log session past decoder)
    (inOrder : InOrder log.frames arrivals) (processes : Processes arrivals received)
    {frame : Frame} {host : Host} (isPrefix : past ++ [Call.frame frame host] <+: received)
    {next : Decoder} (first : PruneStep (host.now 0) (decoder.observeSeq frame.sequence).1 next) :
    GroupsTrack log past (host.now 0) next := by
  obtain ⟨clock, isClock, track⟩ := tracked.history
  have observed := observeSeq_sameStores decoder frame.sequence
  apply (track.of_sameGroups observed.groups).prune first
  rcases isClock with zero | ⟨earlier, earlierHost, reading, member, isReading⟩
  · omega
  · rw [isReading]
    exact inOrder.clock_le processes isPrefix member reading 0

/-- One frame that is not refused. -/
theorem frame (tracked : Tracked log encoder.session past decoder)
    (explains : log.Explains rs encoder) (fits : log.Fits)
    (emitted : Emitted encoder log.frames groups) (inOrder : InOrder log.frames arrivals)
    (processes : Processes arrivals received) {frame : Frame} {host : Host}
    (isPrefix : past ++ [Call.frame frame host] <+: received) {outputs : List Bytes}
    (ran : run (Decoder.call rs) (Decoder.new encoder.session) past = some (decoder, outputs))
    (notRefused : ¬ Refuses rs decoder frame host) :
    ∃ next more, decoder.call rs (.frame frame host) = some (next, more) ∧
      Tracked log encoder.session (past ++ [Call.frame frame host]) next := by
  obtain ⟨front, time, isFront, processesPast, isTime⟩ := processes.arrival_of_call isPrefix
  have member : frame ∈ log.frames :=
    (inOrder.frames_front isFront).subset
      (List.mem_map_of_mem (List.mem_append_right _ (List.mem_singleton_self (frame, time))))
  have accepted := inOrder.accepts explains isFront processesPast ran
  have observed := observeSeq_sameStores decoder frame.sequence
  obtain ⟨next, result, batch, new, called, _, step, nextHonest, sameWindow⟩ :=
    tracked.honest.frame explains fits host member tracked.isSession
  refine ⟨next, result.toOption.getD [], by simp [Decoder.call, called], ?_, nextHonest, ?_⟩
  · rw [sameWindow.session, observed.session]
    exact tracked.isSession
  · cases step with
    | ignored same skipped =>
        have notShard : ¬ frame.IsShard := by
          rcases skipped with rejected | notShard
          · rw [accepted] at rejected
            cases rejected
          · exact notShard
        obtain ⟨clock, isClock, track⟩ := tracked.history
        refine ⟨clock, reading_snoc isClock _, track.unchanged ?_ same.groups⟩
        intro id
        rw [framesOf_snoc_frame]
        exact arrived_snoc_of_known (fun isShard => absurd isShard notShard) id
    | refused fresh isShard pruned full =>
        rw [pruned.groups, observed.groups] at full
        exact absurd ((tracked.honest.refuses_iff explains fits host member tracked.isSession).mpr
          ⟨fresh, isShard, full⟩) notRefused
    | stored fresh isShard describes first room store fragments last =>
        have track := (tracked.pruned inOrder processes isPrefix first).storeFrame explains isShard
          describes (fun _ => inOrder.group_alive emitted processes isPrefix isShard) store fragments
          last (by rw [isTime 0, isTime])
        exact ⟨_, Or.inr ⟨frame, host, _, List.mem_concat_self, rfl⟩, track⟩

end Tracked

/-- A run that refuses nothing is tracked to its end. -/
theorem tracked_of_neverRefuses {rs : ReedSolomon} {log : SenderLog} {encoder : Encoder}
    {groups : List (List Frame)} {arrivals : List Arrival} {past received : List Call}
    (explains : log.Explains rs encoder) (fits : log.Fits)
    (emitted : Emitted encoder log.frames groups) (inOrder : InOrder log.frames arrivals)
    (processes : Processes arrivals received) (isPrefix : past <+: received)
    (never : NeverRefuses rs encoder.session past) :
    ∃ decoder outputs,
      run (Decoder.call rs) (Decoder.new encoder.session) past = some (decoder, outputs) ∧
      Tracked log encoder.session past decoder :=
  run_induction (Decoder.call rs) (Decoder.new encoder.session) past
    (fun past _ decoder => Tracked log encoder.session past decoder)
    (tracked_new log encoder.session) (by
      intro before call outputs decoder inside ran tracked
      cases call with
      | frame frame host =>
          exact tracked.frame explains fits emitted inOrder processes (inside.trans isPrefix) ran
            (never before frame host inside decoder outputs ran)
      | sequenceReport => exact tracked.sequenceReport)

/-! ### The limit -/

section Limit

variable {rs : ReedSolomon} {log : SenderLog} {encoder : Encoder} {groups : List (List Frame)}
  {arrivals : List Arrival} {received : List Call}

/-- A group that started within the group lifetime has a record. -/
theorem recorded_of_near (emitted : Emitted encoder log.frames groups)
    (inOrder : InOrder log.frames arrivals) {front : List Arrival} {past : List Call}
    (isFront : front <+: arrivals) (processes : Processes front past) {now : Nat}
    {pruned : Decoder} (track : GroupsTrack log past now pruned) {start : Arrival}
    (member : start ∈ front) (isShard : start.1.IsShard)
    (near : ∀ arrival ∈ front, arrival.1.IsShard → arrival.1.group = start.1.group →
      now - arrival.2 < groupTtl) :
    start.1.group ∈ pruned.groups := by
  by_contra unrecorded
  have delivered : start.1 ∈ framesOf past := by
    rw [processes.framesOf_eq]
    exact List.mem_map_of_mem member
  obtain ⟨time, firstAt, expired⟩ := track.dropped start.1.group
    (AList.lookup_eq_none.mpr unrecorded)
    ⟨start.1.index, mem_arrived.mpr ⟨start.1, delivered, isShard, rfl, rfl⟩⟩
  obtain ⟨arrival, arrived, firstShard, sameGroup, _, rfl⟩ :=
    inOrder.first_arrival emitted isFront processes firstAt
  have alive := near arrival arrived firstShard sameGroup
  omega

/-- A group that has not started has no record. -/
theorem unrecorded_of_first (emitted : Emitted encoder log.frames groups)
    (inOrder : InOrder log.frames arrivals) {front back : List Arrival} {past : List Call}
    {right : Arrival} (split : arrivals = front ++ right :: back)
    (processes : Processes front past) {now : Nat} {pruned : Decoder}
    (track : GroupsTrack log past now pruned) (isShard : right.1.IsShard)
    (isFirst : right.1.index = 0) : right.1.group ∉ pruned.groups := by
  intro recorded
  obtain ⟨group, found⟩ := Table.mem_iff_exists_lookup.mp recorded
  obtain ⟨_, _, _, firstAt⟩ := track.stored _ group found
  obtain ⟨arrival, inFront, firstShard, sameGroup, _, _⟩ :=
    inOrder.first_arrival emitted ⟨right :: back, split.symm⟩ processes firstAt
  have before := inOrder.before_of_earlier emitted split inFront firstShard isShard
  unfold Frame.Before at before
  omega

/-- A group that starts within the group lifetime of the group 2048 before it finds the
records of all groups from that one on. -/
theorem spaced_of_neverRefuses (explains : log.Explains rs encoder) (fits : log.Fits)
    (emitted : Emitted encoder log.frames groups) (inOrder : InOrder log.frames arrivals)
    (processes : Processes arrivals received)
    (never : NeverRefuses rs encoder.session received) : GroupsSpaced arrivals := by
  intro left isLeft right isRight leftShard rightShard leftIndex rightIndex apart
  by_contra near
  obtain ⟨front, back, split⟩ := List.append_of_mem isRight
  have isFront : front ++ [(right.1, right.2)] <+: arrivals := ⟨back, by rw [split]; simp⟩
  have isEarlier : front <+: arrivals := (List.prefix_append _ _).trans isFront
  obtain ⟨past, host, isPrefix, processesPast, isTime⟩ := processes.call_of_arrival isFront
  obtain ⟨decoder, outputs, ran, tracked⟩ := tracked_of_neverRefuses explains fits emitted inOrder
    processes ((List.prefix_append _ _).trans isPrefix)
    (never.front ((List.prefix_append _ _).trans isPrefix))
  have member : ∀ arrival ∈ arrivals, arrival.1 ∈ log.frames := by
    intro arrival isArrival
    rw [← inOrder.frames]
    exact List.mem_map_of_mem isArrival
  apply never past right.1 host isPrefix decoder outputs ran
  rw [tracked.honest.refuses_iff explains fits host (member right isRight) tracked.isSession]
  refine ⟨inOrder.accepts explains isFront processesPast ran, rightShard, ?_⟩
  obtain ⟨pruned, _, first⟩ := prune_step host (host.now 0) (decoder.observeSeq right.1.sequence).1
  have track := tracked.pruned inOrder processes isPrefix first
  rw [isTime 0] at track
  unfold Full
  rw [← (observeSeq_sameStores decoder right.1.sequence).groups, ← first.groups]
  refine ⟨unrecorded_of_first emitted inOrder split processesPast track rightShard rightIndex, ?_⟩
  obtain ⟨keys, card, isKey⟩ := pruned.groups.exists_keySet
  have recorded : Finset.Ico left.1.group (left.1.group + maxGroups) ⊆ keys := by
    intro id inside
    rw [Finset.mem_Ico] at inside
    have positive := emitted.group_pos (member left isLeft) leftShard
    obtain ⟨start, isStart, startShard, startGroup, _⟩ :=
      inOrder.exists_first emitted isFront List.mem_concat_self rightShard
        (show 0 < id by omega) (by dsimp only; omega)
    have inFront : start ∈ front := by
      rcases List.mem_append.mp isStart with old | last
      · exact old
      · rw [List.mem_singleton.mp last] at startGroup
        dsimp only at startGroup
        omega
    rw [isKey, ← startGroup]
    apply recorded_of_near emitted inOrder isEarlier processesPast track inFront startShard
    intro arrival arrived isShard sameGroup
    -- Its group is not before that of the left arrival, so it arrived no earlier.
    have notEarlier := inOrder.le_of_not_before emitted isLeft (isEarlier.subset arrived)
      leftShard isShard (by unfold Frame.Before; omega)
    omega
  have bounded := Finset.card_le_card recorded
  rw [Nat.card_Ico, card] at bounded
  omega

/-- Spaced groups always find room. -/
theorem neverRefuses_of_spaced (explains : log.Explains rs encoder) (fits : log.Fits)
    (emitted : Emitted encoder log.frames groups) (inOrder : InOrder log.frames arrivals)
    (processes : Processes arrivals received) (spaced : GroupsSpaced arrivals) :
    NeverRefuses rs encoder.session received := by
  suffices reach : ∀ past, past <+: received → NeverRefuses rs encoder.session past from
    reach received List.prefix_rfl
  intro past
  induction past using List.reverseRecOn with
  | nil =>
      intro _ before frame host inside
      exact absurd (List.prefix_nil.mp inside) (by simp)
  | append_singleton past call inductionHypothesis =>
      intro isPrefix before frame host inside decoder outputs ran
      have shorter : past <+: received := (List.prefix_append _ _).trans isPrefix
      have never := inductionHypothesis shorter
      rcases List.prefix_concat_iff.mp inside with isLast | earlier
      · obtain ⟨samePast, sameCall⟩ := List.append_inj' isLast rfl
        cases sameCall
        subst samePast
        obtain ⟨reached, _, ranToo, tracked⟩ :=
          tracked_of_neverRefuses explains fits emitted inOrder processes shorter never
        rw [ran] at ranToo
        cases ranToo
        have member : frame ∈ log.frames := by
          rw [← inOrder.frames, ← processes.framesOf_eq]
          exact mem_framesOf_of_front isPrefix List.mem_concat_self
        rw [tracked.honest.refuses_iff explains fits host member tracked.isSession]
        rintro ⟨_, isShard, full⟩
        obtain ⟨pruned, _, first⟩ :=
          prune_step host (host.now 0) (decoder.observeSeq frame.sequence).1
        unfold Full at full
        rw [← (observeSeq_sameStores decoder frame.sequence).groups, ← first.groups] at full
        have inCalls := mem_of_front isPrefix
        apply (tracked.pruned inOrder processes isPrefix first).not_full first isShard
          (fun _ => inOrder.group_alive emitted processes isPrefix isShard)
          (InOrder.clock_constant processes inCalls 0 1).le
          (inOrder.group_room emitted spaced processes isPrefix) full
      · exact never before frame host earlier decoder outputs ran

end Limit

end Decoder

/-- Once nothing is pending, the frames of a sender determine all its datagrams. -/
theorem SenderLog.Settled.recoverable_all {log : SenderLog} {rs : ReedSolomon} {encoder : Encoder}
    (settled : log.Settled rs encoder) (fits : log.Fits) (flushed : encoder.shards = []) :
    recoverable log.frames log.frames log.datagrams = log.datagrams := by
  have nothing : log.pending = [] := by
    have count := settled.shards_length
    rw [flushed, List.length_nil] at count
    exact List.eq_nil_of_length_eq_zero count.symm
  unfold recoverable
  rw [List.filter_eq_self.mpr, List.zipIdx_map_fst]
  intro entry member
  obtain ⟨low, _, isEntry⟩ := List.mem_zipIdx member
  have isPacket : log.IsPacket entry.2 entry.1 :=
    ⟨low, List.getElem?_eq_some_iff.mpr ⟨_, isEntry.symm⟩⟩
  apply decide_eq_true
  intro index within
  rcases settled.carried_or_pending fits isPacket within with ⟨own, inFrames, carries⟩ | pending
  · exact ⟨own, inFrames, carries, Or.inl inFrames⟩
  · rw [nothing] at pending
    cases pending

/-! ### Paced senders -/

/-- The reading of a clock that counts nanoseconds. -/
def nanoseconds (time : ℚ) : Nat := ⌊time * 1000000000⌋₊

theorem nanoseconds_mono {early late : ℚ} (ordered : early ≤ late) :
    nanoseconds early ≤ nanoseconds late :=
  Nat.floor_mono (mul_le_mul_of_nonneg_right ordered (by norm_num))

theorem nanoseconds_le_add {early late : ℚ} (near : late ≤ early + 5 / 4) :
    nanoseconds late ≤ nanoseconds early + 1250000001 := by
  apply Nat.floor_le_of_le
  have below := Nat.lt_floor_add_one (early * 1000000000)
  push_cast
  unfold nanoseconds
  linarith

/-- What arrives over a channel that delays every frame by the same time. -/
def arrivalsAfter (delay : ℚ) (departures : List Departure) : List Arrival :=
  departures.map fun departure => (departure.1, nanoseconds (departure.2 + delay))

theorem Paced.inOrder {sender : Sender} {departures : List Departure}
    (paced : Paced sender departures) (delay : ℚ) :
    InOrder (departures.map Prod.fst) (arrivalsAfter delay departures) where
  frames := by
    unfold arrivalsAfter
    rw [List.map_map]
    rfl
  ordered := by
    unfold arrivalsAfter
    rw [List.pairwise_map]
    apply paced.ordered.imp
    intro left right ordered
    apply nanoseconds_mono
    linarith
  close := by
    intro left isLeft right isRight leftShard rightShard sameGroup
    obtain ⟨early, inEarly, rfl⟩ := List.mem_map.mp isLeft
    obtain ⟨late, inLate, rfl⟩ := List.mem_map.mp isRight
    have near := paced.close early inEarly late inLate leftShard rightShard sameGroup
    have bounded := @nanoseconds_le_add (early.2 + delay) (late.2 + delay) (by linarith)
    unfold groupTtl
    dsimp only
    omega

/-- The log of a paced sender, and what arrives of it. -/
theorem Sender.exists_log {rs : ReedSolomon} {rateMbps : ℚ} {session version keyId : Nat}
    {hook : Option Nat} {sender last : Sender} {stream : List TimedCall}
    {departures : List Departure}
    (started : Sender.start rateMbps session version keyId hook = some sender)
    (small : ∀ payload ∈ Encoder.datagrams (stream.map TimedCall.call),
      payload.length ≤ maxDatagram)
    (ran : sender.departures rs stream = some (last, departures)) :
    ∃ (log : SenderLog) (groups : List (List Frame)), log.Settled rs last.encoder ∧
      log.datagrams = Encoder.datagrams (stream.map TimedCall.call) ∧
      Emitted last.encoder log.frames groups ∧
      (∀ delay, InOrder log.frames (arrivalsAfter delay departures)) ∧
      last.encoder.session = session := by
  obtain ⟨paced, groups, emitted⟩ := paced_of_departures started small ran
  have called := Sender.departures_calls ran
  obtain ⟨pacer, _, rfl⟩ := Option.map_eq_some_iff.mp started
  obtain ⟨encoder, log, settledRan, settled, datagrams, identity⟩ :=
    SenderLog.settled_of_calls rs session version keyId hook _ small
  rw [called] at settledRan
  obtain ⟨isEncoder, isFrames⟩ := Prod.mk.inj (Option.some.inj settledRan)
  subst isEncoder
  rw [isFrames] at emitted
  refine ⟨log, groups, settled, datagrams, emitted, ?_, identity.session⟩
  intro delay
  rw [← isFrames]
  exact paced.inOrder delay

/-- The calls of a decoder that processes what arrives as it arrives. -/
def processed (delay : ℚ) (departures : List Departure) : List Decoder.Call :=
  (arrivalsAfter delay departures).map fun arrival => .frame arrival.1 (Host.at arrival.2)

theorem processes_processed (delay : ℚ) (departures : List Departure) :
    Decoder.Processes (arrivalsAfter delay departures) (processed delay departures) := by
  unfold Decoder.Processes processed
  rw [List.filterMap_map]
  have inputs : (arrivalsAfter delay departures).filterMap
      (Decoder.Call.input ∘ fun arrival => .frame arrival.1 (Host.at arrival.2)) =
        (arrivalsAfter delay departures).map fun arrival => (arrival.1, Host.at arrival.2) := by
    rw [← List.filterMap_eq_map]
    rfl
  rw [inputs, List.forall₂_map_right_iff, List.forall₂_same]
  intro arrival _
  exact ⟨rfl, fun _ => rfl⟩

/-- A paced sender and a decoder behind a lossless channel with constant delay: at any rate
that `Pacer::new` accepts, `Decoder::frame` never fails with "too many fec groups" exactly
when of any 2049 groups in a row the last starts at least one group lifetime after the
first.  Then, if the fragments of each datagram arrive within the reassembly lifetime and
nothing is left pending, every datagram is output, each once for every time it was sent. -/
theorem group_limit (rs : ReedSolomon) (rateMbps delay : ℚ) (session keyId : Nat)
    (hook : Option Nat) (stream : List TimedCall) (sender last : Sender)
    (departures : List Departure) (received : List Decoder.Call)
    (started : Sender.start rateMbps session versionV3 keyId hook = some sender)
    (small : ∀ payload ∈ Encoder.datagrams (stream.map TimedCall.call),
      payload.length ≤ maxDatagram)
    (ran : sender.departures rs stream = some (last, departures))
    (fits : last.encoder.CountersFit)
    (processes : Decoder.Processes (arrivalsAfter delay departures) received) :
    (Decoder.NeverRefuses rs session received ↔
      GroupsSpaced (arrivalsAfter delay departures)) ∧
    (GroupsSpaced (arrivalsAfter delay departures) →
      FragmentsClose (arrivalsAfter delay departures) → last.encoder.shards = [] →
      ∃ decoder outputs,
        run (Decoder.call rs) (Decoder.new session) received = some (decoder, outputs) ∧
        outputs.Perm (Encoder.datagrams (stream.map TimedCall.call))) := by
  obtain ⟨log, groups, settled, datagrams, emitted, arrives, isSession⟩ :=
    Sender.exists_log started small ran
  have inOrder := arrives delay
  have logFits : log.Fits := by
    refine ⟨datagrams ▸ small, ?_⟩
    have packet := settled.packet
    have bounded := fits.packet
    omega
  rw [← isSession]
  constructor
  · constructor
    · exact Decoder.spaced_of_neverRefuses settled.toExplains logFits emitted inOrder processes
    · exact Decoder.neverRefuses_of_spaced settled.toExplains logFits emitted inOrder processes
  · intro spaced close flushed
    have delivered := processes.framesOf_eq.trans inOrder.frames
    obtain ⟨decoder, outputs, decoded, same⟩ := Decoder.outputs_of_delivery settled logFits
      (fun frame member => delivered ▸ member)
      (inOrder.delivery settled logFits emitted spaced close processes)
    refine ⟨decoder, outputs, decoded, ?_⟩
    rw [delivered, settled.recoverable_all logFits flushed, datagrams] at same
    exact same

/-- One group with redundancy at 30 Mbps, over a channel with a delay of 50 ms. -/
theorem group_limit_pair :
    ∃ sender last departures decoder outputs,
      Sender.start 30 7 versionV3 1 none = some sender ∧
      sender.departures ReedSolomon.standard (pairCalls.map fun call => ⟨0, call⟩) =
        some (last, departures) ∧
      Decoder.NeverRefuses ReedSolomon.standard 7 (processed (1 / 20) departures) ∧
      run (Decoder.call ReedSolomon.standard) (Decoder.new 7) (processed (1 / 20) departures) =
        some (decoder, outputs) ∧
      outputs.Perm [[1, 2, 3]] := by
  have accepted : (Sender.start 30 7 versionV3 1 none).isSome := by
    unfold Sender.start Pacer.new
    rw [if_pos (by norm_num)]
    rfl
  obtain ⟨sender, started⟩ := Option.isSome_iff_exists.mp accepted
  obtain ⟨last, departures, ran⟩ := Sender.exists_departures ReedSolomon.standard sender
    (pairCalls.map fun call => ⟨0, call⟩)
  have isCalls : (pairCalls.map fun call => (⟨0, call⟩ : TimedCall)).map TimedCall.call =
      pairCalls := rfl
  have called := Sender.departures_calls ran
  have isEncoder : sender.encoder = withIdentity 7 versionV3 1 none := by
    obtain ⟨pacer, _, rfl⟩ := Option.map_eq_some_iff.mp started
    rfl
  obtain ⟨encoder, sent, counters, flushed⟩ :
      ∃ encoder, (withIdentity 7 versionV3 1 none).calls ReedSolomon.standard pairCalls =
        some (encoder, [pairFrame 0, pairFrame 1]) ∧ encoder.CountersFit ∧ encoder.shards = [] :=
    ⟨_, rfl, ⟨by decide +kernel, by decide +kernel, by decide +kernel⟩, rfl⟩
  rw [isCalls, isEncoder, sent] at called
  obtain ⟨rfl, isFrames⟩ := Prod.mk.inj (Option.some.inj called)
  have arrivalFrames : (arrivalsAfter (1 / 20) departures).map Prod.fst =
      [pairFrame 0, pairFrame 1] := by
    unfold arrivalsAfter
    rw [List.map_map, isFrames]
    rfl
  obtain ⟨first, rest, isArrivals, isFirst, restFrames⟩ := List.map_eq_cons_iff.mp arrivalFrames
  obtain ⟨second, isRest, isSecond⟩ := List.map_eq_singleton_iff.mp restFrames
  subst isRest
  obtain ⟨refusal, output⟩ := group_limit ReedSolomon.standard 30 (1 / 20) 7 1 none
    (pairCalls.map fun call => ⟨0, call⟩) sender last departures (processed (1 / 20) departures)
    started pair_small ran counters (processes_processed _ _)
  have spaced : GroupsSpaced (arrivalsAfter (1 / 20) departures) := by
    have groupOne : ∀ arrival ∈ arrivalsAfter (1 / 20) departures, arrival.1.group = 1 := by
      rw [isArrivals]
      intro arrival member
      rcases List.mem_pair.mp member with rfl | rfl
      · rw [isFirst]
        rfl
      · rw [isSecond]
        rfl
    intro left isLeft right isRight _ _ _ _ apart
    rw [groupOne left isLeft, groupOne right isRight] at apart
    exact absurd apart (by decide)
  have close : FragmentsClose (arrivalsAfter (1 / 20) departures) := by
    have firstOnly : ∀ arrival ∈ arrivalsAfter (1 / 20) departures, ∀ id index,
        arrival.1.Carries id index → arrival = first := by
      rw [isArrivals]
      intro arrival member id index carries
      rcases List.mem_pair.mp member with rfl | rfl
      · rfl
      · rw [isSecond] at carries
        exact absurd carries.1 (by decide)
    intro left isLeft right isRight id leftIndex rightIndex leftCarries rightCarries
    rw [firstOnly left isLeft id leftIndex leftCarries,
      firstOnly right isRight id rightIndex rightCarries, Nat.sub_self]
    decide
  obtain ⟨decoder, outputs, decoded, same⟩ := output spaced close flushed
  exact ⟨sender, last, departures, decoder, outputs, started, ran, refusal.mpr spaced, decoded,
    same⟩

/-! ### A flood of datagrams -/

/-- Empty datagrams, all due at once. -/
def flood (count : Nat) : List TimedCall := List.replicate count ⟨0, .encodeDatagram []⟩

theorem datagrams_flood (count : Nat) :
    Encoder.datagrams ((flood count).map TimedCall.call) = List.replicate count [] := by
  induction count with
  | zero => rfl
  | succ count inductionHypothesis =>
      unfold flood at inductionHypothesis ⊢
      rw [List.replicate_succ, List.map_cons, List.replicate_succ, ← inductionHypothesis]
      rfl

/-- At the highest rate a flood keeps the pacer busy with few bytes. -/
structure Flooded (past : List TimedCall) (departures : List Departure) (sender : Sender) :
    Prop where
  paced : Paced sender departures
  few : sender.encoder.shards.length < dataShards
  emitted : ∃ groups, Emitted sender.encoder (departures.map Prod.fst) groups
  started : 0 ≤ sender.clock
  rate : sender.pacer.bytesPerSecond = 125000000
  busy : ∃ sent, sender.pacer.Busy sender.clock sent ∧ sent ≤ 1419 * departures.length
  count : 10 * departures.length + 14 * sender.encoder.shards.length ≤ 14 * past.length

theorem Flooded.step {rs : ReedSolomon} {past : List TimedCall} {departures : List Departure}
    {sender : Sender} (flooded : Flooded past departures sender) :
    Flooded (past ++ [⟨0, .encodeDatagram []⟩])
      (departures ++ (sender.step rs ⟨0, .encodeDatagram []⟩).2)
      (sender.step rs ⟨0, .encodeDatagram []⟩).1 := by
  obtain ⟨groups, emitted⟩ := flooded.emitted
  obtain ⟨sent, busy, light⟩ := flooded.busy
  have small : ([] : Bytes).length ≤ maxDatagram := Nat.zero_le _
  obtain ⟨nextPaced, nextFew, nextEmitted⟩ := @Paced.step rs _ _ _ flooded.paced emitted flooded.few
    ⟨0, .encodeDatagram []⟩ (by rintro payload ⟨⟩; exact small)
  obtain ⟨next, more, later, encoded, moreEmitted, _, _, moreCount⟩ :=
    @Emitted.encodeDatagram rs _ _ _ emitted flooded.few [] small
  have isCall : sender.encoder.call rs (.encodeDatagram []) = (next, more) := by
    simp [Encoder.call, encoded, Except.toOption]
  have isNow : max sender.clock 0 = sender.clock := max_eq_left flooded.started
  have isStep : sender.step rs ⟨0, .encodeDatagram []⟩ =
      ({ encoder := next
         pacer := (sendFrames sender.pacer sender.clock more).1
         clock := (sendFrames sender.pacer sender.clock more).2.1 },
        (sendFrames sender.pacer sender.clock more).2.2) := by
    simp only [Sender.step, isCall, isNow]
  have smallFrames : ∀ frame ∈ more, frame.payload.length ≤ shardBytes := fun frame member =>
    moreEmitted.payload_le (List.mem_append_right _ member)
  obtain ⟨_, _, _, notBefore, _⟩ := sendFrames_times flooded.paced.valid more smallFrames
  obtain ⟨nextBusy, sameRate⟩ := sendFrames_busy busy (by rw [flooded.rate]; norm_num) more
  have isLength : (sendFrames sender.pacer sender.clock more).2.2.length = more.length := by
    rw [← List.length_map Prod.fst, sendFrames_frames]
  have bytes : (more.map wireLength).sum ≤ 1419 * more.length := by
    rw [Nat.mul_comm, ← List.length_map wireLength, ← smul_eq_mul]
    apply List.sum_le_card_nsmul
    intro size isSize
    obtain ⟨frame, member, rfl⟩ := List.mem_map.mp isSize
    exact wireLength_le (smallFrames frame member)
  have bytesRat : ((more.map wireLength).sum : ℚ) ≤ 1419 * more.length := by exact_mod_cast bytes
  have one : (datagramChunks []).length = 1 := rfl
  have count := flooded.count
  rw [isStep] at nextPaced nextFew nextEmitted ⊢
  refine ⟨nextPaced, nextFew, nextEmitted, flooded.started.trans notBefore,
    sameRate.trans flooded.rate, ⟨_, nextBusy, ?_⟩, ?_⟩
  · rw [List.length_append, isLength, Nat.cast_add]
    linarith
  · rw [List.length_append, List.length_append, List.length_singleton, isLength]
    dsimp only
    omega

/-- The flood as a whole. -/
theorem flooded_of_departures {rs : ReedSolomon} {session version keyId : Nat}
    {hook : Option Nat} {sender last : Sender} {departures : List Departure} {count : Nat}
    (started : Sender.start 1000 session version keyId hook = some sender)
    (ran : sender.departures rs (flood count) = some (last, departures)) :
    Flooded (flood count) departures last := by
  obtain ⟨pacer, isPacer, rfl⟩ := Option.map_eq_some_iff.mp started
  refine run_invariant ran (fun past departures sender => Flooded past departures sender) ?_ ?_
  · have valid := Pacer.valid_new isPacer
    unfold Pacer.new at isPacer
    rw [if_pos (by norm_num)] at isPacer
    cases isPacer
    refine ⟨⟨valid, List.Pairwise.nil, ?_, ?_⟩, show 0 < dataShards by decide,
      ⟨[], Emitted.initial session version keyId hook⟩, le_refl 0, by norm_num,
      ⟨0, ⟨rfl, le_refl _, ?_⟩, by simp⟩, by simp [withIdentity]⟩
    · intro departure member
      cases member
    · intro left member
      cases member
    · dsimp only
      ring
  · intro past timed departures sender next sent isPrefix _ stepped flooded
    have isTimed : timed = ⟨0, .encodeDatagram []⟩ :=
      List.eq_of_mem_replicate (mem_of_front isPrefix)
    cases stepped
    subst isTimed
    exact flooded.step

/-- A group holds at most ten fragments. -/
theorem SenderLog.Settled.length_fragments_lt {log : SenderLog} {rs : ReedSolomon}
    {encoder : Encoder} (settled : log.Settled rs encoder) :
    log.fragments.length < dataShards * encoder.group := by
  have placed : (log.groups.flatMap SentGroup.fragments).length ≤
      log.groups.length * dataShards := by
    rw [List.length_flatMap, ← List.length_map fun sent : SentGroup => sent.fragments.length,
      ← smul_eq_mul]
    apply List.sum_le_card_nsmul
    intro size isSize
    obtain ⟨sent, member, rfl⟩ := List.mem_map.mp isSize
    exact (settled.valid sent member).data_le
  have pending := settled.few
  rw [settled.shards_length] at pending
  unfold fragments
  rw [List.length_append, settled.group, Nat.mul_add, Nat.mul_comm dataShards]
  omega

theorem length_fragmentsFrom_replicate (first count : Nat) :
    (fragmentsFrom first (List.replicate count [])).length = count := by
  induction count generalizing first with
  | zero => rfl
  | succ count inductionHypothesis =>
      rw [List.replicate_succ', fragmentsFrom_append, List.length_append, inductionHypothesis]
      rfl

/-- Departures within a second arrive within a second. -/
theorem Paced.arrival_le {sender : Sender} {departures : List Departure}
    (paced : Paced sender departures) (soon : sender.clock ≤ 1) {arrival : Arrival}
    (member : arrival ∈ arrivalsAfter 0 departures) : arrival.2 ≤ 1000000000 := by
  obtain ⟨departure, isDeparture, rfl⟩ := List.mem_map.mp member
  apply Nat.floor_le_of_le
  have left := paced.past departure isDeparture
  push_cast
  linarith

/-- At the highest rate, a flood of fifty thousand datagrams is over within a second. -/
theorem Flooded.clock_le {past : List TimedCall} {departures : List Departure} {sender : Sender}
    (flooded : Flooded past departures sender) (few : past.length ≤ 50000) :
    sender.clock ≤ 1 := by
  obtain ⟨sent, busy, light⟩ := flooded.busy
  have balance := busy.balance
  have tokens := busy.tokens
  have count := flooded.count
  have fewFrames : (departures.length : ℚ) ≤ 70000 := by
    exact_mod_cast (show departures.length ≤ 70000 by omega)
  rw [flooded.rate] at balance
  linarith

/-- At 1000 Mbps, 20490 empty datagrams fill 2049 groups within a second: the decoder
refuses a frame although none was lost, reordered or late. -/
theorem group_limit_exceeded :
    ∃ sender last departures,
      Sender.start 1000 7 versionV3 1 none = some sender ∧
      sender.departures ReedSolomon.standard (flood 20490) = some (last, departures) ∧
      Decoder.Processes (arrivalsAfter 0 departures) (processed 0 departures) ∧
      ¬ Decoder.NeverRefuses ReedSolomon.standard 7 (processed 0 departures) := by
  have accepted : (Sender.start 1000 7 versionV3 1 none).isSome := by
    unfold Sender.start Pacer.new
    rw [if_pos (by norm_num)]
    rfl
  obtain ⟨sender, started⟩ := Option.isSome_iff_exists.mp accepted
  obtain ⟨last, departures, ran⟩ :=
    Sender.exists_departures ReedSolomon.standard sender (flood 20490)
  refine ⟨sender, last, departures, started, ran, processes_processed 0 departures, ?_⟩
  intro never
  have small : ∀ payload ∈ Encoder.datagrams ((flood 20490).map TimedCall.call),
      payload.length ≤ maxDatagram := by
    intro payload member
    rw [datagrams_flood] at member
    rw [List.eq_of_mem_replicate member]
    exact Nat.zero_le _
  have flooded := flooded_of_departures started ran
  obtain ⟨log, groups, settled, datagrams, emitted, arrives, isSession⟩ :=
    Sender.exists_log started small ran
  have inOrder := arrives 0
  have fits : log.Fits := by
    refine ⟨datagrams ▸ small, ?_⟩
    rw [datagrams, datagrams_flood, List.length_replicate]
    norm_num
  -- That many fragments need more than 2048 groups.
  have many : 2049 < last.encoder.group := by
    have fragments := settled.length_fragments_lt
    rw [settled.placed, datagrams, datagrams_flood, length_fragmentsFrom_replicate] at fragments
    unfold dataShards at fragments
    omega
  obtain ⟨firstFrame, isFirst, firstShard, firstGroup, firstIndex⟩ :=
    @Emitted.exists_first _ _ _ emitted 1 (by decide) (by omega)
  obtain ⟨lastFrame, isLast, lastShard, lastGroup, lastIndex⟩ :=
    @Emitted.exists_first _ _ _ emitted 2049 (by decide) many
  rw [← inOrder.frames] at isFirst isLast
  obtain ⟨first, inFirst, rfl⟩ := List.mem_map.mp isFirst
  obtain ⟨late, inLate, rfl⟩ := List.mem_map.mp isLast
  have spaced := Decoder.spaced_of_neverRefuses settled.toExplains fits emitted inOrder
    (processes_processed 0 departures) (isSession ▸ never)
  have apart := spaced first inFirst late inLate firstShard lastShard firstIndex lastIndex
    (by rw [firstGroup, lastGroup]; rfl)
  have soon := flooded.paced.arrival_le
    (flooded.clock_le (by rw [flood, List.length_replicate]; norm_num)) inLate
  unfold groupTtl at apart
  omega

end SmartFecTunnel.Fec
