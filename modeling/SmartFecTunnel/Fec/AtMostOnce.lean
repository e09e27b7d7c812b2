import SmartFecTunnel.Fec.HonestReceiver

/-!
Contract: how often a datagram is output.

Three records keep a datagram from being output twice: the sequence window, the
`delivered` flags of a group, and the reassembly.  The window never forgets an
accepted number.  A group's record expires, and a group without its record
starts again from nothing, so a redundant group can release a source shard for
the second time.

Owns:
- `Counted`: completions of a packet never outnumber the fragments processed;
- `KeepsRecords`, the runs in which no expired redundant group is opened again;
- that in those runs every datagram is output at most once.
-/

namespace SmartFecTunnel.Fec

open SmartFecTunnel.Library
open Encoder

namespace Decoder

/-! ### Completions -/

/-- Every completion of a packet and every fragment held is paid for by a
processed fragment. -/
structure Counted (log : SenderLog) (processed : List FragmentId) (ids : List Nat)
    (decoder : Decoder) : Prop where
  completed : ∀ id payload index, log.IsPacket id payload →
    index < (datagramChunks payload).length → ids.count id ≤ processed.count (id, index)
  pending : ∀ id payload index, log.IsPacket id payload →
    index < (datagramChunks payload).length → decoder.Holds (id, index) →
    ids.count id + 1 ≤ processed.count (id, index)
  known : ∀ id ∈ ids, ∃ payload, log.IsPacket id payload

namespace Counted

variable {log : SenderLog} {processed : List FragmentId} {ids : List Nat} {decoder : Decoder}

theorem of_holds {next : Decoder} (counted : Counted log processed ids decoder)
    (holds : ∀ fragment, next.Holds fragment → decoder.Holds fragment) :
    Counted log processed ids next where
  completed := counted.completed
  pending := fun id payload index isPacket below held =>
    counted.pending id payload index isPacket below (holds (id, index) held)
  known := counted.known

theorem fragmentStep {now : Nat} {fragment : FragmentId} {next : Decoder} {new : List Nat}
    (counted : Counted log processed ids decoder)
    (step : FragmentStep log now fragment decoder next new) :
    Counted log (processed ++ [fragment]) (ids ++ new) next := by
  obtain ⟨payload, isPacket, _, ⟨rfl, _, holds⟩ | ⟨rfl, others, holds⟩⟩ := step.effect
  · -- The packet stays incomplete; only the new fragment is held in addition.
    rw [List.append_nil]
    refine ⟨?_, ?_, counted.known⟩
    · intro id other index isOther below
      have before := counted.completed id other index isOther below
      rw [List.count_append]
      omega
    · intro id other index isOther below held
      rw [List.count_append]
      rcases (holds (id, index)).mp held with isNew | old
      · have before := counted.completed id other index isOther below
        rw [isNew, List.count_singleton_self]
        rw [isNew] at before
        omega
      · have before := counted.pending id other index isOther below old
        omega
  · -- The packet is completed: every other fragment of it was held.
    refine ⟨?_, ?_, ?_⟩
    · intro id other index isOther below
      rw [List.count_append, List.count_append]
      have before := counted.completed id other index isOther below
      by_cases samePacket : id = fragment.1
      · subst samePacket
        rw [List.count_singleton_self]
        by_cases sameIndex : index = fragment.2
        · subst sameIndex
          rw [show (fragment.1, fragment.2) = fragment from rfl] at before ⊢
          rw [List.count_singleton_self]
          omega
        · rw [isPacket.unique isOther] at others
          have held := counted.pending fragment.1 other index isOther below
            (others index below sameIndex)
          omega
      · have none : [fragment.1].count id = 0 :=
          List.count_eq_zero_of_not_mem (by simpa using samePacket)
        omega
    · intro id other index isOther below held
      obtain ⟨different, old⟩ := (holds (id, index)).mp held
      have before := counted.pending id other index isOther below old
      have none : [fragment.1].count id = 0 :=
        List.count_eq_zero_of_not_mem (by simpa using different)
      rw [List.count_append, List.count_append]
      omega
    · intro id member
      rcases List.mem_append.mp member with old | new
      · exact counted.known id old
      · rw [List.mem_singleton] at new
        subst new
        exact ⟨payload, isPacket⟩

theorem fragmentSteps {host : Host} {reading : Nat} {next : Decoder} {batch : List FragmentId}
    {new : List Nat} (counted : Counted log processed ids decoder)
    (steps : FragmentSteps log host reading decoder batch next new) :
    Counted log (processed ++ batch) (ids ++ new) next := by
  induction steps generalizing processed ids with
  | nil =>
      rw [List.append_nil, List.append_nil]
      exact counted
  | cons step steps inductionHypothesis =>
      have first := counted.fragmentStep step
      have rest := inductionHypothesis first
      rw [List.append_assoc, List.append_assoc] at rest
      exact rest

/-- With no fragment processed twice, no packet is completed twice. -/
theorem nodup (counted : Counted log processed ids decoder) (distinct : processed.Nodup) :
    ids.Nodup := by
  rw [List.nodup_iff_count_le_one]
  intro id
  by_cases member : id ∈ ids
  · obtain ⟨payload, isPacket⟩ := counted.known id member
    have bound := counted.completed id payload 0 isPacket (datagramChunks_pos payload)
    have once := List.nodup_iff_count_le_one.mp distinct (id, 0)
    omega
  · rw [List.count_eq_zero_of_not_mem member]
    omega

end Counted

end Decoder

theorem filterMap_getElem?_range {α : Type*} (list : List α) :
    (List.range list.length).filterMap (fun place => list[place]?) = list := by
  induction list using List.reverseRecOn with
  | nil => rfl
  | append_singleton list last inductionHypothesis =>
      rw [List.length_append, List.length_singleton, List.range_succ, List.filterMap_append]
      have before : (List.range list.length).filterMap (fun place => (list ++ [last])[place]?) =
          (List.range list.length).filterMap (fun place => list[place]?) := by
        apply List.filterMap_congr
        intro place member
        rw [List.getElem?_append_left (List.mem_range.mp member)]
      rw [before, inductionHypothesis]
      simp

/-- Different packet ids select datagrams at different places. -/
theorem SenderLog.payloads_subperm {log : SenderLog} {ids : List Nat} (distinct : ids.Nodup)
    (known : ∀ id ∈ ids, ∃ payload, log.IsPacket id payload) :
    (log.payloads ids).Subperm log.datagrams := by
  have places : (ids.map fun id => id - 1).Nodup := by
    apply distinct.map_on
    intro left isLeft right isRight same
    obtain ⟨_, leftPos, _⟩ := known left isLeft
    obtain ⟨_, rightPos, _⟩ := known right isRight
    omega
  have within : (ids.map fun id => id - 1) ⊆ List.range log.datagrams.length := by
    intro place member
    obtain ⟨id, isId, rfl⟩ := List.mem_map.mp member
    obtain ⟨_, _, found⟩ := known id isId
    exact List.mem_range.mpr (List.getElem?_eq_some_iff.mp found).1
  obtain ⟨chosen, permutation, sublist⟩ := places.subperm within
  refine ⟨chosen.filterMap fun place => log.datagrams[place]?, ?_, ?_⟩
  · have mapped := permutation.filterMap fun place => log.datagrams[place]?
    rw [List.filterMap_map] at mapped
    exact mapped
  · have part := sublist.filterMap fun place => log.datagrams[place]?
    rw [filterMap_getElem?_range] at part
    exact part

namespace Decoder

/-! ### Fragments -/

/-- The frame of position `index` of group `id` was accepted. -/
def Arrived (log : SenderLog) (accepted : List Nat) (id index : Nat) : Prop :=
  ∃ frame ∈ log.frames, frame.IsShard ∧ frame.group = id ∧ frame.index = index ∧
    frame.sequence ∈ accepted

/-- No fragment was processed twice, and what keeps each processed fragment from
coming back: the window for a plain group, the flags for a redundant one. -/
structure Spent (log : SenderLog) (opened : Nat → Prop) (accepted : List Nat)
    (processed : List FragmentId) (decoder : Decoder) : Prop where
  distinct : processed.Nodup
  placed : ∀ fragment ∈ processed, ∃ id sent index, log.IsGroup id sent ∧
    sent.fragments[index]? = some fragment ∧
    (sent.parity = 0 → Arrived log accepted id index) ∧
    (0 < sent.parity → opened id ∧
      ∀ group, decoder.groups.lookup id = some group → Filled group.shards index)

namespace Spent

variable {log : SenderLog} {opened later : Nat → Prop} {accepted more : List Nat}
  {processed : List FragmentId} {decoder next : Decoder}

theorem mono (spent : Spent log opened accepted processed decoder)
    (openedLater : ∀ id, opened id → later id) (acceptedMore : accepted ⊆ more)
    (groups : ∀ id sent group, log.IsGroup id sent → 0 < sent.parity → opened id →
      next.groups.lookup id = some group →
      ∃ earlier, decoder.groups.lookup id = some earlier ∧
        ∀ index, index < sent.fragments.length → Filled earlier.shards index →
          Filled group.shards index) :
    Spent log later more processed next where
  distinct := spent.distinct
  placed := by
    intro fragment member
    obtain ⟨id, sent, index, isGroup, placed, plain, redundant⟩ := spent.placed fragment member
    refine ⟨id, sent, index, isGroup, placed, ?_, ?_⟩
    · intro none
      obtain ⟨frame, inFrames, isShard, isId, isIndex, inAccepted⟩ := plain none
      exact ⟨frame, inFrames, isShard, isId, isIndex, acceptedMore inAccepted⟩
    · intro positive
      refine ⟨openedLater id (redundant positive).1, ?_⟩
      intro group found
      obtain ⟨earlier, isEarlier, kept⟩ :=
        groups id sent group isGroup positive (redundant positive).1 found
      exact kept index (List.getElem?_eq_some_iff.mp placed).1
        ((redundant positive).2 earlier isEarlier)

/-- The groups after a stored shard: its own group is the updated one, and every
other group was there before. -/
theorem lookup_after {host : Host} {frame : Frame} {pruned stored assembled after : Decoder}
    {new : Group} {batch : List FragmentId} {ids : List Nat} {time reading : Nat}
    (first : PruneStep time decoder pruned)
    (isStored : stored = { pruned with groups := pruned.groups.insert frame.group new })
    (fragments : FragmentSteps log host reading stored batch assembled ids) {lastTime : Nat}
    (last : PruneStep lastTime assembled after) {id : Nat} {group : Group}
    (found : after.groups.lookup id = some group) :
    (id = frame.group ∧ group = new) ∨
      (id ≠ frame.group ∧ decoder.groups.lookup id = some group) := by
  have inAssembled := (last.lookup_group.mp found).1
  have sameGroups : assembled.groups = stored.groups := by rw [fragments.rest]
  rw [sameGroups, isStored] at inAssembled
  rcases Table.of_lookup_insert inAssembled with stored_now | ⟨different, old⟩
  · exact Or.inl stored_now
  · exact Or.inr ⟨different, (first.lookup_group.mp old).1⟩

variable {rs : ReedSolomon} {encoder : Encoder}

/-- A shard stored in a group that was not opened before, or that still has its
record, releases no processed fragment. -/
private theorem not_mem_of_released (settled : log.Settled rs encoder)
    (spent : Spent log opened accepted processed decoder) {created : Nat} {frame : Frame}
    {sent : SentGroup} {pruned stored : Decoder} {released : List Nat} {time : Nat}
    (member : frame ∈ log.frames) (isShard : frame.IsShard) (isNew : frame.sequence ∉ accepted)
    (describes : log.Describes frame sent) (first : PruneStep time decoder pruned)
    (store : ShardStep log created frame sent pruned stored released)
    (keeps : 0 < frame.parity → opened frame.group → frame.group ∈ pruned.groups)
    {index : Nat} (inReleased : index ∈ released) {fragment : FragmentId}
    (isFragment : sent.fragments[index]? = some fragment) : fragment ∉ processed := by
  intro inProcessed
  obtain ⟨id, other, position, isGroup, placed, plain, redundant⟩ :=
    spent.placed fragment inProcessed
  obtain ⟨sameId, sameIndex⟩ := settled.placedAt_unique ⟨other, isGroup, placed⟩
    ⟨sent, describes.group, isFragment⟩
  subst sameId sameIndex
  have sameSent := isGroup.unique describes.group
  subst sameSent
  obtain ⟨old, new, isOld, ⟨received, oldFollows⟩, follows, _, _, releasedIff⟩ := store.effect
  have newFollows := follows received oldFollows
  obtain ⟨source, empty, filled⟩ := (releasedIff position).mp inReleased
  rcases Nat.eq_zero_or_pos other.parity with none | positive
  · -- Only the arriving shard itself is released, and its number is new.
    have oldSource : position < old.data := by rw [oldFollows.data]; exact source
    have newSource : position < new.data := by rw [newFollows.data]; exact source
    rw [oldFollows.tracks.filled_iff_of_plain (by rw [oldFollows.parity]; exact none) oldSource]
      at empty
    rw [newFollows.tracks.filled_iff_of_plain (by rw [newFollows.parity]; exact none) newSource,
      Finset.mem_insert] at filled
    have isArriving := filled.resolve_right empty
    obtain ⟨earlier, inFrames, earlierShard, earlierId, earlierIndex, inAccepted⟩ := plain none
    have sameSequence := settled.unique earlier inFrames frame member earlierShard isShard earlierId
      (earlierIndex.trans isArriving)
    rw [sameSequence] at inAccepted
    exact isNew inAccepted
  · -- The record is still there and says that the shard was released.
    obtain ⟨wasOpened, kept⟩ := redundant positive
    obtain ⟨group, found⟩ := Table.mem_iff_exists_lookup.mp
      (keeps (by rw [describes.parity]; exact positive) wasOpened)
    rw [found, Option.getD_some] at isOld
    subst isOld
    exact empty (kept old (first.lookup_group.mp found).1)

theorem store (settled : log.Settled rs encoder)
    (spent : Spent log opened accepted processed decoder) {host : Host} {frame : Frame}
    {sent : SentGroup} {pruned stored assembled after : Decoder} {released ids : List Nat}
    {created firstTime lastTime : Nat}
    (member : frame ∈ log.frames) (isShard : frame.IsShard) (isNew : frame.sequence ∉ accepted)
    (describes : log.Describes frame sent) (first : PruneStep firstTime decoder pruned)
    (store : ShardStep log created frame sent pruned stored released)
    (fragments : FragmentSteps log host 2 stored
      (released.filterMap fun index => sent.fragments[index]?) assembled ids)
    (last : PruneStep lastTime assembled after)
    (keeps : 0 < frame.parity → opened frame.group → frame.group ∈ pruned.groups) :
    Spent log (fun id => opened id ∨ id = frame.group) (accepted ++ [frame.sequence])
      (processed ++ released.filterMap fun index => sent.fragments[index]?) after := by
  have released_new : ∀ index ∈ released, ∀ fragment, sent.fragments[index]? = some fragment →
      fragment ∉ processed := fun index inReleased fragment isFragment =>
    spent.not_mem_of_released settled member isShard isNew describes first store keeps inReleased
      isFragment
  obtain ⟨old, new, isOld, ⟨received, oldFollows⟩, follows, _, isStored, releasedIff⟩ :=
    store.effect
  have newFollows := follows received oldFollows
  have after_lookup : ∀ {id group}, after.groups.lookup id = some group →
      (id = frame.group ∧ group = new) ∨
        (id ≠ frame.group ∧ decoder.groups.lookup id = some group) :=
    fun found => lookup_after first isStored fragments last found
  have earlier : Spent log (fun id => opened id ∨ id = frame.group)
      (accepted ++ [frame.sequence]) processed after := by
    apply spent.mono (fun id wasOpened => Or.inl wasOpened) (List.subset_append_left _ _)
    intro id other group isGroup positive wasOpened found
    rcases after_lookup found with ⟨rfl, rfl⟩ | ⟨_, before⟩
    · have sameSent := isGroup.unique describes.group
      subst sameSent
      obtain ⟨stored, isFound⟩ := Table.mem_iff_exists_lookup.mp
        (keeps (by rw [describes.parity]; exact positive) wasOpened)
      rw [isFound, Option.getD_some] at isOld
      subst isOld
      refine ⟨old, (first.lookup_group.mp isFound).1, ?_⟩
      intro index source filled
      rw [newFollows.tracks.filled_iff (by rw [newFollows.data]; exact source), newFollows.data]
      rw [oldFollows.tracks.filled_iff (by rw [oldFollows.data]; exact source), oldFollows.data]
        at filled
      rcases filled with direct | enough
      · exact Or.inl (Finset.mem_insert_of_mem direct)
      · exact Or.inr (enough.trans (Finset.card_le_card (Finset.subset_insert _ _)))
    · exact ⟨group, before, fun _ _ filled => filled⟩
  refine ⟨?_, ?_⟩
  · refine List.nodup_append.mpr ⟨spent.distinct, ?_, ?_⟩
    · apply store.distinct.filterMap
      intro left right fragment isLeft isRight
      exact (settled.placedAt_unique ⟨sent, describes.group, isLeft⟩
        ⟨sent, describes.group, isRight⟩).2
    · intro left inProcessed right inBatch same
      obtain ⟨index, inReleased, isFragment⟩ := List.mem_filterMap.mp inBatch
      rw [← same] at isFragment
      exact released_new index inReleased left isFragment inProcessed
  · intro fragment inAll
    rcases List.mem_append.mp inAll with old | isReleased
    · exact earlier.placed fragment old
    · obtain ⟨index, inReleased, isFragment⟩ := List.mem_filterMap.mp isReleased
      obtain ⟨source, empty, filled⟩ := (releasedIff index).mp inReleased
      refine ⟨frame.group, sent, index, describes.group, isFragment, ?_, ?_⟩
      · intro none
        rw [oldFollows.tracks.filled_iff_of_plain (by rw [oldFollows.parity]; exact none)
          (by rw [oldFollows.data]; exact source)] at empty
        rw [newFollows.tracks.filled_iff_of_plain (by rw [newFollows.parity]; exact none)
          (by rw [newFollows.data]; exact source), Finset.mem_insert] at filled
        have isArriving := filled.resolve_right empty
        exact ⟨frame, member, isShard, rfl, isArriving.symm, List.mem_concat_self⟩
      · intro _
        refine ⟨Or.inr rfl, ?_⟩
        intro group found
        rcases after_lookup found with ⟨_, rfl⟩ | ⟨different, _⟩
        · exact filled
        · exact absurd rfl different

end Spent

/-! ### Runs -/

/-- The frame is a new shard frame and its group has a record or finds room. -/
def Stores (decoder : Decoder) (frame : Frame) (host : Host) : Prop :=
  (decoder.observeSeq frame.sequence).2 = true ∧ frame.IsShard ∧
    (frame.group ∈ freshGroups (host.now 0) decoder.groups ∨
      (freshGroups (host.now 0) decoder.groups).size < maxGroups)

/-- Some call of the run stored a shard in group `id`. -/
def Opened (rs : ReedSolomon) (session : Nat) (past : List Call) (id : Nat) : Prop :=
  ∃ earlier frame host state outputs, earlier ++ [.frame frame host] <+: past ∧
    run (Decoder.call rs) (Decoder.new session) earlier = some (state, outputs) ∧
    frame.group = id ∧ state.Stores frame host

/-- No call stores a shard in a redundant group that an earlier call opened and
whose record has expired since. -/
def KeepsRecords (rs : ReedSolomon) (session : Nat) (received : List Call) : Prop :=
  ∀ past frame host state outputs, past ++ [.frame frame host] <+: received →
    run (Decoder.call rs) (Decoder.new session) past = some (state, outputs) →
    0 < frame.parity → Opened rs session past frame.group → state.Stores frame host →
    frame.group ∈ freshGroups (host.now 0) state.groups

theorem Opened.mono {rs : ReedSolomon} {session : Nat} {past : List Call} {id : Nat}
    (opened : Opened rs session past id) (call : Call) : Opened rs session (past ++ [call]) id := by
  obtain ⟨earlier, frame, host, state, outputs, isPrefix, ran, isGroup, stores⟩ := opened
  exact ⟨earlier, frame, host, state, outputs, isPrefix.trans (List.prefix_append _ _), ran,
    isGroup, stores⟩

/-- What holds along a run that keeps its records. -/
structure Once (rs : ReedSolomon) (session : Nat) (log : SenderLog) (past : List Call)
    (outputs : List Bytes) (decoder : Decoder) : Prop where
  isSession : decoder.session = session
  honest : decoder.Honest log
  history : ∃ accepted processed ids, Window accepted decoder ∧
    Counted log processed ids decoder ∧
    Spent log (Opened rs session past) accepted processed decoder ∧ outputs = log.payloads ids

theorem once_new (rs : ReedSolomon) (session : Nat) (log : SenderLog) :
    Once rs session log [] [] (Decoder.new session) where
  isSession := rfl
  honest := honest_new log session
  history := by
    refine ⟨[], [], [], window_new session, ⟨?_, ?_, ?_⟩, ⟨List.nodup_nil, ?_⟩, rfl⟩
    · intro id payload index _ _
      exact Nat.le_refl 0
    · intro id payload index _ _ held
      exact absurd held (not_holds_new session _)
    · intro id member
      cases member
    · intro fragment member
      cases member

namespace Once

variable {rs : ReedSolomon} {session : Nat} {log : SenderLog} {past : List Call}
  {outputs : List Bytes} {decoder : Decoder} {encoder : Encoder}

theorem sequenceReport (once : Once rs session log past outputs decoder) :
    ∃ next emitted, decoder.call rs .sequenceReport = some (next, emitted) ∧
      Once rs session log (past ++ [.sequenceReport]) (outputs ++ emitted) next := by
  obtain ⟨next, report, reported, nextHonest, stores⟩ := once.honest.sequenceReport
  obtain ⟨accepted, processed, ids, window, counted, spent, isOutputs⟩ := once.history
  refine ⟨next, [], by simp [Decoder.call, reported], ?_, nextHonest, ?_⟩
  · rw [stores.session]
    exact once.isSession
  · refine ⟨accepted, processed, ids, window.report reported,
      counted.of_holds fun fragment => (holds_of_sameStores stores fragment).mp,
      spent.mono (fun id opened => opened.mono _) (List.Subset.refl _) ?_, ?_⟩
    · intro id sent group _ _ _ found
      rw [stores.groups] at found
      exact ⟨group, found, fun _ _ filled => filled⟩
    · rw [List.append_nil]
      exact isOutputs

theorem frame (settled : log.Settled rs encoder) (fits : log.Fits)
    (isSession : encoder.session = session) (once : Once rs session log past outputs decoder)
    {frame : Frame} {host : Host} (member : frame ∈ log.frames)
    (ran : run (Decoder.call rs) (Decoder.new session) past = some (decoder, outputs))
    (keeps : 0 < frame.parity → Opened rs session past frame.group → decoder.Stores frame host →
      frame.group ∈ freshGroups (host.now 0) decoder.groups) :
    ∃ next emitted, decoder.call rs (.frame frame host) = some (next, emitted) ∧
      Once rs session log (past ++ [.frame frame host]) (outputs ++ emitted) next := by
  obtain ⟨accepted, processed, ids, window, counted, spent, isOutputs⟩ := once.history
  obtain ⟨next, result, batch, new, called, isEmitted, step, nextHonest, sameWindow⟩ :=
    once.honest.frame settled.toExplains fits host member (once.isSession.trans isSession.symm)
  obtain ⟨isNew, observedWindow⟩ := window.observe frame.sequence
  have nextWindow := observedWindow.of_sameWindow sameWindow
  have observed := observeSeq_sameStores decoder frame.sequence
  refine ⟨next, log.payloads new, by simp [Decoder.call, called, isEmitted], ?_, nextHonest, ?_⟩
  · rw [sameWindow.session, observed.session]
    exact once.isSession
  · have isAll : outputs ++ log.payloads new = log.payloads (ids ++ new) := by
      rw [isOutputs, SenderLog.payloads_append]
    cases step with
    | ignored same _ =>
        refine ⟨_, processed, ids ++ [], nextWindow, ?_, ?_, isAll⟩
        · rw [List.append_nil]
          exact counted.of_holds fun fragment => (holds_of_sameStores same fragment).mp
        · apply spent.mono (fun id opened => opened.mono _)
          · split
            · exact List.subset_append_left _ _
            · exact List.Subset.refl _
          · intro id sent group _ _ _ found
            rw [same.groups] at found
            exact ⟨group, found, fun _ _ filled => filled⟩
    | refused fresh _ pruned _ =>
        refine ⟨_, processed, ids ++ [], nextWindow, ?_, ?_, isAll⟩
        · rw [List.append_nil]
          exact counted.of_holds fun fragment held =>
            (holds_of_sameStores observed fragment).mp (pruned.holds held)
        · rw [if_pos fresh]
          apply spent.mono (fun id opened => opened.mono _) (List.subset_append_left _ _)
          intro id sent group _ _ _ found
          have before := (pruned.lookup_group.mp found).1
          rw [observed.groups] at before
          exact ⟨group, before, fun _ _ filled => filled⟩
    | stored fresh isShard describes first room store fragments last =>
        rename_i pruned stored assembled sent released
        have prunedGroups : pruned.groups = freshGroups (host.now 0) decoder.groups := by
          rw [first.groups, observed.groups]
        have stores : decoder.Stores frame host := by
          refine ⟨fresh, isShard, ?_⟩
          rw [← prunedGroups]
          by_cases recorded : frame.group ∈ pruned.groups
          · exact Or.inl recorded
          · right
            by_contra full
            exact room ⟨recorded, not_lt.mp full⟩
        have observedSpent : Spent log (Opened rs session past) accepted processed
            (decoder.observeSeq frame.sequence).1 := by
          apply spent.mono (fun id opened => opened) (List.Subset.refl _)
          intro id sent group _ _ _ found
          rw [observed.groups] at found
          exact ⟨group, found, fun _ _ filled => filled⟩
        have nextSpent := observedSpent.store settled member isShard (isNew fresh) describes first
          store fragments last (by
            intro redundant opened
            rw [prunedGroups]
            exact keeps redundant opened stores)
        refine ⟨_, processed ++ released.filterMap fun index => sent.fragments[index]?, ids ++ new,
          nextWindow, ?_, ?_, isAll⟩
        · obtain ⟨_, _, _, _, _, _, isStored, _⟩ := store.effect
          have storedCounted : Counted log processed ids stored := by
            apply counted.of_holds
            intro fragment held
            rw [isStored] at held
            exact (holds_of_sameStores observed fragment).mp (first.holds held)
          have assembledCounted := storedCounted.fragmentSteps fragments
          exact assembledCounted.of_holds fun fragment => last.holds
        · rw [if_pos fresh]
          apply nextSpent.mono _ (List.Subset.refl _)
          · intro id sent group _ _ _ found
            exact ⟨group, found, fun _ _ filled => filled⟩
          · rintro id (opened | rfl)
            · exact opened.mono _
            · exact ⟨past, frame, host, decoder, outputs, List.prefix_rfl, ran, rfl, stores⟩

end Once

end Decoder

/-- At most once: in every run that opens no expired redundant group again, the
outputs are datagrams that were sent, each sent datagram at most once. -/
theorem at_most_once (rs : ReedSolomon) (session version keyId : Nat) (hook : Option Nat)
    (sent : List Encoder.Call) (encoder : Encoder) (frames : List Frame)
    (received : List Decoder.Call)
    (small : ∀ payload ∈ Encoder.datagrams sent, payload.length ≤ maxDatagram)
    (ran : (withIdentity session version keyId hook).calls rs sent = some (encoder, frames))
    (fits : encoder.CountersFit)
    (drawn : ∀ frame host, Decoder.Call.frame frame host ∈ received → frame ∈ frames)
    (keeps : Decoder.KeepsRecords rs session received) :
    ∃ decoder outputs,
      run (Decoder.call rs) (Decoder.new session) received = some (decoder, outputs) ∧
      outputs.Subperm (Encoder.datagrams sent) := by
  obtain ⟨log, settled, logFits, datagrams, rfl, identity⟩ := SenderLog.of_calls small ran fits
  obtain ⟨decoder, outputs, decoded, once⟩ :=
    run_induction (Decoder.call rs) (Decoder.new session) received
      (Decoder.Once rs session log) (Decoder.once_new rs session log) (by
        intro past call outputs decoder isPrefix ranPast once
        have inReceived := mem_of_front isPrefix
        cases call with
        | frame frame host =>
            exact once.frame settled logFits identity.session (drawn frame host inReceived) ranPast
              (keeps past frame host decoder outputs isPrefix ranPast)
        | sequenceReport => exact once.sequenceReport)
  obtain ⟨accepted, processed, ids, _, counted, spent, isOutputs⟩ := once.history
  refine ⟨decoder, outputs, decoded, ?_⟩
  rw [isOutputs, ← datagrams]
  exact SenderLog.payloads_subperm (counted.nodup spent.distinct) counted.known

/-- The data frame arrives and its datagram is output; three seconds later the
group's record has expired, and the repair frame outputs the datagram again. -/
theorem datagram_output_twice :
    ∃ encoder decoder outputs,
      (∀ payload ∈ Encoder.datagrams pairCalls, payload.length ≤ maxDatagram) ∧
      (withIdentity 7 versionV3 1 none).calls ReedSolomon.standard pairCalls =
        some (encoder, [pairFrame 0, pairFrame 1]) ∧ encoder.CountersFit ∧
      run (Decoder.call ReedSolomon.standard) (Decoder.new 7)
        [.frame (pairFrame 0) (Host.at 0), .frame (pairFrame 1) (Host.at 3_000_000_000)] =
          some (decoder, outputs) ∧
      Encoder.datagrams pairCalls = [[1, 2, 3]] ∧ outputs = [[1, 2, 3], [1, 2, 3]] ∧
      ¬ outputs.Subperm (Encoder.datagrams pairCalls) := by
  obtain ⟨encoder, sent, fits⟩ := pair_sent
  have computed : (run (Decoder.call ReedSolomon.standard) (Decoder.new 7)
      [.frame (pairFrame 0) (Host.at 0), .frame (pairFrame 1) (Host.at 3_000_000_000)]).map
        Prod.snd = some [[1, 2, 3], [1, 2, 3]] := by
    decide +kernel
  obtain ⟨⟨decoder, outputs⟩, ran, isOutputs⟩ := Option.map_eq_some_iff.mp computed
  dsimp only at isOutputs
  subst isOutputs
  refine ⟨encoder, decoder, _, pair_small, sent, fits, ran, rfl, rfl, ?_⟩
  intro subperm
  have fewer := subperm.length_le
  exact absurd fewer (by decide)

/-- One second apart the record is still there, and the late data frame is
dropped. -/
theorem at_most_once_within_ttl :
    ∃ encoder decoder outputs,
      (withIdentity 7 versionV3 1 none).calls ReedSolomon.standard pairCalls =
        some (encoder, [pairFrame 0, pairFrame 1]) ∧
      run (Decoder.call ReedSolomon.standard) (Decoder.new 7)
        [.frame (pairFrame 1) (Host.at 0), .frame (pairFrame 0) (Host.at 1_000_000_000)] =
          some (decoder, outputs) ∧
      outputs.Subperm (Encoder.datagrams pairCalls) := by
  obtain ⟨encoder, sent, fits⟩ := pair_sent
  obtain ⟨decoder, outputs, ran, once⟩ := at_most_once ReedSolomon.standard 7 versionV3 1 none
    pairCalls encoder [pairFrame 0, pairFrame 1]
    [.frame (pairFrame 1) (Host.at 0), .frame (pairFrame 0) (Host.at 1_000_000_000)]
    pair_small sent fits
    (by
      intro frame host member
      rcases List.mem_cons.mp member with isFirst | isSecond
      · cases isFirst
        exact List.mem_of_getElem? (show [pairFrame 0, pairFrame 1][1]? = _ from rfl)
      · cases List.mem_singleton.mp isSecond
        exact List.mem_cons_self)
    (by
      intro past frame host state outputs isPrefix ranPast _ opened _
      rcases past with _ | ⟨first, _ | ⟨second, rest⟩⟩
      · obtain ⟨earlier, _, _, _, _, isNil, _⟩ := opened
        exact absurd (List.prefix_nil.mp isNil) (by simp)
      · have both := List.prefix_iff_eq_take.mp isPrefix
        cases both
        have recorded : (run (Decoder.call ReedSolomon.standard) (Decoder.new 7)
            [.frame (pairFrame 1) (Host.at 0)]).all fun result =>
              (pairFrame 0).group ∈ Decoder.freshGroups 1_000_000_000 result.1.groups := by
          decide +kernel
        rw [ranPast] at recorded
        exact of_decide_eq_true recorded
      · have longer := isPrefix.length_le
        simp at longer)
  exact ⟨encoder, decoder, outputs, sent, ran, once⟩

end SmartFecTunnel.Fec
