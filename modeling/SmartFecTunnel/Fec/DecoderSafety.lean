import SmartFecTunnel.Fec.ReassemblyState
import SmartFecTunnel.Fec.SequenceWindow

/-!
Contract: a decoder survives any authenticated peer.

`Decoder.Safe` bounds everything a decoder stores.  `Decoder.Shaped` is the part
of it that also holds between the two expiry passes of one call, while the
number of reassemblies may exceed its limit.

Owns that every call has a result and keeps `Safe`, for frames with arbitrary
fields, arbitrary clock readings and any placement of report calls.
-/

namespace SmartFecTunnel.Fec

open SmartFecTunnel.Library

namespace Decoder

/-- The shape of everything stored. -/
structure Shaped (decoder : Decoder) : Prop where
  groups_size : decoder.groups.size ≤ maxGroups
  group : ∀ id group, decoder.groups.lookup id = some group → group.WellFormed
  packet : ∀ id packet, decoder.packets.lookup id = some packet → packet.WellFormed

/-- What holds after every call. -/
structure Safe (decoder : Decoder) : Prop extends Shaped decoder where
  packets_size : decoder.packets.size ≤ maxReassemblies

theorem safe_new (session : Nat) : (Decoder.new session).Safe where
  groups_size := Nat.zero_le _
  group := by intro id group found; cases found
  packet := by intro id packet found; cases found
  packets_size := Nat.zero_le _

theorem Safe.of_sameStores {decoder next : Decoder} (safe : decoder.Safe)
    (same : SameStores next decoder) : next.Safe where
  groups_size := by rw [same.groups]; exact safe.groups_size
  group := by rw [same.groups]; exact safe.group
  packet := by rw [same.packets]; exact safe.packet
  packets_size := by rw [same.packets]; exact safe.packets_size

/-- Expiry turns a shaped decoder into a safe one. -/
theorem Shaped.prune {decoder : Decoder} (shaped : decoder.Shaped) (host : Host) (now : Nat) :
    ∃ next, decoder.prune host now = some next ∧ next.Safe := by
  obtain ⟨packets, pruned, bounded, kept, _⟩ := prune_spec host now decoder
  refine ⟨_, pruned, ?_, bounded⟩
  refine ⟨(Table.size_retain_le _ _).trans shaped.groups_size, ?_, ?_⟩
  · intro id group found
    exact shaped.group id group (Table.lookup_of_lookup_retain found)
  · intro id packet found
    exact shaped.packet id packet (Table.lookup_of_lookup_retain (kept id packet found))

/-- The group an admissible frame goes to has the shape of a stored group. -/
theorem Shaped.groupFor {decoder : Decoder} (shaped : decoder.Shaped) {frame : Frame}
    (admissible : Admissible frame) (created : Nat) :
    ((decoder.groups.lookup frame.group).getD
      (Group.fresh created frame.data frame.parity)).WellFormed := by
  obtain ⟨dataPos, dataLe, parityLe, _⟩ := admissible
  cases found : decoder.groups.lookup frame.group with
  | none => exact Group.fresh_wellFormed (by omega) dataLe parityLe
  | some group => exact shaped.group frame.group group found

private theorem Shaped.insertGroup {decoder : Decoder} (shaped : decoder.Shaped) {id : Nat}
    {group : Group} (wellFormed : group.WellFormed)
    (room : ¬ (id ∉ decoder.groups ∧ maxGroups ≤ decoder.groups.size)) :
    ({ decoder with groups := decoder.groups.insert id group } : Decoder).Shaped where
  groups_size := by
    have bounded := shaped.groups_size
    by_cases member : id ∈ decoder.groups
    · dsimp only
      rw [Table.size_insert_of_mem group member]
      exact bounded
    · have notFull : decoder.groups.size < maxGroups := by
        by_contra full
        exact room ⟨member, not_lt.mp full⟩
      dsimp only
      rw [Table.size_insert_of_notMem group member]
      omega
  group := by
    intro other stored found
    rcases Table.of_lookup_insert found with ⟨_, rfl⟩ | ⟨_, old⟩
    · exact wellFormed
    · exact shaped.group other stored old
  packet := shaped.packet

theorem Shaped.storeShard {decoder : Decoder} (shaped : decoder.Shaped) (rs : ReedSolomon)
    (host : Host) {frame : Frame} (admissible : Admissible frame) :
    ∃ next result, decoder.storeShard rs host frame = some (next, result) ∧ next.Shaped ∧
      next.packets = decoder.packets := by
  unfold Decoder.storeShard
  by_cases full : frame.group ∉ decoder.groups ∧ maxGroups ≤ decoder.groups.size
  · exact ⟨decoder, .error .tooManyFecGroups, by rw [if_pos full], shaped, rfl⟩
  · rw [if_neg full]
    have wellFormed := shaped.groupFor admissible (host.now 1)
    generalize (decoder.groups.lookup frame.group).getD
      (Group.fresh (host.now 1) frame.data frame.parity) = group at *
    by_cases mismatch : group.data ≠ frame.data ∨ group.parity ≠ frame.parity
    · exact ⟨_, .error .groupMismatch, if_pos mismatch, shaped.insertGroup wellFormed full, rfl⟩
    · obtain ⟨_, _, _, inRange, low, high⟩ := admissible
      push Not at mismatch
      obtain ⟨sameData, sameParity⟩ := mismatch
      obtain ⟨next, result, accepted, nextWellFormed⟩ :=
        Group.accept_wellFormed rs wellFormed
          (show frame.index < group.data + group.parity by rw [sameData, sameParity]; exact inRange)
          (show ShardSize frame.payload from ⟨low, high⟩)
      refine ⟨_, result, ?_, shaped.insertGroup nextWellFormed full, rfl⟩
      simp [sameData, sameParity, accepted]

theorem Shaped.shardFrame {decoder : Decoder} (shaped : decoder.Shaped) (rs : ReedSolomon)
    (host : Host) {frame : Frame} (admissible : Admissible frame) :
    ∃ next result, decoder.shardFrame rs host frame = some (next, result) ∧ next.Safe := by
  obtain ⟨pruned, isPruned, prunedSafe⟩ := shaped.prune host (host.now 0)
  obtain ⟨stored, result, isStored, storedShaped, samePackets⟩ :=
    prunedSafe.toShaped.storeShard rs host admissible
  unfold Decoder.shardFrame
  rw [isPruned]
  cases result with
  | error error =>
      refine ⟨stored, .error error, by simp [isStored], storedShaped, ?_⟩
      rw [samePackets]
      exact prunedSafe.packets_size
  | ok released =>
      obtain ⟨packets, output, assembled, packetsShaped⟩ :=
        fragments_wellFormed host 2 stored released storedShaped.packet
      have assembledShaped : ({ stored with packets } : Decoder).Shaped :=
        ⟨storedShaped.groups_size, storedShaped.group, packetsShaped⟩
      obtain ⟨last, isLast, lastSafe⟩ :=
        assembledShaped.prune host (host.now (2 + released.length))
      exact ⟨last, .ok output, by simp [isStored, assembled, isLast], lastSafe⟩

/-- One frame with arbitrary fields: the call has a result and stays safe. -/
theorem Safe.frame {decoder : Decoder} (safe : decoder.Safe) (rs : ReedSolomon) (host : Host)
    (frame : Frame) :
    ∃ next result, decoder.frame rs host frame = some (next, result) ∧ next.Safe := by
  unfold Decoder.frame
  by_cases session : decoder.session ≠ frame.session
  · exact ⟨decoder, .error .sessionMismatch, by rw [if_pos session], safe⟩
  · rw [if_neg session]
    have observedSafe := safe.of_sameStores (observeSeq_sameStores decoder frame.sequence)
    generalize decoder.observeSeq frame.sequence = observed at *
    obtain ⟨observed, accepted⟩ := observed
    dsimp only at *
    split
    · exact ⟨observed, .ok [], rfl, observedSafe⟩
    · split
      · exact ⟨observed, .ok [], rfl, observedSafe⟩
      · split
        · exact ⟨observed, .ok [], rfl, observedSafe⟩
        · split
          · exact ⟨observed, .error .invalidFecFrame, rfl, observedSafe⟩
          next admissible =>
            exact observedSafe.toShaped.shardFrame rs host (not_not.mp admissible)

theorem Safe.call {decoder : Decoder} (safe : decoder.Safe) (rs : ReedSolomon) (call : Call) :
    ∃ next output, decoder.call rs call = some (next, output) ∧ next.Safe := by
  cases call with
  | frame frame host =>
      obtain ⟨next, result, called, nextSafe⟩ := safe.frame rs host frame
      exact ⟨next, result.toOption.getD [], by simp [Decoder.call, called], nextSafe⟩
  | sequenceReport =>
      rcases sequenceReport_cases decoder with ⟨_, equal⟩ | ⟨_, equal⟩
      · exact ⟨decoder, [], by simp [Decoder.call, equal], safe⟩
      · exact ⟨_, [], by simp [Decoder.call, equal],
          safe.of_sameStores (sequenceReport_sameStores equal)⟩

/-! ### The window of a decoder -/

theorem place_sameWindow {decoder next : Decoder} {now : Nat} {header : FragmentHeader} {body : Bytes}
    {output : List Bytes} (placed : decoder.place now header body = some (next, output)) :
    SameWindow next decoder := by
  unfold place at placed
  dsimp only at placed
  split at placed
  next =>
    cases placed
    exact ⟨rfl, rfl, rfl, rfl⟩
  next =>
    split at placed
    next =>
      split at placed
      next =>
        cases placed
        exact ⟨rfl, rfl, rfl, rfl⟩
      next =>
        cases placed
        exact ⟨rfl, rfl, rfl, rfl⟩
    next => cases placed

theorem fragment_sameWindow {decoder next : Decoder} {now : Nat} {shard : Bytes} {output : List Bytes}
    (stepped : decoder.fragment now shard = some (next, output)) :
    SameWindow next decoder := by
  unfold fragment at stepped
  split at stepped
  next =>
    cases stepped
    exact ⟨rfl, rfl, rfl, rfl⟩
  next =>
    obtain ⟨header, _, isRest⟩ := Option.bind_eq_some_iff.mp stepped
    split at isRest
    next =>
      obtain ⟨body, _, placed⟩ := Option.bind_eq_some_iff.mp isRest
      exact place_sameWindow placed
    next =>
      cases isRest
      exact ⟨rfl, rfl, rfl, rfl⟩

theorem fragments_sameWindow {host : Host} {reading : Nat} {decoder next : Decoder}
    {shards output : List Bytes}
    (stepped : fragments host reading decoder shards = some (next, output)) :
    SameWindow next decoder := by
  induction shards generalizing reading decoder output with
  | nil =>
      cases stepped
      exact ⟨rfl, rfl, rfl, rfl⟩
  | cons shard rest inductionHypothesis =>
      obtain ⟨⟨middle, first⟩, isFirst, isRest⟩ := Option.bind_eq_some_iff.mp stepped
      obtain ⟨⟨last, more⟩, isLast, isOutput⟩ := Option.bind_eq_some_iff.mp isRest
      cases isOutput
      exact (inductionHypothesis isLast).trans (fragment_sameWindow isFirst)

theorem prune_sameWindow {host : Host} {now : Nat} {decoder next : Decoder}
    (pruned : decoder.prune host now = some next) : SameWindow next decoder := by
  unfold prune at pruned
  dsimp only at pruned
  split at pruned
  next =>
    obtain ⟨oldest, _, isNext⟩ := Option.bind_eq_some_iff.mp pruned
    cases isNext
    exact ⟨rfl, rfl, rfl, rfl⟩
  next =>
    cases pruned
    exact ⟨rfl, rfl, rfl, rfl⟩

theorem storeShard_sameWindow {rs : ReedSolomon} {host : Host} {decoder next : Decoder} {frame : Frame}
    {result : Except FrameError (List Bytes)}
    (stored : decoder.storeShard rs host frame = some (next, result)) :
    SameWindow next decoder := by
  unfold storeShard at stored
  dsimp only at stored
  split at stored
  next =>
    cases stored
    exact ⟨rfl, rfl, rfl, rfl⟩
  next =>
    split at stored
    next =>
      cases stored
      exact ⟨rfl, rfl, rfl, rfl⟩
    next =>
      obtain ⟨accepted, _, isNext⟩ := Option.bind_eq_some_iff.mp stored
      cases isNext
      exact ⟨rfl, rfl, rfl, rfl⟩

theorem shardFrame_sameWindow {rs : ReedSolomon} {host : Host} {decoder next : Decoder} {frame : Frame}
    {result : Except FrameError (List Bytes)}
    (stepped : decoder.shardFrame rs host frame = some (next, result)) :
    SameWindow next decoder := by
  obtain ⟨pruned, isPruned, isRest⟩ := Option.bind_eq_some_iff.mp stepped
  obtain ⟨⟨stored, outcome⟩, isStored, isLast⟩ := Option.bind_eq_some_iff.mp isRest
  have early := (storeShard_sameWindow isStored).trans (prune_sameWindow isPruned)
  cases outcome with
  | error error =>
      cases isLast
      exact early
  | ok released =>
      obtain ⟨⟨assembled, output⟩, isAssembled, isFinal⟩ := Option.bind_eq_some_iff.mp isLast
      obtain ⟨final, isPruned, isNext⟩ := Option.bind_eq_some_iff.mp isFinal
      cases isNext
      exact (prune_sameWindow isPruned).trans ((fragments_sameWindow isAssembled).trans early)

/-- A frame of the decoder's session leaves the window as `observe_seq` does. -/
theorem frame_sameWindow {rs : ReedSolomon} {host : Host} {decoder next : Decoder} {frame : Frame}
    {result : Except FrameError (List Bytes)}
    (stepped : decoder.frame rs host frame = some (next, result))
    (session : decoder.session = frame.session) :
    SameWindow next (decoder.observeSeq frame.sequence).1 := by
  unfold Decoder.frame at stepped
  rw [if_neg (not_not.mpr session)] at stepped
  dsimp only at stepped
  split at stepped
  next =>
    cases stepped
    exact SameWindow.refl _
  next =>
    split at stepped
    next =>
      cases stepped
      exact SameWindow.refl _
    next =>
      split at stepped
      next =>
        cases stepped
        exact SameWindow.refl _
      next =>
        split at stepped
        next =>
          cases stepped
          exact SameWindow.refl _
        next => exact shardFrame_sameWindow stepped

/-- A frame whose sequence number is not accepted outputs nothing. -/
theorem frame_refused {rs : ReedSolomon} {host : Host} {decoder next : Decoder} {frame : Frame}
    {result : Except FrameError (List Bytes)}
    (stepped : decoder.frame rs host frame = some (next, result))
    (session : decoder.session = frame.session)
    (refused : (decoder.observeSeq frame.sequence).2 = false) : result = .ok [] := by
  unfold Decoder.frame at stepped
  rw [if_neg (not_not.mpr session)] at stepped
  dsimp only at stepped
  rw [if_pos refused] at stepped
  cases stepped
  rfl

/-- No frame changes the session of a decoder. -/
theorem frame_session {rs : ReedSolomon} {host : Host} {decoder next : Decoder} {frame : Frame}
    {result : Except FrameError (List Bytes)}
    (stepped : decoder.frame rs host frame = some (next, result)) :
    next.session = decoder.session := by
  by_cases session : decoder.session = frame.session
  · exact (frame_sameWindow stepped session).session.trans
      (observeSeq_sameStores decoder frame.sequence).session
  · unfold Decoder.frame at stepped
    rw [if_pos session] at stepped
    cases stepped
    rfl

/-- Decoder safety: whatever frames arrive, at whatever times and with whatever
reports in between, no call panics and everything stored stays within bounds. -/
theorem decoder_safe (rs : ReedSolomon) (session : Nat) (calls : List Call) :
    ∃ decoder outputs,
      run (Decoder.call rs) (Decoder.new session) calls = some (decoder, outputs) ∧
      decoder.groups.size ≤ maxGroups ∧
      (∀ id group, decoder.groups.lookup id = some group →
        1 ≤ group.data ∧ group.data ≤ 32 ∧ group.parity ≤ 16 ∧
        group.shards.length = group.data + group.parity ∧
        group.delivered.length = group.data ∧
        (∀ shard, some shard ∈ group.shards → 14 ≤ shard.length ∧ shard.length ≤ 1340) ∧
        ∀ index : Nat, group.delivered[index]? = some true →
          ∃ shard, group.shards[index]? = some (some shard)) ∧
      decoder.packets.size ≤ maxReassemblies ∧
      ∀ id packet, decoder.packets.lookup id = some packet →
        1 ≤ packet.parts.length ∧ packet.parts.length ≤ 64 ∧
        (∀ part, some part ∈ packet.parts → part.length ≤ 1326) ∧
        none ∈ packet.parts ∧ ∃ part, some part ∈ packet.parts := by
  obtain ⟨decoder, outputs, ran, safe⟩ :=
    run_induction (Decoder.call rs) (Decoder.new session) calls (fun _ _ decoder => decoder.Safe)
      (safe_new session) (by
        intro past call outputs decoder _ _ safe
        exact safe.call rs call)
  refine ⟨decoder, outputs, ran, safe.groups_size, ?_, safe.packets_size, ?_⟩
  · intro id group found
    have wellFormed := safe.group id group found
    refine ⟨wellFormed.data_pos, wellFormed.data_le, wellFormed.parity_le,
      wellFormed.shards_length, wellFormed.delivered_length, wellFormed.shard_size, ?_⟩
    intro index delivered
    have below : index < group.data := by
      rw [← wellFormed.delivered_length]
      exact (List.getElem?_eq_some_iff.mp delivered).1
    exact (wellFormed.delivered_iff index below).mp delivered
  · intro id packet found
    have wellFormed := safe.packet id packet found
    exact ⟨wellFormed.parts_pos, wellFormed.parts_le, wellFormed.part_size,
      wellFormed.some_missing, wellFormed.some_present⟩

end Decoder

end SmartFecTunnel.Fec
