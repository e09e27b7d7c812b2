import SmartFecTunnel.Fec.DecoderSafety

/-!
Contract: what a failing frame changes (`Decoder::frame` in `src/main.rs`).

`frame` stores a shard and marks it delivered before it reconstructs the group.  When the
reconstruction fails the call ends at once, and the shard is never passed to `fragment`.

Owns:
- what is the same apart from expired entries;
- when storing a shard makes the recovery of its group due;
- when a failing frame loses nothing: exactly when its shard does not make a recovery due
  that fails.

Does not own: what a receiver does after an error.
-/

namespace SmartFecTunnel.Fec

open SmartFecTunnel.Library

/-! ### Entries that stay -/

/-- Apart from expired entries that are gone, the tables are the same. -/
def OnlyExpired {α : Type} (created : α → Nat) (ttl now : Nat) (table next : Table Nat α) : Prop :=
  ∀ id, next.lookup id = table.lookup id ∨
    next.lookup id = none ∧ ∃ entry, table.lookup id = some entry ∧ ttl ≤ now - created entry

section OnlyExpired

variable {α : Type} {created : α → Nat} {ttl now : Nat} {table next : Table Nat α}

theorem OnlyExpired.refl (table : Table Nat α) : OnlyExpired created ttl now table table :=
  fun _ => Or.inl rfl

theorem onlyExpired_retain (table : Table Nat α) :
    OnlyExpired created ttl now table
      (table.retain fun _ entry => now - created entry < ttl) := by
  intro id
  rw [Table.lookup_retain]
  cases found : table.lookup id with
  | none => exact Or.inl rfl
  | some entry =>
      by_cases young : now - created entry < ttl
      · exact Or.inl (by simp [young])
      · have gone : (some entry).filter (fun entry => now - created entry < ttl) = none := by
          simpa using not_lt.mp young
        exact Or.inr ⟨gone, entry, rfl, not_lt.mp young⟩

/-- Writing back what is there changes nothing. -/
theorem OnlyExpired.insert_same (only : OnlyExpired created ttl now table next) {key : Nat}
    {entry : α} (found : next.lookup key = some entry) :
    OnlyExpired created ttl now table (next.insert key entry) := by
  intro id
  have same : (next.insert key entry).lookup id = next.lookup id := by
    rw [Table.lookup_insert_eq]
    split
    next isKey => rw [isKey, found]
    next => rfl
  rw [same]
  exact only id

end OnlyExpired

/-! ### One group -/

namespace Group

/-- Recovery is due once this slot is filled as well. -/
def DueWith (group : Group) (position : Nat) : Prop :=
  0 < group.parity ∧ group.data ≤ present group.shards + 1 ∧
    ∃ index, index ≠ position ∧ group.delivered[index]? = some false

/-- The shards have this length. -/
def HasLength (group : Group) (length : Nat) : Prop :=
  ∀ shard, some shard ∈ group.shards → shard.length = length

variable {group next : Group} {position : Nat} {payload : Bytes}

theorem present_filled (empty : group.shards[position]? = some none) :
    present (group.filled position payload).shards = present group.shards + 1 := by
  obtain ⟨within, isEmpty⟩ := List.getElem?_eq_some_iff.mp empty
  unfold filled present
  rw [List.countP_set within]
  simp [isEmpty]

theorem false_mem_filled_iff (wellFormed : group.WellFormed) :
    false ∈ (group.filled position payload).delivered ↔
      ∃ index, index ≠ position ∧ group.delivered[index]? = some false := by
  rw [List.mem_iff_getElem?]
  have slot : ∀ index, (group.filled position payload).delivered[index]? = some false ↔
      index ≠ position ∧ group.delivered[index]? = some false := by
    intro index
    unfold filled
    by_cases source : position < group.data
    · by_cases same : index = position
      · simp [source, same, List.getElem?_set]
      · simp [source, same, List.getElem?_set_ne (Ne.symm same)]
    · simp only [source, if_false]
      constructor
      · intro isOpen
        have below := (List.getElem?_eq_some_iff.mp isOpen).1
        rw [wellFormed.delivered_length] at below
        exact ⟨by omega, isOpen⟩
      · exact fun both => both.2
  simp only [slot]

theorem needsRecovery_filled_iff (wellFormed : group.WellFormed)
    (empty : group.shards[position]? = some none) :
    (group.filled position payload).NeedsRecovery ↔ group.DueWith position := by
  unfold NeedsRecovery DueWith
  rw [present_filled empty, false_mem_filled_iff wellFormed]
  rfl

/-- With shards of one length recovery succeeds, with others it fails. -/
theorem recover_isOk_iff (rs : ReedSolomon) (wellFormed : group.WellFormed)
    (needs : group.NeedsRecovery) {shard : Bytes} (member : some shard ∈ group.shards) :
    (group.recover rs = some (group, .error .reedSolomon) ∧ ¬ group.HasLength shard.length) ∨
      ∃ next recovered, group.recover rs = some (next, .ok recovered) ∧
        group.HasLength shard.length := by
  obtain ⟨redundant, enough, _⟩ := needs
  obtain ⟨codec, isCodec, lawful⟩ := codec_of_needsRecovery rs wellFormed redundant
  by_cases equal : group.HasLength shard.length
  · right
    have positive : 0 < shard.length := by
      have size := (wellFormed.shard_size shard member).1
      unfold fragmentHeader at size
      omega
    obtain ⟨full, reconstructed, length, _, _⟩ :=
      lawful.reconstruct_fills group.shards shard.length wellFormed.shards_length enough positive
        equal
    exact ⟨_, _, recover_ok wellFormed isCodec length reconstructed, equal⟩
  · left
    refine ⟨?_, equal⟩
    unfold HasLength at equal
    push Not at equal
    obtain ⟨other, inShards, different⟩ := equal
    have failed := lawful.reconstruct_unequal group.shards other shard inShards member different
    unfold recover
    simp [isCodec, failed]

theorem hasLength_filled_iff (empty : group.shards[position]? = some none) :
    (group.filled position payload).HasLength payload.length ↔ group.HasLength payload.length := by
  unfold HasLength filled
  constructor
  · intro equal shard member
    obtain ⟨index, held⟩ := List.mem_iff_getElem?.mp member
    apply equal shard
    apply List.mem_of_getElem?
    rw [List.getElem?_set_ne _, held]
    rintro rfl
    rw [empty] at held
    cases held
  · intro equal shard member
    obtain old | new := List.mem_or_eq_of_mem_set member
    · exact equal shard old
    · cases new
      rfl

/-- A shard for an empty slot: the call fails when recovery is due and the lengths differ. -/
theorem accept_empty (rs : ReedSolomon) (wellFormed : group.WellFormed)
    (inRange : position < group.data + group.parity) (size : ShardSize payload)
    (empty : group.shards[position]? = some none) :
    (group.accept rs position payload =
        some (group.filled position payload, .error .reedSolomon) ∧
        group.DueWith position ∧ ¬ group.HasLength payload.length) ∨
      (∃ next released, group.accept rs position payload = some (next, .ok released)) ∧
        (group.DueWith position → group.HasLength payload.length) := by
  have within := (List.getElem?_eq_some_iff.mp empty).1
  have member : some payload ∈ (group.filled position payload).shards :=
    List.mem_set within (some payload)
  have due_iff := @needsRecovery_filled_iff group position payload wellFormed empty
  unfold accept
  rw [store_empty wellFormed empty payload]
  simp only [Option.bind_eq_bind, Option.bind_some]
  by_cases needs : (group.filled position payload).NeedsRecovery
  · rw [if_pos needs]
    obtain ⟨failed, unequal⟩ | ⟨next, recovered, ok, equal⟩ := recover_isOk_iff rs
      (filled_wellFormed wellFormed inRange size) needs member
    · left
      rw [hasLength_filled_iff empty] at unequal
      exact ⟨by simp [failed, Except.map], due_iff.mp needs, unequal⟩
    · right
      rw [hasLength_filled_iff empty] at equal
      exact ⟨⟨next, _, by simp [ok, Except.map]; rfl⟩, fun _ => equal⟩
  · right
    rw [if_neg needs]
    exact ⟨⟨_, _, rfl⟩, fun isDue => absurd (due_iff.mpr isDue) needs⟩

/-- A shard for a taken slot changes nothing when the call fails. -/
theorem accept_taken {rs : ReedSolomon} (wellFormed : group.WellFormed) {held : Bytes}
    (taken : group.shards[position]? = some (some held)) {error : FrameError}
    (accepted : group.accept rs position payload = some (next, .error error)) : next = group := by
  unfold accept at accepted
  rw [store_taken wellFormed taken payload] at accepted
  simp only [Option.bind_eq_bind, Option.bind_some] at accepted
  by_cases needs : group.NeedsRecovery
  · obtain failed | ⟨full, recovered, _⟩ := recover_cases rs wellFormed needs
    · simp [needs, failed, Except.map] at accepted
      exact accepted.1.symm
    · simp [needs, recovered, Except.map] at accepted
  · simp [needs] at accepted

end Group

/-! ### Frames -/

namespace Decoder

/-- The stores are the same, apart from expired entries that are gone. -/
structure LosesNothing (host : Host) (decoder after : Decoder) : Prop where
  groups : OnlyExpired Group.created groupTtl (host.now 0) decoder.groups after.groups
  packets : OnlyExpired Reassembly.created reassemblyTtl (host.now 0) decoder.packets after.packets

/-- The frame's slot in this group is empty, its shard makes a recovery due, and the shards
that are there have other lengths. -/
structure Disturbs (frame : Frame) (group : Group) : Prop where
  data : group.data = frame.data
  parity : group.parity = frame.parity
  empty : group.shards[frame.index]? = some none
  due : group.DueWith frame.index
  unequal : ¬ group.HasLength frame.payload.length

/-- The frame gets past the checks in front of the groups. -/
structure TakenIn (decoder : Decoder) (frame : Frame) : Prop where
  session : decoder.session = frame.session
  fresh : (decoder.observeSeq frame.sequence).2 = true
  isShard : frame.IsShard
  admissible : Admissible frame

/-- The frame is taken in, and disturbs a group that has not expired. -/
structure Spoils (host : Host) (decoder : Decoder) (frame : Frame) : Prop
    extends TakenIn decoder frame where
  disturbs : ∃ group, decoder.groups.lookup frame.group = some group ∧
    host.now 0 - group.created < groupTtl ∧ Disturbs frame group

section Frames

variable {rs : ReedSolomon} {host : Host} {decoder next : Decoder} {frame : Frame}
  {error : FrameError}

/-- The call passes the frame on to the groups, or ends before and leaves the stores. -/
theorem frame_cases (rs : ReedSolomon) (host : Host) (decoder : Decoder) (frame : Frame) :
    (TakenIn decoder frame ∧ decoder.frame rs host frame =
        (decoder.observeSeq frame.sequence).1.shardFrame rs host frame) ∨
      ¬ TakenIn decoder frame ∧ ∃ after result,
        decoder.frame rs host frame = some (after, result) ∧ SameStores after decoder := by
  have same := observeSeq_sameStores decoder frame.sequence
  unfold Decoder.frame
  by_cases session : decoder.session = frame.session
  · rw [if_neg (not_not.mpr session)]
    by_cases refused : (decoder.observeSeq frame.sequence).2 = false
    · refine Or.inr ⟨fun taken => ?_, _, _, if_pos refused, same⟩
      rw [taken.fresh] at refused
      cases refused
    · dsimp only
      rw [if_neg refused]
      by_cases report : frame.kind = kindReport
      · refine Or.inr ⟨fun taken => ?_, _, _, if_pos report, same⟩
        have isShard := taken.isShard
        rw [Frame.IsShard, report] at isShard
        exact absurd isShard (by decide)
      · rw [if_neg report]
        by_cases isShard : frame.IsShard
        · rw [if_neg (not_not.mpr isShard)]
          by_cases admissible : Admissible frame
          · rw [if_neg (not_not.mpr admissible)]
            exact Or.inl ⟨⟨session, by simpa using refused, isShard, admissible⟩, rfl⟩
          · exact Or.inr ⟨fun taken => admissible taken.admissible, _, _, if_pos admissible, same⟩
        · exact Or.inr ⟨fun taken => isShard taken.isShard, _, _, if_pos isShard, same⟩
  · exact Or.inr ⟨fun taken => session taken.session, _, _, if_pos session,
      ⟨rfl, rfl, rfl⟩⟩

/-- The first expiry pass of a call evicts nothing. -/
theorem Safe.prune_eq (safe : decoder.Safe) (host : Host) (now : Nat) :
    decoder.prune host now = some { decoder with
      groups := freshGroups now decoder.groups, packets := freshPackets now decoder.packets } := by
  obtain ⟨packets, pruned, _, _, few⟩ := prune_spec host now decoder
  have same := few ((Table.size_retain_le _ _).trans safe.packets_size)
  rw [pruned, same]

/-- A frame that disturbs its group is stored there, and the call fails. -/
theorem Shaped.storeShard_disturbed (shaped : decoder.Shaped) (rs : ReedSolomon) (host : Host)
    (admissible : Admissible frame) {group : Group}
    (found : decoder.groups.lookup frame.group = some group) (disturbs : Disturbs frame group) :
    ∃ after, decoder.storeShard rs host frame = some (after, .error .reedSolomon) ∧
      after.groups =
        decoder.groups.insert frame.group (group.filled frame.index frame.payload) := by
  obtain ⟨_, _, _, inRange, low, high⟩ := admissible
  have wellFormed := shaped.group frame.group group found
  have member : frame.group ∈ decoder.groups := Table.mem_iff_exists_lookup.mpr ⟨group, found⟩
  obtain ⟨accepted, _, _⟩ | ⟨_, equal⟩ := Group.accept_empty rs wellFormed
    (show frame.index < group.data + group.parity by rw [disturbs.data, disturbs.parity]; exact inRange)
    (show ShardSize frame.payload from ⟨low, high⟩) disturbs.empty
  · unfold Decoder.storeShard
    exact ⟨_, by simp [member, found, disturbs.data, disturbs.parity, accepted]; rfl, rfl⟩
  · exact absurd (equal disturbs.due) disturbs.unequal

/-- Otherwise a call that fails leaves all groups as they were. -/
theorem Shaped.storeShard_spared (shaped : decoder.Shaped) (admissible : Admissible frame)
    (spared : ∀ group, decoder.groups.lookup frame.group = some group → ¬ Disturbs frame group)
    (stored : decoder.storeShard rs host frame = some (next, .error error)) :
    next.packets = decoder.packets ∧
      (next.groups = decoder.groups ∨ ∃ group, decoder.groups.lookup frame.group = some group ∧
        next.groups = decoder.groups.insert frame.group group) := by
  unfold Decoder.storeShard at stored
  by_cases full : frame.group ∉ decoder.groups ∧ maxGroups ≤ decoder.groups.size
  · rw [if_pos full] at stored
    cases stored
    exact ⟨rfl, Or.inl rfl⟩
  · rw [if_neg full] at stored
    obtain ⟨dataPos, dataLe, parityLe, inRange, low, high⟩ := admissible
    have size : ShardSize frame.payload := ⟨low, high⟩
    cases found : decoder.groups.lookup frame.group with
    | none =>
        -- A new group has no other shards, so nothing can fail.
        have empty : (Group.fresh (host.now 1) frame.data frame.parity).shards[frame.index]? =
            some none := by
          simp [Group.fresh, inRange]
        have noShards : (Group.fresh (host.now 1) frame.data frame.parity).HasLength
            frame.payload.length := by
          intro shard member
          simp [Group.fresh, List.mem_replicate] at member
        obtain ⟨_, _, unequal⟩ | ⟨⟨group, released, accepted⟩, _⟩ := Group.accept_empty rs
          (Group.fresh_wellFormed (by omega) dataLe parityLe) inRange size empty
        · exact absurd noShards unequal
        · rw [found, Option.getD_none, if_neg (by simp [Group.fresh]), accepted] at stored
          cases stored
    | some group =>
        have wellFormed := shaped.group frame.group group found
        rw [found, Option.getD_some] at stored
        by_cases mismatch : group.data ≠ frame.data ∨ group.parity ≠ frame.parity
        · rw [if_pos mismatch] at stored
          cases stored
          exact ⟨rfl, Or.inr ⟨group, rfl, rfl⟩⟩
        · rw [if_neg mismatch] at stored
          push Not at mismatch
          obtain ⟨⟨accepted, outcome⟩, isAccepted, isNext⟩ := Option.bind_eq_some_iff.mp stored
          cases isNext
          have inGroup : frame.index < group.shards.length := by
            rw [wellFormed.shards_length, mismatch.1, mismatch.2]
            exact inRange
          have same : accepted = group := by
            cases slot : group.shards[frame.index] with
            | some held =>
                exact Group.accept_taken wellFormed
                  (by rw [List.getElem?_eq_getElem inGroup, slot]) isAccepted
            | none =>
                have empty : group.shards[frame.index]? = some none := by
                  rw [List.getElem?_eq_getElem inGroup, slot]
                rw [wellFormed.shards_length] at inGroup
                obtain ⟨_, due, unequal⟩ | ⟨⟨_, _, ok⟩, _⟩ :=
                  Group.accept_empty rs wellFormed inGroup size empty
                · exact absurd ⟨mismatch.1, mismatch.2, empty, due, unequal⟩ (spared group found)
                · rw [ok] at isAccepted
                  cases isAccepted
          exact ⟨rfl, Or.inr ⟨group, rfl, by rw [same]⟩⟩

theorem lookup_freshGroups_iff {now id : Nat} {groups : Table Nat Group} {group : Group} :
    (freshGroups now groups).lookup id = some group ↔
      groups.lookup id = some group ∧ now - group.created < groupTtl := by
  rw [freshGroups, Table.lookup_retain, Option.filter_eq_some_iff, decide_eq_true_eq]

/-- Expiry keeps the shape. -/
theorem Safe.pruned (safe : decoder.Safe) (now : Nat) :
    Decoder.Shaped { decoder with
      groups := freshGroups now decoder.groups, packets := freshPackets now decoder.packets } where
  groups_size := (Table.size_retain_le _ _).trans safe.groups_size
  group := fun id group found => safe.group id group (Table.lookup_of_lookup_retain found)
  packet := fun id packet found => safe.packet id packet (Table.lookup_of_lookup_retain found)

/-- What a call on an admissible shard loses when it fails. -/
theorem Safe.shardFrame_spared (safe : decoder.Safe) (admissible : Admissible frame)
    (spared : ∀ group, decoder.groups.lookup frame.group = some group →
      host.now 0 - group.created < groupTtl → ¬ Disturbs frame group)
    (stepped : decoder.shardFrame rs host frame = some (next, .error error)) :
    LosesNothing host decoder next := by
  unfold Decoder.shardFrame at stepped
  rw [safe.prune_eq host (host.now 0), Option.bind_eq_bind, Option.bind_some] at stepped
  obtain ⟨⟨stored, outcome⟩, isStored, isNext⟩ := Option.bind_eq_some_iff.mp stepped
  cases outcome with
  | ok released =>
      obtain ⟨⟨assembled, output⟩, _, isFinal⟩ := Option.bind_eq_some_iff.mp isNext
      obtain ⟨final, _, isLast⟩ := Option.bind_eq_some_iff.mp isFinal
      cases isLast
  | error reason =>
      cases isNext
      obtain ⟨packets, groups⟩ := (safe.pruned (host.now 0)).storeShard_spared admissible
        (fun group found => by
          obtain ⟨isStored, young⟩ := lookup_freshGroups_iff.mp found
          exact spared group isStored young) isStored
      constructor
      · obtain same | ⟨group, found, same⟩ := groups
        · rw [same]
          exact onlyExpired_retain decoder.groups
        · rw [same]
          exact (onlyExpired_retain decoder.groups).insert_same found
      · rw [packets]
        exact onlyExpired_retain decoder.packets

/-- A frame that spoils a group is stored in it although the call fails. -/
theorem Safe.frame_spoiled (safe : decoder.Safe) (rs : ReedSolomon)
    (spoils : Spoils host decoder frame) :
    ∃ after group, decoder.frame rs host frame = some (after, .error .reedSolomon) ∧
      decoder.groups.lookup frame.group = some group ∧
      group.shards[frame.index]? = some none ∧
      after.groups.lookup frame.group = some (group.filled frame.index frame.payload) := by
  obtain ⟨group, found, young, disturbs⟩ := spoils.disturbs
  have same := observeSeq_sameStores decoder frame.sequence
  have observedSafe := safe.of_sameStores same
  obtain ⟨_, isFrame⟩ | ⟨notTaken, _⟩ := frame_cases rs host decoder frame
  · have kept : (freshGroups (host.now 0) (decoder.observeSeq frame.sequence).1.groups).lookup
        frame.group = some group := by
      rw [lookup_freshGroups_iff, same.groups]
      exact ⟨found, young⟩
    obtain ⟨after, stored, groups⟩ := (observedSafe.pruned (host.now 0)).storeShard_disturbed rs
      host spoils.admissible kept disturbs
    refine ⟨after, group, ?_, found, disturbs.empty, ?_⟩
    · rw [isFrame]
      unfold Decoder.shardFrame
      rw [observedSafe.prune_eq host (host.now 0), Option.bind_eq_bind, Option.bind_some, stored]
      rfl
    · rw [groups, Table.lookup_insert_eq, if_pos rfl]
  · exact absurd spoils.toTakenIn notTaken

end Frames

/-- In every state that a decoder can be in: a failing frame loses nothing exactly when it is
not a shard for an empty slot of a group that makes a recovery due and differs in length from
the shards of the group. -/
theorem failed_frame_iff {rs : ReedSolomon} {session : Nat} {calls : List Call}
    {decoder : Decoder} {outputs : List Bytes}
    (ran : run (Decoder.call rs) (Decoder.new session) calls = some (decoder, outputs))
    (host : Host) (frame : Frame) :
    (∀ after error, decoder.frame rs host frame = some (after, .error error) →
      LosesNothing host decoder after) ↔ ¬ Spoils host decoder frame := by
  have safe : decoder.Safe := by
    apply run_invariant ran (fun _ _ decoder => decoder.Safe) (safe_new session)
    intro past call outputs decoder next emitted _ _ stepped safe
    obtain ⟨_, _, called, nextSafe⟩ := safe.call rs call
    rw [stepped] at called
    cases called
    exact nextSafe
  constructor
  · intro loses spoils
    obtain ⟨after, group, failed, found, empty, stored⟩ := safe.frame_spoiled rs spoils
    obtain same | ⟨gone, _⟩ := (loses after _ failed).groups frame.group
    · rw [stored, found] at same
      have within := (List.getElem?_eq_some_iff.mp empty).1
      have filled : (group.filled frame.index frame.payload).shards[frame.index]? =
          some (some frame.payload) := by
        simp [Group.filled, within]
      rw [Option.some.inj same, empty] at filled
      cases filled
    · rw [stored] at gone
      cases gone
  · intro spared after error failed
    have same := observeSeq_sameStores decoder frame.sequence
    obtain ⟨taken, isFrame⟩ | ⟨_, other, _, isFrame, unchanged⟩ :=
      frame_cases rs host decoder frame
    · rw [isFrame] at failed
      have loses := (safe.of_sameStores same).shardFrame_spared taken.admissible
        (fun group found young disturbs => by
          rw [same.groups] at found
          exact spared ⟨taken, group, found, young, disturbs⟩) failed
      exact ⟨same.groups ▸ loses.groups, same.packets ▸ loses.packets⟩
    · rw [isFrame] at failed
      cases failed
      constructor
      · rw [unchanged.groups]
        exact OnlyExpired.refl _
      · rw [unchanged.packets]
        exact OnlyExpired.refl _

/-! ### Shards of different lengths -/

/-- A repair shard of 20 bytes. -/
def longRepair : Frame where
  version := versionV3
  keyId := 1
  kind := kindParity
  session := 7
  sequence := 1
  group := 1
  index := 2
  data := 2
  parity := 1
  payload := List.replicate 20 0

/-- A source shard of 15 bytes in the same group, which is a datagram of one byte. -/
def shortSource : Frame :=
  { longRepair with
    kind := kindData, sequence := 2, index := 0, payload := Encoder.fragmentShard 1 0 1 [9] }

/-- The repair shard and then a second frame: what the first puts out, the group before the
second, the group after it, and its result. -/
def secondFrame (rs : ReedSolomon) (frame : Frame) :
    Option (List Bytes × Option Group × Option Group × Except FrameError (List Bytes)) :=
  (run (Decoder.call rs) (Decoder.new 7) [.frame longRepair (Host.at 0)]).bind fun held =>
    (held.1.frame rs (Host.at 1) frame).map fun result =>
      (held.2, held.1.groups.lookup 1, result.1.groups.lookup 1, result.2)

theorem exists_of_secondFrame {rs : ReedSolomon} {frame : Frame} {outputs : List Bytes}
    {before after : Option Group} {result : Except FrameError (List Bytes)}
    (computed : secondFrame rs frame = some (outputs, before, after, result)) :
    ∃ held next,
      run (Decoder.call rs) (Decoder.new 7) [.frame longRepair (Host.at 0)] =
        some (held, outputs) ∧
      held.frame rs (Host.at 1) frame = some (next, result) ∧
      held.groups.lookup 1 = before ∧ next.groups.lookup 1 = after := by
  obtain ⟨⟨held, heldOutputs⟩, isHeld, isRest⟩ := Option.bind_eq_some_iff.mp computed
  obtain ⟨⟨next, isResult⟩, isFrame, same⟩ := Option.map_eq_some_iff.mp isRest
  cases same
  exact ⟨held, next, isHeld, isFrame, rfl, rfl⟩

/-- The group with the repair shard. -/
def repairGroup : Group :=
  ⟨0, 2, 1, [none, none, some longRepair.payload], [false, false]⟩

/-- A frame with other dimensions fails and loses nothing. -/
theorem mismatch_loses_nothing :
    ∃ held next,
      run (Decoder.call ReedSolomon.standard) (Decoder.new 7) [.frame longRepair (Host.at 0)] =
        some (held, []) ∧
      held.frame ReedSolomon.standard (Host.at 1) { shortSource with data := 3 } =
        some (next, .error .groupMismatch) ∧ LosesNothing (Host.at 1) held next := by
  have computed : secondFrame ReedSolomon.standard { shortSource with data := 3 } =
      some ([], some repairGroup, some repairGroup, .error .groupMismatch) := by
    decide +kernel
  obtain ⟨held, next, isHeld, isFrame, isGroup, _⟩ := exists_of_secondFrame computed
  refine ⟨held, next, isHeld, isFrame, (failed_frame_iff isHeld _ _).mpr ?_ next _ isFrame⟩
  intro spoils
  obtain ⟨group, found, _, disturbs⟩ := spoils.disturbs
  have same := disturbs.data
  rw [show shortSource.group = 1 from rfl, isGroup] at found
  cases found
  cases same

/-- The source shard is stored and marked delivered, but the recovery that is due with it fails,
and the datagram that it holds is never put out. -/
theorem source_shard_lost :
    ∃ held next,
      run (Decoder.call ReedSolomon.standard) (Decoder.new 7) [.frame longRepair (Host.at 0)] =
        some (held, []) ∧
      held.frame ReedSolomon.standard (Host.at 1) shortSource =
        some (next, .error .reedSolomon) ∧
      (held.groups.lookup 1).map Group.delivered = some [false, false] ∧
      (next.groups.lookup 1).map Group.delivered = some [true, false] ∧
      ((Decoder.new 7).fragment 1 shortSource.payload).map Prod.snd = some [[9]] ∧
      ¬ LosesNothing (Host.at 1) held next := by
  have computed : secondFrame ReedSolomon.standard shortSource =
      some ([], some repairGroup,
        some ⟨0, 2, 1, [some shortSource.payload, none, some longRepair.payload], [true, false]⟩,
        .error .reedSolomon) := by
    decide +kernel
  obtain ⟨held, next, isHeld, isFrame, isBefore, isAfter⟩ := exists_of_secondFrame computed
  refine ⟨held, next, isHeld, isFrame, by rw [isBefore]; rfl, by rw [isAfter]; rfl,
    by decide +kernel, ?_⟩
  intro loses
  obtain same | ⟨gone, _⟩ := loses.groups 1
  · rw [isBefore, isAfter] at same
    exact absurd same (by decide)
  · rw [isAfter] at gone
    cases gone

end Decoder

end SmartFecTunnel.Fec
