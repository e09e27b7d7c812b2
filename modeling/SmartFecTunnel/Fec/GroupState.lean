import SmartFecTunnel.Fec.Decoder

/-!
Contract: what one shard does to the group it belongs to.

Owns:
- `Group.WellFormed`, the shape every stored group has: a source shard is marked
  delivered exactly when it is stored;
- the closed forms of `store` and `recover` on well-formed groups;
- that `accept` never panics and keeps the shape, for any payload;
- the exact effect of `accept` on a group that holds only shards of one codeword.

Does not own: how groups expire.
-/

namespace SmartFecTunnel.Fec

open SmartFecTunnel.Library

namespace Group

structure WellFormed (group : Group) : Prop where
  data_pos : 1 ≤ group.data
  data_le : group.data ≤ 32
  parity_le : group.parity ≤ 16
  shards_length : group.shards.length = group.data + group.parity
  delivered_length : group.delivered.length = group.data
  shard_size : ∀ shard, some shard ∈ group.shards → ShardSize shard
  delivered_iff : ∀ index, index < group.data →
    (group.delivered[index]? = some true ↔ Filled group.shards index)

theorem fresh_wellFormed {created data parity : Nat} (dataPos : 1 ≤ data) (dataLe : data ≤ 32)
    (parityLe : parity ≤ 16) : (fresh created data parity).WellFormed where
  data_pos := dataPos
  data_le := dataLe
  parity_le := parityLe
  shards_length := by simp [fresh]
  delivered_length := by simp [fresh]
  shard_size := by
    intro shard member
    simp [fresh, List.mem_replicate] at member
  delivered_iff := by
    intro index below
    have belowFresh : index < data := below
    have inShards : index < data + parity := by omega
    simp [fresh, Filled, belowFresh, inShards]

/-! ### Storing -/

/-- The group after a shard went into an empty slot. -/
def filled (group : Group) (position : Nat) (payload : Bytes) : Group :=
  { group with
    shards := group.shards.set position (some payload)
    delivered :=
      if position < group.data then group.delivered.set position true else group.delivered }

/-- A taken slot keeps its shard and releases nothing. -/
theorem store_taken {group : Group} (wellFormed : group.WellFormed) {position : Nat}
    {held : Bytes} (taken : group.shards[position]? = some (some held)) (payload : Bytes) :
    group.store position payload = some (group, none) := by
  unfold store
  by_cases source : position < group.data
  · have flag := (wellFormed.delivered_iff position source).mpr ⟨held, taken⟩
    simp [taken, source, flag]
  · simp [taken, source]

/-- An empty slot takes the shard, and a source shard is released at once. -/
theorem store_empty {group : Group} (wellFormed : group.WellFormed) {position : Nat}
    (empty : group.shards[position]? = some none) (payload : Bytes) :
    group.store position payload =
      some (group.filled position payload,
        if position < group.data then some payload else none) := by
  unfold store filled
  by_cases source : position < group.data
  · have within : position < group.delivered.length := by
      rw [wellFormed.delivered_length]
      exact source
    have flag : group.delivered[position]? = some false := by
      have notTrue : group.delivered[position]? ≠ some true := by
        intro isTrue
        obtain ⟨shard, held⟩ := (wellFormed.delivered_iff position source).mp isTrue
        rw [empty] at held
        cases held
      rw [List.getElem?_eq_getElem within] at notTrue ⊢
      simpa using notTrue
    simp [empty, source, flag]
  · simp [empty, source]

theorem filled_wellFormed {group : Group} (wellFormed : group.WellFormed) {position : Nat}
    (inRange : position < group.data + group.parity) {payload : Bytes}
    (size : ShardSize payload) : (group.filled position payload).WellFormed where
  data_pos := wellFormed.data_pos
  data_le := wellFormed.data_le
  parity_le := wellFormed.parity_le
  shards_length := by simp [filled, wellFormed.shards_length]
  delivered_length := by
    unfold filled
    split <;> simp [wellFormed.delivered_length]
  shard_size := by
    intro shard member
    rcases List.mem_or_eq_of_mem_set member with old | new
    · exact wellFormed.shard_size shard old
    · cases new
      exact size
  delivered_iff := by
    intro index below
    have belowData : index < group.data := below
    have inShards : position < group.shards.length := by
      rw [wellFormed.shards_length]
      exact inRange
    have old := wellFormed.delivered_iff index belowData
    by_cases same : position = index
    · subst same
      have inDelivered : position < group.delivered.length := by
        rw [wellFormed.delivered_length]
        exact belowData
      simp [filled, Filled, belowData, inShards, inDelivered]
    · have shardSame : Filled (group.filled position payload).shards index ↔
          Filled group.shards index := by
        simp [filled, filled_set inShards, Ne.symm same]
      have flagSame : (group.filled position payload).delivered[index]? =
          group.delivered[index]? := by
        unfold filled
        split
        · exact List.getElem?_set_ne same
        · rfl
      rw [shardSame, flagSame]
      exact old

/-! ### Recovering -/

private theorem mapM_eq_some {α β : Type*} {step : α → Option β} {value : α → β} (list : List α)
    (all : ∀ element ∈ list, step element = some (value element)) :
    list.mapM step = some (list.map value) := by
  induction list with
  | nil => rfl
  | cons head tail inductionHypothesis =>
      rw [List.mapM_cons, all head List.mem_cons_self,
        inductionHypothesis fun element member => all element (List.mem_cons_of_mem head member)]
      rfl

/-- The source positions that were not delivered. -/
def missing (group : Group) : List Nat :=
  (List.range group.data).filter fun index => group.delivered[index]? = some false

theorem undelivered_eq {group : Group} (wellFormed : group.WellFormed) {full : List Bytes}
    (long : group.data ≤ full.length) :
    group.undelivered (full.map some) = some (group.missing.filterMap fun index => full[index]?) := by
  have each : ∀ index ∈ List.range group.data,
      ((group.delivered[index]?).bind fun flag =>
        if flag then some none else (full.map some)[index]?) =
      some (if group.delivered[index]? = some false then full[index]? else none) := by
    intro index member
    have below := List.mem_range.mp member
    have inDelivered : index < group.delivered.length := by
      rw [wellFormed.delivered_length]
      exact below
    have inFull : index < full.length := by omega
    rw [List.getElem?_eq_getElem inDelivered]
    cases flag : group.delivered[index] with
    | false => simp [inFull]
    | true => simp
  unfold undelivered
  rw [mapM_eq_some _ each]
  simp only [Option.map_some, Option.some.injEq]
  unfold missing
  induction List.range group.data with
  | nil => rfl
  | cons head tail inductionHypothesis =>
      by_cases isOpen : group.delivered[head]? = some false
      · cases found : full[head]? with
        | none => simpa [isOpen, found] using inductionHypothesis
        | some shard => simpa [isOpen, found] using inductionHypothesis
      · simpa [isOpen] using inductionHypothesis

/-- A group in which every shard is present. -/
def completed (group : Group) (full : List Bytes) : Group :=
  { group with shards := full.map some, delivered := List.replicate group.data true }

theorem completed_wellFormed {group : Group} (wellFormed : group.WellFormed) {full : List Bytes}
    (length : full.length = group.data + group.parity) (size : ∀ shard ∈ full, ShardSize shard) :
    (group.completed full).WellFormed where
  data_pos := wellFormed.data_pos
  data_le := wellFormed.data_le
  parity_le := wellFormed.parity_le
  shards_length := by simp [completed, length]
  delivered_length := by simp [completed]
  shard_size := by
    intro shard member
    obtain ⟨held, inFull, equal⟩ := List.mem_map.mp member
    cases equal
    exact size shard inFull
  delivered_iff := by
    intro index below
    have belowData : index < group.data := below
    have inFull : index < full.length := by omega
    simp [completed, Filled, belowData, inFull]

/-- The code of a group that asks for recovery exists. -/
theorem codec_of_needsRecovery (rs : ReedSolomon) {group : Group} (wellFormed : group.WellFormed)
    (redundant : 0 < group.parity) :
    ∃ codec, rs.new group.data group.parity = some codec ∧
      codec.Lawful group.data group.parity := by
  have dataPos := wellFormed.data_pos
  have dataLe := wellFormed.data_le
  have parityLe := wellFormed.parity_le
  exact rs.new_lawful group.data group.parity dataPos (by omega) (by omega)

/-- Reconstruction succeeded with shards `full`. -/
theorem recover_ok {rs : ReedSolomon} {group : Group} (wellFormed : group.WellFormed)
    {codec : ErasureCodec} (isCodec : rs.new group.data group.parity = some codec)
    {full : List Bytes} (length : full.length = group.data + group.parity)
    (reconstructed : codec.reconstruct group.shards = some (full.map some)) :
    group.recover rs =
      some (group.completed full, .ok (group.missing.filterMap fun index => full[index]?)) := by
  have dropped : group.delivered.drop group.data = [] := by
    rw [List.drop_eq_nil_iff, wellFormed.delivered_length]
  have long : group.data ≤ group.delivered.length := by rw [wellFormed.delivered_length]
  unfold recover
  rw [isCodec]
  simp [reconstructed, undelivered_eq wellFormed (show group.data ≤ full.length by omega), long,
    dropped, completed]

/-- For any shards, recovery either reports an error and changes nothing, or
completes the group. -/
theorem recover_cases (rs : ReedSolomon) {group : Group} (wellFormed : group.WellFormed)
    (needs : group.NeedsRecovery) :
    group.recover rs = some (group, .error .reedSolomon) ∨
    ∃ full, group.recover rs =
        some (group.completed full, .ok (group.missing.filterMap fun index => full[index]?)) ∧
      (group.completed full).WellFormed := by
  obtain ⟨redundant, enough, _⟩ := needs
  obtain ⟨codec, isCodec, lawful⟩ := codec_of_needsRecovery rs wellFormed redundant
  have somePresent : 0 < present group.shards := by
    have := wellFormed.data_pos
    omega
  obtain ⟨slot, inShards, isFilled⟩ := List.countP_pos_iff.mp somePresent
  obtain ⟨sample, rfl⟩ := Option.isSome_iff_exists.mp isFilled
  by_cases equalLengths : ∀ shard, some shard ∈ group.shards → shard.length = sample.length
  · right
    have sampleSize := wellFormed.shard_size sample inShards
    have positive : 0 < sample.length := by
      have := sampleSize.1
      unfold fragmentHeader at this
      omega
    obtain ⟨full, reconstructed, length, fullLength, _⟩ :=
      lawful.reconstruct_fills group.shards sample.length wellFormed.shards_length enough positive
        equalLengths
    refine ⟨full, recover_ok wellFormed isCodec length reconstructed,
      completed_wellFormed wellFormed length ?_⟩
    intro shard member
    unfold ShardSize
    rw [fullLength shard member]
    exact sampleSize
  · left
    push Not at equalLengths
    obtain ⟨other, inOthers, different⟩ := equalLengths
    have failed := lawful.reconstruct_unequal group.shards other sample inOthers inShards different
    unfold recover
    rw [isCodec]
    simp [failed]

/-! ### Accepting any shard -/

/-- Accepting an in-range shard never panics and keeps the shape of the group. -/
theorem accept_wellFormed (rs : ReedSolomon) {group : Group} (wellFormed : group.WellFormed)
    {position : Nat} (inRange : position < group.data + group.parity) {payload : Bytes}
    (size : ShardSize payload) :
    ∃ next result, group.accept rs position payload = some (next, result) ∧ next.WellFormed := by
  have inShards : position < group.shards.length := by
    rw [wellFormed.shards_length]
    exact inRange
  obtain ⟨stored, immediate, isStored, storedWellFormed⟩ :
      ∃ stored immediate, group.store position payload = some (stored, immediate) ∧
        stored.WellFormed := by
    cases slot : group.shards[position] with
    | none =>
        exact ⟨_, _, store_empty wellFormed (by rw [List.getElem?_eq_getElem inShards, slot])
          payload, filled_wellFormed wellFormed inRange size⟩
    | some held =>
        exact ⟨_, _, store_taken wellFormed (by rw [List.getElem?_eq_getElem inShards, slot])
          payload, wellFormed⟩
  unfold accept
  rw [isStored]
  by_cases needs : stored.NeedsRecovery
  · rcases recover_cases rs storedWellFormed needs with failed | ⟨full, recovered, complete⟩
    · exact ⟨stored, .error .reedSolomon, by simp [needs, failed, Except.map], storedWellFormed⟩
    · exact ⟨stored.completed full, _, by simp [needs, recovered]; rfl, complete⟩
  · exact ⟨stored, .ok immediate.toList, by simp [needs], storedWellFormed⟩

/-! ### Accepting a shard of a codeword -/

/-- A list of shards a sender can have sent as one group: with redundancy it is
a codeword of the group's code. -/
structure Codeword (rs : ReedSolomon) (data parity : Nat) (full : List Bytes) : Prop where
  length : full.length = data + parity
  size : ∀ shard ∈ full, ShardSize shard
  coded : 0 < parity → ∃ codec source repair shardLen, rs.new data parity = some codec ∧
    full = source ++ repair ∧ source.length = data ∧ codec.encode source = some repair ∧
    ∀ shard ∈ source, shard.length = shardLen

/-- The shards of a group with redundancy come from a lawful codec and source shards of one
positive length. -/
theorem Codeword.lawful {rs : ReedSolomon} {data parity : Nat} {full : List Bytes}
    (codeword : Codeword rs data parity full) (dataPos : 1 ≤ data) (bounded : data + parity ≤ 256)
    (redundant : 0 < parity) :
    ∃ codec source repair shardLen, rs.new data parity = some codec ∧ codec.Lawful data parity ∧
      full = source ++ repair ∧ source.length = data ∧ codec.encode source = some repair ∧
      0 < shardLen ∧ ∀ shard ∈ source, shard.length = shardLen := by
  obtain ⟨codec, source, repair, shardLen, isCodec, split, isData, encoded, equal⟩ :=
    codeword.coded redundant
  obtain ⟨lawfulCodec, isLawful, lawful⟩ := rs.new_lawful data parity dataPos redundant bounded
  have sameCodec : lawfulCodec = codec := Option.some.inj (isLawful.symm.trans isCodec)
  subst sameCodec
  refine ⟨lawfulCodec, source, repair, shardLen, isCodec, lawful, split, isData, encoded, ?_, equal⟩
  obtain ⟨shard, member⟩ := List.exists_mem_of_length_pos (show 0 < source.length by omega)
  have size := codeword.size shard (by rw [split]; exact List.mem_append_left _ member)
  have sized := size.1
  rw [equal shard member] at sized
  unfold fragmentHeader at sized
  omega

/-- `group` holds shards of `full`: either exactly the received positions, or
all of them once at least `data` were received. -/
structure Tracks (group : Group) (full : List Bytes) (received : Finset Nat) : Prop where
  wellFormed : group.WellFormed
  agrees : Agrees group.shards full
  received_lt : ∀ index ∈ received, index < group.data + group.parity
  stored : (∀ index, index ∈ received ↔ Filled group.shards index) ∨
    (group.data ≤ received.card ∧
      ∀ index, index < group.data + group.parity → Filled group.shards index)
  settled : ¬ group.NeedsRecovery

theorem fresh_tracks {created data parity : Nat} (full : List Bytes) (dataPos : 1 ≤ data)
    (dataLe : data ≤ 32) (parityLe : parity ≤ 16) :
    (fresh created data parity).Tracks full ∅ where
  wellFormed := fresh_wellFormed dataPos dataLe parityLe
  agrees := agrees_replicate_none _ full
  received_lt := by simp
  stored := by
    left
    intro index
    simp [fresh, Filled, List.getElem?_replicate]
  settled := by
    rintro ⟨_, enough, _⟩
    have none : present (fresh created data parity).shards = 0 := by
      simp [present, fresh, List.countP_replicate]
    have isData : (fresh created data parity).data = data := rfl
    omega

/-- Some source shard is missing exactly when some flag is down. -/
theorem WellFormed.false_mem_iff {group : Group} (wellFormed : group.WellFormed) :
    false ∈ group.delivered ↔ ∃ index, index < group.data ∧ ¬ Filled group.shards index := by
  rw [List.mem_iff_getElem?]
  constructor
  · rintro ⟨index, down⟩
    have below : index < group.data := by
      rw [← wellFormed.delivered_length]
      exact (List.getElem?_eq_some_iff.mp down).1
    refine ⟨index, below, ?_⟩
    rw [← wellFormed.delivered_iff index below, down]
    simp
  · rintro ⟨index, below, empty⟩
    have within : index < group.delivered.length := by
      rw [wellFormed.delivered_length]
      exact below
    refine ⟨index, ?_⟩
    rw [← wellFormed.delivered_iff index below] at empty
    rw [List.getElem?_eq_getElem within] at empty ⊢
    simpa using empty

theorem WellFormed.mem_missing_iff {group : Group} (wellFormed : group.WellFormed) (index : Nat) :
    index ∈ group.missing ↔ index < group.data ∧ ¬ Filled group.shards index := by
  unfold missing
  simp only [List.mem_filter, List.mem_range, decide_eq_true_eq]
  constructor
  · rintro ⟨below, down⟩
    refine ⟨below, ?_⟩
    rw [← wellFormed.delivered_iff index below, down]
    simp
  · rintro ⟨below, empty⟩
    have within : index < group.delivered.length := by
      rw [wellFormed.delivered_length]
      exact below
    refine ⟨below, ?_⟩
    rw [← wellFormed.delivered_iff index below] at empty
    rw [List.getElem?_eq_getElem within] at empty ⊢
    simpa using empty

/-- The source shard that a filled slot releases at once. -/
def immediate (group : Group) (position : Nat) : List Nat :=
  if position < group.data then [position] else []

theorem mem_immediate {group : Group} {position index : Nat} :
    index ∈ immediate group position ↔ index = position ∧ index < group.data := by
  unfold immediate
  split
  next source =>
    rw [List.mem_singleton]
    constructor
    · rintro rfl
      exact ⟨rfl, source⟩
    · exact And.left
  next parity =>
    constructor
    · intro member
      cases member
    · rintro ⟨rfl, source⟩
      exact absurd source parity

theorem nodup_immediate (group : Group) (position : Nat) : (immediate group position).Nodup := by
  unfold immediate
  split
  · exact List.nodup_singleton _
  · exact List.nodup_nil

theorem filterMap_immediate {group : Group} {full : List Bytes} {position : Nat}
    {payload : Bytes} (right : full[position]? = some payload) :
    ((immediate group position).filterMap fun index => full[index]?) =
      (if position < group.data then some payload else none).toList := by
  unfold immediate
  split
  · simp [right]
  · rfl

/-- The exact effect of one honest shard: the group then tracks its position
too, and the released shards are the source shards that became available. -/
structure Takes (rs : ReedSolomon) (full : List Bytes) (received : Finset Nat) (group : Group)
    (position : Nat) (payload : Bytes) (next : Group) (released : List Nat) : Prop where
  accepted : group.accept rs position payload =
    some (next, .ok (released.filterMap fun index => full[index]?))
  created : next.created = group.created
  data : next.data = group.data
  parity : next.parity = group.parity
  tracks : next.Tracks full (insert position received)
  distinct : released.Nodup
  released_iff : ∀ index, index ∈ released ↔
    index < group.data ∧ ¬ Filled group.shards index ∧ Filled next.shards index

namespace Tracks

variable {group : Group} {full : List Bytes} {received : Finset Nat}

/-- Without redundancy, `data` received positions are all positions. -/
private theorem mem_received_of_plain (tracks : group.Tracks full received)
    (plain : group.parity = 0) (enough : group.data ≤ received.card) {index : Nat}
    (source : index < group.data) : index ∈ received := by
  have within : received ⊆ Finset.range group.data := by
    intro other member
    have := tracks.received_lt other member
    exact Finset.mem_range.mpr (by omega)
  have everything : received = Finset.range group.data :=
    Finset.eq_of_subset_of_card_le within (by rw [Finset.card_range]; exact enough)
  rw [everything]
  exact Finset.mem_range.mpr source

/-- A source shard is available exactly when it was received itself or enough
shards of its group were. -/
theorem filled_iff (tracks : group.Tracks full received) {index : Nat}
    (source : index < group.data) :
    Filled group.shards index ↔ index ∈ received ∨ group.data ≤ received.card := by
  rcases tracks.stored with exactly | ⟨enough, all⟩
  · rw [← exactly index]
    constructor
    · exact Or.inl
    · rintro (member | enough)
      · exact member
      · have counted : present group.shards = received.card := present_eq_card exactly
        rcases Nat.eq_zero_or_pos group.parity with none | redundant
        · exact tracks.mem_received_of_plain none enough source
        · have noneMissing : ¬ false ∈ group.delivered := by
            intro down
            exact tracks.settled ⟨redundant, by omega, down⟩
          rw [tracks.wellFormed.false_mem_iff] at noneMissing
          push Not at noneMissing
          exact (exactly index).mpr (noneMissing index source)
  · exact ⟨fun _ => Or.inr enough, fun _ => all index (by omega)⟩

/-- Without redundancy a source shard is available exactly when it was received
itself. -/
theorem filled_iff_of_plain (tracks : group.Tracks full received) (plain : group.parity = 0)
    {index : Nat} (source : index < group.data) : Filled group.shards index ↔ index ∈ received := by
  rw [tracks.filled_iff source]
  constructor
  · rintro (member | enough)
    · exact member
    · exact tracks.mem_received_of_plain plain enough source
  · exact Or.inl

/-- Filling an empty slot with the right shard records one more position. -/
private theorem filled_agrees (tracks : group.Tracks full received) {position : Nat}
    {payload : Bytes} (right : full[position]? = some payload) :
    Agrees (group.filled position payload).shards full :=
  tracks.agrees.set right

private theorem exactly_of_empty (tracks : group.Tracks full received) {position : Nat}
    (inRange : position < group.data + group.parity) (empty : ¬ Filled group.shards position)
    (payload : Bytes) (index : Nat) :
    index ∈ insert position received ↔ Filled (group.filled position payload).shards index := by
  have inShards : position < group.shards.length := by
    rw [tracks.wellFormed.shards_length]
    exact inRange
  have shards : (group.filled position payload).shards =
      group.shards.set position (some payload) := rfl
  rw [Finset.mem_insert, shards, filled_set inShards]
  rcases tracks.stored with exactly | ⟨_, all⟩
  · rw [exactly index]
  · exact absurd (all position inRange) empty

/-- The reconstruction of a group that agrees with its codeword. -/
private theorem reconstruct_codeword {rs : ReedSolomon} {stored : Group}
    (wellFormed : stored.WellFormed) (codeword : Codeword rs stored.data stored.parity full)
    (agrees : Agrees stored.shards full) (needs : stored.NeedsRecovery) :
    stored.recover rs = some (stored.completed full,
      .ok (stored.missing.filterMap fun index => full[index]?)) := by
  obtain ⟨redundant, enough, _⟩ := needs
  have dataLe := wellFormed.data_le
  have parityLe := wellFormed.parity_le
  obtain ⟨codec, source, repair, shardLen, isCodec, lawful, split, sourceLength, encoded, positive,
    equalLength⟩ := codeword.lawful wellFormed.data_pos (by omega) redundant
  have reconstructed := lawful.reconstruct_codeword source repair stored.shards shardLen
    sourceLength positive equalLength encoded wellFormed.shards_length (by rw [← split]; exact agrees)
    enough
  rw [← split] at reconstructed
  exact recover_ok wellFormed isCodec codeword.length reconstructed

private theorem insert_lt (tracks : group.Tracks full received) {position : Nat}
    (inRange : position < group.data + group.parity) :
    ∀ index ∈ insert position received, index < group.data + group.parity := by
  intro index member
  rcases Finset.mem_insert.mp member with rfl | old
  · exact inRange
  · exact tracks.received_lt index old

/-- A position that is filled already changes nothing. -/
private theorem takes_taken {rs : ReedSolomon} (tracks : group.Tracks full received)
    {position : Nat} (taken : Filled group.shards position) (payload : Bytes) :
    Takes rs full received group position payload group [] where
  accepted := by
    obtain ⟨held, isHeld⟩ := taken
    unfold Group.accept
    rw [store_taken tracks.wellFormed isHeld payload]
    simp [tracks.settled]
  created := rfl
  data := rfl
  parity := rfl
  tracks := by
    have inRange : position < group.data + group.parity := by
      obtain ⟨held, isHeld⟩ := taken
      rw [← tracks.wellFormed.shards_length]
      exact (List.getElem?_eq_some_iff.mp isHeld).1
    refine ⟨tracks.wellFormed, tracks.agrees, tracks.insert_lt inRange, ?_, tracks.settled⟩
    rcases tracks.stored with exactly | ⟨enough, all⟩
    · left
      rw [Finset.insert_eq_of_mem ((exactly position).mpr taken)]
      exact exactly
    · right
      exact ⟨enough.trans (Finset.card_le_card (Finset.subset_insert _ _)), all⟩
  distinct := List.nodup_nil
  released_iff := by
    intro index
    simp only [List.not_mem_nil, false_iff, not_and]
    exact fun _ empty filled => empty filled

/-- An empty slot takes the shard, and nothing else happens. -/
private theorem takes_filled {rs : ReedSolomon} (tracks : group.Tracks full received)
    (codeword : Codeword rs group.data group.parity full) {position : Nat} {payload : Bytes}
    (right : full[position]? = some payload) (slot : group.shards[position]? = some none)
    (done : ¬ (group.filled position payload).NeedsRecovery) :
    Takes rs full received group position payload (group.filled position payload)
      (immediate group position) where
  accepted := by
    unfold Group.accept
    rw [store_empty tracks.wellFormed slot payload, filterMap_immediate right]
    simp only [Option.bind_eq_bind, Option.bind_some, done, ↓reduceIte]
  created := rfl
  data := rfl
  parity := rfl
  tracks := by
    have inShards := (List.getElem?_eq_some_iff.mp slot).1
    have inRange : position < group.data + group.parity := by
      rw [← tracks.wellFormed.shards_length]
      exact inShards
    have size := codeword.size payload (List.mem_of_getElem? right)
    exact ⟨filled_wellFormed tracks.wellFormed inRange size, tracks.filled_agrees right,
      tracks.insert_lt inRange,
      Or.inl (tracks.exactly_of_empty inRange ((not_filled_iff inShards).mpr slot) payload), done⟩
  distinct := nodup_immediate group position
  released_iff := by
    intro index
    have inShards := (List.getElem?_eq_some_iff.mp slot).1
    have shards : (group.filled position payload).shards =
        group.shards.set position (some payload) := rfl
    rw [mem_immediate, shards, filled_set inShards]
    constructor
    · rintro ⟨rfl, source⟩
      exact ⟨source, (not_filled_iff inShards).mpr slot, Or.inl rfl⟩
    · rintro ⟨below, empty, isPosition | old⟩
      · exact ⟨isPosition, below⟩
      · exact absurd old empty

/-- The shard brings the group to `data` shards, and the group is completed. -/
private theorem takes_recovered {rs : ReedSolomon} (tracks : group.Tracks full received)
    (codeword : Codeword rs group.data group.parity full) {position : Nat} {payload : Bytes}
    (right : full[position]? = some payload) (slot : group.shards[position]? = some none)
    (needs : (group.filled position payload).NeedsRecovery) :
    Takes rs full received group position payload ((group.filled position payload).completed full)
      (immediate group position ++ (group.filled position payload).missing) := by
  have inShards := (List.getElem?_eq_some_iff.mp slot).1
  have inRange : position < group.data + group.parity := by
    rw [← tracks.wellFormed.shards_length]
    exact inShards
  have taken := (not_filled_iff inShards).mpr slot
  have exactly := tracks.exactly_of_empty inRange taken payload
  have storedWellFormed := filled_wellFormed tracks.wellFormed inRange
    (codeword.size payload (List.mem_of_getElem? right))
  have complete : ∀ index, index < group.data + group.parity →
      Filled ((group.filled position payload).completed full).shards index := by
    intro index below
    have inFull : index < full.length := by
      rw [codeword.length]
      exact below
    exact ⟨full[index], by simp [completed, inFull]⟩
  constructor
  · have recovered :=
      reconstruct_codeword storedWellFormed codeword (tracks.filled_agrees right) needs
    unfold Group.accept
    rw [store_empty tracks.wellFormed slot payload, List.filterMap_append,
      filterMap_immediate right]
    simp only [Option.bind_eq_bind, Option.bind_some, needs, ↓reduceIte, recovered, Except.map]
  · rfl
  · rfl
  · rfl
  · refine ⟨completed_wellFormed storedWellFormed codeword.length codeword.size,
      agrees_map_some full, tracks.insert_lt inRange, Or.inr ⟨?_, complete⟩, ?_⟩
    · rw [← present_eq_card exactly]
      exact needs.2.1
    · rintro ⟨_, _, down⟩
      exact absurd (List.eq_of_mem_replicate down) (by decide)
  · refine List.nodup_append.mpr ⟨nodup_immediate group position, List.nodup_range.filter _, ?_⟩
    intro left inLeft _ inRight rfl
    obtain ⟨rfl, _⟩ := mem_immediate.mp inLeft
    have empty := ((storedWellFormed.mem_missing_iff left).mp inRight).2
    exact empty ((exactly left).mp (Finset.mem_insert_self _ _))
  · intro index
    have shards : (group.filled position payload).shards =
        group.shards.set position (some payload) := rfl
    rw [List.mem_append, mem_immediate, storedWellFormed.mem_missing_iff index, shards,
      filled_set inShards]
    constructor
    · rintro (⟨rfl, source⟩ | ⟨below, empty⟩)
      · exact ⟨source, taken, complete index (by omega)⟩
      · have inGroup : index < group.data + group.parity := Nat.lt_add_right _ below
        exact ⟨below, fun old => empty (Or.inr old), complete index inGroup⟩
    · rintro ⟨below, empty, _⟩
      by_cases same : index = position
      · exact Or.inl ⟨same, below⟩
      · refine Or.inr ⟨below, ?_⟩
        rintro (isPosition | old)
        · exact same isPosition
        · exact empty old

/-- One honest shard of a group. -/
theorem accept {rs : ReedSolomon} (tracks : group.Tracks full received)
    (codeword : Codeword rs group.data group.parity full) {position : Nat} {payload : Bytes}
    (right : full[position]? = some payload) :
    ∃ next released, Takes rs full received group position payload next released := by
  have inShards : position < group.shards.length := by
    rw [tracks.wellFormed.shards_length, ← codeword.length]
    exact (List.getElem?_eq_some_iff.mp right).1
  by_cases taken : Filled group.shards position
  · exact ⟨group, [], tracks.takes_taken taken payload⟩
  · have slot := (not_filled_iff inShards).mp taken
    by_cases needs : (group.filled position payload).NeedsRecovery
    · exact ⟨_, _, tracks.takes_recovered codeword right slot needs⟩
    · exact ⟨_, _, tracks.takes_filled codeword right slot needs⟩

end Tracks

end Group

end SmartFecTunnel.Fec
