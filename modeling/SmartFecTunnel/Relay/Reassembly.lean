import Mathlib.Data.Finset.Card
import Mathlib.Data.Finset.Range
import SmartFecTunnel.Relay.Carrier

/-!
Contract: a receiver that gets fragments of many messages in any order.

`progress` says what a message would have in the table of the receiver were it
the only one: when its group was opened and which fragments it has, given the
arrivals so far.  `Refines` says that the table holds exactly this for every
message at once.

Owns:
- the messages of a sender and their numbers;
- the effect of one fragment on a receiver that has room for it;
- that the size of the table is the number of open messages.

Does not own: which arrivals leave room.
-/

namespace SmartFecTunnel.Relay

open SmartFecTunnel.Library

/-! ### The sender -/

/-- The messages handed to the connection: payload and frames of each call of
`send_carrier` that succeeds, with the counter at `message` before the first. -/
def sendAll : (message : Nat) → List (Option Nat × Bytes) → List (Bytes × List Bytes)
  | _, [] => []
  | message, (maximum, payload) :: rest =>
    match sendCarrier maximum payload message with
    | (next, .ok frames) => (payload, frames) :: sendAll next rest
    | (next, .error _) => sendAll next rest

/-- The number of the message at position `position` of a new sender. -/
def messageId (position : Nat) : Nat := (position + 1) % 2 ^ 64

/-- Messages one sender can have sent with a counter that has not come round. -/
structure Honest (sent : List (Bytes × List Bytes)) : Prop where
  message : ∀ (position : Nat) (message : Bytes × List Bytes), sent[position]? = some message →
    ∃ parts, Parts message.1 parts ∧ message.2 = framesOf (messageId position) parts ∧
      message.1.length ≤ maxDatagram
  few : sent.length ≤ 2 ^ 64

theorem length_sendAll_le (message : Nat) (sends : List (Option Nat × Bytes)) :
    (sendAll message sends).length ≤ sends.length := by
  induction sends generalizing message with
  | nil => exact Nat.le_refl _
  | cons send rest inductionHypothesis =>
      obtain ⟨maximum, payload⟩ := send
      unfold sendAll
      split
      next next frames _ => exact Nat.succ_le_succ (inductionHypothesis next)
      next next error _ => exact Nat.le_succ_of_le (inductionHypothesis next)

theorem sendAll_spec {message position : Nat} {sends : List (Option Nat × Bytes)}
    {sent : Bytes × List Bytes} (found : (sendAll message sends)[position]? = some sent) :
    ∃ size parts, (some size, sent.1) ∈ sends ∧ Parts sent.1 parts ∧
      sent.2 = framesOf ((message + position + 1) % 2 ^ 64) parts ∧
      parts.length = divCeil (max sent.1.length 1) (size - carrierHeader) := by
  induction sends generalizing message position with
  | nil => cases found
  | cons send rest inductionHypothesis =>
      obtain ⟨maximum, payload⟩ := send
      unfold sendAll at found
      split at found
      next next frames isSent =>
        obtain ⟨isNext, size, parts, rfl, isParts, isFrames, isCount⟩ := sendCarrier_ok isSent
        cases position with
        | zero =>
            cases found
            refine ⟨size, parts, List.mem_cons_self, isParts, ?_, isCount⟩
            rw [isFrames, isNext, Nat.add_zero]
        | succ position =>
            obtain ⟨other, others, member, isOthers, areFrames, othersCount⟩ :=
              inductionHypothesis found
            refine ⟨other, others, List.mem_cons_of_mem _ member, isOthers, ?_, othersCount⟩
            have sameId : (next + position + 1) % 2 ^ 64 =
                (message + (position + 1) + 1) % 2 ^ 64 := by omega
            rw [areFrames, sameId]
      next next error failed =>
        rw [sendCarrier_error failed] at found
        obtain ⟨other, others, member, rest⟩ := inductionHypothesis found
        exact ⟨other, others, List.mem_cons_of_mem _ member, rest⟩

theorem honest_sendAll {sends : List (Option Nat × Bytes)}
    (small : ∀ send ∈ sends, send.2.length ≤ maxDatagram) (few : sends.length ≤ 2 ^ 64) :
    Honest (sendAll 0 sends) where
  message := by
    intro position message found
    obtain ⟨size, parts, member, isParts, isFrames, _⟩ := sendAll_spec found
    refine ⟨parts, isParts, ?_, small _ member⟩
    rw [isFrames, Nat.zero_add, messageId]
  few := (length_sendAll_le 0 sends).trans few

/-- The numbers of different messages differ. -/
theorem messageId_inj {left right : Nat} (leftFits : left < 2 ^ 64) (rightFits : right < 2 ^ 64)
    (same : messageId left = messageId right) : left = right := by
  unfold messageId at same
  omega

/-! ### Arrivals -/

/-- A fragment of a message reaches the receiver. -/
structure Arrival where
  message : Nat
  fragment : Nat
  time : Nat
deriving DecidableEq, Repr

/-- The frame that arrives. -/
def frameAt (sent : List (Bytes × List Bytes)) (arrival : Arrival) : Option Bytes :=
  (sent[arrival.message]?).bind fun message => message.2[arrival.fragment]?

/-- One `push`; there is none for a frame that was never sent. -/
def receive (sent : List (Bytes × List Bytes)) (reassembly : CarrierReassembly)
    (arrival : Arrival) :
    Option (CarrierReassembly × List (Except CarrierError (Option Bytes))) :=
  (frameAt sent arrival).map fun frame =>
    let result := reassembly.push frame arrival.time
    (result.1, [result.2])

/-! ### Progress of one message -/

/-- When the group of a message was opened and which fragments it has. -/
structure Progress where
  created : Nat
  received : Finset Nat

/-- The group is not older than `CARRIER_TTL`. -/
def Progress.alive (now : Nat) (progress : Progress) : Bool :=
  decide (now - progress.created ≤ carrierTtl)

/-- The group a fragment that arrives at `time` is stored in. -/
def Progress.current (time : Nat) (before : Option Progress) : Progress :=
  (before.filter (Progress.alive time)).getD ⟨time, ∅⟩

/-- The fragments of the message once this one is stored. -/
def Progress.extended (time fragment : Nat) (before : Option Progress) : Finset Nat :=
  insert fragment (Progress.current time before).received

/-- A complete message has no group. -/
def Progress.advance (count time fragment : Nat) (before : Option Progress) : Option Progress :=
  if (Progress.extended time fragment before).card = count then none
  else some ⟨(Progress.current time before).created, Progress.extended time fragment before⟩

/-- The number of frames of a message. -/
def fragmentCount (sent : List (Bytes × List Bytes)) (position : Nat) : Nat :=
  ((sent[position]?).map fun message => message.2.length).getD 0

/-- What the arrivals leave of the message at `position`. -/
def progress (sent : List (Bytes × List Bytes)) (position : Nat) (arrivals : List Arrival) :
    Option Progress :=
  arrivals.foldl
    (fun before arrival =>
      if arrival.message = position then
        Progress.advance (fragmentCount sent position) arrival.time arrival.fragment before
      else before)
    none

theorem progress_snoc (sent : List (Bytes × List Bytes)) (position : Nat)
    (front : List Arrival) (arrival : Arrival) :
    progress sent position (front ++ [arrival]) =
      if arrival.message = position then
        Progress.advance (fragmentCount sent position) arrival.time arrival.fragment
          (progress sent position front)
      else progress sent position front := by
  unfold progress
  rw [List.foldl_append]
  rfl

/-- Every fragment in a group is one of the message, and at least one is missing. -/
structure Progress.Sound (count : Nat) (before : Progress) : Prop where
  within : before.received ⊆ Finset.range count
  missing : before.received.card ≠ count

theorem Progress.extended_subset {count time fragment : Nat} {before : Option Progress}
    (sound : ∀ held, before = some held → held.Sound count) (inRange : fragment < count) :
    Progress.extended time fragment before ⊆ Finset.range count := by
  unfold Progress.extended
  apply Finset.insert_subset (Finset.mem_range.mpr inRange)
  unfold Progress.current
  cases kept : before.filter (Progress.alive time) with
  | none => exact Finset.empty_subset _
  | some held => exact (sound held (Option.filter_eq_some_iff.mp kept).1).within

theorem Progress.advance_sound {count time fragment : Nat} {before : Option Progress}
    (sound : ∀ held, before = some held → held.Sound count) (inRange : fragment < count) :
    ∀ held, Progress.advance count time fragment before = some held → held.Sound count := by
  intro held advanced
  unfold Progress.advance at advanced
  split at advanced
  next => cases advanced
  next missing =>
    cases advanced
    exact ⟨Progress.extended_subset sound inRange, missing⟩

/-- The group a fragment was stored in is not too old at that time. -/
theorem Progress.advance_alive (count time fragment : Nat) (before : Option Progress) :
    (Progress.advance count time fragment before).filter (Progress.alive time) =
      Progress.advance count time fragment before := by
  have alive : time - (Progress.current time before).created ≤ carrierTtl := by
    unfold Progress.current
    cases kept : before.filter (Progress.alive time) with
    | none => simp
    | some held => exact of_decide_eq_true (Option.filter_eq_some_iff.mp kept).2
  unfold Progress.advance
  split
  · rfl
  · rw [Option.filter_some]
    exact if_pos (decide_eq_true alive)

theorem frameAt_spec {sent : List (Bytes × List Bytes)} {arrival : Arrival} {frame : Bytes}
    (found : frameAt sent arrival = some frame) :
    ∃ message, sent[arrival.message]? = some message ∧ message.2[arrival.fragment]? = some frame :=
  Option.bind_eq_some_iff.mp found

theorem fragment_lt {sent : List (Bytes × List Bytes)} {arrival : Arrival} {frame : Bytes}
    (found : frameAt sent arrival = some frame) :
    arrival.fragment < fragmentCount sent arrival.message := by
  obtain ⟨message, isMessage, isFrame⟩ := frameAt_spec found
  unfold fragmentCount
  rw [isMessage]
  exact (List.getElem?_eq_some_iff.mp isFrame).1

theorem progress_sound {sent : List (Bytes × List Bytes)} {position : Nat}
    {arrivals : List Arrival} (drawn : ∀ arrival ∈ arrivals, (frameAt sent arrival).isSome) :
    ∀ held, progress sent position arrivals = some held →
      held.Sound (fragmentCount sent position) := by
  induction arrivals using List.reverseRecOn with
  | nil =>
      intro held impossible
      cases impossible
  | append_singleton front arrival inductionHypothesis =>
      have earlier := inductionHypothesis fun other member =>
        drawn other (List.mem_append_left _ member)
      obtain ⟨frame, isFrame⟩ := Option.isSome_iff_exists.mp
        (drawn arrival List.mem_concat_self)
      rw [progress_snoc]
      split
      next same =>
        subst same
        exact Progress.advance_sound earlier (fragment_lt isFrame)
      next => exact earlier

/-! ### The parts of a group -/

/-- The parts of a group that has received these fragments. -/
def heldParts (parts : List Bytes) (received : Finset Nat) : List (Option Bytes) :=
  parts.zipIdx.map fun entry => if entry.2 ∈ received then some entry.1 else none

@[simp] theorem length_heldParts (parts : List Bytes) (received : Finset Nat) :
    (heldParts parts received).length = parts.length := by
  simp [heldParts]

theorem getElem?_heldParts (parts : List Bytes) (received : Finset Nat) (index : Nat) :
    (heldParts parts received)[index]? =
      (parts[index]?).map fun part => if index ∈ received then some part else none := by
  unfold heldParts
  rw [List.getElem?_map, List.getElem?_zipIdx, Option.map_map, Nat.zero_add]
  rfl

theorem heldParts_empty (parts : List Bytes) :
    heldParts parts ∅ = List.replicate parts.length none := by
  apply List.ext_getElem?
  intro index
  rw [getElem?_heldParts, List.getElem?_replicate]
  by_cases within : index < parts.length <;> simp [within]

/-- Storing a part that is missing, or once more a part that is there. -/
theorem heldParts_insert {parts : List Bytes} (received : Finset Nat) {index : Nat} {part : Bytes}
    (isPart : parts[index]? = some part) :
    (heldParts parts received).set index
        (some (((heldParts parts received)[index]?.join).getD part)) =
      heldParts parts (insert index received) := by
  have stored : ((heldParts parts received)[index]?.join).getD part = part := by
    rw [getElem?_heldParts, isPart]
    by_cases old : index ∈ received <;> simp [old]
  rw [stored]
  apply List.ext_getElem?
  intro other
  rw [List.getElem?_set, length_heldParts, getElem?_heldParts, getElem?_heldParts]
  by_cases same : index = other
  · subst same
    obtain ⟨within, equal⟩ := List.getElem?_eq_some_iff.mp isPart
    simp [within, equal]
  · have others : other ≠ index := fun equal => same equal.symm
    simp [same, others]

/-- A part is missing as long as fewer fragments than parts were received. -/
theorem any_isNone_heldParts {parts : List Bytes} {received : Finset Nat}
    (within : received ⊆ Finset.range parts.length) :
    (heldParts parts received).any Option.isNone = true ↔ received.card ≠ parts.length := by
  rw [List.any_eq_true]
  constructor
  · rintro ⟨slot, member, isNone⟩ full
    have all : received = Finset.range parts.length :=
      Finset.eq_of_subset_of_card_le within (by rw [full, Finset.card_range])
    obtain ⟨entry, inParts, rfl⟩ := List.mem_map.mp member
    have below := (List.mem_zipIdx inParts).2.1
    rw [if_pos (by rw [all]; exact Finset.mem_range.mpr (by omega))] at isNone
    cases isNone
  · intro notFull
    obtain ⟨index, inRange, missing⟩ : ∃ index ∈ Finset.range parts.length, index ∉ received := by
      by_contra none_
      push Not at none_
      exact notFull ((congrArg Finset.card (Finset.Subset.antisymm within none_)).trans
        (Finset.card_range _))
    have below := Finset.mem_range.mp inRange
    refine ⟨none, ?_, rfl⟩
    apply List.mem_of_getElem? (i := index)
    rw [getElem?_heldParts, List.getElem?_eq_getElem below]
    simp [missing]

theorem heldParts_full {parts : List Bytes} {received : Finset Nat}
    (within : received ⊆ Finset.range parts.length) (full : received.card = parts.length) :
    heldParts parts received = parts.map some := by
  have all : received = Finset.range parts.length :=
    Finset.eq_of_subset_of_card_le within (by rw [full, Finset.card_range])
  apply List.ext_getElem?
  intro index
  rw [getElem?_heldParts, List.getElem?_map]
  cases isPart : parts[index]? with
  | none => rfl
  | some part =>
      have below := (List.getElem?_eq_some_iff.mp isPart).1
      simp [all, below]

/-! ### One push -/

/-- The parts a message is made of, as its frames carry them. -/
def partsOf (message : Bytes × List Bytes) : List Bytes := message.2.map (List.drop carrierHeader)

theorem partsOf_eq {message : Bytes × List Bytes} {id : Nat} {parts : List Bytes}
    (isFrames : message.2 = framesOf id parts) : partsOf message = parts := by
  unfold partsOf framesOf at *
  rw [isFrames, List.map_map]
  apply List.ext_getElem?
  intro index
  rw [List.getElem?_map, List.getElem?_zipIdx, Option.map_map]
  cases parts[index]? with
  | none => rfl
  | some part => exact congrArg some (List.drop_left' (length_pack _))

/-- The group of a message with this progress. -/
def groupOf (parts : List Bytes) (held : Progress) : CarrierGroup :=
  ⟨held.created, heldParts parts held.received⟩

/-- The group of a message in the table, if it is not too old. -/
theorem lookup_unexpired {reassembly : CarrierReassembly} {id : Nat} {parts : List Bytes}
    {before : Option Progress} (held : reassembly.groups.lookup id = before.map (groupOf parts))
    (now : Nat) :
    (reassembly.unexpired now).lookup id =
      (before.filter (Progress.alive now)).map (groupOf parts) := by
  unfold CarrierReassembly.unexpired
  rw [Table.lookup_retain, held]
  cases before with
  | none => rfl
  | some progress =>
      rw [Option.map_some, Option.filter_some, Option.filter_some]
      unfold Progress.alive groupOf
      split <;> rfl

/-- One fragment of a message meets a receiver that has room for it. -/
theorem push_fragment {reassembly : CarrierReassembly} {id index now : Nat} {payload part : Bytes}
    {parts : List Bytes} (isParts : Parts payload parts) (small : payload.length ≤ maxDatagram)
    (idFits : id < 2 ^ 64) (isPart : parts[index]? = some part) {before : Option Progress}
    (sound : ∀ held, before = some held → held.Sound parts.length)
    (held : reassembly.groups.lookup id = before.map (groupOf parts))
    (room : ¬ (id ∉ reassembly.unexpired now ∧
      maxCarrierGroups ≤ (reassembly.unexpired now).size)) :
    (reassembly.push (carrierFrame id index parts.length part) now).2 =
        .ok (if (Progress.extended now index before).card = parts.length then some payload
          else none) ∧
      ∀ other, (reassembly.push (carrierFrame id index parts.length part) now).1.groups.lookup
          other =
        if other = id then (Progress.advance parts.length now index before).map (groupOf parts)
        else (reassembly.unexpired now).lookup other := by
  have below := (List.getElem?_eq_some_iff.mp isPart).1
  have positive := isParts.pos
  have few := isParts.few
  unfold maxCarrierFragments at few
  obtain ⟨long, isMessage, isIndex, isCount, isRest⟩ :=
    @carrierFrame_fields id index parts.length part (by omega) (by omega) (by omega)
  have group : ((reassembly.unexpired now).lookup id).getD
      ⟨now, List.replicate parts.length none⟩ = groupOf parts (Progress.current now before) := by
    rw [lookup_unexpired held, ← heldParts_empty]
    unfold Progress.current
    cases before.filter (Progress.alive now) <;> rfl
  have within := @Progress.extended_subset _ now _ _ sound below
  have stored : _ = heldParts parts (Progress.extended now index before) :=
    heldParts_insert (Progress.current now before).received isPart
  unfold CarrierReassembly.push
  rw [if_neg (Nat.not_lt.mpr long)]
  dsimp only
  rw [isMessage, isIndex, isCount, isRest, if_neg (by unfold maxCarrierFragments; omega),
    if_neg room, group]
  unfold groupOf at stored ⊢
  dsimp only at stored ⊢
  rw [if_neg (by rw [length_heldParts]; exact not_not.mpr rfl), stored]
  unfold CarrierReassembly.finish
  dsimp only
  by_cases full : (Progress.extended now index before).card = parts.length
  · -- The message is complete: its group goes and the parts are joined.
    have noneMissing : ¬ (heldParts parts (Progress.extended now index before)).any
        Option.isNone = true := by
      rw [any_isNone_heldParts within]
      exact not_not.mpr full
    have total : (parts.map List.length).sum = payload.length := by
      rw [← isParts.joined, List.length_flatten]
    have joined : (parts.map some).reduceOption = parts :=
      List.filterMap_map.trans List.filterMap_some
    rw [if_neg noneMissing, heldParts_full within full, joined, total,
      if_neg (Nat.not_lt.mpr small), if_pos full, isParts.joined]
    refine ⟨rfl, ?_⟩
    intro other
    unfold Progress.advance
    rw [if_pos full, Table.lookup_erase_eq, Table.lookup_insert_eq]
    split <;> rfl
  · have someMissing : (heldParts parts (Progress.extended now index before)).any
        Option.isNone = true := (any_isNone_heldParts within).mpr full
    rw [if_pos someMissing, if_neg full]
    refine ⟨rfl, ?_⟩
    intro other
    unfold Progress.advance
    rw [if_neg full, Table.lookup_insert_eq, Table.lookup_insert_eq]
    split <;> rfl

/-- A fragment of a message that has no group meets a full table. -/
theorem push_full {reassembly : CarrierReassembly} {id index count now : Nat} (part : Bytes)
    (idFits : id < 2 ^ 64) (inRange : index < count) (few : count ≤ maxCarrierFragments)
    (full : id ∉ reassembly.unexpired now ∧
      maxCarrierGroups ≤ (reassembly.unexpired now).size) :
    (reassembly.push (carrierFrame id index count part) now).2 = .error .limitReached := by
  unfold maxCarrierFragments at few
  obtain ⟨long, isMessage, isIndex, isCount, _⟩ :=
    @carrierFrame_fields id index count part (by omega) (by omega) (by omega)
  unfold CarrierReassembly.push
  rw [if_neg (Nat.not_lt.mpr long)]
  dsimp only
  rw [isMessage, isIndex, isCount, if_neg (by unfold maxCarrierFragments; omega), if_pos full]

/-! ### All messages -/

/-- The messages that have a group which is not too old, after the arrivals `front`. -/
def openMessages (sent : List (Bytes × List Bytes)) (front : List Arrival) (now : Nat) : List Nat :=
  (List.range sent.length).filter fun position =>
    ((progress sent position front).filter (Progress.alive now)).isSome

/-- There is room for the fragment: its message is open, or fewer than
`MAX_CARRIER_GROUPS` messages are. -/
def HasRoom (sent : List (Bytes × List Bytes)) (front : List Arrival) (arrival : Arrival) : Prop :=
  arrival.message ∈ openMessages sent front arrival.time ∨
    (openMessages sent front arrival.time).length < maxCarrierGroups

/-- After the arrivals `front`, the last one at `now`, the table holds the progress
of every message and nothing else. -/
structure Refines (sent : List (Bytes × List Bytes)) (front : List Arrival) (now : Nat)
    (reassembly : CarrierReassembly) : Prop where
  held : ∀ (position : Nat) (message : Bytes × List Bytes), sent[position]? = some message →
    reassembly.groups.lookup (messageId position) =
      ((progress sent position front).filter (Progress.alive now)).map (groupOf (partsOf message))
  known : ∀ id ∈ reassembly.groups, ∃ position < sent.length, messageId position = id

theorem refines_default (sent : List (Bytes × List Bytes)) :
    Refines sent [] 0 CarrierReassembly.default where
  held := by intros; rfl
  known := by
    intro id member
    cases member

theorem filter_alive_mono (before : Option Progress) {earlier now : Nat} (ordered : earlier ≤ now) :
    (before.filter (Progress.alive earlier)).filter (Progress.alive now) =
      before.filter (Progress.alive now) := by
  cases before with
  | none => rfl
  | some held =>
      by_cases alive : Progress.alive now held = true
      · have earlierAlive : Progress.alive earlier held = true := by
          unfold Progress.alive at alive ⊢
          rw [decide_eq_true_iff] at alive ⊢
          omega
        rw [Option.filter_some, if_pos earlierAlive]
      · rw [Option.filter_some]
        split
        · rfl
        · rw [Option.filter_some, if_neg alive]
          rfl

namespace Refines

variable {sent : List (Bytes × List Bytes)} {front : List Arrival} {earlier now : Nat}
  {reassembly : CarrierReassembly}

theorem lookup_unexpired (refines : Refines sent front earlier reassembly) (ordered : earlier ≤ now)
    {position : Nat} {message : Bytes × List Bytes} (isMessage : sent[position]? = some message) :
    (reassembly.unexpired now).lookup (messageId position) =
      ((progress sent position front).filter (Progress.alive now)).map
        (groupOf (partsOf message)) := by
  rw [Relay.lookup_unexpired (refines.held position message isMessage) now,
    filter_alive_mono _ ordered]

theorem mem_unexpired_iff (refines : Refines sent front earlier reassembly)
    (ordered : earlier ≤ now) {position : Nat} (within : position < sent.length) :
    messageId position ∈ reassembly.unexpired now ↔ position ∈ openMessages sent front now := by
  have isMessage := List.getElem?_eq_getElem within
  rw [← AList.lookup_isSome, refines.lookup_unexpired ordered isMessage, Option.isSome_map,
    openMessages, List.mem_filter, List.mem_range]
  exact ⟨fun isSome => ⟨within, isSome⟩, fun both => both.2⟩

/-- The size of the table is the number of open messages. -/
theorem size_unexpired (refines : Refines sent front earlier reassembly) (honest : Honest sent)
    (ordered : earlier ≤ now) :
    (reassembly.unexpired now).size = (openMessages sent front now).length := by
  have few := honest.few
  obtain ⟨keys, isSize, isKeys⟩ := Table.exists_keySet (reassembly.unexpired now)
  have distinct : (openMessages sent front now).Nodup := List.nodup_range.filter _
  have inSent : ∀ position ∈ openMessages sent front now, position < sent.length := by
    intro position member
    exact List.mem_range.mp (List.mem_filter.mp member).1
  have image : keys = (openMessages sent front now).toFinset.image messageId := by
    ext id
    rw [isKeys, Finset.mem_image]
    constructor
    · intro member
      have inTable : id ∈ reassembly.groups := by
        obtain ⟨group, found⟩ := Table.mem_iff_exists_lookup.mp member
        exact Table.mem_iff_exists_lookup.mpr ⟨group, Table.lookup_of_lookup_retain found⟩
      obtain ⟨position, within, rfl⟩ := refines.known id inTable
      rw [refines.mem_unexpired_iff ordered within] at member
      exact ⟨position, List.mem_toFinset.mpr member, rfl⟩
    · rintro ⟨position, member, rfl⟩
      rw [List.mem_toFinset] at member
      exact (refines.mem_unexpired_iff ordered (inSent position member)).mpr member
  rw [← isSize, image, Finset.card_image_of_injOn, List.toFinset_card_of_nodup distinct]
  intro left isLeft right isRight same
  have leftIn := inSent left (List.mem_toFinset.mp isLeft)
  have rightIn := inSent right (List.mem_toFinset.mp isRight)
  exact messageId_inj (by omega) (by omega) same

/-- The receiver has room exactly when the arrivals so far leave room. -/
theorem room_iff (refines : Refines sent front earlier reassembly) (honest : Honest sent)
    {arrival : Arrival} (ordered : earlier ≤ arrival.time)
    (within : arrival.message < sent.length) :
    ¬ (messageId arrival.message ∉ reassembly.unexpired arrival.time ∧
        maxCarrierGroups ≤ (reassembly.unexpired arrival.time).size) ↔
      HasRoom sent front arrival := by
  rw [refines.mem_unexpired_iff ordered within, refines.size_unexpired honest ordered,
    not_and_or, not_not, Nat.not_le]
  rfl

/-- A fragment the receiver has room for is stored; the last missing one completes its
message. -/
theorem push_ok (refines : Refines sent front earlier reassembly) (honest : Honest sent)
    (drawn : ∀ arrival ∈ front, (frameAt sent arrival).isSome) {arrival : Arrival} {frame : Bytes}
    (isFrame : frameAt sent arrival = some frame) (ordered : earlier ≤ arrival.time)
    (room : HasRoom sent front arrival) :
    ∃ payload, (sent[arrival.message]?).map Prod.fst = some payload ∧
      (reassembly.push frame arrival.time).2 =
        .ok (if (Progress.extended arrival.time arrival.fragment
            (progress sent arrival.message front)).card = fragmentCount sent arrival.message
          then some payload else none) ∧
      Refines sent (front ++ [arrival]) arrival.time (reassembly.push frame arrival.time).1 := by
  obtain ⟨message, isMessage, inMessage⟩ := frameAt_spec isFrame
  obtain ⟨parts, isParts, isFrames, small⟩ := honest.message _ _ isMessage
  rw [isFrames] at inMessage
  obtain ⟨part, isPart, rfl⟩ := getElem?_framesOf inMessage
  have within := (List.getElem?_eq_some_iff.mp isMessage).1
  have isCount : fragmentCount sent arrival.message = parts.length := by
    unfold fragmentCount
    rw [isMessage, Option.map_some, Option.getD_some, isFrames, length_framesOf]
  have idFits : messageId arrival.message < 2 ^ 64 := Nat.mod_lt _ (by decide)
  have held := refines.held arrival.message message isMessage
  rw [partsOf_eq isFrames] at held
  have sound : ∀ held, (progress sent arrival.message front).filter (Progress.alive earlier) =
      some held → held.Sound parts.length := by
    intro held isHeld
    rw [← isCount]
    exact progress_sound drawn held (Option.filter_eq_some_iff.mp isHeld).1
  obtain ⟨result, lookups⟩ := push_fragment isParts small idFits isPart sound held
    ((refines.room_iff honest ordered within).mpr room)
  -- Groups that were too old at the last push are too old now.
  have current : Progress.current arrival.time
      ((progress sent arrival.message front).filter (Progress.alive earlier)) =
        Progress.current arrival.time (progress sent arrival.message front) := by
    unfold Progress.current
    rw [filter_alive_mono _ ordered]
  have extended : Progress.extended arrival.time arrival.fragment
      ((progress sent arrival.message front).filter (Progress.alive earlier)) =
        Progress.extended arrival.time arrival.fragment (progress sent arrival.message front) := by
    unfold Progress.extended
    rw [current]
  have advanced : Progress.advance parts.length arrival.time arrival.fragment
      ((progress sent arrival.message front).filter (Progress.alive earlier)) =
        progress sent arrival.message (front ++ [arrival]) := by
    rw [progress_snoc, if_pos rfl, isCount]
    unfold Progress.advance
    rw [current, extended]
  rw [extended] at result
  rw [isCount]
  refine ⟨message.1, by rw [isMessage]; rfl, result, ?_, ?_⟩
  · intro position other isOther
    have otherWithin := (List.getElem?_eq_some_iff.mp isOther).1
    have few := honest.few
    rw [lookups]
    split
    next same =>
      have samePosition : position = arrival.message :=
        messageId_inj (by omega) (by omega) same
      subst samePosition
      have sameMessage : other = message := Option.some.inj (isOther.symm.trans isMessage)
      rw [advanced, sameMessage, partsOf_eq isFrames, progress_snoc, if_pos rfl,
        Progress.advance_alive]
    next different =>
      have notSame : arrival.message ≠ position := by
        rintro rfl
        exact different rfl
      rw [progress_snoc, if_neg notSame]
      exact refines.lookup_unexpired ordered isOther
  · intro id member
    obtain ⟨group, found⟩ := Table.mem_iff_exists_lookup.mp member
    rw [lookups] at found
    split at found
    next same => exact ⟨arrival.message, within, same.symm⟩
    next =>
      apply refines.known
      exact Table.mem_iff_exists_lookup.mpr ⟨group, Table.lookup_of_lookup_retain found⟩

/-- Without room the fragment is an error. -/
theorem push_error (refines : Refines sent front earlier reassembly) (honest : Honest sent)
    {arrival : Arrival} {frame : Bytes} (isFrame : frameAt sent arrival = some frame)
    (ordered : earlier ≤ arrival.time) (noRoom : ¬ HasRoom sent front arrival) :
    (reassembly.push frame arrival.time).2 = .error .limitReached := by
  obtain ⟨message, isMessage, inMessage⟩ := frameAt_spec isFrame
  obtain ⟨parts, isParts, isFrames, _⟩ := honest.message _ _ isMessage
  rw [isFrames] at inMessage
  obtain ⟨part, isPart, rfl⟩ := getElem?_framesOf inMessage
  have within := (List.getElem?_eq_some_iff.mp isMessage).1
  apply push_full part (Nat.mod_lt _ (by decide)) (List.getElem?_eq_some_iff.mp isPart).1
    isParts.few
  rw [← refines.room_iff honest ordered within, not_not] at noRoom
  exact noRoom

end Refines

end SmartFecTunnel.Relay
