import Mathlib.Data.List.Perm.Subperm
import SmartFecTunnel.Library.LossyChannel
import SmartFecTunnel.Relay.Reassembly

/-!
Contract: one direction of the datagram carrier while messages are sent, lost and received
in any order.

`Direction` relates the messages sent so far to the datagrams on the way and to the table of
the receiver: no fragment is on the way twice, what a group holds is no longer on the way,
and neither is any fragment of a message whose payload was given out.

Owns: that sending, losing and receiving keep this, and that the payloads given out are then
those of different messages.

Does not own: the loops of the two ends.
-/

namespace SmartFecTunnel.Relay

open SmartFecTunnel.Library

/-- The frame is a fragment of the message at a position. -/
def FragmentOf (sent : List (Bytes × List Bytes)) (position fragment : Nat) (frame : Bytes) :
    Prop :=
  ∃ message, sent[position]? = some message ∧ message.2[fragment]? = some frame

/-- What the table holds of a message, none of which is on the way. -/
structure Holds (message : Bytes × List Bytes) (way : List Bytes) (before : Option Progress) :
    Prop where
  sound : ∀ progress, before = some progress → progress.Sound message.2.length
  away : ∀ progress, before = some progress → ∀ fragment ∈ progress.received,
    ∀ frame, message.2[fragment]? = some frame → frame ∉ way

/-- One direction: `sender` is the counter of the sender and `receiver` the table of the
receiver, as long as they are there, and `given` the positions of the messages whose payload
was given out. -/
structure Direction (heartbeat : Bytes) (sender : Option Nat) (sent : List (Bytes × List Bytes))
    (way : List Bytes) (receiver : Option CarrierReassembly) (given : List Nat) : Prop where
  honest : Honest sent
  isHeartbeat : heartbeat = carrierPing ∨ heartbeat = carrierPong
  counter : ∀ message, sender = some message → message = sent.length % 2 ^ 64
  known : ∀ frame ∈ way, frame = heartbeat ∨ ∃ position fragment,
    FragmentOf sent position fragment frame
  once : ∀ frame, frame ≠ heartbeat → way.count frame ≤ 1
  held : ∀ reassembly, receiver = some reassembly → ∀ position message,
    sent[position]? = some message → ∃ before, Holds message way before ∧
      reassembly.groups.lookup (messageId position) = before.map (groupOf (partsOf message))
  ids : ∀ reassembly, receiver = some reassembly → ∀ id ∈ reassembly.groups,
    ∃ position < sent.length, messageId position = id
  distinct : given.Nodup
  given_sent : ∀ position ∈ given, position < sent.length
  given_away : ∀ position ∈ given, ∀ fragment frame,
    FragmentOf sent position fragment frame → frame ∉ way

/-! ### Fragments -/

theorem FragmentOf.append {sent : List (Bytes × List Bytes)} {position fragment : Nat}
    {frame : Bytes} (isFragment : FragmentOf sent position fragment frame)
    (more : List (Bytes × List Bytes)) : FragmentOf (sent ++ more) position fragment frame := by
  obtain ⟨message, isMessage, isFrame⟩ := isFragment
  exact ⟨message, (List.getElem?_append_left (List.getElem?_eq_some_iff.mp isMessage).1).trans
    isMessage, isFrame⟩

theorem FragmentOf.position_lt {sent : List (Bytes × List Bytes)} {position fragment : Nat}
    {frame : Bytes} (isFragment : FragmentOf sent position fragment frame) :
    position < sent.length := by
  obtain ⟨message, isMessage, _⟩ := isFragment
  exact (List.getElem?_eq_some_iff.mp isMessage).1

/-- A fragment of the messages with one more is one of them or of the last. -/
theorem FragmentOf.of_snoc {sent : List (Bytes × List Bytes)} {message : Bytes × List Bytes}
    {position fragment : Nat} {frame : Bytes}
    (isFragment : FragmentOf (sent ++ [message]) position fragment frame) :
    FragmentOf sent position fragment frame ∨
      (position = sent.length ∧ message.2[fragment]? = some frame) := by
  obtain ⟨found, isFound, isFrame⟩ := isFragment
  rcases getElem?_snoc isFound with isOld | ⟨isLast, rfl⟩
  · exact Or.inl ⟨found, isOld, isFrame⟩
  · exact Or.inr ⟨isLast, isFrame⟩

/-- What a fragment is made of. -/
theorem FragmentOf.spec {sent : List (Bytes × List Bytes)} {position fragment : Nat}
    {frame : Bytes} (isFragment : FragmentOf sent position fragment frame) (honest : Honest sent) :
    ∃ message parts part, sent[position]? = some message ∧ Parts message.1 parts ∧
      message.2 = framesOf (messageId position) parts ∧ message.1.length ≤ maxDatagram ∧
      position < 2 ^ 64 ∧ parts[fragment]? = some part ∧ fragment < parts.length ∧
      frame = carrierFrame (messageId position) fragment parts.length part := by
  obtain ⟨message, isMessage, isFrame⟩ := isFragment
  obtain ⟨parts, isParts, isFrames, small⟩ := honest.message position message isMessage
  rw [isFrames] at isFrame
  obtain ⟨part, isPart, isCarrier⟩ := getElem?_framesOf isFrame
  have within := (List.getElem?_eq_some_iff.mp isMessage).1
  have few := honest.few
  exact ⟨message, parts, part, isMessage, isParts, isFrames, small, by omega, isPart,
    (List.getElem?_eq_some_iff.mp isPart).1, isCarrier⟩

/-- A frame is a fragment of one message only, and at one place of it. -/
theorem FragmentOf.inj {sent : List (Bytes × List Bytes)} {left right i j : Nat} {frame : Bytes}
    (isLeft : FragmentOf sent left i frame) (isRight : FragmentOf sent right j frame)
    (honest : Honest sent) : left = right ∧ i = j := by
  obtain ⟨_, leftParts, leftPart, _, leftIs, _, _, leftFits, _, leftIn, leftFrame⟩ :=
    isLeft.spec honest
  obtain ⟨_, rightParts, rightPart, _, rightIs, _, _, rightFits, _, rightIn, rightFrame⟩ :=
    isRight.spec honest
  have leftFew := leftIs.few
  have rightFew := rightIs.few
  unfold maxCarrierFragments at leftFew rightFew
  have leftFields := @carrierFrame_fields (messageId left) i leftParts.length leftPart
    (Nat.mod_lt _ (by decide)) (by omega) (by omega)
  have rightFields := @carrierFrame_fields (messageId right) j rightParts.length rightPart
    (Nat.mod_lt _ (by decide)) (by omega) (by omega)
  rw [← leftFrame] at leftFields
  rw [← rightFrame] at rightFields
  refine ⟨messageId_inj leftFits rightFits ?_, ?_⟩
  · rw [← leftFields.2.1, rightFields.2.1]
  · rw [← leftFields.2.2.1, rightFields.2.2.1]

theorem FragmentOf.ne_heartbeat {sent : List (Bytes × List Bytes)} {position fragment : Nat}
    {frame heartbeat : Bytes} (isFragment : FragmentOf sent position fragment frame)
    (honest : Honest sent) (isHeartbeat : heartbeat = carrierPing ∨ heartbeat = carrierPong) :
    frame ≠ heartbeat := by
  obtain ⟨_, _, part, _, isParts, _, _, _, _, _, rfl⟩ := isFragment.spec honest
  have differs := carrierFrame_ne_heartbeat (messageId position) fragment part isParts.few
  rcases isHeartbeat with rfl | rfl
  · exact differs.1
  · exact differs.2

theorem Honest.snoc {sent : List (Bytes × List Bytes)} (honest : Honest sent) {payload : Bytes}
    {frames parts : List Bytes} (isParts : Parts payload parts)
    (isFrames : frames = framesOf (messageId sent.length) parts)
    (small : payload.length ≤ maxDatagram) (few : sent.length < 2 ^ 64) :
    Honest (sent ++ [(payload, frames)]) where
  message := by
    intro position message found
    rcases getElem?_snoc found with isOld | ⟨isLast, rfl⟩
    · exact honest.message position message isOld
    · exact ⟨parts, isParts, isLast ▸ isFrames, small⟩
  few := by
    rw [List.length_append, List.length_singleton]
    exact few

theorem nodup_framesOf (id : Nat) {payload : Bytes} {parts : List Bytes}
    (isParts : Parts payload parts) : (framesOf id parts).Nodup := by
  have few := isParts.few
  unfold maxCarrierFragments at few
  have indexOf : ∀ index part, index < parts.length →
      number (carrierFrame id index parts.length part) 8 10 = index := by
    intro index part below
    unfold carrierFrame
    exact number_pack 1 rfl (by omega : index < 256 ^ 2) rfl rfl part
  rw [List.nodup_iff_getElem?_ne_getElem?]
  intro left right ordered within same
  have isRight := List.getElem?_eq_getElem within
  rw [length_framesOf] at within
  obtain ⟨leftPart, _, leftFrame⟩ := getElem?_framesOf (same.trans isRight)
  obtain ⟨rightPart, _, rightFrame⟩ := getElem?_framesOf isRight
  have leftIndex := indexOf left leftPart (by omega)
  have rightIndex := indexOf right rightPart within
  rw [← leftFrame, rightFrame] at leftIndex
  omega

/-! ### Less -/

theorem Progress.mem_current {time fragment : Nat} {before : Option Progress}
    (member : fragment ∈ (Progress.current time before).received) :
    ∃ progress, before = some progress ∧ fragment ∈ progress.received := by
  unfold Progress.current at member
  cases kept : before.filter (Progress.alive time) with
  | none =>
      rw [kept] at member
      exact absurd member (Finset.notMem_empty _)
  | some progress =>
      rw [kept] at member
      exact ⟨progress, (Option.filter_eq_some_iff.mp kept).1, member⟩

theorem Holds.filter {message : Bytes × List Bytes} {way : List Bytes} {before : Option Progress}
    (holds : Holds message way before) (now : Nat) :
    Holds message way (before.filter (Progress.alive now)) where
  sound := fun progress kept => holds.sound progress (Option.filter_eq_some_iff.mp kept).1
  away := fun progress kept => holds.away progress (Option.filter_eq_some_iff.mp kept).1

theorem Holds.subset {message : Bytes × List Bytes} {way rest : List Bytes}
    {before : Option Progress} (holds : Holds message way before) (fewer : rest ⊆ way) :
    Holds message rest before where
  sound := holds.sound
  away := fun progress isProgress fragment member frame isFrame onWay =>
    holds.away progress isProgress fragment member frame isFrame (fewer onWay)

namespace Direction

variable {heartbeat : Bytes} {sender : Option Nat} {sent : List (Bytes × List Bytes)}
  {way : List Bytes} {receiver : Option CarrierReassembly} {given : List Nat}

/-- Datagrams may get lost and the ends may go. -/
theorem weaken (direction : Direction heartbeat sender sent way receiver given)
    {fewer : Option Nat} {rest : List Bytes} {less : Option CarrierReassembly}
    (senderLeft : ∀ message, fewer = some message → sender = some message)
    (wayLeft : rest.Subperm way)
    (receiverLeft : ∀ reassembly, less = some reassembly → receiver = some reassembly) :
    Direction heartbeat fewer sent rest less given where
  honest := direction.honest
  isHeartbeat := direction.isHeartbeat
  counter := fun message isMessage => direction.counter message (senderLeft message isMessage)
  known := fun frame member => direction.known frame (wayLeft.subset member)
  once := fun frame isData => (wayLeft.count_le frame).trans (direction.once frame isData)
  held := by
    intro reassembly isReassembly position message isMessage
    obtain ⟨before, holds, isGroup⟩ :=
      direction.held reassembly (receiverLeft reassembly isReassembly) position message isMessage
    exact ⟨before, holds.subset wayLeft.subset, isGroup⟩
  ids := fun reassembly isReassembly =>
    direction.ids reassembly (receiverLeft reassembly isReassembly)
  distinct := direction.distinct
  given_sent := direction.given_sent
  given_away := fun position member fragment frame isFragment onWay =>
    direction.given_away position member fragment frame isFragment (wayLeft.subset onWay)

/-- Nothing has happened yet. -/
theorem start (isHeartbeat : heartbeat = carrierPing ∨ heartbeat = carrierPong) :
    Direction heartbeat (some 0) [] [] (some .default) [] where
  honest := ⟨fun position message found => absurd found (by simp), Nat.zero_le _⟩
  isHeartbeat := isHeartbeat
  counter := fun message isMessage => by cases isMessage; rfl
  known := fun frame member => absurd member List.not_mem_nil
  once := fun frame _ => Nat.zero_le _
  held := fun reassembly _ position message isMessage => by cases isMessage
  ids := by
    intro reassembly isReassembly id member
    cases isReassembly
    cases member
  distinct := List.nodup_nil
  given_sent := fun position member => absurd member List.not_mem_nil
  given_away := fun position member => absurd member List.not_mem_nil

/-! ### Sending -/

/-- A heartbeat is sent. -/
theorem heartbeat_sent (direction : Direction heartbeat sender sent way receiver given) :
    Direction heartbeat sender sent (way ++ [heartbeat]) receiver given where
  honest := direction.honest
  isHeartbeat := direction.isHeartbeat
  counter := direction.counter
  known := by
    intro frame member
    rcases List.mem_append.mp member with old | new
    · exact direction.known frame old
    · exact Or.inl (List.mem_singleton.mp new)
  once := by
    intro frame isData
    rw [List.count_append, List.count_singleton]
    simpa [isData.symm] using direction.once frame isData
  held := by
    intro reassembly isReassembly position message isMessage
    obtain ⟨before, holds, isGroup⟩ :=
      direction.held reassembly isReassembly position message isMessage
    refine ⟨before, ⟨holds.sound, ?_⟩, isGroup⟩
    intro progress isProgress fragment member frame isFrame onWay
    rcases List.mem_append.mp onWay with old | new
    · exact holds.away progress isProgress fragment member frame isFrame old
    · exact FragmentOf.ne_heartbeat ⟨message, isMessage, isFrame⟩ direction.honest
        direction.isHeartbeat (List.mem_singleton.mp new)
  ids := direction.ids
  distinct := direction.distinct
  given_sent := direction.given_sent
  given_away := by
    intro position member fragment frame isFragment onWay
    rcases List.mem_append.mp onWay with old | new
    · exact direction.given_away position member fragment frame isFragment old
    · exact isFragment.ne_heartbeat direction.honest direction.isHeartbeat
        (List.mem_singleton.mp new)

/-- A message is sent. -/
theorem message_sent {message next : Nat} {maximum : Option Nat} {payload : Bytes}
    {frames : List Bytes} (direction : Direction heartbeat (some message) sent way receiver given)
    (isSent : sendCarrier maximum payload message = (next, .ok frames))
    (small : payload.length ≤ maxDatagram) (few : sent.length < 2 ^ 64) :
    Direction heartbeat (some next) (sent ++ [(payload, frames)]) (frames ++ way) receiver
      given := by
  obtain ⟨isNext, _, parts, _, isParts, isFrames, _⟩ := sendCarrier_ok isSent
  have isId : next = messageId sent.length := by
    have counter := direction.counter message rfl
    unfold messageId
    omega
  rw [isId] at isFrames
  have honest := direction.honest.snoc isParts isFrames small few
  have isNew : ∀ frame ∈ frames, ∃ fragment,
      FragmentOf (sent ++ [(payload, frames)]) sent.length fragment frame := by
    intro frame member
    obtain ⟨index, isFrame⟩ := List.mem_iff_getElem?.mp member
    exact ⟨index, _, List.getElem?_concat_length, isFrame⟩
  have notOld : ∀ frame ∈ frames, ∀ position fragment,
      ¬ FragmentOf sent position fragment frame := by
    intro frame member position fragment isOld
    obtain ⟨index, isFragment⟩ := isNew frame member
    have same := (isFragment.inj (isOld.append _) honest).1
    have below := isOld.position_lt
    omega
  have notOnWay : ∀ frame ∈ frames, frame ∉ way := by
    intro frame member onWay
    rcases direction.known frame onWay with same | ⟨position, fragment, isFragment⟩
    · obtain ⟨index, isFragment⟩ := isNew frame member
      exact isFragment.ne_heartbeat honest direction.isHeartbeat same
    · exact notOld frame member position fragment isFragment
  constructor
  · exact honest
  · exact direction.isHeartbeat
  · intro counter isCounter
    cases isCounter
    rw [isId, List.length_append, List.length_singleton, messageId]
  · intro frame member
    rcases List.mem_append.mp member with new | old
    · obtain ⟨index, isFragment⟩ := isNew frame new
      exact Or.inr ⟨sent.length, index, isFragment⟩
    · rcases direction.known frame old with same | ⟨position, fragment, isFragment⟩
      · exact Or.inl same
      · exact Or.inr ⟨position, fragment, isFragment.append _⟩
  · intro frame isData
    rw [List.count_append]
    by_cases new : frame ∈ frames
    · rw [List.count_eq_zero.mpr (notOnWay frame new), Nat.add_zero]
      exact List.nodup_iff_count_le_one.mp (isFrames ▸ nodup_framesOf _ isParts) frame
    · rw [List.count_eq_zero.mpr new, Nat.zero_add]
      exact direction.once frame isData
  · intro reassembly isReassembly position found isFound
    rcases getElem?_snoc isFound with isOld | ⟨isLast, _⟩
    · obtain ⟨before, holds, isGroup⟩ :=
        direction.held reassembly isReassembly position found isOld
      refine ⟨before, ⟨holds.sound, ?_⟩, isGroup⟩
      intro progress isProgress fragment member frame isFrame onWay
      rcases List.mem_append.mp onWay with new | old
      · exact notOld frame new position fragment ⟨found, isOld, isFrame⟩
      · exact holds.away progress isProgress fragment member frame isFrame old
    · -- The new message has no group: its number is not among those of the others.
      refine ⟨none, ⟨by simp, by simp⟩, AList.lookup_eq_none.mpr ?_⟩
      intro member
      obtain ⟨other, below, sameId⟩ := direction.ids reassembly isReassembly _ member
      have same := messageId_inj (by omega) (by omega) sameId
      omega
  · intro reassembly isReassembly id member
    obtain ⟨position, below, isPosition⟩ := direction.ids reassembly isReassembly id member
    exact ⟨position, by rw [List.length_append]; exact Nat.lt_add_right _ below, isPosition⟩
  · exact direction.distinct
  · intro position member
    rw [List.length_append]
    exact Nat.lt_add_right _ (direction.given_sent position member)
  · intro position member fragment frame isFragment onWay
    rcases isFragment.of_snoc with isOld | ⟨isLast, _⟩
    · rcases List.mem_append.mp onWay with new | old
      · exact notOld frame new position fragment isOld
      · exact direction.given_away position member fragment frame isOld old
    · have below := direction.given_sent position member
      omega

/-! ### Receiving -/

theorem arrived (direction : Direction heartbeat sender sent way receiver given)
    (incoming : Bytes) :
    Direction heartbeat sender sent (way.erase incoming) receiver given :=
  direction.weaken (fun _ => id) List.erase_sublist.subperm (fun _ => id)

/-- A fragment that has arrived is not on the way any more. -/
theorem not_mem_erase (direction : Direction heartbeat sender sent way receiver given)
    {incoming : Bytes} (isData : incoming ≠ heartbeat) : incoming ∉ way.erase incoming := by
  have once := direction.once incoming isData
  rw [← List.count_eq_zero, List.count_erase_self]
  omega

/-- A fragment for which there is room gets into its group. -/
theorem fragment_stored {reassembly : CarrierReassembly}
    (direction : Direction heartbeat sender sent way (some reassembly) given)
    {incoming : Bytes} (isData : incoming ≠ heartbeat) (arrives : incoming ∈ way)
    {position fragment now : Nat} {message : Bytes × List Bytes} {parts : List Bytes}
    {before : Option Progress} {next : CarrierReassembly}
    (isMessage : sent[position]? = some message) (isFrame : message.2[fragment]? = some incoming)
    (isFrames : message.2 = framesOf (messageId position) parts)
    (holds : Holds message way before)
    (lookups : ∀ other, next.groups.lookup other =
      if other = messageId position then
        (Progress.advance parts.length now fragment before).map (groupOf parts)
      else (reassembly.unexpired now).lookup other) :
    Direction heartbeat sender sent (way.erase incoming) (some next)
      (if (Progress.extended now fragment before).card = parts.length then given ++ [position]
        else given) := by
  have rest := direction.arrived incoming
  have fits := direction.honest.few
  have below := (List.getElem?_eq_some_iff.mp isMessage).1
  have isCount : message.2.length = parts.length := by rw [isFrames, length_framesOf]
  have inRange : fragment < parts.length := by
    rw [← isCount]
    exact (List.getElem?_eq_some_iff.mp isFrame).1
  have sound : ∀ progress, before = some progress → progress.Sound parts.length :=
    fun progress isProgress => isCount ▸ holds.sound progress isProgress
  -- The fragments of the group, with the new one, have left the way.
  have away : ∀ index ∈ Progress.extended now fragment before, ∀ frame,
      message.2[index]? = some frame → frame ∉ way.erase incoming := by
    intro index member frame isIndex onWay
    rcases Finset.mem_insert.mp member with rfl | old
    · rw [isFrame] at isIndex
      cases isIndex
      exact direction.not_mem_erase isData onWay
    · obtain ⟨progress, isProgress, inProgress⟩ := Progress.mem_current old
      exact holds.away progress isProgress index inProgress frame isIndex
        (List.mem_of_mem_erase onWay)
  refine ⟨rest.honest, rest.isHeartbeat, rest.counter, rest.known, rest.once, ?_, ?_, ?_, ?_, ?_⟩
  · intro reassembly isReassembly other found isFound
    cases isReassembly
    by_cases same : other = position
    · subst same
      rw [isMessage] at isFound
      cases isFound
      refine ⟨Progress.advance parts.length now fragment before, ⟨?_, ?_⟩, ?_⟩
      · rw [isCount]
        exact Progress.advance_sound sound inRange
      · intro progress advanced index member frame isIndex
        unfold Progress.advance at advanced
        split at advanced
        next => cases advanced
        next =>
          cases advanced
          exact away index member frame isIndex
      · rw [lookups, if_pos rfl, partsOf_eq isFrames]
    · have otherBelow := (List.getElem?_eq_some_iff.mp isFound).1
      have otherId : messageId other ≠ messageId position :=
        fun sameId => same (messageId_inj (by omega) (by omega) sameId)
      obtain ⟨held, otherHolds, isGroup⟩ := direction.held _ rfl other found isFound
      refine ⟨held.filter (Progress.alive now),
        (otherHolds.subset (List.erase_subset)).filter now, ?_⟩
      rw [lookups, if_neg otherId, lookup_unexpired isGroup]
  · intro reassembly isReassembly id member
    cases isReassembly
    obtain ⟨group, isGroup⟩ := Table.mem_iff_exists_lookup.mp member
    rw [lookups] at isGroup
    split at isGroup
    next same => exact ⟨position, below, same.symm⟩
    next =>
      have inTable := Table.mem_iff_exists_lookup.mpr
        ⟨group, Table.lookup_of_lookup_retain isGroup⟩
      exact direction.ids _ rfl id inTable
  · split
    · refine List.nodup_append.mpr ⟨direction.distinct, List.nodup_singleton _, ?_⟩
      intro other member last isLast same
      rw [List.mem_singleton] at isLast
      rw [same, isLast] at member
      exact direction.given_away position member fragment incoming ⟨message, isMessage, isFrame⟩
        arrives
    · exact direction.distinct
  · intro other member
    split at member
    · rcases List.mem_append.mp member with old | new
      · exact direction.given_sent other old
      · exact List.mem_singleton.mp new ▸ below
    · exact direction.given_sent other member
  · intro other member index frame isFragment
    split at member
    next full =>
      rcases List.mem_append.mp member with old | new
      · exact rest.given_away other old index frame isFragment
      · rw [List.mem_singleton.mp new] at isFragment
        obtain ⟨found, isFound, isIndex⟩ := isFragment
        rw [isMessage] at isFound
        cases isFound
        have all := Finset.eq_of_subset_of_card_le
          (@Progress.extended_subset parts.length now fragment before sound inRange)
          (by rw [full, Finset.card_range])
        refine away index ?_ frame isIndex
        rw [all, Finset.mem_range, ← isCount]
        exact (List.getElem?_eq_some_iff.mp isIndex).1
    next => exact rest.given_away other member index frame isFragment

/-- What a datagram that is no heartbeat can do to the receiver. -/
inductive Received (heartbeat : Bytes) (sender : Option Nat) (sent : List (Bytes × List Bytes))
    (rest : List Bytes) (given : List Nat) :
    CarrierReassembly × Except CarrierError (Option Bytes) → Prop
  | waiting {next : CarrierReassembly}
      (direction : Direction heartbeat sender sent rest (some next) given) :
      Received heartbeat sender sent rest given (next, .ok none)
  | complete {next : CarrierReassembly} {position : Nat} {message : Bytes × List Bytes}
      (isMessage : sent[position]? = some message)
      (direction : Direction heartbeat sender sent rest (some next) (given ++ [position])) :
      Received heartbeat sender sent rest given (next, .ok (some message.1))
  | full (next : CarrierReassembly) :
      Received heartbeat sender sent rest given (next, .error .limitReached)

/-- A datagram that is no heartbeat is stored, completes its message or finds the table
full. -/
theorem fragment_received {reassembly : CarrierReassembly}
    (direction : Direction heartbeat sender sent way (some reassembly) given)
    {incoming : Bytes} (isData : incoming ≠ heartbeat) (arrives : incoming ∈ way) (now : Nat) :
    Received heartbeat sender sent (way.erase incoming) given (reassembly.push incoming now) := by
  obtain ⟨position, fragment, isFragment⟩ :=
    (direction.known incoming arrives).resolve_left isData
  obtain ⟨message, parts, part, isMessage, isParts, isFrames, small, _, isPart, inRange, isIncoming⟩ :=
    isFragment.spec direction.honest
  obtain ⟨found, isFound, isFrame⟩ := isFragment
  rw [isMessage] at isFound
  cases isFound
  obtain ⟨before, holds, isGroup⟩ := direction.held _ rfl position message isMessage
  rw [partsOf_eq isFrames] at isGroup
  have idFits : messageId position < 2 ^ 64 := Nat.mod_lt _ (by decide)
  by_cases full : messageId position ∉ reassembly.unexpired now ∧
      maxCarrierGroups ≤ (reassembly.unexpired now).size
  · have refused := push_full part idFits inRange isParts.few full
    rw [← isIncoming] at refused
    rw [← Prod.eta (reassembly.push incoming now), refused]
    exact .full _
  · have sound : ∀ progress, before = some progress → progress.Sound parts.length := by
      rw [← length_framesOf (messageId position) parts, ← isFrames]
      exact holds.sound
    obtain ⟨result, lookups⟩ := push_fragment isParts small idFits isPart sound isGroup full
    rw [← isIncoming] at result lookups
    have stored := direction.fragment_stored isData arrives isMessage isFrame isFrames holds lookups
    rw [← Prod.eta (reassembly.push incoming now), result]
    split
    next isComplete =>
      rw [if_pos isComplete] at stored
      exact .complete isMessage stored
    next isPartial =>
      rw [if_neg isPartial] at stored
      exact .waiting stored

end Direction

end SmartFecTunnel.Relay
