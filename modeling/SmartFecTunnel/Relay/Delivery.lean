import SmartFecTunnel.Relay.Reassembly

/-!
Contract: what a receiver makes of the frames of a sender over a whole run.

Owns:
- that every payload comes back byte for byte with its last missing fragment, and
  that no frame is taken for a heartbeat;
- exactly when a receiver fails on frames of an honest sender.

The clock of the receiver does not go back.
-/

namespace SmartFecTunnel.Relay

open SmartFecTunnel.Library

/-! ### Runs of a receiver -/

section Runs

variable {sent : List (Bytes × List Bytes)} {arrivals : List Arrival}

/-- The receiver holds what the arrivals so far leave of every message. -/
def Tracks (sent : List (Bytes × List Bytes)) (front : List Arrival)
    (reassembly : CarrierReassembly) : Prop :=
  ∃ now, (now = 0 ∨ ∃ arrival ∈ front, arrival.time = now) ∧ Refines sent front now reassembly

theorem tracks_default (sent : List (Bytes × List Bytes)) :
    Tracks sent [] CarrierReassembly.default :=
  ⟨0, Or.inl rfl, refines_default sent⟩

/-- One arrival at a receiver that tracks the messages: with room the fragment is stored,
without room it is an error. -/
theorem Tracks.receive {front : List Arrival} {arrival : Arrival} {reassembly : CarrierReassembly}
    (tracks : Tracks sent front reassembly) (honest : Honest sent)
    (drawn : ∀ arrival ∈ arrivals, (frameAt sent arrival).isSome)
    (clock : arrivals.Pairwise fun earlier later => earlier.time ≤ later.time)
    (isPrefix : front ++ [arrival] <+: arrivals) :
    ∃ next result, receive sent reassembly arrival = some (next, [result]) ∧
      (HasRoom sent front arrival → Tracks sent (front ++ [arrival]) next ∧
        ∃ payload, (sent[arrival.message]?).map Prod.fst = some payload ∧
          result = .ok (if (Progress.extended arrival.time arrival.fragment
              (progress sent arrival.message front)).card = fragmentCount sent arrival.message
            then some payload else none)) ∧
      (¬ HasRoom sent front arrival → result = .error .limitReached) := by
  obtain ⟨now, isNow, refines⟩ := tracks
  have ordered : now ≤ arrival.time := by
    rcases isNow with rfl | ⟨earlier, member, rfl⟩
    · exact Nat.zero_le _
    · exact earlier_of_front clock isPrefix earlier member
  have frontDrawn : ∀ other ∈ front, (frameAt sent other).isSome := by
    intro other member
    exact drawn other (isPrefix.subset (List.mem_append_left _ member))
  obtain ⟨frame, isFrame⟩ := Option.isSome_iff_exists.mp
    (drawn arrival (mem_of_front isPrefix))
  refine ⟨(reassembly.push frame arrival.time).1, (reassembly.push frame arrival.time).2, ?_, ?_,
    ?_⟩
  · unfold Relay.receive
    rw [isFrame]
    rfl
  · intro room
    obtain ⟨payload, isPayload, result, later⟩ :=
      refines.push_ok honest frontDrawn isFrame ordered room
    refine ⟨⟨arrival.time, Or.inr ⟨arrival, by simp, rfl⟩, later⟩, payload, isPayload, result⟩
  · intro noRoom
    exact refines.push_error honest isFrame ordered noRoom

/-- As long as there is room, no call fails. -/
theorem run_of_room (honest : Honest sent)
    (drawn : ∀ arrival ∈ arrivals, (frameAt sent arrival).isSome)
    (clock : arrivals.Pairwise fun earlier later => earlier.time ≤ later.time)
    (room : ∀ front arrival, front ++ [arrival] <+: arrivals → HasRoom sent front arrival) :
    ∃ state results, run (receive sent) CarrierReassembly.default arrivals = some (state, results) ∧
      Tracks sent arrivals state ∧ ∀ result ∈ results, ∃ output, result = .ok output := by
  apply run_induction (receive sent) CarrierReassembly.default arrivals
    (fun past results state => Tracks sent past state ∧
      ∀ result ∈ results, ∃ output, result = .ok output)
  · refine ⟨tracks_default sent, ?_⟩
    intro result member
    cases member
  · rintro past arrival results state isPrefix _ ⟨tracks, allOk⟩
    obtain ⟨next, result, received, withRoom, _⟩ := tracks.receive honest drawn clock isPrefix
    obtain ⟨later, payload, _, isOk⟩ := withRoom (room past arrival isPrefix)
    refine ⟨next, [result], received, later, ?_⟩
    intro other member
    rcases List.mem_append.mp member with old | new
    · exact allOk other old
    · rw [List.mem_singleton] at new
      exact ⟨_, new.trans isOk⟩

/-- A run without a failed call had room for every fragment. -/
theorem room_of_run (honest : Honest sent)
    (drawn : ∀ arrival ∈ arrivals, (frameAt sent arrival).isSome)
    (clock : arrivals.Pairwise fun earlier later => earlier.time ≤ later.time)
    {state : CarrierReassembly} {results : List (Except CarrierError (Option Bytes))}
    (ran : run (receive sent) CarrierReassembly.default arrivals = some (state, results))
    (allOk : ∀ result ∈ results, ∃ output, result = .ok output) :
    ∀ front arrival, front ++ [arrival] <+: arrivals → HasRoom sent front arrival := by
  -- Along a run without an error so far, the receiver tracks the messages and there was room.
  suffices invariant : (∀ result ∈ results, ∃ output, result = .ok output) →
      Tracks sent arrivals state ∧
        ∀ front arrival, front ++ [arrival] <+: arrivals → HasRoom sent front arrival from
    (invariant allOk).2
  refine run_invariant ran
    (fun past results state => (∀ result ∈ results, ∃ output, result = .ok output) →
      Tracks sent past state ∧
        ∀ front arrival, front ++ [arrival] <+: past → HasRoom sent front arrival) ?_ ?_
  · intro _
    refine ⟨tracks_default sent, ?_⟩
    intro front arrival isPrefix
    have length := isPrefix.length_le
    rw [List.length_append, List.length_singleton] at length
    cases length
  · intro past arrival results state next emitted isPrefix _ stepped earlier nowOk
    obtain ⟨tracks, room⟩ := earlier fun result member =>
      nowOk result (List.mem_append_left _ member)
    obtain ⟨after, result, received, withRoom, noRoom⟩ :=
      tracks.receive honest drawn clock isPrefix
    rw [received] at stepped
    cases stepped
    have hasRoom : HasRoom sent past arrival := by
      by_contra full
      obtain ⟨output, isOk⟩ := nowOk result (by simp)
      rw [noRoom full] at isOk
      cases isOk
    refine ⟨(withRoom hasRoom).1, ?_⟩
    intro front last inPast
    rcases List.prefix_concat_iff.mp inPast with whole | within
    · obtain ⟨sameFront, sameLast⟩ := List.append_inj' whole rfl
      cases sameLast
      rw [sameFront]
      exact hasRoom
    · exact room front last within

end Runs

/-! ### When a receiver fails -/

/-- Whatever part of the frames of a sender arrives, in any order and at any times,
no call of `push` fails, exactly when every fragment of a message without an open
group finds fewer than `MAX_CARRIER_GROUPS` messages open. -/
theorem carrier_never_fails_iff (sends : List (Option Nat × Bytes))
    (small : ∀ send ∈ sends, send.2.length ≤ maxDatagram) (few : sends.length ≤ 2 ^ 64)
    (arrivals : List Arrival)
    (drawn : ∀ arrival ∈ arrivals, (frameAt (sendAll 0 sends) arrival).isSome)
    (clock : arrivals.Pairwise fun earlier later => earlier.time ≤ later.time) :
    (∃ state results,
      run (receive (sendAll 0 sends)) CarrierReassembly.default arrivals = some (state, results) ∧
      ∀ result ∈ results, ∃ output, result = .ok output) ↔
    ∀ front arrival, front ++ [arrival] <+: arrivals →
      HasRoom (sendAll 0 sends) front arrival := by
  have honest := honest_sendAll small few
  constructor
  · rintro ⟨state, results, ran, allOk⟩
    exact room_of_run honest drawn clock ran allOk
  · intro room
    obtain ⟨state, results, ran, _, allOk⟩ := run_of_room honest drawn clock room
    exact ⟨state, results, ran, allOk⟩

/-- A single fragment of a message of two. -/
theorem carrier_never_fails_one_fragment :
    ∃ state results,
      run (receive (sendAll 0 [(some 13, [1, 2])])) CarrierReassembly.default [⟨0, 0, 5⟩] =
        some (state, results) ∧
      ∀ result ∈ results, ∃ output, result = .ok output := by
  apply (carrier_never_fails_iff [(some 13, [1, 2])] (by decide) (by decide) [⟨0, 0, 5⟩]
    (by decide) (by decide)).mpr
  intro front arrival isPrefix
  refine Or.inr (lt_of_le_of_lt (List.length_filter_le _ _) ?_)
  decide

/-- A message without an arrival has no group. -/
theorem progress_eq_none {sent : List (Bytes × List Bytes)} {position : Nat}
    {front : List Arrival} (absent : ∀ arrival ∈ front, arrival.message ≠ position) :
    progress sent position front = none := by
  induction front using List.reverseRecOn with
  | nil => rfl
  | append_singleton front arrival inductionHypothesis =>
      rw [progress_snoc, if_neg (absent arrival (by simp))]
      exact inductionHypothesis fun other member => absent other (List.mem_append_left _ member)

theorem mem_of_mem_openMessages {sent : List (Bytes × List Bytes)} {front : List Arrival}
    {now position : Nat} (member : position ∈ openMessages sent front now) :
    position ∈ front.map Arrival.message := by
  by_contra absent
  have isNone : progress sent position front = none := by
    apply progress_eq_none
    rintro arrival inFront rfl
    exact absent (List.mem_map_of_mem inFront)
  have isSome := (List.mem_filter.mp member).2
  rw [isNone] at isSome
  cases isSome

/-- At most one message is open for each arrival. -/
theorem length_openMessages_le (sent : List (Bytes × List Bytes)) (front : List Arrival)
    (now : Nat) : (openMessages sent front now).length ≤ front.length := by
  have distinct : (openMessages sent front now).Nodup := List.nodup_range.filter _
  have within : openMessages sent front now ⊆ front.map Arrival.message :=
    fun _ member => mem_of_mem_openMessages member
  have bound := (distinct.subperm within).length_le
  rwa [List.length_map] at bound

/-- Messages of two fragments. -/
def pairSends (count : Nat) : List (Option Nat × Bytes) := List.replicate count (some 13, [1, 2])

/-- The first fragment of each of `count` messages, all at once. -/
def firstFragments (count : Nat) : List Arrival := (List.range count).map fun message => ⟨message, 0, 0⟩

theorem length_sendAll_pairSends (message count : Nat) :
    (sendAll message (pairSends count)).length = count := by
  induction count generalizing message with
  | zero => rfl
  | succ count inductionHypothesis =>
      have step : sendAll message (pairSends (count + 1)) =
          ([1, 2], framesOf ((message + 1) % 2 ^ 64) [[1], [2]]) ::
            sendAll ((message + 1) % 2 ^ 64) (pairSends count) := rfl
      rw [step, List.length_cons, inductionHypothesis]

theorem fragmentCount_pairSends {count position : Nat} (within : position < count) :
    fragmentCount (sendAll 0 (pairSends count)) position = 2 := by
  have inSent : position < (sendAll 0 (pairSends count)).length := by
    rw [length_sendAll_pairSends]
    exact within
  obtain ⟨size, parts, member, _, isFrames, isCount⟩ :=
    sendAll_spec (List.getElem?_eq_getElem inSent)
  obtain ⟨_, isSend⟩ := List.mem_replicate.mp member
  obtain ⟨isSize, isPayload⟩ := Prod.mk.inj isSend
  cases isSize
  rw [isPayload] at isCount
  unfold fragmentCount
  rw [List.getElem?_eq_getElem inSent, Option.map_some, Option.getD_some, isFrames,
    length_framesOf, isCount]
  rfl

theorem frameAt_pairSends {count position : Nat} (within : position < count) :
    (frameAt (sendAll 0 (pairSends count)) ⟨position, 0, 0⟩).isSome := by
  have inSent : position < (sendAll 0 (pairSends count)).length := by
    rw [length_sendAll_pairSends]
    exact within
  have two := fragmentCount_pairSends within
  unfold fragmentCount at two
  rw [List.getElem?_eq_getElem inSent, Option.map_some, Option.getD_some] at two
  have firstFrame : 0 < ((sendAll 0 (pairSends count))[position]).2.length := by omega
  unfold frameAt
  rw [List.getElem?_eq_getElem inSent, Option.bind_some, List.getElem?_eq_getElem firstFrame]
  rfl

theorem progress_firstFragments {count total position : Nat} (within : position < count)
    (inTotal : position < total) :
    progress (sendAll 0 (pairSends total)) position (firstFragments count) = some ⟨0, {0}⟩ := by
  induction count with
  | zero => cases within
  | succ count inductionHypothesis =>
      have snoc : firstFragments (count + 1) = firstFragments count ++ [⟨count, 0, 0⟩] := by
        simp [firstFragments, List.range_succ]
      rw [snoc, progress_snoc]
      split
      next same =>
        subst same
        have before : progress (sendAll 0 (pairSends total)) count (firstFragments count) =
            none := by
          apply progress_eq_none
          intro arrival member
          obtain ⟨message, below, rfl⟩ := List.mem_map.mp member
          exact (List.mem_range.mp below).ne
        rw [before, fragmentCount_pairSends inTotal]
        rfl
      next different =>
        apply inductionHypothesis
        have notSame : count ≠ position := different
        omega

theorem openMessages_firstFragments {count total : Nat} (ordered : count ≤ total) :
    (openMessages (sendAll 0 (pairSends total)) (firstFragments count) 0).length = count := by
  apply Nat.le_antisymm
  · have bound := length_openMessages_le (sendAll 0 (pairSends total)) (firstFragments count) 0
    rwa [firstFragments, List.length_map, List.length_range] at bound
  · have within : List.range count ⊆
        openMessages (sendAll 0 (pairSends total)) (firstFragments count) 0 := by
      intro position member
      have below := List.mem_range.mp member
      refine List.mem_filter.mpr ⟨?_, ?_⟩
      · rw [List.mem_range, length_sendAll_pairSends]
        omega
      · rw [progress_firstFragments below (by omega)]
        rfl
    have bound := (List.nodup_range.subperm within).length_le
    rwa [List.length_range] at bound

/-- The first fragments of 2049 messages arrive and their second fragments are lost: the
last call fails. -/
theorem fragment_loss_fails :
    (∀ send ∈ pairSends 2049, send.2.length ≤ maxDatagram) ∧
    (∀ arrival ∈ firstFragments 2049, (frameAt (sendAll 0 (pairSends 2049)) arrival).isSome) ∧
    ((firstFragments 2049).map fun arrival => (arrival.message, arrival.fragment)).Nodup ∧
    ∃ state results,
      run (receive (sendAll 0 (pairSends 2049))) CarrierReassembly.default (firstFragments 2049) =
        some (state, results) ∧
      .error .limitReached ∈ results := by
  have small : ∀ send ∈ pairSends 2049, send.2.length ≤ maxDatagram := by
    intro send member
    rw [(List.mem_replicate.mp member).2]
    decide
  have drawn : ∀ arrival ∈ firstFragments 2049,
      (frameAt (sendAll 0 (pairSends 2049)) arrival).isSome := by
    intro arrival member
    obtain ⟨message, below, rfl⟩ := List.mem_map.mp member
    exact frameAt_pairSends (List.mem_range.mp below)
  have clock : (firstFragments 2049).Pairwise fun earlier later => earlier.time ≤ later.time := by
    rw [firstFragments, List.pairwise_map]
    exact List.pairwise_of_forall fun _ _ => Nat.le_refl 0
  refine ⟨small, drawn, ?_, ?_⟩
  · rw [firstFragments, List.map_map]
    apply List.Nodup.map _ List.nodup_range
    intro left right same
    exact (Prod.mk.inj same).1
  · have few : (pairSends 2049).length ≤ 2 ^ 64 := by
      rw [pairSends, List.length_replicate]
      decide
    have honest := honest_sendAll small few
    have snoc : firstFragments 2049 = firstFragments 2048 ++ [⟨2048, 0, 0⟩] := by
      rw [firstFragments, List.range_succ, List.map_append]
      rfl
    have isPrefix : firstFragments 2048 <+: firstFragments 2049 := by
      rw [snoc]
      exact List.prefix_append _ _
    -- The first 2048 fragments find room, one message being open for each before them.
    obtain ⟨state, results, ran, tracks, _⟩ := run_of_room honest
      (fun arrival member => drawn arrival (isPrefix.subset member))
      (clock.sublist isPrefix.sublist)
      (by
        intro front arrival inFront
        have length := inFront.length_le
        rw [List.length_append, List.length_singleton, firstFragments, List.length_map,
          List.length_range] at length
        have bound := length_openMessages_le (sendAll 0 (pairSends 2049)) front arrival.time
        refine Or.inr ?_
        unfold maxCarrierGroups
        omega)
    obtain ⟨next, result, received, _, withoutRoom⟩ := tracks.receive honest drawn clock
      (by rw [← snoc])
    have full : ¬ HasRoom (sendAll 0 (pairSends 2049)) (firstFragments 2048) ⟨2048, 0, 0⟩ := by
      unfold HasRoom
      rw [openMessages_firstFragments (by decide), not_or]
      refine ⟨?_, Nat.lt_irrefl 2048⟩
      intro member
      have inFront := mem_of_mem_openMessages member
      rw [firstFragments, List.map_map] at inFront
      obtain ⟨message, below, same⟩ := List.mem_map.mp inFront
      exact (List.mem_range.mp below).ne same
    rw [snoc]
    refine ⟨next, results ++ [result], run_snoc ran received, ?_⟩
    rw [withoutRoom full]
    exact List.mem_concat_self

/-! ### Every payload comes back -/

/-- `send_carrier` can send this payload. -/
def Sendable (send : Option Nat × Bytes) : Prop :=
  send.2.length ≤ maxDatagram ∧ ∃ size, send.1 = some size ∧ carrierHeader < size ∧
    divCeil (max send.2.length 1) (size - carrierHeader) ≤ maxCarrierFragments

/-- Every payload is sent, in order. -/
theorem payloads_sendAll (message : Nat) {sends : List (Option Nat × Bytes)}
    (sendable : ∀ send ∈ sends, Sendable send) :
    (sendAll message sends).map Prod.fst = sends.map Prod.snd := by
  induction sends generalizing message with
  | nil => rfl
  | cons send rest inductionHypothesis =>
      obtain ⟨_, size, isSize, large, few⟩ := sendable send List.mem_cons_self
      obtain ⟨maximum, payload⟩ := send
      cases isSize
      obtain ⟨next, frames, isSent⟩ := sendCarrier_sends payload message large few
      unfold sendAll
      rw [isSent]
      simp only [List.map_cons, List.cons.injEq, true_and]
      exact inductionHypothesis next fun other member =>
        sendable other (List.mem_cons_of_mem _ member)

/-- Where a frame comes from. -/
def Arrival.place (arrival : Arrival) : Nat × Nat := (arrival.message, arrival.fragment)

/-- All fragments of the message have arrived. -/
def Complete (sent : List (Bytes × List Bytes)) (front : List Arrival) (position : Nat) : Prop :=
  ∀ fragment < fragmentCount sent position, (position, fragment) ∈ front.map Arrival.place

instance (sent : List (Bytes × List Bytes)) (front : List Arrival) (position : Nat) :
    Decidable (Complete sent front position) :=
  inferInstanceAs (Decidable (∀ _ < _, _))

/-- The messages with some but not all fragments, none of them older than
`CARRIER_TTL`. -/
def incomplete (sent : List (Bytes × List Bytes)) (front : List Arrival) (now : Nat) : List Nat :=
  (List.range sent.length).filter fun position =>
    decide (position ∈ front.map Arrival.message ∧ ¬ Complete sent front position ∧
      ∀ arrival ∈ front, arrival.message = position → now - arrival.time ≤ carrierTtl)

/-- The frames arrive in any order, each at most once, those of one message within
`CARRIER_TTL` of its first, and with fewer than `MAX_CARRIER_GROUPS` other messages
incomplete at any time. -/
structure Delivery (sent : List (Bytes × List Bytes)) (arrivals : List Arrival) : Prop where
  drawn : ∀ arrival ∈ arrivals, (frameAt sent arrival).isSome
  once : (arrivals.map Arrival.place).Nodup
  clock : arrivals.Pairwise fun earlier later => earlier.time ≤ later.time
  prompt : arrivals.Pairwise fun earlier later =>
    earlier.message = later.message → later.time ≤ earlier.time + carrierTtl
  room : ∀ front arrival, front ++ [arrival] <+: arrivals →
    ((incomplete sent front arrival.time).filter fun position =>
      decide (position ≠ arrival.message)).length < maxCarrierGroups

/-- The fragments of a message that have arrived. -/
def arrived (position : Nat) (front : List Arrival) : Finset Nat :=
  ((front.filter fun arrival => decide (arrival.message = position)).map Arrival.fragment).toFinset

theorem mem_arrived {position fragment : Nat} {front : List Arrival} :
    fragment ∈ arrived position front ↔ (position, fragment) ∈ front.map Arrival.place := by
  simp only [arrived, List.mem_toFinset, List.mem_map, List.mem_filter, decide_eq_true_iff,
    Arrival.place, Prod.mk.injEq]
  constructor
  · rintro ⟨arrival, ⟨member, isMessage⟩, isFragment⟩
    exact ⟨arrival, member, isMessage, isFragment⟩
  · rintro ⟨arrival, member, isMessage, isFragment⟩
    exact ⟨arrival, ⟨member, isMessage⟩, isFragment⟩

theorem arrived_snoc (position : Nat) (front : List Arrival) (arrival : Arrival) :
    arrived position (front ++ [arrival]) =
      if arrival.message = position then insert arrival.fragment (arrived position front)
      else arrived position front := by
  ext fragment
  rw [mem_arrived, List.map_append, List.mem_append, ← mem_arrived]
  split
  next same =>
    rw [Finset.mem_insert, ← same]
    simp [Arrival.place, or_comm]
  next different =>
    have others : position ≠ arrival.message := fun equal => different equal.symm
    simp [Arrival.place, others]

theorem arrived_subset {sent : List (Bytes × List Bytes)} {position : Nat} {front : List Arrival}
    (drawn : ∀ arrival ∈ front, (frameAt sent arrival).isSome) :
    arrived position front ⊆ Finset.range (fragmentCount sent position) := by
  intro fragment member
  obtain ⟨arrival, inFront, isPlace⟩ := List.mem_map.mp (mem_arrived.mp member)
  obtain ⟨isMessage, isFragment⟩ := Prod.mk.inj isPlace
  obtain ⟨frame, isFrame⟩ := Option.isSome_iff_exists.mp (drawn arrival inFront)
  rw [Finset.mem_range, ← isFragment, ← isMessage]
  exact fragment_lt isFrame

theorem complete_iff {sent : List (Bytes × List Bytes)} {position : Nat} {front : List Arrival}
    (drawn : ∀ arrival ∈ front, (frameAt sent arrival).isSome) :
    Complete sent front position ↔
      (arrived position front).card = fragmentCount sent position := by
  have within := @arrived_subset sent position front drawn
  constructor
  · intro complete
    have all : Finset.range (fragmentCount sent position) ⊆ arrived position front := by
      intro fragment below
      exact mem_arrived.mpr (complete fragment (Finset.mem_range.mp below))
    rw [Finset.Subset.antisymm within all, Finset.card_range]
  · intro full fragment below
    have all : arrived position front = Finset.range (fragmentCount sent position) :=
      Finset.eq_of_subset_of_card_le within (by rw [full, Finset.card_range])
    apply mem_arrived.mp
    rw [all]
    exact Finset.mem_range.mpr below

/-- The first arrival of a message. -/
structure IsFirst (position : Nat) (front : List Arrival) (first : Arrival) : Prop where
  mem : first ∈ front
  message : first.message = position
  least : ∀ other ∈ front, other.message = position → first.time ≤ other.time

/-- What a message has in the table when its fragments arrive promptly and once: all
fragments that arrived, since the first of them, until it is complete. -/
def Prompt (sent : List (Bytes × List Bytes)) (position : Nat) (front : List Arrival) : Prop :=
  (progress sent position front = none ∧
    (arrived position front = ∅ ∨ Complete sent front position)) ∨
  ∃ first, IsFirst position front first ∧ ¬ Complete sent front position ∧
    progress sent position front = some ⟨first.time, arrived position front⟩

/-- The group a fragment is stored in holds all earlier fragments of its message, and
is as old as the first of them. -/
theorem Prompt.extended {sent : List (Bytes × List Bytes)} {front : List Arrival}
    {arrival : Arrival} {frame : Bytes} (prompt : Prompt sent arrival.message front)
    (isFrame : frameAt sent arrival = some frame)
    (isNew : arrival.place ∉ front.map Arrival.place)
    (ordered : ∀ earlier ∈ front, earlier.time ≤ arrival.time)
    (recent : ∀ earlier ∈ front, earlier.message = arrival.message →
      arrival.time ≤ earlier.time + carrierTtl) :
    Progress.extended arrival.time arrival.fragment (progress sent arrival.message front) =
        arrived arrival.message (front ++ [arrival]) ∧
      ∃ first, IsFirst arrival.message (front ++ [arrival]) first ∧
        (Progress.current arrival.time (progress sent arrival.message front)).created =
          first.time := by
  rw [arrived_snoc, if_pos rfl]
  unfold Progress.extended Progress.current
  rcases prompt with ⟨isNone, isEmpty | complete⟩ | ⟨first, isFirst, _, isSome⟩
  · rw [isNone, isEmpty]
    refine ⟨rfl, arrival, ⟨by simp, rfl, ?_⟩, rfl⟩
    intro other member isMessage
    rcases List.mem_append.mp member with old | new
    · have inArrived : other.fragment ∈ arrived arrival.message front := by
        rw [mem_arrived, ← isMessage]
        exact List.mem_map_of_mem old
      rw [isEmpty] at inArrived
      cases inArrived
    · rw [List.mem_singleton.mp new]
  · exact absurd (complete arrival.fragment (fragment_lt isFrame)) isNew
  · have alive : Progress.alive arrival.time ⟨first.time, arrived arrival.message front⟩ = true := by
      have bound := recent first isFirst.mem isFirst.message
      apply decide_eq_true
      dsimp only
      omega
    rw [isSome, Option.filter_some, if_pos alive, Option.getD_some]
    refine ⟨rfl, first, ⟨List.mem_append_left _ isFirst.mem, isFirst.message, ?_⟩, rfl⟩
    intro other member isMessage
    rcases List.mem_append.mp member with old | new
    · exact isFirst.least other old isMessage
    · rw [List.mem_singleton.mp new]
      exact ordered first isFirst.mem

namespace Delivery

variable {sent : List (Bytes × List Bytes)} {arrivals : List Arrival}

theorem place_new (delivery : Delivery sent arrivals) {front : List Arrival} {arrival : Arrival}
    (isPrefix : front ++ [arrival] <+: arrivals) : arrival.place ∉ front.map Arrival.place := by
  have distinct := delivery.once.sublist (isPrefix.sublist.map Arrival.place)
  rw [List.map_append, List.nodup_append] at distinct
  intro old
  exact distinct.2.2 arrival.place old arrival.place (by simp) rfl

theorem prompt_of_prefix (delivery : Delivery sent arrivals) (position : Nat)
    {front : List Arrival} (isPrefix : front <+: arrivals) : Prompt sent position front := by
  induction front using List.reverseRecOn with
  | nil => exact Or.inl ⟨rfl, Or.inl rfl⟩
  | append_singleton front arrival inductionHypothesis =>
      have earlier := inductionHypothesis ((List.prefix_append _ _).trans isPrefix)
      have drawn : ∀ other ∈ front ++ [arrival], (frameAt sent other).isSome :=
        fun other member => delivery.drawn other (isPrefix.subset member)
      by_cases same : arrival.message = position
      · subst same
        obtain ⟨frame, isFrame⟩ := Option.isSome_iff_exists.mp (drawn arrival (by simp))
        obtain ⟨extended, first, isFirst, isCreated⟩ := earlier.extended isFrame
          (delivery.place_new isPrefix) (earlier_of_front delivery.clock isPrefix)
          (earlier_of_front delivery.prompt isPrefix)
        have full := @complete_iff sent arrival.message (front ++ [arrival]) drawn
        unfold Prompt
        rw [progress_snoc, if_pos rfl, Progress.advance, extended]
        by_cases complete : Complete sent (front ++ [arrival]) arrival.message
        · rw [if_pos (full.mp complete)]
          exact Or.inl ⟨rfl, Or.inr complete⟩
        · rw [if_neg (complete ∘ full.mpr), isCreated]
          exact Or.inr ⟨first, isFirst, complete, rfl⟩
      · have unchanged : Complete sent (front ++ [arrival]) position ↔
            Complete sent front position := by
          rw [complete_iff drawn, arrived_snoc, if_neg same,
            complete_iff fun other member => drawn other (List.mem_append_left _ member)]
        unfold Prompt
        rw [progress_snoc, if_neg same, arrived_snoc, if_neg same, unchanged]
        rcases earlier with none_ | ⟨first, isFirst, some_⟩
        · exact Or.inl none_
        · refine Or.inr ⟨first, ⟨List.mem_append_left _ isFirst.mem, isFirst.message, ?_⟩, some_⟩
          intro other member isMessage
          rcases List.mem_append.mp member with old | new
          · exact isFirst.least other old isMessage
          · rw [List.mem_singleton.mp new] at isMessage
            exact absurd isMessage same

/-- A message with a group is incomplete. -/
theorem mem_incomplete (delivery : Delivery sent arrivals) {front : List Arrival}
    {arrival : Arrival} (isPrefix : front ++ [arrival] <+: arrivals) {position : Nat}
    (isOpen : position ∈ openMessages sent front arrival.time) :
    position ∈ incomplete sent front arrival.time := by
  have shorter : front <+: arrivals := (List.prefix_append _ _).trans isPrefix
  obtain ⟨inSent, isSome⟩ := List.mem_filter.mp isOpen
  obtain ⟨held, isHeld⟩ := Option.isSome_iff_exists.mp isSome
  obtain ⟨isProgress, alive⟩ := Option.filter_eq_some_iff.mp isHeld
  rcases delivery.prompt_of_prefix position shorter with ⟨isNone, _⟩ |
    ⟨first, isFirst, missing, isSome⟩
  · rw [isNone] at isProgress
    cases isProgress
  · rw [isSome] at isProgress
    cases isProgress
    have recent : arrival.time - first.time ≤ carrierTtl := of_decide_eq_true alive
    refine List.mem_filter.mpr ⟨inSent, decide_eq_true ⟨?_, missing, ?_⟩⟩
    · rw [← isFirst.message]
      exact List.mem_map_of_mem isFirst.mem
    · intro other member isMessage
      have later := isFirst.least other member isMessage
      omega

theorem hasRoom (delivery : Delivery sent arrivals) {front : List Arrival} {arrival : Arrival}
    (isPrefix : front ++ [arrival] <+: arrivals) : HasRoom sent front arrival := by
  by_cases isOpen : arrival.message ∈ openMessages sent front arrival.time
  · exact Or.inl isOpen
  · refine Or.inr (lt_of_le_of_lt ?_ (delivery.room front arrival isPrefix))
    have distinct : (openMessages sent front arrival.time).Nodup := List.nodup_range.filter _
    apply (distinct.subperm _).length_le
    intro position member
    refine List.mem_filter.mpr ⟨delivery.mem_incomplete isPrefix member, decide_eq_true ?_⟩
    rintro rfl
    exact isOpen member

end Delivery

/-- What is sent comes back: whatever the order of the frames, `push` never fails,
returns the payload with the last missing fragment of its message and nothing with any
other, and no frame is a heartbeat. -/
theorem carrier_round_trip (sends : List (Option Nat × Bytes))
    (sendable : ∀ send ∈ sends, Sendable send) (few : sends.length ≤ 2 ^ 64)
    (arrivals : List Arrival) (delivery : Delivery (sendAll 0 sends) arrivals) :
    (sendAll 0 sends).map Prod.fst = sends.map Prod.snd ∧
    (∀ front arrival, front ++ [arrival] <+: arrivals →
      ∃ state results payload next result,
        run (receive (sendAll 0 sends)) CarrierReassembly.default front = some (state, results) ∧
        (sends[arrival.message]?).map Prod.snd = some payload ∧
        receive (sendAll 0 sends) state arrival = some (next, [result]) ∧
        result = .ok (if Complete (sendAll 0 sends) (front ++ [arrival]) arrival.message
          then some payload else none)) ∧
    ∀ message ∈ sendAll 0 sends, ∀ frame ∈ message.2, frame ≠ carrierPing ∧ frame ≠ carrierPong := by
  have payloads := payloads_sendAll 0 sendable
  have honest := honest_sendAll (fun send member => (sendable send member).1) few
  refine ⟨payloads, ?_, ?_⟩
  · intro front arrival isPrefix
    have shorter : front <+: arrivals := (List.prefix_append _ _).trans isPrefix
    have drawn : ∀ other ∈ front ++ [arrival], (frameAt (sendAll 0 sends) other).isSome :=
      fun other member => delivery.drawn other (isPrefix.subset member)
    obtain ⟨state, results, ran, tracks, _⟩ := run_of_room honest
      (fun other member => delivery.drawn other (shorter.subset member))
      (delivery.clock.sublist shorter.sublist)
      (fun earlier other inFront => delivery.hasRoom (inFront.trans shorter))
    obtain ⟨next, result, received, withRoom, _⟩ :=
      tracks.receive honest delivery.drawn delivery.clock isPrefix
    obtain ⟨_, payload, isPayload, isOk⟩ := withRoom (delivery.hasRoom isPrefix)
    obtain ⟨frame, isFrame⟩ := Option.isSome_iff_exists.mp (drawn arrival (by simp))
    have extended := ((delivery.prompt_of_prefix arrival.message shorter).extended isFrame
      (delivery.place_new isPrefix) (earlier_of_front delivery.clock isPrefix)
      (earlier_of_front delivery.prompt isPrefix)).1
    refine ⟨state, results, payload, next, result, ran, ?_, received, ?_⟩
    · rw [← List.getElem?_map, ← payloads, List.getElem?_map]
      exact isPayload
    · have full := @complete_iff (sendAll 0 sends) arrival.message (front ++ [arrival]) drawn
      rw [isOk, extended]
      simp only [full]
  · intro message member frame inMessage
    obtain ⟨position, isMessage⟩ := List.mem_iff_getElem?.mp member
    obtain ⟨parts, isParts, isFrames, _⟩ := honest.message position message isMessage
    rw [isFrames] at inMessage
    obtain ⟨index, isFrame⟩ := List.mem_iff_getElem?.mp inMessage
    obtain ⟨part, _, rfl⟩ := getElem?_framesOf isFrame
    exact carrierFrame_ne_heartbeat _ _ part isParts.few

/-- Two fragments in the wrong order, with an empty payload in between. -/
theorem carrier_round_trip_reordered :
    ∃ state results next,
      run (receive (sendAll 0 [(some 13, [1, 2]), (some 100, [])])) CarrierReassembly.default
        [⟨0, 1, 5⟩, ⟨1, 0, 6⟩] = some (state, results) ∧
      receive (sendAll 0 [(some 13, [1, 2]), (some 100, [])]) state ⟨0, 0, 7⟩ =
        some (next, [.ok (some [1, 2])]) := by
  have sendable : ∀ send ∈ [(some 13, [1, 2]), (some 100, [])], Sendable send := by
    intro send member
    rcases List.mem_cons.mp member with rfl | second
    · exact ⟨by decide, 13, rfl, by decide, by decide⟩
    · rw [List.mem_singleton] at second
      subst second
      exact ⟨by decide, 100, rfl, by decide, by decide⟩
  have delivery : Delivery (sendAll 0 [(some 13, [1, 2]), (some 100, [])])
      [⟨0, 1, 5⟩, ⟨1, 0, 6⟩, ⟨0, 0, 7⟩] := by
    refine ⟨by decide, by decide, by decide, by decide, ?_⟩
    intro front arrival _
    refine lt_of_le_of_lt ((List.length_filter_le _ _).trans (List.length_filter_le _ _)) ?_
    decide
  obtain ⟨_, exact_, _⟩ := carrier_round_trip [(some 13, [1, 2]), (some 100, [])] sendable
    (by decide) _ delivery
  obtain ⟨state, results, payload, next, result, ran, isPayload, received, isOk⟩ :=
    exact_ [⟨0, 1, 5⟩, ⟨1, 0, 6⟩] ⟨0, 0, 7⟩ List.prefix_rfl
  cases isPayload
  rw [if_pos (by decide)] at isOk
  rw [isOk] at received
  exact ⟨state, results, next, ran, received⟩

end SmartFecTunnel.Relay
