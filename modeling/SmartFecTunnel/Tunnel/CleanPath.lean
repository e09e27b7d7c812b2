import SmartFecTunnel.Fec.CleanPath
import SmartFecTunnel.Tunnel.AntiReplay
import SmartFecTunnel.Tunnel.Directions

/-!
Contract: the feedback between the two ends of a tunnel over a network that loses
nothing.

Each end counts the frames that arrive, reports the share that is missing to the
other, and sends as much redundancy as the other's reports ask for.

Owns: that no end takes frames that are late for lost ones, so that neither ever
sends a parity frame.

Does not own: what reports of a loss lead to.
-/

namespace SmartFecTunnel.Tunnel

open SmartFecTunnel.Library
open SmartFecTunnel.Fec
open SmartFecTunnel.Wire

namespace Link

/-- A datagram that opens as a frame of the session. -/
structure Arrival where
  party : Party
  bytes : Bytes
  frame : Frame

/-- The datagram that an event brings to its party, if the party takes it. -/
def arrival (link : Link) : TunnelEvent → Option Arrival
  | .client (.tunnel bytes _) _ =>
    match decodeClientFrame link.build.blake link.build.aead (bytes.take netBuffer)
      link.identity.keyId link.key with
    | .error _ => none
    | .ok frame => if link.identity.Owns frame then some ⟨.client, bytes, frame⟩ else none
  | .server (.datagram bytes peer host) _ =>
    match link.resolve (.datagram bytes peer host) with
    | some (.packet packet _) => some ⟨.server, bytes, packet.frame⟩
    | _ => none
  | _ => none

/-- The frame that a party takes in an event. -/
def takes (link : Link) (party : Party) (event : TunnelEvent) : Option Frame :=
  (link.arrival event).bind fun arrival =>
    if arrival.party = party then some arrival.frame else none

/-- The sequence numbers of the frames that a party has taken. -/
def arrived (link : Link) (party : Party) (events : List TunnelEvent) : List Nat :=
  events.filterMap fun event => (link.takes party event).map Frame.sequence

/-- The sending of a datagram. -/
def IsSending (bytes : Bytes) : Happening → Prop
  | .sent _ sent => SameSealed bytes sent
  | _ => False

instance (bytes : Bytes) : (happening : Happening) → Decidable (IsSending bytes happening)
  | .sent _ sent => inferInstanceAs (Decidable (SameSealed bytes sent))
  | .passed .. => isFalse id
  | .delivered .. => isFalse id
  | .handed .. => isFalse id

/-- Nobody but the parties can seal: what a party takes was sent before. -/
def Authentic (link : Link) (events : List TunnelEvent) : Prop :=
  Along link.step link.start (fun _ trace event => ∀ arrival ∈ link.arrival event,
    ∃ happening ∈ trace, IsSending (arrival.bytes.take netBuffer) happening) events

instance (link : Link) (events : List TunnelEvent) : Decidable (link.Authentic events) :=
  inferInstanceAs (Decidable (Along _ _ _ _))

/-- The network loses nothing: no frame overtakes another by a whole reorder window. -/
def Lossless (link : Link) (events : List TunnelEvent) : Prop :=
  ∀ party front event frame, front ++ [event] <+: events → link.takes party event = some frame →
    ∀ sequence, 0 < sequence → sequence + reorderWindow ≤ frame.sequence →
      sequence ∈ link.arrived party front

theorem arrived_snoc (link : Link) (party : Party) (events : List TunnelEvent)
    (event : TunnelEvent) :
    link.arrived party (events ++ [event]) =
      link.arrived party events ++ ((link.takes party event).map Frame.sequence).toList := by
  rw [arrived, List.filterMap_append, arrived]
  congr 1

/-! ### One event -/

/-- What an event does to the endpoint of a party: the frame it takes, the frames it sends. -/
inductive Turn (link : Link) (endpoint : Endpoint) :
    Option Frame → Endpoint → List Frame → Prop
  | idle : Turn link endpoint none endpoint []
  | take {next : Endpoint} {frame : Frame} {host : Host} {given : List Bytes}
      (accepted : endpoint.accept link.build.rs host frame = some (next, given)) :
      Turn link endpoint (some frame) next []
  | encode (payload : Bytes) :
      Turn link endpoint none (endpoint.encodeDatagram link.build.rs payload).1
        ((endpoint.encodeDatagram link.build.rs payload).2.toOption.getD [])
  | flush :
      Turn link endpoint none (endpoint.flush link.build.rs).1
        ((endpoint.flush link.build.rs).2.toOption.getD [])
  | report {next : Endpoint} {frame : Frame} (reported : endpoint.report = some (next, frame)) :
      Turn link endpoint none next [frame]

theorem client_turn {link : Link} {client next : Client} {event : ClientEvent}
    {outputs : List ClientOutput} (random : Nat → Randomness)
    (stepped : client.step link.build link.identity link.key event = some (next, outputs)) :
    Turn link client.endpoint (link.takes .client (.client event random)) next.endpoint
      (outputs.filterMap ClientOutput.frame?) := by
  cases event with
  | app payload peer =>
      unfold Client.step Client.sendFrames at stepped
      dsimp only at stepped
      split at stepped
      next frames isOk =>
        cases stepped
        have encoded : Turn link client.endpoint none _ _ := .encode payload
        rw [isOk] at encoded
        rw [(filterMap_toServer frames).1]
        exact encoded
      next => cases stepped
  | tunnel bytes host =>
      cases decoded : decodeClientFrame link.build.blake link.build.aead (bytes.take netBuffer)
          link.identity.keyId link.key with
      | error error =>
          simp only [Client.step, decoded] at stepped
          cases stepped
          simp only [takes, arrival, decoded]
          exact .idle
      | ok frame =>
          simp only [Client.step, decoded] at stepped
          obtain ⟨⟨endpoint, given⟩, received, isNext⟩ := Option.map_eq_some_iff.mp stepped
          cases isNext
          simp only [takes, arrival, decoded, (toApp_outputs client given).1]
          unfold Endpoint.receive at received
          split at received
          next owns =>
            rw [if_pos owns]
            exact .take received
          next foreign =>
            cases received
            rw [if_neg foreign]
            exact .idle
  | reportTick =>
      obtain ⟨⟨endpoint, frame⟩, reported, isNext⟩ := Option.map_eq_some_iff.mp stepped
      cases isNext
      exact .report reported
  | flushTick =>
      unfold Client.step Client.sendFrames at stepped
      dsimp only at stepped
      split at stepped
      next frames isOk =>
        cases stepped
        have flushed : Turn link client.endpoint none _ _ := .flush
        rw [isOk] at flushed
        rw [(filterMap_toServer frames).1]
        exact flushed
      next => cases stepped

theorem server_turn {link : Link} {session next : Session} {input : ServerInput}
    {event : SessionEvent} {outputs : List SessionOutput} (random : Nat → Randomness)
    (resolved : link.resolve input = some event)
    (stepped : session.step link.build.rs link.runtime event = some (next, outputs)) :
    Turn link session.endpoint (link.takes .server (.server input random)) next.endpoint
      (outputs.filterMap SessionOutput.frame?) := by
  cases input with
  | datagram bytes peer host =>
      obtain ⟨frame, rfl, opens⟩ := opensAs_of_resolve resolved
      obtain ⟨⟨endpoint, given⟩, received, isNext⟩ := Option.map_eq_some_iff.mp stepped
      cases isNext
      have accepted : session.endpoint.accept link.build.rs host frame = some (endpoint, given) :=
        (if_pos opens.owns).symm.trans received
      rw [(filterMap_upstream given).1]
      unfold takes arrival
      dsimp only
      rw [resolved]
      exact .take accepted
  | upstream received =>
      cases resolved
      cases Session.step_cases stepped with
      | @upstream payload peer isPeer =>
          rw [(filterMap_toPeer peer _).1]
          exact .encode payload
      | idle => exact .idle
  | reportTick =>
      cases resolved
      cases Session.step_cases stepped with
      | report isPeer reported => exact .report reported
      | idle => exact .idle
  | flushTick =>
      cases resolved
      cases Session.step_cases stepped with
      | @flush peer isPeer =>
          rw [(filterMap_toPeer peer _).1]
          exact .flush
      | idle => exact .idle

/-- The client's events bring nothing to the server session, and the other way round. -/
theorem takes_other (link : Link) (random : Nat → Randomness) :
    (∀ event, link.takes .server (.client event random) = none) ∧
      ∀ input, link.takes .client (.server input random) = none := by
  constructor
  · intro event
    unfold takes arrival
    cases event with
    | tunnel bytes host =>
        dsimp only
        split
        next => rfl
        next =>
          split
          next => rfl
          next => rfl
    | _ => rfl
  · intro input
    unfold takes arrival
    cases input with
    | datagram bytes peer host =>
        dsimp only
        split
        next => rfl
        next => rfl
    | _ => rfl

theorem takes_of_unresolved {link : Link} {input : ServerInput}
    (unresolved : link.resolve input = none) (party : Party) (random : Nat → Randomness) :
    link.takes party (.server input random) = none := by
  unfold takes arrival
  cases input with
  | datagram bytes peer host =>
      dsimp only
      rw [unresolved]
      rfl
  | _ => rfl

/-- Every event is a turn of both parties, of one of them an idle one. -/
theorem step_turn {link : Link} {system next : System} {event : TunnelEvent}
    {more : List Happening} (stepped : link.step system event = some (next, more))
    (party : Party) :
    ∃ frames, Turn link (system.endpoint party) (link.takes party event)
        (next.endpoint party) frames ∧
      ∀ bytes, .sent party bytes ∈ more → ∃ frame ∈ frames, link.Encodes frame bytes := by
  cases event with
  | client event random =>
      have incoming := clientInput_incoming event
      obtain ⟨⟨client, outputs⟩, isStep, isNext⟩ := Option.map_eq_some_iff.mp stepped
      cases isNext
      cases party with
      | client =>
          refine ⟨_, client_turn random isStep, fun bytes member => ?_⟩
          exact mem_sealFrames (sent_of_mem_happenings incoming member).2
      | server =>
          rw [(link.takes_other random).1]
          refine ⟨[], .idle, fun bytes member => ?_⟩
          cases (sent_of_mem_happenings incoming member).1
  | server input random =>
      have incoming := serverInput_incoming system.server input
      unfold step at stepped
      dsimp only at stepped
      split at stepped
      next unresolved =>
        cases stepped
        rw [takes_of_unresolved unresolved]
        refine ⟨[], .idle, fun bytes member => ?_⟩
        rcases incoming _ member with ⟨_, _, impossible⟩ | ⟨_, _, impossible⟩ <;> cases impossible
      next event resolved =>
        obtain ⟨⟨session, outputs⟩, isStep, isNext⟩ := Option.map_eq_some_iff.mp stepped
        cases isNext
        cases party with
        | client =>
            rw [(link.takes_other random).2]
            refine ⟨[], .idle, fun bytes member => ?_⟩
            cases (sent_of_mem_happenings incoming member).1
        | server =>
            refine ⟨_, server_turn random resolved isStep, fun bytes member => ?_⟩
            exact mem_sealFrames (sent_of_mem_happenings incoming member).2

theorem arrival_of_takes {link : Link} {party : Party} {event : TunnelEvent} {frame : Frame}
    (isTaken : link.takes party event = some frame) :
    ∃ bytes, link.arrival event = some ⟨party, bytes, frame⟩ := by
  obtain ⟨⟨other, bytes, opened⟩, isArrival, isFrame⟩ := Option.bind_eq_some_iff.mp isTaken
  dsimp only at isFrame
  split at isFrame
  next same =>
    cases isFrame
    exact ⟨bytes, same ▸ isArrival⟩
  next => cases isFrame

theorem arrival_opens {link : Link} {event : TunnelEvent} {arrival : Arrival}
    (isArrival : link.arrival event = some arrival) :
    link.OpensAs arrival.bytes arrival.frame := by
  unfold Link.arrival at isArrival
  split at isArrival
  next bytes host random =>
    split at isArrival
    next => cases isArrival
    next frame decoded =>
      split at isArrival
      next owns =>
        cases isArrival
        exact ⟨decodeClientFrame_opens decoded owns.1, owns⟩
      next => cases isArrival
  next bytes peer host random =>
    split at isArrival
    next packet packetHost resolved =>
      cases isArrival
      obtain ⟨frame, isPacket, opens⟩ := opensAs_of_resolve resolved
      cases isPacket
      exact opens
    next => cases isArrival
  next => cases isArrival

namespace Turn

variable {link : Link} {endpoint next : Endpoint} {taken : Option Frame} {frames : List Frame}

/-- The counters of an encoder only go on. -/
theorem fits (turn : Turn link endpoint taken next frames)
    (nextFits : next.encoder.CountersFit) : endpoint.encoder.CountersFit := by
  have of_advances : Encoder.Advances next.encoder endpoint.encoder →
      endpoint.encoder.CountersFit := fun advances =>
    ⟨advances.sequence.trans_lt nextFits.sequence, advances.packet.trans_lt nextFits.packet,
      advances.group.trans_lt nextFits.group⟩
  cases turn with
  | idle => exact nextFits
  | take accepted =>
      unfold Endpoint.accept at accepted
      split at accepted
      next =>
        dsimp only at accepted
        split at accepted
        · cases accepted
          exact ⟨nextFits.sequence, nextFits.packet, nextFits.group⟩
        · cases accepted
          exact nextFits
      next =>
        obtain ⟨result, _, isNext⟩ := Option.map_eq_some_iff.mp accepted
        cases isNext
        exact nextFits
  | encode payload => exact of_advances (Encoder.encodeDatagram_advances _ _ _)
  | flush => exact of_advances (Encoder.flush_advances _ _)
  | report reported =>
      obtain ⟨result, _, isNext⟩ := Option.map_eq_some_iff.mp reported
      cases isNext
      exact ⟨(Nat.le_succ _).trans_lt nextFits.sequence, nextFits.packet, nextFits.group⟩

/-- The frames that are sent fit the wire. -/
theorem owned {ledger : Ledger} (turn : Turn link endpoint taken next frames)
    (history : History link.build.rs link.identity link.build.hook ledger endpoint)
    (nextFits : next.encoder.CountersFit) :
    ∀ frame ∈ frames, link.identity.Owns frame ∧ Wire.Fits frame := by
  intro frame member
  cases turn with
  | idle => cases member
  | take => cases member
  | encode payload =>
      have later := history.encode (.encodeDatagram (payload.take datagramBuffer))
        fun _ => datagram_small
      exact later.emitted_fits nextFits link.session_lt frame (List.mem_append_right _ member)
  | flush =>
      have later := history.encode .flush fun _ impossible => by cases impossible
      exact later.emitted_fits nextFits link.session_lt frame (List.mem_append_right _ member)
  | report reported =>
      have later := history.report reported
      exact later.emitted_fits nextFits link.session_lt frame (List.mem_append_right _ member)

/-- The decoder takes note of what arrives, and what it reports is no loss. -/
theorem follows {arrived : List Nat} (turn : Turn link endpoint taken next frames)
    (isSession : ∀ frame, taken = some frame → endpoint.decoder.session = frame.session)
    (before : Decoder.Follows arrived endpoint.decoder)
    (complete : ∀ seq, 0 < seq → seq + reorderWindow ≤ endpoint.decoder.highestSequence →
      seq ∈ arrived) :
    Decoder.Follows (arrived ++ (taken.map Frame.sequence).toList) next.decoder := by
  have nothing : arrived ++ ((none : Option Frame).map Frame.sequence).toList = arrived :=
    List.append_nil arrived
  cases turn with
  | idle => rwa [nothing]
  | take accepted =>
      rename_i frame host given
      have ⟨same, _⟩ := Session.accept_window accepted (isSession _ rfl)
      exact (before.observe frame.sequence).of_sameWindow same
  | encode payload =>
      rw [nothing]
      exact before
  | flush =>
      rw [nothing]
      exact before
  | report reported =>
      obtain ⟨sample, isSample, isNext⟩ := Option.map_eq_some_iff.mp reported
      cases isNext
      rw [nothing]
      exact (before.report complete isSample).1

theorem plain {arrived : List Nat} (turn : Turn link endpoint taken next frames)
    (idle : endpoint.encoder.Idle) (before : Decoder.Follows arrived endpoint.decoder)
    (complete : ∀ seq, 0 < seq → seq + reorderWindow ≤ endpoint.decoder.highestSequence →
      seq ∈ arrived) : ∀ frame ∈ frames, frame.Plain := by
  intro frame member
  cases turn with
  | idle => cases member
  | take => cases member
  | encode payload =>
      cases encoded : (endpoint.encodeDatagram link.build.rs payload).2 with
      | error error =>
          rw [encoded] at member
          cases member
      | ok sent =>
          rw [encoded] at member
          exact .inl (idle.encodeDatagram_data link.build.rs _ encoded frame member)
  | flush =>
      cases flushed : (endpoint.flush link.build.rs).2 with
      | error error =>
          rw [flushed] at member
          cases member
      | ok sent =>
          rw [flushed] at member
          exact .inl (idle.flush_data link.build.rs flushed frame member)
  | report reported =>
      obtain ⟨sample, isSample, isNext⟩ := Option.map_eq_some_iff.mp reported
      cases isNext
      rw [List.mem_singleton.mp member]
      exact .inr ⟨rfl, _, (before.report complete isSample).2, rfl⟩

/-- A controller that is told of no loss stays as it is. -/
theorem idle_next (turn : Turn link endpoint taken next frames) (idle : endpoint.encoder.Idle)
    (isPlain : ∀ frame, taken = some frame → frame.Plain) : next.encoder.Idle := by
  cases turn with
  | idle => exact idle
  | take accepted =>
      rename_i frame host given
      unfold Endpoint.accept at accepted
      split at accepted
      next isReport =>
        dsimp only at accepted
        split at accepted
        · cases accepted
          refine ⟨?_, idle.forceParity⟩
          rcases isPlain frame rfl with isData | ⟨_, lossPpm, noLoss, isPayload⟩
          · exact absurd (isData.symm.trans isReport.1) (by decide)
          · have isLoss : fromBeBytes (frame.payload.take 4) = lossPpm := by
              rw [isPayload, List.take_of_length_le (length_toBeBytes 4 lossPpm).le,
                fromBeBytes_toBeBytes noLoss.lt]
            dsimp only
            rw [isLoss]
            exact idle.adaptive.report noLoss
        · cases accepted
          exact idle
      next =>
        obtain ⟨result, _, isNext⟩ := Option.map_eq_some_iff.mp accepted
        cases isNext
        exact idle
  | encode payload => exact idle.of_advances (Encoder.encodeDatagram_advances _ _ _)
  | flush => exact idle.of_advances (Encoder.flush_advances _ _)
  | report reported =>
      obtain ⟨result, _, isNext⟩ := Option.map_eq_some_iff.mp reported
      cases isNext
      exact ⟨idle.adaptive, idle.forceParity⟩

end Turn

/-! ### Runs -/

/-- What holds of a tunnel over a clean path. -/
structure Clean (link : Link) (events : List TunnelEvent) (system : System)
    (trace : List Happening) : Prop where
  follows : ∀ party, Decoder.Follows (link.arrived party events) (system.endpoint party).decoder
  idle : ∀ party, (system.endpoint party).encoder.Idle
  sent : ∀ party bytes, .sent party bytes ∈ trace → ∃ frame, link.Encodes frame bytes ∧
    link.identity.Owns frame ∧ Wire.Fits frame ∧ frame.Plain

theorem clean_start (link : Link) (release : link.build.hook = none) :
    Clean link [] link.start [] where
  follows := by
    intro party
    cases party <;> exact Decoder.follows_new _
  idle := by
    intro party
    cases party
    · exact ⟨Adaptive.idle_default, by rw [start, release]; rfl⟩
    · exact ⟨Adaptive.idle_default, by rw [start, release]; rfl⟩
  sent := fun _ _ member => absurd member List.not_mem_nil

/-- A sequence number that arrived came with the last of some front of the events. -/
theorem exists_front_of_arrived {link : Link} {party : Party} {events : List TunnelEvent}
    {sequence : Nat} (isArrived : sequence ∈ link.arrived party events) :
    ∃ front event frame, front ++ [event] <+: events ∧ link.takes party event = some frame ∧
      frame.sequence = sequence := by
  obtain ⟨event, member, isSequence⟩ := List.mem_filterMap.mp isArrived
  obtain ⟨frame, isTaken, isFrame⟩ := Option.map_eq_some_iff.mp isSequence
  obtain ⟨front, back, rfl⟩ := List.append_of_mem member
  refine ⟨front, event, frame, ⟨back, ?_⟩, isTaken, isFrame⟩
  rw [List.append_assoc, List.singleton_append]

theorem Clean.complete {link : Link} {events past : List TunnelEvent} {system : System}
    {trace : List Happening} (clean : Clean link past system trace) (lossless : link.Lossless events)
    (isPrefix : past <+: events) (party : Party) :
    ∀ seq, 0 < seq → seq + reorderWindow ≤ (system.endpoint party).decoder.highestSequence →
      seq ∈ link.arrived party past := by
  intro seq positive behind
  have isHighest := (clean.follows party).highest (by omega)
  obtain ⟨front, event, frame, inPast, isTaken, isSequence⟩ := exists_front_of_arrived isHighest
  have earlier := lossless party front event frame (inPast.trans isPrefix) isTaken seq positive
    (by rw [isSequence]; exact behind)
  have shorter : front <+: past := (List.prefix_append front [event]).trans inPast
  exact (shorter.filterMap _).subset earlier

theorem Authentic.sent {link : Link} {events front : List TunnelEvent} {event : TunnelEvent}
    {arrival : Arrival} {system : System} {trace : List Happening}
    (authentic : link.Authentic events) (isPrefix : front ++ [event] <+: events)
    (isArrival : link.arrival event = some arrival)
    (ran : run link.step link.start front = some (system, trace)) :
    ∃ sender sent, .sent sender sent ∈ trace ∧ SameSealed (arrival.bytes.take netBuffer) sent := by
  obtain ⟨happening, member, isSending⟩ :=
    authentic front event system trace isPrefix ran arrival isArrival
  cases happening with
  | sent sender sent => exact ⟨sender, sent, member, isSending⟩
  | _ => cases isSending

/-- What was sent before is what arrives. -/
theorem Clean.plain_of_sent {link : Link} {past : List TunnelEvent} {system : System}
    {trace : List Happening} (clean : Clean link past system trace) {arrival : Arrival}
    (opens : link.OpensAs arrival.bytes arrival.frame) {sender : Party} {sent : Bytes}
    (isSent : .sent sender sent ∈ trace) (same : SameSealed (arrival.bytes.take netBuffer) sent) :
    arrival.frame.Plain := by
  obtain ⟨frame, ⟨random, encoded⟩, owns, wireFits, isPlain⟩ := clean.sent sender sent isSent
  have isSealed := encodeWire_seals owns.1 encoded
  have isOpened := opens.opened
  rw [show link.keyId = frame.keyId from owns.2.1.symm] at isOpened
  rw [isSealed.opens owns.1 wireFits same.1 same.2 isOpened]
  exact isPlain

theorem Clean.step {link : Link} {events past : List TunnelEvent} {event : TunnelEvent}
    {system next : System} {trace more : List Happening} (clean : Clean link past system trace)
    (authentic : link.Authentic events) (lossless : link.Lossless events)
    (isPrefix : past ++ [event] <+: events)
    (ran : run link.step link.start past = some (system, trace))
    (stepped : link.step system event = some (next, more))
    (fits : ∀ party, (next.endpoint party).encoder.CountersFit) :
    Clean link (past ++ [event]) next (trace ++ more) := by
  have complete := clean.complete lossless ((List.prefix_append past [event]).trans isPrefix)
  constructor
  · intro party
    obtain ⟨frames, turn, _⟩ := step_turn stepped party
    obtain ⟨ledger, accounts⟩ := accounts_of_run ran party
    rw [arrived_snoc]
    refine turn.follows (fun frame isTaken => ?_) (clean.follows party) (complete party)
    obtain ⟨bytes, isArrival⟩ := arrival_of_takes isTaken
    exact accounts.history.session.trans (arrival_opens isArrival).owns.2.2.symm
  · intro party
    obtain ⟨frames, turn, _⟩ := step_turn stepped party
    refine turn.idle_next (clean.idle party) fun frame isTaken => ?_
    obtain ⟨bytes, isArrival⟩ := arrival_of_takes isTaken
    obtain ⟨sender, sent, isSent, same⟩ := authentic.sent isPrefix isArrival ran
    exact clean.plain_of_sent (arrival_opens isArrival) isSent same
  · intro party bytes member
    rcases List.mem_append.mp member with old | new
    · exact clean.sent party bytes old
    · obtain ⟨frames, turn, encodes⟩ := step_turn stepped party
      obtain ⟨ledger, accounts⟩ := accounts_of_run ran party
      obtain ⟨frame, isSent, isEncoded⟩ := encodes bytes new
      obtain ⟨owns, wireFits⟩ := turn.owned accounts.history (fits party) frame isSent
      have isPlain := turn.plain (clean.idle party) (clean.follows party) (complete party)
      exact ⟨frame, isEncoded, owns, wireFits, isPlain frame isSent⟩

/-- Over a network that loses nothing neither end ever sends a parity frame: it takes no frame
that is late for a lost one, and no report tells of a loss. -/
theorem clean_path_costs_nothing (link : Link) (release : link.build.hook = none)
    (events : List TunnelEvent) (system : System) (trace : List Happening)
    (ran : run link.step link.start events = some (system, trace))
    (fits : ∀ party, (system.endpoint party).encoder.CountersFit)
    (authentic : link.Authentic events) (lossless : link.Lossless events) :
    ∀ party, (system.endpoint party).encoder.adaptive.parity = 0 ∧
      ∀ bytes, .sent party bytes ∈ trace → ∃ frame, link.Encodes frame bytes ∧ frame.Plain := by
  have clean := run_invariant ran
    (fun past trace system => (∀ party, (system.endpoint party).encoder.CountersFit) →
      Clean link past system trace) (fun _ => clean_start link release) ?_
  · intro party
    refine ⟨((clean fits).idle party).adaptive.parity, fun bytes isSent => ?_⟩
    obtain ⟨frame, isEncoded, _, _, isPlain⟩ := (clean fits).sent party bytes isSent
    exact ⟨frame, isEncoded, isPlain⟩
  · intro past event before state next more isPrefix ranPast stepped inductionHypothesis nextFits
    have stateFits : ∀ party, (state.endpoint party).encoder.CountersFit := by
      intro party
      obtain ⟨frames, turn, _⟩ := step_turn stepped party
      exact turn.fits (nextFits party)
    exact (inductionHypothesis stateFits).step authentic lossless isPrefix ranPast stepped nextFits

/-! ### A round of reports -/

/-- The numbers alone tell whether the network has lost nothing. -/
theorem lossless_of_arrived {link : Link} {events : List TunnelEvent}
    (inWindow : ∀ party, ∀ index < (link.arrived party events).length,
      ∀ sequence ≤ (link.arrived party events).getD index 0 - reorderWindow, 0 < sequence →
        sequence ∈ (link.arrived party events).take index) : link.Lossless events := by
  rintro party front event frame ⟨back, rfl⟩ isTaken sequence positive behind
  have isArrived : link.arrived party (front ++ [event] ++ back) =
      link.arrived party front ++ frame.sequence :: link.arrived party back := by
    have isNow : [event].filterMap (fun event => (link.takes party event).map Frame.sequence) =
        [frame.sequence] := by
      simp [isTaken]
    rw [arrived, List.filterMap_append, List.filterMap_append, isNow, List.append_assoc]
    rfl
  have isNumber : (link.arrived party front ++ frame.sequence :: link.arrived party back).getD
      (link.arrived party front).length 0 = frame.sequence := by
    simp [List.getD_eq_getElem?_getD]
  have inFront := inWindow party (link.arrived party front).length
  rw [isArrived, isNumber, List.take_left] at inFront
  exact inFront (by simp) sequence (Nat.le_sub_of_add_le behind) positive

/-- The pads of the nonces that the client and the server draw. -/
def feedbackPads : List (Bytes × Bytes) :=
  [((sampleRandom 4).nonce,
    [225, 202, 1, 240, 9, 113, 147, 83, 134, 168, 94, 185, 129, 225, 171, 33, 250, 107, 73, 167, 46,
      40, 101, 91, 193, 130, 89, 238, 52, 81, 85, 204, 67, 40, 89, 69, 128, 122, 10, 131, 31, 145,
      236, 246, 138, 122, 166, 195]),
  ((sampleRandom 9).nonce,
    [108, 41, 1, 210, 60, 211, 213, 133, 253, 205, 245, 176, 151, 212, 75, 144, 107, 78, 13, 191,
      178, 164, 80, 25, 220, 209, 227, 116, 203, 232, 243, 13, 139, 41, 114])]

/-- The tags of the reports of the client, from the second frame on. -/
def feedbackTags : List Nat :=
  [0x6bfdc1e1b7b2f8c0f44644705906ca56, 0xe81cd54948f812524f72e7c151b6a456,
    0x59ba34521a549627144b175a2b26ea55, 0xd6d947baaa99b0b86e76baab23d6c455,
    0x5f7b0e82f9c861055ff4d0b63ac63456, 0xdc9a21ea890e7c96b91f740833760f56,
    0x7d404f7155115b5ad542718687e6a957, 0xfa5f62d9e55675eb2f6e14d87f968457,
    0x830129a13486263820ec2ae39686f457, 0x00213c09c5cb40c97a17ce348f36cf57,
    0x71be9b119727c49e3ff0fdcc68a61457, 0xeeddae79276dde2f9a1ba11e6156ef56,
    0x777f7541769c8f7c8a99b72978465f57, 0xf49e88a906e2a90de5c45a7b70f63957,
    0x9544b630d2e488d100e857f9c466d458, 0x1264c998622aa3625b13fb4abd16af58,
    0x9b059060b15954af4b911156d4061f59, 0x1825a3c8419f6e40a6bcb4a7ccb6f958,
    0x89c202d113fbf1156b95e43fa6263f58, 0x06e21539a4400ca7c5c087919ed61958,
    0x8f83dc00f36fbdf3b53e9e9cb5c68958, 0x0ca3ef6883b5d784106a41eead766458,
    0xad481df04eb8b6482c8d3e6c02e7fe59, 0x2a683058dffdd0d986b8e1bdfa96d959,
    0xb309f71f2e2d82267736f8c81187495a, 0x30290a88be729cb7d1619b1a0a37245a,
    0xa1c6699090ce1f8d963acbb2e3a66959, 0x1ee67cf820143a1ef1656e04dc564459,
    0xa78743c06f43eb6ae1e3840ff346b459, 0x24a75628008905fc3b0f2861ebf68e59,
    0xc54c84afcb8be4bf573225df3f67295b, 0x426c97175cd1fe50b25dc8303817045b,
    0xcb0d5edfaa00b09da2dbde3b4f07745b, 0x482d71473b46ca2efd06828d47b74e5b,
    0xb9cad04f0da24d04c2dfb1252127945a, 0x36eae3b79de767951c0b557719d76e5a,
    0xbf8baa7fec1619e20c896b8230c7de5a, 0x3cabbde77c5c337367b40ed42877b95a,
    0xdd50eb6e485f123783d70b527de7535c, 0x5a70fed6d8a42cc8dd02afa375972e5c,
    0xe311c59e27d4dd14ce80c5ae8c879e5c, 0x6031d806b819f8a528ac68008537795c,
    0xd1ce370f8a757b7bed8498985ea7be5b, 0x4eee4a771abb950c48b03bea5657995b,
    0xd78f113f69ea4659382e52f56d47095c, 0x54af24a7f92f61ea9259f54666f7e35b,
    0xf554522ec53240aeae7cf2c4ba677e5d, 0x7274659655785a3f09a89516b317595d,
    0xfb152c5ea4a70b8cf925ac21ca07c95d, 0x78353fc634ed251d54514f73c2b7a35d,
    0xe9d29ece0649a9f2182a7f0b9c27e95c, 0x66f2b136978ec3837355225d94d7c35c,
    0xef9378fee5bd74d063d33868abc7335d, 0x6cb38b6676038f61befedbb9a3770e5d,
    0x0d59b9ed41066e25da21d937f8e7a85e, 0x8a78cc55d24b88b6344d7c89f097835e,
    0x131a931d217b390325cb92940788f35e, 0x9039a685b1c053947ff635e6ff37ce5e,
    0x01d7058e831cd76944cf657ed9a7135e, 0x7ef618f61362f1fa9efa08d0d157ee5d,
    0x0798dfbd6291a2478f781fdbe8475e5e, 0x84b7f225f3d6bcd8e9a3c22ce1f7385e,
    0x255d20adbed99b9c05c7bfaa3568d35f, 0xa27c33154f1fb62d60f262fc2d18ae5f,
    0x2b1efadc9d4e677a5070790745081e60, 0xa83d0d452e94810bab9b1c593db8f85f,
    0x19db6c4d00f004e16f744cf116283e5f, 0x96fa7fb590351f72ca9fef420fd8185f,
    0x1f9c467ddf64d0beba1d064e26c8885f, 0x9cbb59e56faaea4f1549a99f1e78635f,
    0x3d61876c3badc913316ca61d73e8fd60, 0xba809ad4cbf2e3a48b97496f6b98d860,
    0x4322619c1a2295f17b15607a82884861, 0xc0417404ab67af82d64003cc7a382361,
    0x31dfd30c7dc332589b19336454a86860, 0xaefee6740d094de9f544d6b54c584360,
    0x37a0ad3c5c38fe35e6c2ecc06348b360, 0xb4bfc0a4ec7d18c740ee8f125cf88d60,
    0x5565ee2bb880f78a5c118d90b0682862, 0xd284019448c6111cb73c30e2a8180362,
    0x5b26c85b97f5c268a7ba46edbf087362, 0xd845dbc3273bddf901e6e93eb8b84d62,
    0x49e33accf99660cfc6be19d791289361, 0xc6024e348adc7a6021eabc288ad86d61,
    0x4fa414fcd80b2cad1168d333a1c8dd61, 0xccc327646951463e6c9376859978b861,
    0x6d6955eb3454250288b67303eee85263, 0xea886853c5993f93e2e11655e6982d63,
    0x732a2f1b14c9f0dfd25f2d60fd889d63, 0xf0494283a40e0b712d8bd0b1f5387863,
    0x61e7a18b766a8e46f263004acfa8bd62, 0xde06b5f306b0a8d74c8fa39bc7589862,
    0x67a87bbb55df59243d0dbaa6de480863, 0xe4c78e23e62474b597385df8d6f8e262,
    0x856dbcaab1275379b35b5a762b697d64]

/-- The first report of the server, which tells of no loss; its second has nothing to tell. -/
def feedbackReport : Frame := { sampleFrame 100 1 with payload := [0, 0, 0, 0] }

/-- The tag of a frame. -/
def feedbackTag (nonce plaintext : Bytes) : Nat :=
  let sequence := number plaintext 9 17
  if nonce = (sampleRandom 4).nonce then
    if plaintext = inner dataFrame then 0x7a781032119826e03e48c427f13e2b2a
    else if plaintext = inner (sampleFrame 100 sequence) then feedbackTags.getD (sequence - 2) 0
    else 0
  else if plaintext = inner feedbackReport then 0x6cfa18de6dd83da75b11ab7c0b7a2944
  else if plaintext = inner (sampleFrame 100 2) then 0xb8ce232d01eadf3c959ba5d3612920c1
  else 0

/-- The cipher as it answers for the datagram and the reports. -/
def feedbackCipher : Aead :=
  Aead.streaming
    (fun _ nonce => ((feedbackPads.find? fun pad => pad.1 = nonce).map Prod.snd).getD [])
    (fun _ nonce plaintext => toBeBytes 16 (feedbackTag nonce plaintext))
    (fun _ _ _ => length_toBeBytes 16 _)

noncomputable def feedbackLink : Link :=
  { sampleLink with build := { dataBuild with aead := feedbackCipher } }

/-- A frame as its sender seals it. -/
def feedbackDatagram (byte : UInt8) (frame : Frame) : Bytes :=
  (encodeWire reportHash feedbackCipher (sampleRandom byte) frame reportKey).toOption.getD []

/-- A frame of the client arrives. -/
def feedbackArrival (sequence : Nat) : TunnelEvent :=
  .server (.datagram
    (feedbackDatagram 4 (if sequence = 1 then dataFrame else sampleFrame 100 sequence))
    Session.clientAddress (Host.at 0)) fun _ => sampleRandom 9

/-- The order in which they arrive: the second frame is late, and most are still on their way
when the last one comes. -/
def feedbackOrder : List Nat := [1, 3, 2] ++ (List.range 29).map (· + 4) ++ [96]

/-- A report of the server arrives. -/
def feedbackAnswer (report : Frame) : TunnelEvent :=
  .client (.tunnel (feedbackDatagram 9 report) (Host.at 0)) fun _ => sampleRandom 4

/-- The client sends a datagram and 95 reports, and the server answers with two of its own. -/
def feedbackEvents : List TunnelEvent :=
  firstRounds ++ List.replicate 95 (.client .reportTick fun _ => sampleRandom 4) ++
    feedbackOrder.map feedbackArrival ++
    [.server .reportTick fun _ => sampleRandom 9, feedbackAnswer feedbackReport,
      .server .reportTick fun _ => sampleRandom 9, feedbackAnswer (sampleFrame 100 2)]

theorem feedback_arrived : feedbackLink.arrived .client feedbackEvents = [1, 2] ∧
    feedbackLink.arrived .server feedbackEvents = feedbackOrder := by
  decide +kernel

theorem feedback_lossless : feedbackLink.Lossless feedbackEvents := by
  apply lossless_of_arrived
  intro party
  cases party with
  | client =>
      rw [feedback_arrived.1]
      decide +kernel
  | server =>
      rw [feedback_arrived.2]
      decide +kernel

theorem feedback_authentic : feedbackLink.Authentic feedbackEvents := by
  decide +kernel

/-- The client has heard of a sample without loss and of no sample, the server of no sample,
33 times; a frame was late, and nothing has come of it. -/
theorem clean_path_costs_nothing_feedback :
    ∃ system trace, run feedbackLink.step feedbackLink.start feedbackEvents = some (system, trace) ∧
      (system.endpoint .client).encoder.adaptive =
        { Adaptive.default with unavailableReports := 1 } ∧
      (system.endpoint .server).encoder.adaptive =
        { Adaptive.default with unavailableReports := 2 } ∧
      (system.endpoint .server).decoder.finalizedSequence = 32 ∧
      ∀ party bytes, .sent party bytes ∈ trace →
        ∃ frame, feedbackLink.Encodes frame bytes ∧ frame.Plain := by
  have computed : (run feedbackLink.step feedbackLink.start feedbackEvents).map (fun result =>
      ([Party.client, Party.server].map fun party =>
        let encoder := (result.1.endpoint party).encoder
        (encoder.adaptive, encoder.sequence, encoder.packet, encoder.group),
        (result.1.endpoint .server).decoder.finalizedSequence)) =
      some ([({ Adaptive.default with unavailableReports := 1 }, 97, 2, 2),
        ({ Adaptive.default with unavailableReports := 2 }, 3, 1, 1)], 32) := by
    decide +kernel
  obtain ⟨⟨system, trace⟩, ran, isResult⟩ := Option.map_eq_some_iff.mp computed
  obtain ⟨isEncoders, isFinalized⟩ := Prod.mk.inj isResult
  simp only [List.map_cons, List.map_nil, List.cons.injEq, Prod.mk.injEq, and_true] at isEncoders
  obtain ⟨⟨isClient, sequence, packet, group⟩, isServer, sequence', packet', group'⟩ := isEncoders
  have fits : ∀ party, (system.endpoint party).encoder.CountersFit := by
    intro party
    cases party with
    | client => constructor <;> omega
    | server => constructor <;> omega
  refine ⟨system, trace, ran, isClient, isServer, isFinalized, ?_⟩
  intro party
  exact (clean_path_costs_nothing feedbackLink rfl feedbackEvents system trace ran fits
    feedback_authentic feedback_lossless party).2

end Link

end SmartFecTunnel.Tunnel
