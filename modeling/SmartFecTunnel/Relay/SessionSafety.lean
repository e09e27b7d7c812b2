import SmartFecTunnel.Library.Run
import SmartFecTunnel.Relay.Direction
import SmartFecTunnel.Relay.Session

/-!
Contract: what the datagram carrier does in any run, whatever the order of its events.

Owns:
- each direction is a lossy channel: it never invents, changes or repeats a packet;
- a reply goes to the peer of the last local packet;
- of the errors of the reassembly only the full table can end a loop.

Does not own: what ends a loop by its heartbeat, and which packets arrive.
-/

namespace SmartFecTunnel.Relay

open SmartFecTunnel.Library

/-! ### One direction and its trace -/

def payloadAt (sent : List (Bytes × List Bytes)) (position : Nat) : Bytes :=
  ((sent[position]?).map Prod.fst).getD []

/-- The direction after at most `count` sends, with the trace of its packets. -/
structure Carries (heartbeat : Bytes) (sender : Option Nat) (way : List Bytes)
    (receiver : Option CarrierReassembly) (trace : List (Transfer Bytes)) (count : Nat)
    (sent : List (Bytes × List Bytes)) (given : List Nat) : Prop where
  direction : Direction heartbeat sender sent way receiver given
  few : sent.length ≤ count
  channel : ∃ between, LossyChannel trace between
  taken : ↑(sent.map Prod.fst) ≤ Transfer.allTaken trace
  given : Transfer.allGiven trace ≤ ↑(given.map (payloadAt sent))

def Transports (heartbeat : Bytes) (sender : Option Nat) (way : List Bytes)
    (receiver : Option CarrierReassembly) (trace : List (Transfer Bytes)) (count : Nat) : Prop :=
  ∃ sent given, Carries heartbeat sender way receiver trace count sent given

theorem payloadAt_append {sent : List (Bytes × List Bytes)} {position : Nat}
    (within : position < sent.length) (more : List (Bytes × List Bytes)) :
    payloadAt (sent ++ more) position = payloadAt sent position := by
  unfold payloadAt
  rw [List.getElem?_append_left within]

theorem map_payloadAt_range (sent : List (Bytes × List Bytes)) :
    (List.range sent.length).map (payloadAt sent) = sent.map Prod.fst := by
  apply List.ext_getElem
  · simp
  · intro position within _
    rw [List.length_map, List.length_range] at within
    simp [payloadAt, within]

/-- The payloads given out are those of different messages. -/
theorem Direction.given_le {heartbeat : Bytes} {sender : Option Nat}
    {sent : List (Bytes × List Bytes)} {way : List Bytes} {receiver : Option CarrierReassembly}
    {given : List Nat} (direction : Direction heartbeat sender sent way receiver given) :
    (↑(given.map (payloadAt sent)) : Multiset Bytes) ≤ ↑(sent.map Prod.fst) := by
  have positions : (given : Multiset Nat) ≤ List.range sent.length := by
    apply direction.distinct.subperm
    intro position member
    exact List.mem_range.mpr (direction.given_sent position member)
  rw [← map_payloadAt_range]
  exact Multiset.map_le_map positions

namespace Transports

variable {heartbeat : Bytes} {sender : Option Nat} {way : List Bytes}
  {receiver : Option CarrierReassembly} {trace : List (Transfer Bytes)} {count : Nat}

theorem weaken (transports : Transports heartbeat sender way receiver trace count)
    {fewer : Option Nat} {rest : List Bytes} {less : Option CarrierReassembly}
    (senderLeft : ∀ message, fewer = some message → sender = some message)
    (wayLeft : rest.Subperm way)
    (receiverLeft : ∀ reassembly, less = some reassembly → receiver = some reassembly)
    (later : Nat) : Transports heartbeat fewer rest less trace (count + later) := by
  obtain ⟨sent, given, carries⟩ := transports
  exact ⟨sent, given, carries.direction.weaken senderLeft wayLeft receiverLeft,
    Nat.le_add_right_of_le carries.few, carries.channel, carries.taken, carries.given⟩

theorem start (isHeartbeat : heartbeat = carrierPing ∨ heartbeat = carrierPong) :
    Transports heartbeat (some 0) [] (some .default) [] 0 :=
  ⟨[], [], .start isHeartbeat, Nat.le_refl 0, ⟨0, .new⟩, by simp, by simp⟩

theorem heartbeat_sent (transports : Transports heartbeat sender way receiver trace count) :
    Transports heartbeat sender (way ++ [heartbeat]) receiver trace count := by
  obtain ⟨sent, given, carries⟩ := transports
  exact ⟨sent, given, carries.direction.heartbeat_sent, carries.few, carries.channel,
    carries.taken, carries.given⟩

/-- A packet is taken in, whether or not it can be sent. -/
theorem packet_taken (transports : Transports heartbeat sender way receiver trace count)
    (payload : Bytes) :
    Transports heartbeat sender way receiver (trace ++ [.taken payload]) count := by
  obtain ⟨sent, given, carries⟩ := transports
  obtain ⟨between, channel⟩ := carries.channel
  refine ⟨sent, given, carries.direction, carries.few, ⟨_, channel.take payload⟩, ?_, ?_⟩
  · rw [Transfer.allTaken_append]
    exact carries.taken.trans (Multiset.le_add_right _ _)
  · simpa using carries.given

/-- A packet is taken in and sent. -/
theorem message_sent {message next : Nat} {maximum : Option Nat} {payload : Bytes}
    {frames : List Bytes}
    (transports : Transports heartbeat (some message) way receiver trace count)
    (isSent : sendCarrier maximum payload message = (next, .ok frames))
    (small : payload.length ≤ maxDatagram) (few : count < 2 ^ 64) :
    Transports heartbeat (some next) (frames ++ way) receiver (trace ++ [.taken payload])
      (count + 1) := by
  obtain ⟨sent, given, carries⟩ := transports
  obtain ⟨between, channel⟩ := carries.channel
  have direction := carries.direction
  refine ⟨sent ++ [(payload, frames)], given,
    direction.message_sent isSent small (carries.few.trans_lt few), ?_, ⟨_, channel.take payload⟩,
    ?_, ?_⟩
  · rw [List.length_append, List.length_singleton]
    exact Nat.succ_le_succ carries.few
  · rw [Transfer.allTaken_append, List.map_append, ← Multiset.coe_add]
    exact Multiset.add_le_add_right carries.taken
  · have same : given.map (payloadAt (sent ++ [(payload, frames)])) =
        given.map (payloadAt sent) :=
      List.map_congr_left fun position member =>
        payloadAt_append (direction.given_sent position member) _
    rw [same]
    simpa using carries.given

/-- Packets that were to be given out are not. -/
theorem unsaid {gives front : List Bytes}
    (transports : Transports heartbeat sender way receiver (trace ++ gives.map .given) count)
    (isPrefix : front <+: gives) :
    Transports heartbeat sender way receiver (trace ++ front.map .given) count := by
  obtain ⟨sent, given, carries⟩ := transports
  obtain ⟨back, rfl⟩ := isPrefix
  obtain ⟨between, channel⟩ := carries.channel
  have nothing : ∀ payloads : List Bytes, Transfer.allTaken (payloads.map .given) = 0 := by
    intro payloads
    simp [Transfer.allTaken, Transfer.taken?, Function.comp_def]
  refine ⟨sent, given, carries.direction, carries.few, ?_, ?_, ?_⟩
  · apply channel.of_prefix
    rw [List.map_append, ← List.append_assoc]
    exact List.prefix_append _ _
  · have taken := carries.taken
    rw [Transfer.allTaken_append, nothing] at taken ⊢
    exact taken
  · apply le_trans _ carries.given
    rw [List.map_append, ← List.append_assoc, Transfer.allGiven_append _ (back.map _)]
    exact Multiset.le_add_right _ _

/-- A datagram has arrived. -/
theorem arrived (transports : Transports heartbeat sender way receiver trace count)
    (incoming : Bytes) :
    Transports heartbeat sender (way.erase incoming) receiver trace count :=
  transports.weaken (fun _ => id) List.erase_sublist.subperm (fun _ => id) 0

/-- The receiving end has gone. -/
theorem gone (transports : Transports heartbeat sender way receiver trace count) :
    Transports heartbeat sender way none trace count :=
  transports.weaken (fun _ => id) (.refl _) (fun _ isNone => by cases isNone) 0

section Push

variable {reassembly next : CarrierReassembly} {incoming : Bytes} {now : Nat}

/-- A fragment that does not complete its message. -/
theorem stored (transports : Transports heartbeat sender way (some reassembly) trace count)
    (isData : incoming ≠ heartbeat) (arrives : incoming ∈ way)
    (isPush : reassembly.push incoming now = (next, .ok none)) :
    Transports heartbeat sender (way.erase incoming) (some next) trace count := by
  obtain ⟨sent, given, carries⟩ := transports
  have received := carries.direction.fragment_received isData arrives now
  rw [isPush] at received
  cases received with
  | waiting direction =>
      exact ⟨sent, given, direction, carries.few, carries.channel, carries.taken, carries.given⟩

/-- A fragment that completes its message. -/
theorem complete {payload : Bytes}
    (transports : Transports heartbeat sender way (some reassembly) trace count)
    (isData : incoming ≠ heartbeat) (arrives : incoming ∈ way)
    (isPush : reassembly.push incoming now = (next, .ok (some payload))) :
    Transports heartbeat sender (way.erase incoming) (some next) (trace ++ [.given payload])
      count := by
  obtain ⟨sent, given, carries⟩ := transports
  have received := carries.direction.fragment_received isData arrives now
  rw [isPush] at received
  cases received with
  | @complete _ position message isMessage direction =>
      have isPayload : payloadAt sent position = message.1 := by simp [payloadAt, isMessage]
      have more : Transfer.allGiven (trace ++ [.given message.1]) ≤
          ↑((given ++ [position]).map (payloadAt sent)) := by
        rw [Transfer.allGiven_append, List.map_append, ← Multiset.coe_add, List.map_singleton,
          isPayload]
        exact Multiset.add_le_add_right carries.given
      have taken : ↑(sent.map Prod.fst) ≤ Transfer.allTaken (trace ++ [.given message.1]) := by
        simpa using carries.taken
      have channel := LossyChannel.exists_snoc carries.channel
        (more.trans (direction.given_le.trans taken))
      exact ⟨sent, given ++ [position], direction, carries.few, channel, taken, more⟩

/-- A fragment that is an error. -/
theorem refused {error : CarrierError}
    (transports : Transports heartbeat sender way (some reassembly) trace count)
    (isData : incoming ≠ heartbeat) (arrives : incoming ∈ way)
    (isPush : reassembly.push incoming now = (next, .error error)) : error = .limitReached := by
  obtain ⟨sent, given, carries⟩ := transports
  have received := carries.direction.fragment_received isData arrives now
  rw [isPush] at received
  cases received
  rfl

end Push

theorem nothing_given (transports : Transports heartbeat sender way receiver trace count) :
    Transports heartbeat sender way receiver (trace ++ ([] : List Bytes).map .given) count := by
  rwa [List.map_nil, List.append_nil]

end Transports

/-! ### The passes of the loops -/

section Passes

variable {Peer : Type*} {sender : Option Nat} {way rest : List Bytes}
  {receiver : Option CarrierReassembly} {trace : List (Transfer Bytes)} {count : Nat}

/-- What a loop can end with: of the reassembly only the full table. -/
def Sane : RelayError → Prop
  | .receive error => error = .limitReached
  | _ => True

/-- A datagram can arrive if it is on the way. -/
theorem withdraw_some {frame : Bytes} (isRest : withdraw way (some frame) = some rest) :
    frame ∈ way ∧ rest = way.erase frame := by
  unfold withdraw at isRest
  dsimp only at isRest
  split at isRest
  next member =>
    cases isRest
    exact ⟨List.contains_iff_mem.mp member, rfl⟩
  next => cases isRest

/-- So it can with more behind. -/
theorem withdraw_append {frame : Option Bytes} (isRest : withdraw way frame = some rest)
    (more : List Bytes) : withdraw (way ++ more) frame = some (rest ++ more) := by
  cases frame with
  | none =>
      cases isRest
      rfl
  | some frame =>
      obtain ⟨member, rfl⟩ := withdraw_some isRest
      have stillThere := List.contains_iff_mem.mpr (List.mem_append_left more member)
      rw [withdraw, if_pos stillThere, List.erase_append_left _ member]

/-- The server takes a packet from upstream, or answers a heartbeat. -/
theorem ServerPass.sends {relay : RelayConnection} {input : ServerInput}
    {pass : Pass RelayConnection Unit} (isPass : ServerPass relay input pass)
    (transports : Transports carrierPong (some relay.message) way receiver trace count)
    (few : count < 2 ^ 64) :
    Transports carrierPong (some pass.next.message) (way ++ framesIn pass.actions) receiver
      (trace ++ downward (input.observed : List (Observation Peer))) (count + 1) := by
  have later := transports.weaken (fun _ => id) (.refl _) (fun _ => id) 1
  cases isPass with
  | answer now => simpa using later.heartbeat_sent
  | refused => simpa using later
  | stored => simpa using later
  | complete => simpa using later
  | @unsent payload maximum error => simpa using later.packet_taken (received payload)
  | @sent payload maximum message frames isSend =>
      have sent := transports.message_sent isSend (length_received_le payload) few
      rw [framesIn_datagrams]
      exact sent.weaken (fun _ => id) List.perm_append_comm.subperm (fun _ => id) 0

/-- The server gets a datagram. -/
theorem ServerPass.receives {relay : RelayConnection} {input : ServerInput}
    {pass : Pass RelayConnection Unit} (isPass : ServerPass relay input pass)
    (transports : Transports carrierPing sender way (some relay.received) trace count)
    (isRest : withdraw way input.datagram? = some rest) :
    Transports carrierPing sender rest
        (if pass.error = none then some pass.next.received else none)
        (trace ++ (payloadsIn pass.actions).map .given) count ∧
      ∀ error, pass.error = some error → Sane error := by
  cases isPass with
  | answer now =>
      obtain ⟨_, rfl⟩ := withdraw_some isRest
      exact ⟨(transports.arrived carrierPing).nothing_given, by simp⟩
  | @refused incoming now next error isData isPush =>
      obtain ⟨arrives, rfl⟩ := withdraw_some isRest
      have full := transports.refused isData arrives isPush
      exact ⟨(transports.arrived incoming).gone.nothing_given, by simpa [Sane] using full⟩
  | @stored incoming now next isData isPush =>
      obtain ⟨arrives, rfl⟩ := withdraw_some isRest
      exact ⟨(transports.stored isData arrives isPush).nothing_given, by simp⟩
  | @complete incoming now next payload isData isPush =>
      obtain ⟨arrives, rfl⟩ := withdraw_some isRest
      exact ⟨transports.complete isData arrives isPush, by simp⟩
  | unsent =>
      cases isRest
      exact ⟨transports.gone.nothing_given, by simp [Sane]⟩
  | sent =>
      cases isRest
      exact ⟨by simpa [payloadsIn] using transports, by simp⟩

/-- The client takes a packet from its local side, hands over a fragment or sends a
heartbeat. -/
theorem ClientPass.sends {session : ClientSession Peer} {input : ClientInput Peer}
    {pass : Pass (ClientSession Peer) Peer} (isPass : ClientPass session input pass)
    (transports : Transports carrierPing (some session.message) (session.sending ++ way) receiver
      trace count) (few : count < 2 ^ 64) :
    Transports carrierPing (some pass.next.message)
      (pass.next.sending ++ (way ++ framesIn pass.actions)) receiver
      (trace ++ upward input.observed) (count + 1) := by
  have later := transports.weaken (fun _ => id) (.refl _) (fun _ => id) 1
  cases isPass with
  | @unsent peer payload maximum error idle =>
      simpa using later.packet_taken (received payload)
  | @queued peer payload maximum message frames idle isSend =>
      rw [idle] at transports
      have sent := transports.message_sent isSend (length_received_le payload) few
      simpa using sent
  | @transmit frame sending isNext =>
      rw [isNext] at later
      have moved : (sending ++ (way ++ [frame])).Perm (frame :: sending ++ way) := by
        rw [← List.append_assoc]
        exact List.perm_append_comm
      simpa using later.weaken (fun _ => id) moved.subperm (fun _ => id) 0
  | dead => simpa using later
  | alive =>
      have beaten := later.heartbeat_sent
      rw [List.append_assoc] at beaten
      simpa using beaten
  | answered => simpa using later
  | refused => simpa using later
  | stored => simpa using later
  | dropped => simpa using later
  | complete => simpa using later

/-- The client gets a datagram. -/
theorem ClientPass.receives {session : ClientSession Peer} {input : ClientInput Peer}
    {pass : Pass (ClientSession Peer) Peer} (isPass : ClientPass session input pass)
    (transports : Transports carrierPong sender way (some session.received) trace count)
    (isRest : withdraw way input.datagram? = some rest) :
    Transports carrierPong sender rest
        (if pass.error = none then some pass.next.received else none)
        (trace ++ (payloadsIn pass.actions).map .given) count ∧
      ∀ error, pass.error = some error → Sane error := by
  cases isPass with
  | unsent =>
      cases isRest
      exact ⟨transports.gone.nothing_given, by simp [Sane]⟩
  | queued =>
      cases isRest
      exact ⟨transports.nothing_given, by simp⟩
  | transmit =>
      cases isRest
      exact ⟨transports.nothing_given, by simp⟩
  | dead =>
      cases isRest
      exact ⟨transports.gone.nothing_given, by simp [Sane]⟩
  | alive =>
      cases isRest
      exact ⟨transports.nothing_given, by simp⟩
  | answered now =>
      obtain ⟨_, rfl⟩ := withdraw_some isRest
      exact ⟨(transports.arrived carrierPong).nothing_given, by simp⟩
  | @refused incoming now next error isData isPush =>
      obtain ⟨arrives, rfl⟩ := withdraw_some isRest
      have full := transports.refused isData arrives isPush
      exact ⟨(transports.arrived incoming).gone.nothing_given, by simpa [Sane] using full⟩
  | @stored incoming now next isData isPush =>
      obtain ⟨arrives, rfl⟩ := withdraw_some isRest
      exact ⟨(transports.stored isData arrives isPush).nothing_given, by simp⟩
  | @dropped incoming now next payload isData isPush noPeer =>
      obtain ⟨arrives, rfl⟩ := withdraw_some isRest
      have nothing : [] <+: [payload] := List.nil_prefix
      have later := (transports.complete isData arrives isPush).unsaid nothing
      exact ⟨later, by simp⟩
  | @complete incoming now next payload peer isData isPush isPeer =>
      obtain ⟨arrives, rfl⟩ := withdraw_some isRest
      exact ⟨transports.complete isData arrives isPush, by simp⟩

end Passes

/-! ### The whole carrier -/

section Runs

variable {Peer : Type*}

/-- The actions that are taken are the first ones of the pass, and the loop goes on only
after all of them. -/
theorem Pass.conclude_spec {State Destination : Type*} (pass : Pass State Destination)
    (failsAfter : Option Nat) :
    (pass.conclude failsAfter).actions <+: pass.actions ∧
      (∀ next, (pass.conclude failsAfter).next = some next →
        next = pass.next ∧ pass.error = none) ∧
      ∀ error, (pass.conclude failsAfter).ended = some error →
        error = .io ∨ pass.error = some error := by
  unfold Pass.conclude
  split
  · exact ⟨List.take_prefix _ _, by simp, by simp⟩
  · split
    next error isError => exact ⟨List.prefix_rfl, by simp, by simp [isError]⟩
    next isError => exact ⟨List.prefix_rfl, by simp [isError], by simp⟩

/-- The client's fragments and the datagrams on the way to the server. -/
def Carrier.outward (carrier : Carrier Peer) : List Bytes :=
  ((carrier.client.map ClientSession.sending).getD []) ++ carrier.toServer

/-- How an end may have ended. -/
def Observation.Sane : Observation Peer → Prop
  | .clientEnded error => Relay.Sane error
  | .serverEnded error => Relay.Sane error
  | _ => True

/-- A packet for the local side goes to the peer of the last packet from there. -/
def RepliesToLast (front : List (Observation Peer)) (item : Observation Peer) : Prop :=
  ∀ peer payload, item = .toLocal peer payload → lastPeer front = some peer

/-- What holds of the carrier after at most `count` events. -/
structure Reached (carrier : Carrier Peer) (observed : List (Observation Peer)) (count : Nat) :
    Prop where
  up : Transports carrierPing (carrier.client.map ClientSession.message) carrier.outward
    (carrier.server.map RelayConnection.received) (upward observed) count
  down : Transports carrierPong (carrier.server.map RelayConnection.message) carrier.toClient
    (carrier.client.map ClientSession.received) (downward observed) count
  peer : ∀ client, carrier.client = some client → client.peer = lastPeer observed
  replies : ∀ front item, front ++ [item] <+: observed → RepliesToLast front item
  sane : ∀ observation ∈ observed, observation.Sane

theorem upward_append (front back : List (Observation Peer)) :
    upward (front ++ back) = upward front ++ upward back :=
  List.filterMap_append

theorem downward_append (front back : List (Observation Peer)) :
    downward (front ++ back) = downward front ++ downward back :=
  List.filterMap_append

/-- Observations that are no packets from the local side leave the last peer. -/
theorem lastPeer_append {observed more : List (Observation Peer)}
    (silent : more.filterMap Observation.localPeer? = []) :
    lastPeer (observed ++ more) = lastPeer observed := by
  unfold lastPeer
  rw [List.filterMap_append, silent, List.append_nil]

/-! ### Events -/

/-- What the client's pass shows besides the packet it takes. -/
def clientShows (outcome : Outcome (ClientSession Peer) Peer) : List (Observation Peer) :=
  (packetsIn outcome.actions).map (fun packet => .toLocal packet.1 packet.2) ++
    outcome.ended.toList.map .clientEnded

/-- What the server's pass shows besides the packet it takes. -/
def serverShows (outcome : Outcome RelayConnection Unit) : List (Observation Peer) :=
  (packetsIn outcome.actions).map (fun packet => .toUpstream packet.2) ++
    outcome.ended.toList.map .serverEnded

theorem upward_clientShows (outcome : Outcome (ClientSession Peer) Peer) :
    upward (clientShows outcome) = [] := by
  cases isEnded : outcome.ended <;>
    simp [upward, clientShows, Observation.upward?, Function.comp_def, isEnded]

theorem downward_clientShows (outcome : Outcome (ClientSession Peer) Peer) :
    downward (clientShows outcome) = (payloadsIn outcome.actions).map .given := by
  cases isEnded : outcome.ended <;>
    simp [downward, clientShows, payloadsIn, Observation.downward?, Function.comp_def,
      List.filterMap_map, isEnded]

theorem upward_serverShows (outcome : Outcome RelayConnection Unit) :
    upward (serverShows outcome : List (Observation Peer)) = (payloadsIn outcome.actions).map .given := by
  cases isEnded : outcome.ended <;>
    simp [upward, serverShows, payloadsIn, Observation.upward?, Function.comp_def,
      List.filterMap_map, isEnded]

theorem downward_serverShows (outcome : Outcome RelayConnection Unit) :
    downward (serverShows outcome : List (Observation Peer)) = [] := by
  cases isEnded : outcome.ended <;>
    simp [downward, serverShows, Observation.downward?, Function.comp_def, isEnded]

/-- A packet for the local side comes with a datagram and goes to the peer of the session. -/
theorem ClientPass.reply {session : ClientSession Peer} {input : ClientInput Peer}
    {pass : Pass (ClientSession Peer) Peer} (isPass : ClientPass session input pass)
    {peer : Peer} {payload : Bytes} (isReply : (peer, payload) ∈ packetsIn pass.actions) :
    session.peer = some peer ∧ input.observed = [] := by
  cases isPass with
  | complete isData isPush isPeer =>
      cases List.mem_singleton.mp isReply
      exact ⟨isPeer, rfl⟩
  | _ => simp at isReply

theorem ClientPass.peer {session : ClientSession Peer} {input : ClientInput Peer}
    {pass : Pass (ClientSession Peer) Peer} (isPass : ClientPass session input pass)
    {observed : List (Observation Peer)} (isPeer : session.peer = lastPeer observed) :
    pass.next.peer = lastPeer (observed ++ input.observed) := by
  cases isPass <;> simp [ClientInput.observed, lastPeer, Observation.localPeer?, isPeer]

theorem localPeers_clientShows (outcome : Outcome (ClientSession Peer) Peer) :
    (clientShows outcome).filterMap Observation.localPeer? = [] := by
  cases isEnded : outcome.ended <;>
    simp [clientShows, Observation.localPeer?, Function.comp_def, isEnded]

theorem localPeers_serverShows (outcome : Outcome RelayConnection Unit) :
    (serverShows outcome : List (Observation Peer)).filterMap Observation.localPeer? = [] := by
  cases isEnded : outcome.ended <;>
    simp [serverShows, Observation.localPeer?, Function.comp_def, isEnded]

theorem packet_of_toLocal {input : ClientInput Peer}
    {outcome : Outcome (ClientSession Peer) Peer} {peer : Peer} {payload : Bytes}
    (member : .toLocal peer payload ∈ input.observed ++ clientShows outcome) :
    (peer, payload) ∈ packetsIn outcome.actions := by
  cases input <;> simpa [ClientInput.observed, clientShows] using member

theorem not_toLocal_of_server (input : ServerInput) (outcome : Outcome RelayConnection Unit)
    {peer : Peer} {payload : Bytes} :
    .toLocal peer payload ∉ input.observed ++ serverShows outcome := by
  cases input <;> simp [ServerInput.observed, serverShows]

theorem sane_of_client {input : ClientInput Peer} {outcome : Outcome (ClientSession Peer) Peer}
    {observation : Observation Peer} (member : observation ∈ input.observed ++ clientShows outcome)
    (sane : ∀ error, outcome.ended = some error → Sane error) : observation.Sane := by
  cases observation with
  | clientEnded error =>
      apply sane
      cases input <;> simpa [ClientInput.observed, clientShows] using member
  | serverEnded error => cases input <;> simp [ClientInput.observed, clientShows] at member
  | _ => trivial

theorem sane_of_server {input : ServerInput} {outcome : Outcome RelayConnection Unit}
    {observation : Observation Peer} (member : observation ∈ input.observed ++ serverShows outcome)
    (sane : ∀ error, outcome.ended = some error → Sane error) : observation.Sane := by
  cases observation with
  | serverEnded error =>
      apply sane
      cases input <;> simpa [ServerInput.observed, serverShows] using member
  | clientEnded error => cases input <;> simp [ServerInput.observed, serverShows] at member
  | _ => trivial

section Event

variable {carrier : Carrier Peer} {observed : List (Observation Peer)} {count : Nat}

/-- An event at the client. -/
theorem Reached.client (reached : Reached carrier observed count) (few : count < 2 ^ 64)
    {client : ClientSession Peer} (isClient : carrier.client = some client)
    {input : ClientInput Peer} {rest : List Bytes}
    (isRest : withdraw carrier.toClient input.datagram? = some rest)
    {pass : Pass (ClientSession Peer) Peer} (isPass : ClientPass client input pass)
    {outcome : Outcome (ClientSession Peer) Peer} (failsAfter : Option Nat)
    (isOutcome : outcome = pass.conclude failsAfter) :
    Reached { carrier with
        client := outcome.next
        toClient := rest
        toServer := carrier.toServer ++ framesIn outcome.actions }
      (observed ++ (input.observed ++ clientShows outcome)) (count + 1) := by
  obtain ⟨isFront, isNext, isEnded⟩ := pass.conclude_spec failsAfter
  rw [← isOutcome] at isFront isNext isEnded
  have up := reached.up
  have down := reached.down
  rw [Carrier.outward, isClient, Option.map_some, Option.map_some, Option.getD_some] at up
  rw [isClient, Option.map_some] at down
  obtain ⟨received, sane⟩ := isPass.receives down isRest
  have noPacket : downward input.observed = [] := by cases input <;> rfl
  constructor
  · rw [upward_append, upward_append, upward_clientShows, List.append_nil]
    refine (isPass.sends up few).weaken ?_ ?_ (fun _ => id) 0
    · intro message isMessage
      obtain ⟨next, goesOn, rfl⟩ := Option.map_eq_some_iff.mp isMessage
      rw [(isNext next goesOn).1]
    · apply List.Sublist.subperm
      refine List.Sublist.append ?_ ((List.Sublist.refl _).append (isFront.sublist.filterMap _))
      cases goesOn : outcome.next with
      | none => exact List.nil_sublist _
      | some next => rw [(isNext next goesOn).1]; exact List.Sublist.refl _
  · rw [downward_append, downward_append, noPacket, downward_clientShows, List.nil_append]
    refine (received.unsaid ((isFront.filterMap _).map _)).weaken (fun _ => id) (.refl _) ?_ 1
    intro reassembly isReassembly
    obtain ⟨next, goesOn, rfl⟩ := Option.map_eq_some_iff.mp isReassembly
    obtain ⟨rfl, noError⟩ := isNext next goesOn
    rw [if_pos noError]
  · intro next goesOn
    rw [(isNext next goesOn).1, isPass.peer (reached.peer client isClient), ← List.append_assoc,
      lastPeer_append (localPeers_clientShows outcome)]
  · apply front_append reached.replies
    rintro front item isPrefix peer payload rfl
    obtain ⟨isReply, alone⟩ := isPass.reply
      ((isFront.filterMap _).subset (packet_of_toLocal (mem_of_front isPrefix)))
    have silent : front.filterMap Observation.localPeer? = [] := by
      have shorter := ((List.prefix_append front _).trans isPrefix).filterMap
        Observation.localPeer?
      rw [alone, List.nil_append, localPeers_clientShows] at shorter
      exact List.prefix_nil.mp shorter
    rw [lastPeer_append silent, ← reached.peer client isClient, isReply]
  · intro observation member
    rcases List.mem_append.mp member with old | new
    · exact reached.sane observation old
    · apply sane_of_client new
      intro error ended
      rcases isEnded error ended with rfl | isError
      · trivial
      · exact sane error isError

/-- An event at the server. -/
theorem Reached.server (reached : Reached carrier observed count) (few : count < 2 ^ 64)
    {server : RelayConnection} (isServer : carrier.server = some server)
    {input : ServerInput} {rest : List Bytes}
    (isRest : withdraw carrier.toServer input.datagram? = some rest)
    {pass : Pass RelayConnection Unit} (isPass : ServerPass server input pass)
    {outcome : Outcome RelayConnection Unit} (failsAfter : Option Nat)
    (isOutcome : outcome = pass.conclude failsAfter) :
    Reached { carrier with
        server := outcome.next
        toServer := rest
        toClient := carrier.toClient ++ framesIn outcome.actions }
      (observed ++ (input.observed ++ serverShows outcome)) (count + 1) := by
  obtain ⟨isFront, isNext, isEnded⟩ := pass.conclude_spec failsAfter
  rw [← isOutcome] at isFront isNext isEnded
  have up := reached.up
  have down := reached.down
  rw [isServer, Option.map_some] at up
  rw [isServer, Option.map_some] at down
  -- The datagram comes from the way, not from the fragments the client still holds.
  have swapped := up.weaken (fun _ => id) List.perm_append_comm.subperm (fun _ => id) 0
  obtain ⟨received, sane⟩ := isPass.receives swapped (withdraw_append isRest _)
  have noPacket : upward (input.observed : List (Observation Peer)) = [] := by cases input <;> rfl
  have silent : (input.observed ++ serverShows outcome : List (Observation Peer)).filterMap
      Observation.localPeer? = [] := by
    rw [List.filterMap_append, localPeers_serverShows, List.append_nil]
    cases input <;> rfl
  constructor
  · rw [upward_append, upward_append, noPacket, upward_serverShows, List.nil_append]
    refine (received.unsaid ((isFront.filterMap _).map _)).weaken (fun _ => id)
      List.perm_append_comm.subperm ?_ 1
    intro reassembly isReassembly
    obtain ⟨next, goesOn, rfl⟩ := Option.map_eq_some_iff.mp isReassembly
    obtain ⟨rfl, noError⟩ := isNext next goesOn
    rw [if_pos noError]
  · rw [downward_append, downward_append, downward_serverShows, List.append_nil]
    refine (isPass.sends down few).weaken ?_ ?_ (fun _ => id) 0
    · intro message isMessage
      obtain ⟨next, goesOn, rfl⟩ := Option.map_eq_some_iff.mp isMessage
      rw [(isNext next goesOn).1]
    · exact ((List.Sublist.refl _).append (isFront.sublist.filterMap _)).subperm
  · intro client isClient
    rw [lastPeer_append silent, reached.peer client isClient]
  · apply front_append reached.replies
    rintro front item isPrefix peer payload rfl
    exact absurd (mem_of_front isPrefix) (not_toLocal_of_server input outcome)
  · intro observation member
    rcases List.mem_append.mp member with old | new
    · exact reached.sane observation old
    · apply sane_of_server new
      intro error ended
      rcases isEnded error ended with rfl | isError
      · trivial
      · exact sane error isError

/-- Nothing but the ways and the ends becomes less, and only the end of a loop is seen. -/
theorem Reached.weaken (reached : Reached carrier observed count) {less : Carrier Peer}
    (clientLeft : ∀ client, less.client = some client → carrier.client = some client)
    (serverLeft : ∀ server, less.server = some server → carrier.server = some server)
    (toServer : less.toServer.Sublist carrier.toServer)
    (toClient : less.toClient.Sublist carrier.toClient) {more : List (Observation Peer)}
    (ended : ∀ item ∈ more, item = .clientEnded .io ∨ item = .serverEnded .io) :
    Reached less (observed ++ more) (count + 1) := by
  have noUp : upward more = [] := by
    refine List.filterMap_eq_nil_iff.mpr fun item member => ?_
    rcases ended item member with rfl | rfl <;> rfl
  have noDown : downward more = [] := by
    refine List.filterMap_eq_nil_iff.mpr fun item member => ?_
    rcases ended item member with rfl | rfl <;> rfl
  have noPeer : more.filterMap Observation.localPeer? = [] := by
    refine List.filterMap_eq_nil_iff.mpr fun item member => ?_
    rcases ended item member with rfl | rfl <;> rfl
  constructor
  · rw [upward_append, noUp, List.append_nil]
    refine reached.up.weaken ?_ ?_ ?_ 1
    · intro message isMessage
      obtain ⟨client, isClient, rfl⟩ := Option.map_eq_some_iff.mp isMessage
      rw [clientLeft client isClient, Option.map_some]
    · apply List.Sublist.subperm
      refine List.Sublist.append ?_ toServer
      cases isClient : less.client with
      | none => exact List.nil_sublist _
      | some client => rw [clientLeft client isClient]
    · intro reassembly isReassembly
      obtain ⟨server, isServer, rfl⟩ := Option.map_eq_some_iff.mp isReassembly
      rw [serverLeft server isServer, Option.map_some]
  · rw [downward_append, noDown, List.append_nil]
    refine reached.down.weaken ?_ toClient.subperm ?_ 1
    · intro message isMessage
      obtain ⟨server, isServer, rfl⟩ := Option.map_eq_some_iff.mp isMessage
      rw [serverLeft server isServer, Option.map_some]
    · intro reassembly isReassembly
      obtain ⟨client, isClient, rfl⟩ := Option.map_eq_some_iff.mp isReassembly
      rw [clientLeft client isClient, Option.map_some]
  · intro client isClient
    rw [lastPeer_append noPeer, reached.peer client (clientLeft client isClient)]
  · apply front_append reached.replies
    rintro front item isPrefix peer payload rfl
    rcases ended _ (mem_of_front isPrefix) with isEnd | isEnd <;> cases isEnd
  · intro observation member
    rcases List.mem_append.mp member with old | new
    · exact reached.sane observation old
    · rcases ended observation new with rfl | rfl <;> trivial

/-- Every event keeps it. -/
theorem Reached.step (reached : Reached carrier observed count) (few : count < 2 ^ 64)
    {event : Event Peer} {next : Carrier Peer} {emitted : List (Observation Peer)}
    (stepped : carrier.step event = some (next, emitted)) :
    Reached next (observed ++ emitted) (count + 1) := by
  unfold Carrier.step at stepped
  cases event with
  | client input failsAfter =>
      obtain ⟨client, isClient, stepped⟩ := Option.bind_eq_some_iff.mp stepped
      obtain ⟨rest, isRest, stepped⟩ := Option.bind_eq_some_iff.mp stepped
      obtain ⟨pass, isPass, isNext⟩ := Option.map_eq_some_iff.mp stepped
      cases isNext
      rw [List.append_assoc]
      exact reached.client few isClient isRest (relayClientSession_pass isPass) failsAfter rfl
  | server input failsAfter =>
      obtain ⟨server, isServer, stepped⟩ := Option.bind_eq_some_iff.mp stepped
      obtain ⟨rest, isRest, isNext⟩ := Option.map_eq_some_iff.mp stepped
      cases isNext
      rw [List.append_assoc]
      exact reached.server few isServer isRest (relayConnection_pass server input) failsAfter rfl
  | clientFails =>
      obtain ⟨client, _, isNext⟩ := Option.map_eq_some_iff.mp stepped
      cases isNext
      refine reached.weaken ?_ ?_ ?_ ?_ ?_
      · simp
      · exact fun server => id
      · exact .refl _
      · exact .refl _
      · simp
  | serverFails =>
      obtain ⟨server, _, isNext⟩ := Option.map_eq_some_iff.mp stepped
      cases isNext
      refine reached.weaken ?_ ?_ ?_ ?_ ?_
      · exact fun client => id
      · simp
      · exact .refl _
      · exact .refl _
      · simp
  | lostToServer frame =>
      obtain ⟨rest, isRest, isNext⟩ := Option.map_eq_some_iff.mp stepped
      cases isNext
      obtain ⟨_, rfl⟩ := withdraw_some isRest
      refine reached.weaken ?_ ?_ ?_ ?_ ?_
      · exact fun client => id
      · exact fun server => id
      · exact List.erase_sublist
      · exact .refl _
      · simp
  | lostToClient frame =>
      obtain ⟨rest, isRest, isNext⟩ := Option.map_eq_some_iff.mp stepped
      cases isNext
      obtain ⟨_, rfl⟩ := withdraw_some isRest
      refine reached.weaken ?_ ?_ ?_ ?_ ?_
      · exact fun client => id
      · exact fun server => id
      · exact .refl _
      · exact List.erase_sublist
      · simp

theorem Reached.start (now : Nat) : Reached (Carrier.start now : Carrier Peer) [] 0 where
  up := Transports.start (Or.inl rfl)
  down := Transports.start (Or.inr rfl)
  peer := fun client isClient => by cases isClient; rfl
  replies := fun front item isPrefix => absurd (List.prefix_nil.mp isPrefix) (by simp)
  sane := fun observation member => absurd member List.not_mem_nil

end Event

theorem reached_of_run {start : Nat} {events : List (Event Peer)} (few : events.length ≤ 2 ^ 64)
    {carrier : Carrier Peer} {observed : List (Observation Peer)}
    (ran : run Carrier.step (Carrier.start start) events = some (carrier, observed)) :
    Reached carrier observed events.length := by
  refine run_invariant ran (fun past observed carrier => Reached carrier observed past.length)
    (Reached.start start) ?_
  intro past event observed carrier next emitted isPrefix _ stepped reached
  rw [List.length_append, List.length_singleton]
  have short := isPrefix.length_le
  rw [List.length_append, List.length_singleton] at short
  exact reached.step (by omega) stepped

/-- Whatever is lost, reordered and interleaved, and wherever an end fails: towards either
side the carrier is a lossy channel, a reply goes to the peer of the last local packet, and
of the errors of the reassembly only the full table ends a loop. -/
theorem carrier_is_lossy_channel (start : Nat) (events : List (Event Peer))
    (few : events.length ≤ 2 ^ 64) (carrier : Carrier Peer) (observed : List (Observation Peer))
    (ran : run Carrier.step (Carrier.start start) events = some (carrier, observed)) :
    (∃ way, LossyChannel (upward observed) way) ∧
    (∃ way, LossyChannel (downward observed) way) ∧
    (∀ front peer payload, front ++ [.toLocal peer payload] <+: observed →
      lastPeer front = some peer) ∧
    ∀ error, .clientEnded (.receive error) ∈ observed ∨ .serverEnded (.receive error) ∈ observed →
      error = .limitReached := by
  have reached := reached_of_run few ran
  obtain ⟨_, _, up⟩ := reached.up
  obtain ⟨_, _, down⟩ := reached.down
  refine ⟨up.channel, down.channel, ?_, ?_⟩
  · intro front peer payload isPrefix
    exact reached.replies front _ isPrefix peer payload rfl
  · rintro error (isEnd | isEnd) <;> exact reached.sane _ isEnd

end Runs

/-- A packet of two fragments that arrive in the wrong order around a heartbeat, and a reply
to it behind a lost answer. -/
def exchange : List (Event Nat) :=
  [.client (.packet 7 [1, 2] (some 13)) none, .client .transmit none, .client .transmit none,
    .server (.datagram (carrierFrame 1 1 2 [2]) 5) none, .client (.heartbeat 6) none,
    .server (.datagram (carrierFrame 1 0 2 [1]) 8) none, .server (.packet [9] (some 100)) none,
    .server (.datagram carrierPing 9) none, .lostToClient carrierPong,
    .client (.datagram (carrierFrame 1 0 1 [9]) 10) none]

theorem carrier_is_lossy_channel_exchange :
    ∃ carrier observed, run Carrier.step (Carrier.start 0) exchange = some (carrier, observed) ∧
      observed = [.fromLocal 7 [1, 2], .toUpstream [1, 2], .fromUpstream [9], .toLocal 7 [9]] ∧
      (∃ way, LossyChannel (upward observed) way) ∧
      ∃ way, LossyChannel (downward observed) way := by
  refine ⟨_, _, rfl, rfl, ?_⟩
  have safe := carrier_is_lossy_channel 0 exchange (by decide) _ _ rfl
  exact ⟨safe.1, safe.2.1⟩

end SmartFecTunnel.Relay
