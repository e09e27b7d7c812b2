import SmartFecTunnel.Library.LossyChannel
import SmartFecTunnel.Relay.Carrier

/-!
Contract: the two ends of the datagram carrier (`relay_connection` and
`relay_client_session` in `src/quic_relay.rs`) and the connection between them.

An end is woken by one input at a time.  A pass of its loop gives the actions it takes in
order and the error that ends the loop, if there is one.  The client runs its two
directions side by side, so its pass for a packet only queues the fragments; it takes the
next packet when all of them have been handed to the connection.

QUIC datagrams are lost and reordered, but not repeated and not forged.

Owns: the ends, the events of the whole carrier and what can be observed of it.

Does not own: authentication, and the lanes.
-/

namespace SmartFecTunnel.Relay

open SmartFecTunnel.Library

def carrierDeadTimeout : Nat := 6_000_000_000

/-- What ends a loop; `io` stands for every error of a socket or of the connection. -/
inductive RelayError where
  | receive (error : CarrierError)
  | send (error : SendError)
  | heartbeatTimeout
  | io
deriving DecidableEq, Repr

def RelayError.message : RelayError → Option String
  | .receive error => some error.message
  | .send error => some error.message
  | .heartbeatTimeout => some "QUIC carrier heartbeat timeout"
  | .io => none

/-- What a loop hands to the connection, or to its socket for a destination. -/
inductive Action (Destination : Type*) where
  | datagram (frame : Bytes)
  | packet (destination : Destination) (payload : Bytes)
deriving DecidableEq, Repr

/-- A pass of a loop: the state for the next one, the actions, and what ends the loop. -/
structure Pass (State Destination : Type*) where
  next : State
  actions : List (Action Destination)
  error : Option RelayError

/-! ### The server -/

structure RelayConnection where
  received : CarrierReassembly
  message : Nat

def RelayConnection.new : RelayConnection := ⟨.default, 0⟩

/-- `maximum` is the size of datagrams that the connection has negotiated. -/
inductive ServerInput where
  | datagram (incoming : Bytes) (now : Nat)
  | packet (payload : Bytes) (maximum : Option Nat)
deriving DecidableEq, Repr

/-- What `recv` puts into a buffer of `MAX_DATAGRAM` bytes. -/
def received (payload : Bytes) : Bytes := payload.take maxDatagram

theorem length_received_le (payload : Bytes) : (received payload).length ≤ maxDatagram :=
  List.length_take_le _ _

def relayConnection (relay : RelayConnection) : ServerInput → Pass RelayConnection Unit
  | .datagram incoming now =>
    if incoming = carrierPing then ⟨relay, [.datagram carrierPong], none⟩
    else
      match relay.received.push incoming now with
      | (received, .error error) => ⟨{ relay with received }, [], some (.receive error)⟩
      | (received, .ok none) => ⟨{ relay with received }, [], none⟩
      | (received, .ok (some payload)) => ⟨{ relay with received }, [.packet () payload], none⟩
  | .packet payload maximum =>
    match sendCarrier maximum (received payload) relay.message with
    | (message, .error error) => ⟨{ relay with message }, [], some (.send error)⟩
    | (message, .ok frames) => ⟨{ relay with message }, frames.map .datagram, none⟩

/-! ### The client -/

/-- `sending` are the fragments of the current packet that are still to be sent. -/
structure ClientSession (Peer : Type*) where
  peer : Option Peer
  received : CarrierReassembly
  message : Nat
  sending : List Bytes
  lastServerActivity : Nat

def ClientSession.new {Peer : Type*} (now : Nat) : ClientSession Peer :=
  ⟨none, .default, 0, [], now⟩

/-- `transmit` is the turn of the sending half to hand over one fragment. -/
inductive ClientInput (Peer : Type*) where
  | packet (peer : Peer) (payload : Bytes) (maximum : Option Nat)
  | transmit
  | heartbeat (now : Nat)
  | datagram (incoming : Bytes) (now : Nat)
deriving DecidableEq, Repr

/-- There is no pass for a packet while fragments are queued, nor for a turn of the sending
half when none is. -/
def relayClientSession {Peer : Type*} (session : ClientSession Peer) :
    ClientInput Peer → Option (Pass (ClientSession Peer) Peer)
  | .packet peer payload maximum =>
    if session.sending ≠ [] then none
    else
      match sendCarrier maximum (received payload) session.message with
      | (message, .error error) =>
        some ⟨{ session with peer := some peer, message }, [], some (.send error)⟩
      | (message, .ok frames) =>
        some ⟨{ session with peer := some peer, message, sending := frames }, [], none⟩
  | .transmit =>
    match session.sending with
    | [] => none
    | frame :: sending => some ⟨{ session with sending }, [.datagram frame], none⟩
  | .heartbeat now =>
    if carrierDeadTimeout < now - session.lastServerActivity then
      some ⟨session, [], some .heartbeatTimeout⟩
    else some ⟨session, [.datagram carrierPing], none⟩
  | .datagram incoming now =>
    let session := { session with lastServerActivity := now }
    if incoming = carrierPong then some ⟨session, [], none⟩
    else
      match session.received.push incoming now with
      | (received, .error error) => some ⟨{ session with received }, [], some (.receive error)⟩
      | (received, .ok payload) =>
        -- A payload that is complete before any local packet is dropped.
        match session.peer, payload with
        | some peer, some payload =>
          some ⟨{ session with received }, [.packet peer payload], none⟩
        | _, _ => some ⟨{ session with received }, [], none⟩

/-! ### What a pass does -/

/-- What a pass of the server does. -/
inductive ServerPass (relay : RelayConnection) :
    ServerInput → Pass RelayConnection Unit → Prop
  | answer (now : Nat) :
      ServerPass relay (.datagram carrierPing now) ⟨relay, [.datagram carrierPong], none⟩
  | refused {incoming : Bytes} {now : Nat} {next : CarrierReassembly} {error : CarrierError}
      (isData : incoming ≠ carrierPing)
      (isPush : relay.received.push incoming now = (next, .error error)) :
      ServerPass relay (.datagram incoming now)
        ⟨{ relay with received := next }, [], some (.receive error)⟩
  | stored {incoming : Bytes} {now : Nat} {next : CarrierReassembly}
      (isData : incoming ≠ carrierPing)
      (isPush : relay.received.push incoming now = (next, .ok none)) :
      ServerPass relay (.datagram incoming now) ⟨{ relay with received := next }, [], none⟩
  | complete {incoming : Bytes} {now : Nat} {next : CarrierReassembly} {payload : Bytes}
      (isData : incoming ≠ carrierPing)
      (isPush : relay.received.push incoming now = (next, .ok (some payload))) :
      ServerPass relay (.datagram incoming now)
        ⟨{ relay with received := next }, [.packet () payload], none⟩
  | unsent {payload : Bytes} {maximum : Option Nat} {error : SendError}
      (isSend : sendCarrier maximum (received payload) relay.message =
        (relay.message, .error error)) :
      ServerPass relay (.packet payload maximum) ⟨relay, [], some (.send error)⟩
  | sent {payload : Bytes} {maximum : Option Nat} {message : Nat} {frames : List Bytes}
      (isSend : sendCarrier maximum (received payload) relay.message = (message, .ok frames)) :
      ServerPass relay (.packet payload maximum)
        ⟨{ relay with message }, frames.map .datagram, none⟩

theorem relayConnection_pass (relay : RelayConnection) (input : ServerInput) :
    ServerPass relay input (relayConnection relay input) := by
  unfold relayConnection
  cases input with
  | packet payload maximum =>
      dsimp only
      split
      next message error isSend =>
        have same := sendCarrier_error isSend
        subst same
        exact .unsent isSend
      next message frames isSend => exact .sent isSend
  | datagram incoming now =>
      dsimp only
      split
      next isPing =>
        rw [isPing]
        exact .answer now
      next isData =>
        split
        next next error isPush => exact .refused isData isPush
        next next isPush => exact .stored isData isPush
        next next payload isPush => exact .complete isData isPush

/-- What a pass of the client does. -/
inductive ClientPass {Peer : Type*} (session : ClientSession Peer) :
    ClientInput Peer → Pass (ClientSession Peer) Peer → Prop
  | unsent {peer : Peer} {payload : Bytes} {maximum : Option Nat} {error : SendError}
      (idle : session.sending = []) :
      ClientPass session (.packet peer payload maximum)
        ⟨{ session with peer := some peer }, [], some (.send error)⟩
  | queued {peer : Peer} {payload : Bytes} {maximum : Option Nat} {message : Nat}
      {frames : List Bytes} (idle : session.sending = [])
      (isSend : sendCarrier maximum (received payload) session.message = (message, .ok frames)) :
      ClientPass session (.packet peer payload maximum)
        ⟨{ session with peer := some peer, message, sending := frames }, [], none⟩
  | transmit {frame : Bytes} {sending : List Bytes} (isNext : session.sending = frame :: sending) :
      ClientPass session .transmit ⟨{ session with sending }, [.datagram frame], none⟩
  | dead {now : Nat} (late : carrierDeadTimeout < now - session.lastServerActivity) :
      ClientPass session (.heartbeat now) ⟨session, [], some .heartbeatTimeout⟩
  | alive {now : Nat} (recent : now - session.lastServerActivity ≤ carrierDeadTimeout) :
      ClientPass session (.heartbeat now) ⟨session, [.datagram carrierPing], none⟩
  | answered (now : Nat) :
      ClientPass session (.datagram carrierPong now)
        ⟨{ session with lastServerActivity := now }, [], none⟩
  | refused {incoming : Bytes} {now : Nat} {next : CarrierReassembly} {error : CarrierError}
      (isData : incoming ≠ carrierPong)
      (isPush : session.received.push incoming now = (next, .error error)) :
      ClientPass session (.datagram incoming now)
        ⟨{ session with received := next, lastServerActivity := now }, [], some (.receive error)⟩
  | stored {incoming : Bytes} {now : Nat} {next : CarrierReassembly}
      (isData : incoming ≠ carrierPong)
      (isPush : session.received.push incoming now = (next, .ok none)) :
      ClientPass session (.datagram incoming now)
        ⟨{ session with received := next, lastServerActivity := now }, [], none⟩
  | dropped {incoming : Bytes} {now : Nat} {next : CarrierReassembly} {payload : Bytes}
      (isData : incoming ≠ carrierPong)
      (isPush : session.received.push incoming now = (next, .ok (some payload)))
      (noPeer : session.peer = none) :
      ClientPass session (.datagram incoming now)
        ⟨{ session with received := next, lastServerActivity := now }, [], none⟩
  | complete {incoming : Bytes} {now : Nat} {next : CarrierReassembly} {payload : Bytes}
      {peer : Peer} (isData : incoming ≠ carrierPong)
      (isPush : session.received.push incoming now = (next, .ok (some payload)))
      (isPeer : session.peer = some peer) :
      ClientPass session (.datagram incoming now)
        ⟨{ session with received := next, lastServerActivity := now }, [.packet peer payload],
          none⟩

theorem relayClientSession_pass {Peer : Type*} {session : ClientSession Peer}
    {input : ClientInput Peer} {pass : Pass (ClientSession Peer) Peer}
    (isPass : relayClientSession session input = some pass) : ClientPass session input pass := by
  unfold relayClientSession at isPass
  cases input with
  | packet peer payload maximum =>
      dsimp only at isPass
      split at isPass
      next => cases isPass
      next idle =>
        split at isPass
        next message error isSend =>
          cases isPass
          have same := sendCarrier_error isSend
          subst same
          exact .unsent (not_not.mp idle)
        next message frames isSend =>
          cases isPass
          exact .queued (not_not.mp idle) isSend
  | transmit =>
      dsimp only at isPass
      split at isPass
      next => cases isPass
      next frame sending isNext =>
        cases isPass
        exact .transmit isNext
  | heartbeat now =>
      dsimp only at isPass
      split at isPass
      next late =>
        cases isPass
        exact .dead late
      next recent =>
        cases isPass
        exact .alive (Nat.not_lt.mp recent)
  | datagram incoming now =>
      dsimp only at isPass
      split at isPass
      next isPong =>
        cases isPass
        rw [isPong]
        exact .answered now
      next isData =>
        split at isPass
        next next error isPush =>
          cases isPass
          exact .refused isData isPush
        next next result isPush =>
          cases result with
          | none =>
              have same : pass = ⟨{ session with received := next, lastServerActivity := now },
                  [], none⟩ := by
                cases isPeer : session.peer <;> rw [isPeer] at isPass <;> cases isPass <;> rfl
              rw [same]
              exact .stored isData isPush
          | some payload =>
              cases isPeer : session.peer with
              | none =>
                  rw [isPeer] at isPass
                  cases isPass
                  exact isPeer ▸ .dropped isData isPush isPeer
              | some peer =>
                  rw [isPeer] at isPass
                  cases isPass
                  exact isPeer ▸ .complete isData isPush isPeer

/-! ### Input and output errors -/

/-- How a pass goes: the state if the loop goes on, the actions that were taken, and the
error that ended the loop. -/
structure Outcome (State Destination : Type*) where
  next : Option State
  actions : List (Action Destination)
  ended : Option RelayError

/-- `failsAfter` is the number of actions that succeed before one fails. -/
def Pass.conclude {State Destination : Type*} (pass : Pass State Destination)
    (failsAfter : Option Nat) : Outcome State Destination :=
  match failsAfter.filter (· < pass.actions.length) with
  | some count => ⟨none, pass.actions.take count, some .io⟩
  | none =>
    match pass.error with
    | some error => ⟨none, pass.actions, some error⟩
    | none => ⟨some pass.next, pass.actions, none⟩

/-! ### The carrier -/

/-- An end is gone once its loop has ended. -/
structure Carrier (Peer : Type*) where
  client : Option (ClientSession Peer)
  server : Option RelayConnection
  toServer : List Bytes
  toClient : List Bytes

def Carrier.start {Peer : Type*} (now : Nat) : Carrier Peer :=
  ⟨some (.new now), some .new, [], []⟩

inductive Event (Peer : Type*) where
  | client (input : ClientInput Peer) (failsAfter : Option Nat)
  | server (input : ServerInput) (failsAfter : Option Nat)
  | clientFails
  | serverFails
  | lostToServer (frame : Bytes)
  | lostToClient (frame : Bytes)
deriving DecidableEq, Repr

inductive Observation (Peer : Type*) where
  | fromLocal (peer : Peer) (payload : Bytes)
  | toUpstream (payload : Bytes)
  | fromUpstream (payload : Bytes)
  | toLocal (peer : Peer) (payload : Bytes)
  | clientEnded (error : RelayError)
  | serverEnded (error : RelayError)
deriving DecidableEq, Repr

section Step

variable {Peer : Type*}

def Action.frame? {Destination : Type*} : Action Destination → Option Bytes
  | .datagram frame => some frame
  | .packet _ _ => none

def Action.packet? {Destination : Type*} : Action Destination → Option (Destination × Bytes)
  | .datagram _ => none
  | .packet destination payload => some (destination, payload)

/-- The datagrams among the actions. -/
def framesIn {Destination : Type*} (actions : List (Action Destination)) : List Bytes :=
  actions.filterMap Action.frame?

/-- The packets among the actions. -/
def packetsIn {Destination : Type*} (actions : List (Action Destination)) :
    List (Destination × Bytes) :=
  actions.filterMap Action.packet?

/-- The payloads a pass hands to its socket. -/
def payloadsIn {Destination : Type*} (actions : List (Action Destination)) : List Bytes :=
  (packetsIn actions).map Prod.snd

section Actions

variable {Destination : Type*}

@[simp] theorem framesIn_nil : framesIn ([] : List (Action Destination)) = [] := rfl

@[simp] theorem framesIn_datagram (frame : Bytes) :
    framesIn [(.datagram frame : Action Destination)] = [frame] := rfl

@[simp] theorem framesIn_packet (destination : Destination) (payload : Bytes) :
    framesIn [.packet destination payload] = [] := rfl

@[simp] theorem framesIn_datagrams (frames : List Bytes) :
    framesIn (frames.map (.datagram : Bytes → Action Destination)) = frames := by
  simp [framesIn, Action.frame?, Function.comp_def]

@[simp] theorem packetsIn_nil : packetsIn ([] : List (Action Destination)) = [] := rfl

@[simp] theorem packetsIn_datagram (frame : Bytes) :
    packetsIn [(.datagram frame : Action Destination)] = [] := rfl

@[simp] theorem packetsIn_packet (destination : Destination) (payload : Bytes) :
    packetsIn [.packet destination payload] = [(destination, payload)] := rfl

@[simp] theorem packetsIn_datagrams (frames : List Bytes) :
    packetsIn (frames.map (.datagram : Bytes → Action Destination)) = [] := by
  simp [packetsIn, Action.packet?, Function.comp_def]

end Actions

def ClientInput.datagram? : ClientInput Peer → Option Bytes
  | .datagram incoming _ => some incoming
  | _ => none

def ClientInput.observed : ClientInput Peer → List (Observation Peer)
  | .packet peer payload _ => [.fromLocal peer (received payload)]
  | _ => []

def ServerInput.datagram? : ServerInput → Option Bytes
  | .datagram incoming _ => some incoming
  | .packet _ _ => none

def ServerInput.observed : ServerInput → List (Observation Peer)
  | .datagram _ _ => []
  | .packet payload _ => [.fromUpstream (received payload)]

/-- The way without the datagram that leaves it; there is none to leave it otherwise. -/
def withdraw (way : List Bytes) : Option Bytes → Option (List Bytes)
  | none => some way
  | some frame => if way.contains frame then some (way.erase frame) else none

/-- One event; `none` if it cannot happen. -/
def Carrier.step (carrier : Carrier Peer) :
    Event Peer → Option (Carrier Peer × List (Observation Peer))
  | .client input failsAfter =>
    carrier.client.bind fun client =>
    (withdraw carrier.toClient input.datagram?).bind fun toClient =>
    (relayClientSession client input).map fun pass =>
      let outcome := pass.conclude failsAfter
      ({ carrier with
          client := outcome.next
          toClient
          toServer := carrier.toServer ++ framesIn outcome.actions },
        input.observed ++ (packetsIn outcome.actions).map (fun packet => .toLocal packet.1 packet.2)
          ++ outcome.ended.toList.map .clientEnded)
  | .server input failsAfter =>
    carrier.server.bind fun server =>
    (withdraw carrier.toServer input.datagram?).map fun toServer =>
      let outcome := (relayConnection server input).conclude failsAfter
      ({ carrier with
          server := outcome.next
          toServer
          toClient := carrier.toClient ++ framesIn outcome.actions },
        input.observed ++ (packetsIn outcome.actions).map (fun packet => .toUpstream packet.2)
          ++ outcome.ended.toList.map .serverEnded)
  | .clientFails =>
    carrier.client.map fun _ => ({ carrier with client := none }, [.clientEnded .io])
  | .serverFails =>
    carrier.server.map fun _ => ({ carrier with server := none }, [.serverEnded .io])
  | .lostToServer frame =>
    (withdraw carrier.toServer (some frame)).map fun toServer => ({ carrier with toServer }, [])
  | .lostToClient frame =>
    (withdraw carrier.toClient (some frame)).map fun toClient => ({ carrier with toClient }, [])

end Step

/-! ### What the carrier is for -/

section Traces

variable {Peer : Type*}

/-- The packets from the local peers to the upstream server. -/
def Observation.upward? : Observation Peer → Option (Transfer Bytes)
  | .fromLocal _ payload => some (.taken payload)
  | .toUpstream payload => some (.given payload)
  | _ => none

/-- The packets from the upstream server to the local peers. -/
def Observation.downward? : Observation Peer → Option (Transfer Bytes)
  | .fromUpstream payload => some (.taken payload)
  | .toLocal _ payload => some (.given payload)
  | _ => none

def upward (observed : List (Observation Peer)) : List (Transfer Bytes) :=
  observed.filterMap Observation.upward?

def downward (observed : List (Observation Peer)) : List (Transfer Bytes) :=
  observed.filterMap Observation.downward?

section Observed

variable (peer : Peer) (payload incoming : Bytes) (maximum : Option Nat) (now : Nat)

@[simp] theorem downward_server_datagram :
    downward ((ServerInput.datagram incoming now).observed : List (Observation Peer)) = [] := rfl

@[simp] theorem downward_server_packet :
    downward ((ServerInput.packet payload maximum).observed : List (Observation Peer)) =
      [.taken (received payload)] := rfl

@[simp] theorem upward_client_packet :
    upward (ClientInput.packet peer payload maximum).observed = [.taken (received payload)] := rfl

@[simp] theorem upward_client_transmit :
    upward (ClientInput.transmit : ClientInput Peer).observed = [] := rfl

@[simp] theorem upward_client_heartbeat :
    upward (ClientInput.heartbeat now : ClientInput Peer).observed = [] := rfl

@[simp] theorem upward_client_datagram :
    upward (ClientInput.datagram incoming now : ClientInput Peer).observed = [] := rfl

end Observed

def Observation.localPeer? : Observation Peer → Option Peer
  | .fromLocal peer _ => some peer
  | _ => none

/-- The peer of the last packet from the local side. -/
def lastPeer (observed : List (Observation Peer)) : Option Peer :=
  (observed.filterMap Observation.localPeer?).getLast?

end Traces

end SmartFecTunnel.Relay
