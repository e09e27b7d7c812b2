import SmartFecTunnel.Library.RoundRobin
import SmartFecTunnel.Library.Text
import SmartFecTunnel.Relay.Lane
import SmartFecTunnel.Relay.Session

/-!
Contract: the carrier on reliable lanes (`parse_stream_lanes`, `relay_laned_connection`,
`relay_laned_client_session` and the tasks of `spawn_lane_readers` in `src/quic_relay.rs`).

The client opens the lanes one after the other; a lane is in use once both ends have written
its preface.  Packets take the lanes in turn.  The task of a lane reads datagrams off it into
the channel that all lanes share, and the loop takes them out of the channel.

A stream is the bytes that were written and not read; it loses and reorders nothing, and is
cut where the writer failed.

Owns: the two ends, the events of the lanes and what can be observed of them.

Does not own: flow control, and the timeouts of the set-up.
-/

namespace SmartFecTunnel.Relay

open SmartFecTunnel.Library

def maxStreamLanes : Nat := 1
def streamLanePreface : UInt8 := 0x53

/-- The size of the channel of the lane readers. -/
def laneChannel : Nat := 1024

inductive LanesError where
  | notInteger
  | unsupported
deriving DecidableEq, Repr

def LanesError.message : LanesError → String
  | .notInteger => "SMART_QUIC_STREAM_LANES must be an integer"
  | .unsupported => "SMART_QUIC_STREAM_LANES currently supports only 1"

def parseStreamLanes : Option Text → Except LanesError Nat
  | none => .ok 0
  | some value =>
    match parseU64 value with
    | none => .error .notInteger
    | some lanes => if lanes ≠ maxStreamLanes then .error .unsupported else .ok lanes

inductive LanedError where
  | invalidPreface
  | lane (error : LaneError)
  | io
deriving DecidableEq, Repr

def LanedError.message : LanedError → Option String
  | .invalidPreface => some "invalid carrier lane preface"
  | .lane error => error.message
  | .io => none

/-- An end: `ready` is the number of lanes that are set up, `queue` the channel of the lane
readers.  The peer of the server is always there. -/
structure LanedRelay (Peer : Type*) where
  ready : Nat
  queue : List Bytes
  nextLane : Nat
  peer : Option Peer

def LanedRelay.new {Peer : Type*} (peer : Option Peer) : LanedRelay Peer := ⟨0, [], 0, peer⟩

/-- The streams hold one list of bytes for each lane. -/
structure Lanes (Peer : Type*) where
  client : Option (LanedRelay Peer)
  server : Option (LanedRelay Unit)
  toServer : List Bytes
  toClient : List Bytes

def Lanes.start {Peer : Type*} : Lanes Peer := ⟨some (.new none), some (.new (some ())), [], []⟩

/-- `written` is the number of bytes of a datagram that are written before the stream fails. -/
inductive LaneEvent (Peer : Type*) where
  | openLane
  | acceptLane
  | laneAnswered
  | clientPacket (peer : Peer) (payload : Bytes) (written : Option Nat)
  | serverPacket (payload : Bytes) (written : Option Nat)
  | clientReads (lane : Nat)
  | serverReads (lane : Nat)
  | clientGives (sends : Bool)
  | serverGives (sends : Bool)
  | clientFails
  | serverFails
deriving DecidableEq, Repr

/-- `discarded` is a payload that the client takes from its lanes before any local packet. -/
inductive LaneObservation (Peer : Type*) where
  | fromLocal (peer : Peer) (payload : Bytes)
  | toUpstream (payload : Bytes)
  | fromUpstream (payload : Bytes)
  | toLocal (peer : Peer) (payload : Bytes)
  | discarded (payload : Bytes)
  | clientEnded (error : LanedError)
  | serverEnded (error : LanedError)
deriving DecidableEq, Repr

section Ends

variable {Peer : Type*}

/-- Take the preface of a lane off its stream; `none` while it has not arrived, and `false`
for another byte. -/
def readPreface (streams : List Bytes) (lane : Nat) : Option (Bool × List Bytes) :=
  match streams[lane]? with
  | some (byte :: rest) => some (byte == streamLanePreface, streams.set lane rest)
  | _ => none

/-- Append to the stream of a lane. -/
def appendTo (streams : List Bytes) (lane : Nat) (bytes : Bytes) : List Bytes :=
  streams.modify lane (· ++ bytes)

/-- A packet goes to the next lane: the relay if the loop goes on, the streams, and what ends
the loop. -/
def LanedRelay.packet (relay : LanedRelay Peer) (lanes : Nat) (streams : List Bytes)
    (payload : Bytes) (written : Option Nat) :
    Option (LanedRelay Peer) × List Bytes × Option LanedError :=
  match writeStreamDatagram [] payload with
  | .error error => (none, streams, some (.lane error))
  | .ok bytes =>
    match written.filter (· < bytes.length) with
    | some count => (none, appendTo streams relay.nextLane (bytes.take count), some .io)
    | none =>
      (some { relay with nextLane := (relay.nextLane + 1) % lanes },
        appendTo streams relay.nextLane bytes, none)

/-- The task of a lane reads a datagram into the channel; `none` while there is no whole one
or the channel is full. -/
def LanedRelay.read (relay : LanedRelay Peer) (streams : List Bytes) (lane : Nat) :
    Option (Option (LanedRelay Peer) × List Bytes × Option LanedError) :=
  if laneChannel ≤ relay.queue.length then none
  else
    match streams[lane]? with
    | none => none
    | some stream =>
      match (readStreamDatagram .connectionLost stream).result with
      | .ok (payload, rest) =>
        some (some { relay with queue := relay.queue ++ [payload] }, streams.set lane rest, none)
      | .error .tooLarge => some (none, streams, some (.lane .tooLarge))
      | .error (.readExact _) => none

end Ends

section Step

variable {Peer : Type*}

/-- One event of a carrier with the configured number of lanes; `none` if it cannot happen. -/
def Lanes.step (lanes : Nat) (state : Lanes Peer) :
    LaneEvent Peer → Option (Lanes Peer × List (LaneObservation Peer))
  | .openLane =>
    state.client.bind fun client =>
      if client.ready = state.toServer.length ∧ client.ready < lanes then
        some ({ state with
          toServer := state.toServer ++ [[streamLanePreface]]
          toClient := state.toClient ++ [[]] }, [])
      else none
  | .acceptLane =>
    state.server.bind fun server =>
      if server.ready < lanes then
        (readPreface state.toServer server.ready).map fun (isPreface, toServer) =>
          if isPreface then
            ({ state with
              server := some { server with ready := server.ready + 1 }
              toServer
              toClient := appendTo state.toClient server.ready [streamLanePreface] }, [])
          else ({ state with server := none, toServer }, [.serverEnded .invalidPreface])
      else none
  | .laneAnswered =>
    state.client.bind fun client =>
      if client.ready < state.toServer.length then
        (readPreface state.toClient client.ready).map fun (isPreface, toClient) =>
          if isPreface then
            ({ state with
              client := some { client with ready := client.ready + 1 }
              toClient }, [])
          else ({ state with client := none, toClient }, [.clientEnded .invalidPreface])
      else none
  | .clientPacket peer payload written =>
    state.client.bind fun client =>
      if client.ready = lanes then
        let (next, toServer, ended) := { client with peer := some peer }.packet lanes
          state.toServer (received payload) written
        some ({ state with client := next, toServer },
          .fromLocal peer (received payload) :: ended.toList.map .clientEnded)
      else none
  | .serverPacket payload written =>
    state.server.bind fun server =>
      if server.ready = lanes then
        let (next, toClient, ended) := server.packet lanes state.toClient (received payload) written
        some ({ state with server := next, toClient },
          .fromUpstream (received payload) :: ended.toList.map .serverEnded)
      else none
  | .clientReads lane =>
    state.client.bind fun client =>
      if client.ready = lanes then
        (client.read state.toClient lane).map fun (next, toClient, ended) =>
          ({ state with client := next, toClient }, ended.toList.map .clientEnded)
      else none
  | .serverReads lane =>
    state.server.bind fun server =>
      if server.ready = lanes then
        (server.read state.toServer lane).map fun (next, toServer, ended) =>
          ({ state with server := next, toServer }, ended.toList.map .serverEnded)
      else none
  | .clientGives sends =>
    state.client.bind fun client =>
      match client.queue with
      | [] => none
      | payload :: queue =>
        match client.peer with
        | none =>
          some ({ state with client := some { client with queue } }, [.discarded payload])
        | some peer =>
          if sends then
            some ({ state with client := some { client with queue } }, [.toLocal peer payload])
          else some ({ state with client := none }, [.clientEnded .io])
  | .serverGives sends =>
    state.server.bind fun server =>
      match server.queue with
      | [] => none
      | payload :: queue =>
        if sends then
          some ({ state with server := some { server with queue } }, [.toUpstream payload])
        else some ({ state with server := none }, [.serverEnded .io])
  | .clientFails =>
    state.client.map fun _ => ({ state with client := none }, [.clientEnded .io])
  | .serverFails =>
    state.server.map fun _ => ({ state with server := none }, [.serverEnded .io])

end Step

/-! ### What can be observed -/

section Observed

variable {Peer : Type*}

def LaneObservation.takenUp? : LaneObservation Peer → Option Bytes
  | .fromLocal _ payload => some payload
  | _ => none

def LaneObservation.givenUp? : LaneObservation Peer → Option Bytes
  | .toUpstream payload => some payload
  | _ => none

def LaneObservation.takenDown? : LaneObservation Peer → Option Bytes
  | .fromUpstream payload => some payload
  | _ => none

/-- The client is done with a payload when it sends or discards it. -/
def LaneObservation.givenDown? : LaneObservation Peer → Option Bytes
  | .toLocal _ payload => some payload
  | .discarded payload => some payload
  | _ => none

def LaneObservation.localPeer? : LaneObservation Peer → Option Peer
  | .fromLocal peer _ => some peer
  | _ => none

/-- Where the client's payloads from the lanes go. -/
def LaneObservation.destination? : LaneObservation Peer → Option (Option Peer)
  | .toLocal peer _ => some (some peer)
  | .discarded _ => some none
  | _ => none

end Observed

end SmartFecTunnel.Relay
