import SmartFecTunnel.Auth.Acceptance

/-!
Contract: the authentication of many QUIC connections at once (`authenticate_client` and
`authenticate_server` with their callers `run_client` and `run_server` in `src/quic_relay.rs`).

The server has one keyring and one replay cache for all its connections, and a task for each;
a connection is known by its number.  The far end of a connection is a client of this program
or anything else.  TLS protects what the two ends of a connection send to each other.

Owns: the ends of the connections up to the relay, their events and what can be observed.

Does not own: the relay, and when a client connects again.
-/

namespace SmartFecTunnel.Auth

open SmartFecTunnel.Library

inductive ClientError where
  | zeroDevice
  | exporter
  | rejected
deriving DecidableEq, Repr

def ClientError.message : ClientError → Option String
  | .zeroDevice => some "device id must be non-zero"
  | .rejected => some "QUIC device authentication rejected"
  | .exporter => none

/-- The bytes `OK`. -/
def okAnswer : Bytes := [79, 75]

/-- `authenticate_client` up to its proof: the timestamp of the claims is the time, their nonce
is drawn. -/
def authenticateClient (blake : Blake3) (exporter : Bytes → Option Bytes) (secret : Bytes)
    (claims : AuthClaims) : Except ClientError Bytes :=
  if claims.deviceId = 0 then .error .zeroDevice
  else
    match exporter claims.nonce with
    | none => .error .exporter
    | some tlsExporter =>
      .ok (makeEnvelope blake secret claims.deviceId claims.timestamp claims.nonce tlsExporter)

inductive ServerPhase where
  | accepted
  | relaying (device : Nat)
  | closed
deriving DecidableEq, Repr

inductive ClientPhase where
  | connected
  | proving (device : Nat)
  | relaying (device : Nat)
  | closed
deriving DecidableEq, Repr

/-- Both ends of a connection; `own` says that the far end is a client of this program.
`proof` is what the far end has sent to authenticate, `answer` what the server has sent back. -/
structure Connection where
  own : Bool
  server : ServerPhase
  client : ClientPhase
  proof : Option Bytes
  answer : Option Bytes
deriving DecidableEq, Repr

/-- What is fixed: the keyring of the server, and the TLS exporter of each connection. -/
structure Endpoint where
  blake : Blake3
  keys : Table Nat Bytes
  exporter : (connection : Nat) → (nonce : Bytes) → Option Bytes

structure Relays where
  cache : ReplayCache
  connections : List Connection

def Relays.start (cache : ReplayCache) : Relays := ⟨cache, []⟩

/-- An event at one connection; `written` says that the server could write its answer. -/
inductive ConnectionEvent where
  | proves (secret : Bytes) (claims : { claims : AuthClaims // claims.Fits })
  | sends (bytes : Bytes)
  | verifies (now : Nat) (written : Bool)
  | answered
  | clientFails
  | serverFails

inductive RelayEvent where
  | connects (own : Bool)
  | connection (number : Nat) (event : ConnectionEvent)

inductive RelayObservation where
  | proved (connection : Nat) (secret : Bytes) (claims : AuthClaims)
  | authenticated (connection device now : Nat)
  | refused (connection : Nat) (error : Option ServerError)
  | relays (connection device : Nat)
deriving DecidableEq, Repr

/-- An event of a connection: the cache, its ends, and what is seen. -/
def Endpoint.connectionStep (endpoint : Endpoint) (cache : ReplayCache) (number : Nat)
    (connection : Connection) :
    ConnectionEvent → Option (ReplayCache × Connection × List RelayObservation)
  | .proves secret claims =>
    if connection.own ∧ connection.client = .connected then
      match authenticateClient endpoint.blake (endpoint.exporter number) secret claims.val with
      | .error _ => some (cache, { connection with client := .closed }, [])
      | .ok proof =>
        some (cache,
          { connection with client := .proving claims.val.deviceId, proof := some proof },
          [.proved number secret claims.val])
    else none
  | .sends bytes =>
    if ¬ connection.own ∧ connection.proof = none then
      some (cache, { connection with proof := some bytes }, [])
    else none
  | .verifies now written =>
    match connection.server, connection.proof with
    | .accepted, some proof =>
      -- `read_to_end` takes no more than an envelope.
      if envelopeLen < proof.length then
        some (cache, { connection with server := .closed }, [.refused number none])
      else
        (authenticateServer endpoint.blake endpoint.keys (endpoint.exporter number) now cache
          proof).map fun (cache, result) =>
            match result with
            | .error error =>
              (cache, { connection with server := .closed }, [.refused number (some error)])
            | .ok device =>
              if written then
                (cache,
                  { connection with server := .relaying device, answer := some okAnswer },
                  [.authenticated number device now])
              else
                (cache, { connection with server := .closed },
                  [.authenticated number device now])
    | _, _ => none
  | .answered =>
    match connection.client, connection.answer with
    | .proving device, some answer =>
      if answer = okAnswer then
        some (cache, { connection with client := .relaying device }, [.relays number device])
      else some (cache, { connection with client := .closed }, [])
    | _, _ => none
  | .clientFails =>
    if connection.own then some (cache, { connection with client := .closed }, []) else none
  | .serverFails => some (cache, { connection with server := .closed }, [])

/-- One event; `none` if it cannot happen. -/
def Endpoint.step (endpoint : Endpoint) (relays : Relays) :
    RelayEvent → Option (Relays × List RelayObservation)
  | .connects own =>
    let connection := ⟨own, .accepted, .connected, none, none⟩
    some ({ relays with connections := relays.connections ++ [connection] }, [])
  | .connection number event =>
    relays.connections[number]?.bind fun connection =>
      (endpoint.connectionStep relays.cache number connection event).map
        fun (cache, connection, observed) =>
          (⟨cache, relays.connections.set number connection⟩, observed)

/-! ### What can be observed -/

namespace RelayObservation

/-- The claims a client of this program has proved on a connection, and with which secret. -/
def proved? (number : Nat) : RelayObservation → Option (Bytes × AuthClaims)
  | .proved other secret claims => if other = number then some (secret, claims) else none
  | _ => none

/-- The device a connection was authenticated as, and when. -/
def authenticated? (number : Nat) : RelayObservation → Option (Nat × Nat)
  | .authenticated other device now => if other = number then some (device, now) else none
  | _ => none

end RelayObservation

end SmartFecTunnel.Auth
