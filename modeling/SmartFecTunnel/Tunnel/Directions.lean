import SmartFecTunnel.Tunnel.History
import SmartFecTunnel.Tunnel.Server

/-!
Contract: the two-party protocol of one tunnel, the client loop (`client` in
`src/main.rs`) and the server session it talks to, over a network that an
attacker runs.

The two directions share one key, one session number and the same counters, and
nothing on the wire says who sent a datagram.

Owns: what a party hands out was passed to the encoder of the other party, as
long as the attacker does not return to a party what it sent itself.

Does not own: the order of a session's queue.  The network may delay, reorder and
drop, so a packet taken from the queue is a datagram that arrives then.
-/

namespace SmartFecTunnel.Tunnel

open SmartFecTunnel.Library
open SmartFecTunnel.Fec
open SmartFecTunnel.Wire

/-! ### The client loop -/

structure Client where
  endpoint : Endpoint
  appPeer : Option SocketAddr

inductive ClientEvent where
  | app (payload : Bytes) (peer : SocketAddr)
  | tunnel (bytes : Bytes) (host : Host)
  | reportTick
  | flushTick

inductive ClientOutput where
  | app (peer : SocketAddr) (datagram : Bytes)
  | toServer (frame : Frame)
deriving DecidableEq, Repr

namespace Client

def start (identity : Identity) (hook : Option Nat) : Client where
  endpoint := Endpoint.new identity hook
  appPeer := none

/-- Datagrams for the local application; without a peer they are dropped. -/
def toApp (client : Client) (datagrams : List Bytes) : List ClientOutput :=
  match client.appPeer with
  | some peer => datagrams.map (ClientOutput.app peer)
  | none => []

/-- The frames of an encoder call; an error ends the client. -/
def sendFrames (client : Client) (result : Endpoint × Except EncodeError (List Frame)) :
    Option (Client × List ClientOutput) :=
  match result.2 with
  | .ok frames => some ({ client with endpoint := result.1 }, frames.map ClientOutput.toServer)
  | .error _ => none

/-- One round of the loop. -/
def step (build : Build) (identity : Identity) (key : Bytes) (client : Client) :
    ClientEvent → Option (Client × List ClientOutput)
  | .app payload peer =>
    sendFrames { client with appPeer := some peer }
      (client.endpoint.encodeDatagram build.rs payload)
  | .tunnel bytes host =>
    match decodeClientFrame build.blake build.aead (bytes.take netBuffer) identity.keyId key with
    | .error _ => some (client, [])
    | .ok frame =>
      (client.endpoint.receive build.rs host identity frame).map fun result =>
        ({ client with endpoint := result.1 }, client.toApp result.2)
  | .reportTick =>
    client.endpoint.report.map fun result =>
      ({ client with endpoint := result.1 }, [ClientOutput.toServer result.2])
  | .flushTick => sendFrames client (client.endpoint.flush build.rs)

end Client

/-! ### The protocol -/

/-- One tunnel: a device of the server's keyring and a session of it. -/
structure Link where
  build : Build
  keyring : Table Nat Bytes
  selectors : Selectors
  built : selectorTable build.blake keyring = .ok selectors
  keyId : Nat
  key : Bytes
  provisioned : keyring.lookup keyId = some key
  session : Nat
  session_lt : session < 2 ^ 64

def Link.identity (link : Link) : Identity := ⟨versionV3, link.keyId, link.session⟩

def Link.runtime (link : Link) : SessionRuntime := ⟨link.key, link.identity⟩

inductive Party where
  | client
  | server
deriving DecidableEq, Repr

def Party.other : Party → Party
  | .client => .server
  | .server => .client

structure System where
  client : Client
  server : Session

def System.endpoint (system : System) : Party → Endpoint
  | .client => system.client.endpoint
  | .server => system.server.endpoint

/-- What wakes the server session.  A datagram comes through the server's loop. -/
inductive ServerInput where
  | datagram (bytes : Bytes) (peer : SocketAddr) (host : Host)
  | upstream (received : Option Bytes)
  | reportTick
  | flushTick

/-- One round of one party.  `random` gives the random bytes of the frames it
seals. -/
inductive TunnelEvent where
  | client (event : ClientEvent) (random : Nat → Randomness)
  | server (input : ServerInput) (random : Nat → Randomness)

/-- What happens on the way of a datagram. -/
inductive Happening where
  /-- A party passes a datagram to its encoder. -/
  | passed (party : Party) (datagram : Bytes)
  /-- A party sends a sealed frame. -/
  | sent (party : Party) (bytes : Bytes)
  /-- The network delivers something to a party. -/
  | delivered (party : Party) (bytes : Bytes)
  /-- A party hands a datagram out of the tunnel. -/
  | handed (party : Party) (datagram : Bytes)
deriving DecidableEq, Repr

/-- The datagram that leaves the tunnel. -/
def ClientOutput.datagram? : ClientOutput → Option Bytes
  | .app _ datagram => some datagram
  | .toServer _ => none

def ClientOutput.frame? : ClientOutput → Option Frame
  | .app _ _ => none
  | .toServer frame => some frame

/-- The datagram that leaves the tunnel. -/
def SessionOutput.datagram? : SessionOutput → Option Bytes
  | .upstream datagram => some datagram
  | .toPeer _ _ => none

def SessionOutput.frame? : SessionOutput → Option Frame
  | .upstream _ => none
  | .toPeer _ frame => some frame

/-- What happens in a round: something comes in, datagrams are handed out and
sealed frames are sent. -/
def happenings (party : Party) (input : List Happening) (handed sealed : List Bytes) :
    List Happening :=
  input ++ (handed.map (Happening.handed party) ++ sealed.map (Happening.sent party))

namespace Link

def start (link : Link) : System where
  client := Client.start link.identity link.build.hook
  server := Session.start link.runtime link.build.hook

/-- The datagrams of sealed frames; a frame that cannot be sealed is dropped. -/
def sealFrames (link : Link) (random : Nat → Randomness) (frames : List Frame) : List Bytes :=
  frames.zipIdx.filterMap fun entry =>
    (encodeWire link.build.blake link.build.aead (random entry.2) entry.1 link.key).toOption

/-- What a client event brings in. -/
def clientInput : ClientEvent → List Happening
  | .app payload _ => [.passed .client (payload.take datagramBuffer)]
  | .tunnel bytes _ => [.delivered .client bytes]
  | _ => []

/-- What a server input brings in.  The upstream is read only with a peer. -/
def serverInput (session : Session) : ServerInput → List Happening
  | .datagram bytes _ _ => [.delivered .server bytes]
  | .upstream (some payload) =>
    if session.peer.isSome then [.passed .server (payload.take datagramBuffer)] else []
  | _ => []

/-- The event of the session's loop.  The server opens a datagram and gives it to
the session it names. -/
def resolve (link : Link) : ServerInput → Option SessionEvent
  | .datagram bytes peer host =>
    match decodeServerFrame link.build.blake link.build.aead link.selectors
      (bytes.take netBuffer) with
    | .error _ => none
    | .ok (frame, _) =>
      if sessionKey frame = (link.keyId, link.session) then some (.packet ⟨frame, peer⟩ host)
      else none
  | .upstream received => some (.upstream received)
  | .reportTick => some .reportTick
  | .flushTick => some .flushTick

/-- One event of the tunnel and what happens in it. -/
def step (link : Link) (system : System) : TunnelEvent → Option (System × List Happening)
  | .client event random =>
    (system.client.step link.build link.identity link.key event).map fun result =>
      ({ system with client := result.1 },
        happenings .client (clientInput event) (result.2.filterMap ClientOutput.datagram?)
          (link.sealFrames random (result.2.filterMap ClientOutput.frame?)))
  | .server input random =>
    match link.resolve input with
    | none => some (system, serverInput system.server input)
    | some event =>
      (system.server.step link.build.rs link.runtime event).map fun result =>
        ({ system with server := result.1 },
          happenings .server (serverInput system.server input)
            (result.2.filterMap SessionOutput.datagram?)
            (link.sealFrames random (result.2.filterMap SessionOutput.frame?)))

/-- The two datagrams carry one nonce and one ciphertext. -/
def SameSealed (left right : Bytes) : Prop :=
  nonceOf left = nonceOf right ∧ ciphertextOf left = ciphertextOf right

instance (left right : Bytes) : Decidable (SameSealed left right) :=
  inferInstanceAs (Decidable (_ ∧ _))

/-- The network cannot forge: whatever it delivers that opens under the key
carries the nonce and the ciphertext of a datagram that one of the parties sent. -/
def Unforged (link : Link) (trace : List Happening) : Prop :=
  ∀ party bytes, .delivered party bytes ∈ trace →
    (link.build.aead.decrypt link.key (nonceOf (bytes.take netBuffer))
      (ciphertextOf (bytes.take netBuffer))).isSome →
    ∃ sender sent, .sent sender sent ∈ trace ∧ SameSealed (bytes.take netBuffer) sent

/-- The network returns to a party what it sent itself. -/
def Echoed (trace : List Happening) (party : Party) : Prop :=
  ∃ bytes sent, .delivered party bytes ∈ trace ∧ .sent party sent ∈ trace ∧
    SameSealed (bytes.take netBuffer) sent

/-! ### One round of a party -/

/-- The datagram is a sealed form of the frame. -/
def Encodes (link : Link) (frame : Frame) (bytes : Bytes) : Prop :=
  ∃ random, encodeWire link.build.blake link.build.aead random frame link.key = .ok bytes

/-- The datagram opens as the frame, and the frame is of this session. -/
structure OpensAs (link : Link) (bytes : Bytes) (frame : Frame) : Prop where
  opened : decodeV3 link.build.blake link.build.aead (bytes.take netBuffer) link.keyId link.key =
    .ok frame
  owns : link.identity.Owns frame

theorem mem_sealFrames {link : Link} {random : Nat → Randomness} {frames : List Frame}
    {bytes : Bytes} (member : bytes ∈ link.sealFrames random frames) :
    ∃ frame ∈ frames, link.Encodes frame bytes := by
  obtain ⟨entry, inFrames, isBytes⟩ := List.mem_filterMap.mp member
  refine ⟨entry.1, List.fst_mem_of_mem_zipIdx inFrames, random entry.2, ?_⟩
  cases encoded : encodeWire link.build.blake link.build.aead (random entry.2) entry.1 link.key with
  | error error =>
      rw [encoded] at isBytes
      cases isBytes
  | ok sealed =>
      rw [encoded] at isBytes
      cases isBytes
      rfl

/-- What a round of `party` does to its endpoint, and what happens in it. -/
inductive Round (link : Link) (party : Party) (endpoint : Endpoint) :
    Endpoint → List Happening → Prop
  | idle {more : List Happening} (noSent : ∀ bytes, .sent party bytes ∉ more)
      (noHanded : ∀ datagram, .handed party datagram ∉ more) :
      Round link party endpoint endpoint more
  | take {next : Endpoint} {bytes : Bytes} {frame : Frame} {host : Host} {given : List Bytes}
      {more : List Happening} (delivered : .delivered party bytes ∈ more)
      (opens : link.OpensAs bytes frame)
      (accepted : endpoint.accept link.build.rs host frame = some (next, given))
      (noSent : ∀ bytes, .sent party bytes ∉ more)
      (handed : ∀ datagram, .handed party datagram ∈ more → datagram ∈ given) :
      Round link party endpoint next more
  | encode {more : List Happening} (call : Encoder.Call)
      (small : ∀ payload, call.datagram = some payload → payload.length ≤ maxDatagram)
      (passed : ∀ payload, call.datagram = some payload → .passed party payload ∈ more)
      (sent : ∀ bytes, .sent party bytes ∈ more →
        ∃ frame ∈ (endpoint.encoder.call link.build.rs call).2, link.Encodes frame bytes)
      (noHanded : ∀ datagram, .handed party datagram ∉ more) :
      Round link party endpoint
        { endpoint with encoder := (endpoint.encoder.call link.build.rs call).1 } more
  | report {next : Endpoint} {frame : Frame} {more : List Happening}
      (reported : endpoint.report = some (next, frame))
      (sent : ∀ bytes, .sent party bytes ∈ more → link.Encodes frame bytes)
      (noHanded : ∀ datagram, .handed party datagram ∉ more) :
      Round link party endpoint next more

/-- The ledger of an endpoint agrees with what happened. -/
structure Accounts (link : Link) (party : Party) (trace : List Happening) (ledger : Ledger)
    (endpoint : Endpoint) : Prop where
  history : History link.build.rs link.identity link.build.hook ledger endpoint
  taken : ∀ frame ∈ ledger.taken, ∃ bytes, .delivered party bytes ∈ trace ∧
    link.OpensAs bytes frame
  sent : ∀ bytes, .sent party bytes ∈ trace → ∃ frame ∈ ledger.emitted, link.Encodes frame bytes
  passed : ∀ datagram ∈ ledger.passed, .passed party datagram ∈ trace
  handed : ∀ datagram, .handed party datagram ∈ trace → datagram ∈ ledger.given

theorem Accounts.round {link : Link} {party : Party} {trace more : List Happening} {ledger : Ledger}
    {endpoint next : Endpoint} (accounts : Accounts link party trace ledger endpoint)
    (round : Round link party endpoint next more) :
    ∃ later, Accounts link party (trace ++ more) later next := by
  have taken : ∀ frame ∈ ledger.taken, ∃ bytes, .delivered party bytes ∈ trace ++ more ∧
      link.OpensAs bytes frame := by
    intro frame member
    obtain ⟨bytes, delivered, opens⟩ := accounts.taken frame member
    exact ⟨bytes, List.mem_append_left _ delivered, opens⟩
  have passed : ∀ datagram ∈ ledger.passed, .passed party datagram ∈ trace ++ more :=
    fun datagram member => List.mem_append_left _ (accounts.passed datagram member)
  have sentBefore : (∀ bytes, .sent party bytes ∉ more) → ∀ bytes,
      .sent party bytes ∈ trace ++ more → ∃ frame ∈ ledger.emitted, link.Encodes frame bytes := by
    intro noSent bytes member
    rcases List.mem_append.mp member with old | new
    · exact accounts.sent bytes old
    · exact absurd new (noSent bytes)
  have handedBefore : (∀ datagram, .handed party datagram ∉ more) → ∀ datagram,
      .handed party datagram ∈ trace ++ more → datagram ∈ ledger.given := by
    intro noHanded datagram member
    rcases List.mem_append.mp member with old | new
    · exact accounts.handed datagram old
    · exact absurd new (noHanded datagram)
  cases round with
  | idle noSent noHanded =>
      exact ⟨ledger, accounts.history, taken, sentBefore noSent, passed, handedBefore noHanded⟩
  | take delivered opens accepted noSent handed =>
      refine ⟨_, accounts.history.accept opens.owns accepted, ?_, sentBefore noSent, passed, ?_⟩
      · intro frame member
        rcases List.mem_append.mp member with old | new
        · exact taken frame old
        · cases List.mem_singleton.mp new
          exact ⟨_, List.mem_append_right _ delivered, opens⟩
      · intro datagram member
        rcases List.mem_append.mp member with old | new
        · exact List.mem_append_left _ (accounts.handed datagram old)
        · exact List.mem_append_right _ (handed datagram new)
  | encode call small isPassed sent noHanded =>
      refine ⟨_, accounts.history.encode call small, taken, ?_, ?_, handedBefore noHanded⟩
      · intro bytes member
        rcases List.mem_append.mp member with old | new
        · obtain ⟨frame, inEmitted, encodes⟩ := accounts.sent bytes old
          exact ⟨frame, List.mem_append_left _ inEmitted, encodes⟩
        · obtain ⟨frame, inEmitted, encodes⟩ := sent bytes new
          exact ⟨frame, List.mem_append_right _ inEmitted, encodes⟩
      · intro datagram member
        rcases List.mem_append.mp member with old | new
        · exact passed datagram old
        · exact List.mem_append_right _ (isPassed datagram (Option.mem_toList.mp new))
  | report reported sent noHanded =>
      refine ⟨_, accounts.history.report reported, taken, ?_, passed, handedBefore noHanded⟩
      intro bytes member
      rcases List.mem_append.mp member with old | new
      · obtain ⟨frame, inEmitted, encodes⟩ := accounts.sent bytes old
        exact ⟨frame, List.mem_append_left _ inEmitted, encodes⟩
      · exact ⟨_, List.mem_concat_self, sent bytes new⟩

/-! ### Rounds of the two loops -/

/-- What comes in is never a sending or a handing out. -/
def Incoming (input : List Happening) : Prop :=
  ∀ happening ∈ input, (∃ party datagram, happening = .passed party datagram) ∨
    ∃ party bytes, happening = .delivered party bytes

theorem clientInput_incoming (event : ClientEvent) : Incoming (clientInput event) := by
  intro happening member
  cases event with
  | app payload peer => exact Or.inl ⟨_, _, List.mem_singleton.mp member⟩
  | tunnel bytes host => exact Or.inr ⟨_, _, List.mem_singleton.mp member⟩
  | reportTick => cases member
  | flushTick => cases member

theorem serverInput_incoming (session : Session) (input : ServerInput) :
    Incoming (serverInput session input) := by
  intro happening member
  cases input with
  | datagram bytes peer host => exact Or.inr ⟨_, _, List.mem_singleton.mp member⟩
  | upstream received =>
      cases received with
      | none => cases member
      | some payload =>
          dsimp only [serverInput] at member
          split at member
          · exact Or.inl ⟨_, _, List.mem_singleton.mp member⟩
          · cases member
  | reportTick => cases member
  | flushTick => cases member

section Happenings

variable {party other : Party} {input : List Happening} {handed sealed : List Bytes}

theorem sent_of_mem_happenings (incoming : Incoming input) {bytes : Bytes}
    (member : .sent other bytes ∈ happenings party input handed sealed) :
    other = party ∧ bytes ∈ sealed := by
  rcases List.mem_append.mp member with inInput | inRest
  · rcases incoming _ inInput with ⟨_, _, impossible⟩ | ⟨_, _, impossible⟩ <;> cases impossible
  · rcases List.mem_append.mp inRest with inHanded | inSealed
    · obtain ⟨_, _, impossible⟩ := List.mem_map.mp inHanded
      cases impossible
    · obtain ⟨found, isSealed, same⟩ := List.mem_map.mp inSealed
      cases same
      exact ⟨rfl, isSealed⟩

theorem handed_of_mem_happenings (incoming : Incoming input) {datagram : Bytes}
    (member : .handed other datagram ∈ happenings party input handed sealed) :
    other = party ∧ datagram ∈ handed := by
  rcases List.mem_append.mp member with inInput | inRest
  · rcases incoming _ inInput with ⟨_, _, impossible⟩ | ⟨_, _, impossible⟩ <;> cases impossible
  · rcases List.mem_append.mp inRest with inHanded | inSealed
    · obtain ⟨found, isHanded, same⟩ := List.mem_map.mp inHanded
      cases same
      exact ⟨rfl, isHanded⟩
    · obtain ⟨_, _, impossible⟩ := List.mem_map.mp inSealed
      cases impossible

/-- A round of one party is idle for the other. -/
theorem Round.bystander (link : Link) (incoming : Incoming input) (different : other ≠ party)
    (endpoint : Endpoint) :
    Round link other endpoint endpoint (happenings party input handed sealed) :=
  Round.idle (fun _ member => different (sent_of_mem_happenings incoming member).1)
    fun _ member => different (handed_of_mem_happenings incoming member).1

/-- A round that puts nothing out. -/
theorem Round.silent (link : Link) (incoming : Incoming input) (endpoint : Endpoint) :
    Round link other endpoint endpoint (happenings party input [] []) :=
  Round.idle
    (fun _ member => absurd (sent_of_mem_happenings incoming member).2 List.not_mem_nil)
    fun _ member => absurd (handed_of_mem_happenings incoming member).2 List.not_mem_nil

/-- A round that calls the encoder and sends the frames. -/
theorem Round.encoded {link : Link} (incoming : Incoming input) {endpoint : Endpoint}
    (call : Encoder.Call) {frames : List Frame} {random : Nat → Randomness}
    (isFrames : (endpoint.encoder.call link.build.rs call).2 = frames)
    (small : ∀ payload, call.datagram = some payload → payload.length ≤ maxDatagram)
    (passed : ∀ payload, call.datagram = some payload → .passed party payload ∈ input) :
    Round link party endpoint
      { endpoint with encoder := (endpoint.encoder.call link.build.rs call).1 }
      (happenings party input [] (link.sealFrames random frames)) := by
  refine Round.encode call small
    (fun payload isPayload => List.mem_append_left _ (passed payload isPayload)) ?_
    (fun _ member => absurd (handed_of_mem_happenings incoming member).2 List.not_mem_nil)
  intro bytes member
  rw [isFrames]
  exact mem_sealFrames (sent_of_mem_happenings incoming member).2

theorem Round.reported {link : Link} (incoming : Incoming input) {endpoint next : Endpoint}
    {frame : Frame} {random : Nat → Randomness} (isReport : endpoint.report = some (next, frame)) :
    Round link party endpoint next (happenings party input [] (link.sealFrames random [frame])) := by
  refine Round.report isReport ?_
    (fun _ member => absurd (handed_of_mem_happenings incoming member).2 List.not_mem_nil)
  intro bytes member
  obtain ⟨sealed, isFrame, encodes⟩ := mem_sealFrames (sent_of_mem_happenings incoming member).2
  cases List.mem_singleton.mp isFrame
  exact encodes

theorem Round.taken {link : Link} (incoming : Incoming input) {endpoint next : Endpoint}
    {bytes : Bytes} {frame : Frame} {host : Host} {given : List Bytes}
    (delivered : .delivered party bytes ∈ input) (opens : link.OpensAs bytes frame)
    (accepted : endpoint.accept link.build.rs host frame = some (next, given))
    (isGiven : ∀ datagram ∈ handed, datagram ∈ given) :
    Round link party endpoint next (happenings party input handed []) :=
  Round.take (List.mem_append_left _ delivered) opens accepted
    (fun _ member => absurd (sent_of_mem_happenings incoming member).2 List.not_mem_nil)
    fun datagram member => isGiven datagram (handed_of_mem_happenings incoming member).2

end Happenings

theorem datagram_small {payload datagram : Bytes}
    (isDatagram : (Encoder.Call.encodeDatagram (payload.take datagramBuffer)).datagram =
      some datagram) : datagram.length ≤ maxDatagram := by
  cases isDatagram
  exact List.length_take_le _ _

theorem filterMap_toServer (frames : List Frame) :
    (frames.map ClientOutput.toServer).filterMap ClientOutput.frame? = frames ∧
      (frames.map ClientOutput.toServer).filterMap ClientOutput.datagram? = [] := by
  constructor
  · rw [List.filterMap_map]
    exact List.filterMap_some
  · rw [List.filterMap_map]
    exact List.filterMap_none frames

/-- What the client hands to the application comes from the decoder. -/
theorem toApp_outputs (client : Client) (given : List Bytes) :
    (client.toApp given).filterMap ClientOutput.frame? = [] ∧
      ∀ datagram ∈ (client.toApp given).filterMap ClientOutput.datagram?, datagram ∈ given := by
  unfold Client.toApp
  split
  next peer _ =>
    constructor
    · rw [List.filterMap_map]
      exact List.filterMap_none given
    · intro datagram member
      rw [List.filterMap_map] at member
      obtain ⟨output, isGiven, same⟩ := List.mem_filterMap.mp member
      cases same
      exact isGiven
  next => exact ⟨rfl, fun datagram member => absurd member List.not_mem_nil⟩

theorem client_round {link : Link} {client next : Client} {event : ClientEvent}
    {outputs : List ClientOutput} (random : Nat → Randomness)
    (stepped : client.step link.build link.identity link.key event = some (next, outputs)) :
    Round link .client client.endpoint next.endpoint
      (happenings .client (clientInput event) (outputs.filterMap ClientOutput.datagram?)
        (link.sealFrames random (outputs.filterMap ClientOutput.frame?))) := by
  have incoming := clientInput_incoming event
  cases event with
  | app payload peer =>
      unfold Client.step Client.sendFrames at stepped
      dsimp only at stepped
      split at stepped
      next frames isOk =>
        cases stepped
        rw [(filterMap_toServer frames).1, (filterMap_toServer frames).2]
        refine Round.encoded incoming (.encodeDatagram (payload.take datagramBuffer)) ?_
          (fun _ => datagram_small) ?_
        · exact congrArg (fun result => result.toOption.getD []) isOk
        · intro datagram isDatagram
          cases isDatagram
          exact List.mem_singleton_self _
      next => cases stepped
  | tunnel bytes host =>
      unfold Client.step at stepped
      dsimp only at stepped
      split at stepped
      next =>
        cases stepped
        exact Round.silent link incoming client.endpoint
      next frame decoded =>
        obtain ⟨⟨endpoint, given⟩, received, isNext⟩ := Option.map_eq_some_iff.mp stepped
        cases isNext
        obtain ⟨noFrames, isGiven⟩ := toApp_outputs client given
        rw [noFrames]
        unfold Endpoint.receive at received
        split at received
        next owns =>
          exact Round.taken incoming (List.mem_singleton_self _)
            ⟨decodeClientFrame_opens decoded owns.1, owns⟩ received isGiven
        next =>
          cases received
          rw [List.eq_nil_iff_forall_not_mem.mpr fun datagram member =>
            absurd (isGiven datagram member) List.not_mem_nil]
          exact Round.silent link incoming client.endpoint
  | reportTick =>
      obtain ⟨⟨endpoint, frame⟩, reported, isNext⟩ := Option.map_eq_some_iff.mp stepped
      cases isNext
      exact Round.reported incoming reported
  | flushTick =>
      unfold Client.step Client.sendFrames at stepped
      dsimp only at stepped
      split at stepped
      next frames isOk =>
        cases stepped
        rw [(filterMap_toServer frames).1, (filterMap_toServer frames).2]
        refine Round.encoded incoming .flush ?_ (fun _ impossible => by cases impossible)
          (fun _ impossible => by cases impossible)
        exact congrArg (fun result => result.toOption.getD []) isOk
      next => cases stepped

theorem filterMap_toPeer (peer : SocketAddr) (frames : List Frame) :
    (Session.sendFrames peer frames).filterMap SessionOutput.frame? = frames ∧
      (Session.sendFrames peer frames).filterMap SessionOutput.datagram? = [] := by
  constructor
  · rw [Session.sendFrames, List.filterMap_map]
    exact List.filterMap_some
  · rw [Session.sendFrames, List.filterMap_map]
    exact List.filterMap_none frames

theorem filterMap_upstream (datagrams : List Bytes) :
    (datagrams.map SessionOutput.upstream).filterMap SessionOutput.frame? = [] ∧
      (datagrams.map SessionOutput.upstream).filterMap SessionOutput.datagram? = datagrams := by
  constructor
  · rw [List.filterMap_map]
    exact List.filterMap_none datagrams
  · rw [List.filterMap_map]
    exact List.filterMap_some

/-- A datagram that reaches the session's loop opens as a frame of the session. -/
theorem opensAs_of_resolve {link : Link} {bytes : Bytes} {peer : SocketAddr} {host : Host}
    {event : SessionEvent} (resolved : link.resolve (.datagram bytes peer host) = some event) :
    ∃ frame, event = .packet ⟨frame, peer⟩ host ∧ link.OpensAs bytes frame := by
  unfold resolve at resolved
  dsimp only at resolved
  split at resolved
  next => cases resolved
  next frame deviceKey opened =>
    split at resolved
    next ofSession =>
      cases resolved
      obtain ⟨found, isFrame, isV3⟩ := decodeServerFrame_opens opened
      obtain ⟨isDevice, isSession⟩ := Prod.mk.inj ofSession
      have isKey : deviceKey = link.key := by
        have known := lookup_selectorTable link.built found
        rw [isDevice, link.provisioned] at known
        exact (Option.some.inj known).symm
      rw [isDevice, isKey] at isFrame
      exact ⟨frame, rfl, isFrame, isV3, isDevice, isSession⟩
    next => cases resolved

theorem server_round {link : Link} {session next : Session} {input : ServerInput}
    {event : SessionEvent} {outputs : List SessionOutput} (random : Nat → Randomness)
    (resolved : link.resolve input = some event)
    (stepped : session.step link.build.rs link.runtime event = some (next, outputs)) :
    Round link .server session.endpoint next.endpoint
      (happenings .server (serverInput session input)
        (outputs.filterMap SessionOutput.datagram?)
        (link.sealFrames random (outputs.filterMap SessionOutput.frame?))) := by
  have incoming := serverInput_incoming session input
  cases input with
  | datagram bytes peer host =>
      obtain ⟨frame, rfl, opens⟩ := opensAs_of_resolve resolved
      obtain ⟨⟨endpoint, given⟩, received, isNext⟩ := Option.map_eq_some_iff.mp stepped
      cases isNext
      rw [(filterMap_upstream given).1, (filterMap_upstream given).2]
      have accepted : session.endpoint.accept link.build.rs host frame = some (endpoint, given) :=
        (if_pos opens.owns).symm.trans received
      exact Round.taken incoming (List.mem_singleton_self _) opens accepted fun _ member => member
  | upstream received =>
      cases resolved
      cases Session.step_cases stepped with
      | @upstream payload peer isPeer =>
          rw [(filterMap_toPeer peer _).1, (filterMap_toPeer peer _).2]
          refine Round.encoded incoming (.encodeDatagram (payload.take datagramBuffer)) rfl
            (fun _ => datagram_small) ?_
          intro datagram isDatagram
          cases isDatagram
          dsimp only [serverInput]
          rw [if_pos (by rw [isPeer]; rfl)]
          exact List.mem_singleton_self _
      | idle => exact Round.silent link incoming session.endpoint
  | reportTick =>
      cases resolved
      cases Session.step_cases stepped with
      | @report _ _ peer isPeer reported =>
          rw [(filterMap_toPeer peer _).1, (filterMap_toPeer peer _).2]
          exact Round.reported incoming reported
      | idle => exact Round.silent link incoming session.endpoint
  | flushTick =>
      cases resolved
      cases Session.step_cases stepped with
      | @flush peer isPeer =>
          rw [(filterMap_toPeer peer _).1, (filterMap_toPeer peer _).2]
          exact Round.encoded incoming .flush rfl (fun _ impossible => by cases impossible)
            (fun _ impossible => by cases impossible)
      | idle => exact Round.silent link incoming session.endpoint

/-- Every event is a round of both parties, of one of them an idle one. -/
theorem step_rounds {link : Link} {system next : System} {event : TunnelEvent}
    {more : List Happening} (stepped : link.step system event = some (next, more)) (party : Party) :
    Round link party (system.endpoint party) (next.endpoint party) more := by
  cases event with
  | client event random =>
      obtain ⟨⟨client, outputs⟩, isStep, isNext⟩ := Option.map_eq_some_iff.mp stepped
      cases isNext
      cases party with
      | client => exact client_round random isStep
      | server => exact Round.bystander link (clientInput_incoming event) (by decide) _
  | server input random =>
      have incoming := serverInput_incoming system.server input
      unfold step at stepped
      dsimp only at stepped
      split at stepped
      next =>
        cases stepped
        have quiet : Round link party (system.endpoint party) (system.endpoint party)
            (happenings .server (serverInput system.server input) [] []) :=
          Round.silent link incoming _
        rw [happenings, List.map_nil, List.map_nil, List.append_nil, List.append_nil] at quiet
        exact quiet
      next event resolved =>
        obtain ⟨⟨session, outputs⟩, isStep, isNext⟩ := Option.map_eq_some_iff.mp stepped
        cases isNext
        cases party with
        | client => exact Round.bystander link incoming (by decide) _
        | server => exact server_round random resolved isStep

theorem accounts_of_run {link : Link} {events : List TunnelEvent} {system : System}
    {trace : List Happening} (ran : run link.step link.start events = some (system, trace))
    (party : Party) : ∃ ledger, Accounts link party trace ledger (system.endpoint party) := by
  refine run_invariant ran
    (fun _ trace system => ∃ ledger, Accounts link party trace ledger (system.endpoint party)) ?_ ?_
  · refine ⟨Ledger.empty, ?_, ?_, ?_, ?_, ?_⟩
    · cases party <;> exact History.new _ _ _
    · intro frame member
      cases member
    · intro bytes member
      cases member
    · intro datagram member
      cases member
    · intro datagram member
      cases member
  · rintro past event before state next emitted _ _ stepped ⟨ledger, accounts⟩
    exact accounts.round (step_rounds stepped party)

/-! ### Direction binding -/

/-- A frame that a party took in is one that the other party emitted. -/
theorem taken_emitted {link : Link} {party : Party} {trace : List Happening}
    {ledger otherLedger : Ledger} {endpoint otherEndpoint : Endpoint}
    (accounts : Accounts link party trace ledger endpoint)
    (otherAccounts : Accounts link party.other trace otherLedger otherEndpoint)
    (fits : otherEndpoint.encoder.CountersFit) (unforged : link.Unforged trace)
    (notEchoed : ¬ Echoed trace party) :
    ∀ frame ∈ ledger.taken, frame ∈ otherLedger.emitted := by
  intro frame member
  obtain ⟨bytes, delivered, opens⟩ := accounts.taken frame member
  obtain ⟨plain, decrypted, _⟩ := decodeV3_opens opens.opened
  obtain ⟨sender, sent, isSent, same⟩ := unforged party bytes delivered (by rw [decrypted]; rfl)
  have isOther : sender = party.other := by
    cases sender <;> cases party
    · exact absurd ⟨bytes, sent, delivered, isSent, same⟩ notEchoed
    · rfl
    · rfl
    · exact absurd ⟨bytes, sent, delivered, isSent, same⟩ notEchoed
  rw [isOther] at isSent
  obtain ⟨emitted, inEmitted, random, encoded⟩ := otherAccounts.sent sent isSent
  obtain ⟨owns, wireFits⟩ :=
    otherAccounts.history.emitted_fits fits link.session_lt emitted inEmitted
  have isSealed := encodeWire_seals owns.1 encoded
  have isOpened := opens.opened
  rw [show link.keyId = emitted.keyId from owns.2.1.symm] at isOpened
  rw [isSealed.opens owns.1 wireFits same.1 same.2 isOpened]
  exact inEmitted

/-- Whatever a party hands out, over a network that cannot forge and has not
returned to this party anything it sent itself, the other party passed to its
encoder. -/
theorem direction_binding (link : Link) (events : List TunnelEvent) (system : System)
    (trace : List Happening) (party : Party)
    (ran : run link.step link.start events = some (system, trace))
    (fits : (system.endpoint party.other).encoder.CountersFit) (unforged : link.Unforged trace)
    (notEchoed : ¬ Echoed trace party) :
    ∀ datagram, .handed party datagram ∈ trace → .passed party.other datagram ∈ trace := by
  obtain ⟨ledger, accounts⟩ := accounts_of_run ran party
  obtain ⟨otherLedger, otherAccounts⟩ := accounts_of_run ran party.other
  have drawn := taken_emitted accounts otherAccounts fits unforged notEchoed
  intro datagram member
  have given := accounts.handed datagram member
  exact otherAccounts.passed datagram
    (accounts.history.given_passed otherAccounts.history fits drawn datagram given)

/-! ### One datagram of the client -/

noncomputable def sampleLink : Link where
  build := dataBuild
  keyring := Table.insert ∅ 7 reportKey
  selectors := Table.insert ∅ (v3SelectorPrefix reportHash 7) (7, reportKey)
  built := rfl
  keyId := 7
  key := reportKey
  provisioned := rfl
  session := 100
  session_lt := by decide

/-- The sealed frame on the wire. -/
def firstDatagram : Bytes := sealedData 4 dataFrame

/-- The application sends a datagram and the client flushes it. -/
def firstRounds : List TunnelEvent :=
  [.client (.app [1, 2, 3] Session.clientAddress) fun _ => sampleRandom 4,
    .client .flushTick fun _ => sampleRandom 4]

/-- The datagram arrives somewhere. -/
def firstArrival : Party → TunnelEvent
  | .client => .client (.tunnel firstDatagram (Host.at 0)) fun _ => sampleRandom 5
  | .server =>
    .server (.datagram firstDatagram Session.clientAddress (Host.at 0)) fun _ => sampleRandom 5

/-- Whoever receives the datagram opens it and hands it out. -/
theorem first_run (party : Party) :
    ∃ system trace, run sampleLink.step sampleLink.start (firstRounds ++ [firstArrival party]) =
        some (system, trace) ∧
      trace = [.passed .client [1, 2, 3], .sent .client firstDatagram,
        .delivered party firstDatagram, .handed party [1, 2, 3]] ∧
      ∀ sender, (system.endpoint sender).encoder.CountersFit := by
  have computed : (run sampleLink.step sampleLink.start (firstRounds ++ [firstArrival party])).map
      (fun result => (result.2,
        [Party.client, Party.server].map fun sender =>
          let encoder := (result.1.endpoint sender).encoder
          (encoder.sequence, encoder.packet, encoder.group))) =
      some ([.passed .client [1, 2, 3], .sent .client firstDatagram,
        .delivered party firstDatagram, .handed party [1, 2, 3]], [(2, 2, 2), (1, 1, 1)]) := by
    cases party <;> decide +kernel
  obtain ⟨⟨system, trace⟩, ran, isResult⟩ := Option.map_eq_some_iff.mp computed
  obtain ⟨isTrace, counters⟩ := Prod.mk.inj isResult
  refine ⟨system, trace, ran, isTrace, ?_⟩
  intro sender
  simp only [List.map_cons, List.map_nil, List.cons.injEq, Prod.mk.injEq, and_true] at counters
  cases sender with
  | client =>
      obtain ⟨⟨sequence, packet, group⟩, _⟩ := counters
      constructor <;> omega
  | server =>
      obtain ⟨_, sequence, packet, group⟩ := counters
      constructor <;> omega

/-- The only datagram delivered is the one the client sent. -/
theorem first_unforged (party : Party) :
    sampleLink.Unforged [.passed .client [1, 2, 3], .sent .client firstDatagram,
      .delivered party firstDatagram, .handed party [1, 2, 3]] := by
  intro receiver bytes delivered _
  simp only [List.mem_cons, reduceCtorEq, false_or, Happening.delivered.injEq, List.not_mem_nil,
    or_false] at delivered
  rw [delivered.2]
  exact ⟨.client, firstDatagram, by simp, by decide +kernel⟩

/-- The server session hands on what the client was given. -/
theorem direction_binding_to_server :
    ∃ system trace,
      run sampleLink.step sampleLink.start (firstRounds ++ [firstArrival .server]) =
        some (system, trace) ∧
      .handed .server [1, 2, 3] ∈ trace ∧ .passed .client [1, 2, 3] ∈ trace := by
  obtain ⟨system, trace, ran, rfl, fits⟩ := first_run .server
  refine ⟨system, _, ran, by simp, ?_⟩
  refine direction_binding sampleLink _ system _ .server ran (fits .client) (first_unforged .server)
    ?_ [1, 2, 3] (by simp)
  rintro ⟨bytes, sent, _, isSent, _⟩
  simp at isSent

/-- Returned to the client, the same datagram opens there as well: the client
hands its own datagram back to the application, and the server session has passed
nothing to its encoder. -/
theorem echo_handed_to_application :
    ∃ system trace,
      run sampleLink.step sampleLink.start (firstRounds ++ [firstArrival .client]) =
        some (system, trace) ∧
      (∀ party, (system.endpoint party).encoder.CountersFit) ∧ sampleLink.Unforged trace ∧
      .handed .client [1, 2, 3] ∈ trace ∧ .passed .server [1, 2, 3] ∉ trace := by
  obtain ⟨system, trace, ran, rfl, fits⟩ := first_run .client
  exact ⟨system, _, ran, fits, first_unforged .client, by simp, by simp⟩

end Link

end SmartFecTunnel.Tunnel
