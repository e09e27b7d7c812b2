import SmartFecTunnel.Auth.Handshake

/-!
Contract: what the two ends of a connection can rely on once it is authenticated, in any run of
any number of connections.

A proof ends in a keyed hash.  `Sound` states what TLS and the hash are relied on for: the key
exporters tell connections apart, and nobody has the keyed hash of a message under the key of an
honest device unless a client of that key has asked for it.  Which messages the clients ask for,
and which one the server checks, is what `make_envelope` computes; so a proof holds for one
connection and one device only because both are in that message and that key.

Owns: that the server and a client of this program agree on the connection and the device, and
how often each authenticates.

Does not own: secrecy of the device secrets.
-/

namespace SmartFecTunnel.Auth

open SmartFecTunnel.Library

/-- What an event sends to the server to authenticate. -/
def Endpoint.sent? (endpoint : Endpoint) (number : Nat) : ConnectionEvent → Option Bytes
  | .proves secret claims =>
    (authenticateClient endpoint.blake (endpoint.exporter number) secret claims.val).toOption
  | .sends bytes => some bytes
  | _ => none

/-- To send its bytes an event asks for the keyed hash of a message. -/
def Endpoint.Asks (endpoint : Endpoint) (number : Nat) (event : ConnectionEvent)
    (key message : Bytes) : Prop :=
  endpoint.blake.Asks (fun blake => Endpoint.sent? { endpoint with blake } number event) key message

/-- What is relied on in a run, for the devices whose secrets only their clients have.  The bytes
that are sent on a connection carry the nonce of a proof and end in its keyed hash; `value` is
the exporter of the connection for that nonce. -/
structure Sound (endpoint : Endpoint) (honest : Nat → Prop) (events : List RelayEvent) : Prop where
  distinct : ∀ number event bytes other secret claims value,
    .connection number event ∈ events → endpoint.sent? number event = some bytes →
    .connection other (.proves secret claims) ∈ events →
    endpoint.exporter number (field bytes 21 37) = some value →
    endpoint.exporter other claims.val.nonce = some value → number = other
  secrets : ∀ number secret claims device held,
    .connection number (.proves secret claims) ∈ events → honest device →
    endpoint.keys.lookup device = some held →
    deviceKey endpoint.blake secret = deviceKey endpoint.blake held → secret = held
  unforgeable : ∀ earlier number event bytes device secret value,
    earlier ++ [.connection number event] <+: events →
    endpoint.sent? number event = some bytes →
    honest device → endpoint.keys.lookup device = some secret →
    endpoint.exporter number (field bytes 21 37) = some value →
    bytes.drop prefixLen = endpoint.blake.keyed (deviceKey endpoint.blake secret)
      (bytes.take prefixLen ++ value) →
    ∃ other asking, .connection other asking ∈ earlier ++ [.connection number event] ∧
      endpoint.Asks other asking (deviceKey endpoint.blake secret) (bytes.take prefixLen ++ value)

/-! ### One call of the server -/

/-- What the server has checked when it accepts a proof. -/
theorem authenticateServer_ok {blake : Blake3} {keys : Table Nat Bytes}
    {exporter : Bytes → Option Bytes} {now : Nat} {cache next : ReplayCache} {proof : Bytes}
    {device : Nat}
    (isOk : authenticateServer blake keys exporter now cache proof = some (next, .ok device)) :
    ∃ secret value claims, claims.deviceId = device ∧ keys.lookup device = some secret ∧
      exporter claims.nonce = some value ∧ Genuine blake proof secret value claims ∧
      absDiff now claims.timestamp ≤ defaultAuthWindowSecs := by
  unfold authenticateServer at isOk
  cases isDevice : envelopeDeviceId proof with
  | error error =>
      rw [isDevice] at isOk
      cases isOk
  | ok found =>
      rw [isDevice] at isOk
      dsimp only at isOk
      rw [proofNonce_of_deviceId isDevice] at isOk
      cases isSecret : keys.lookup found with
      | none =>
          rw [isSecret] at isOk
          cases isOk
      | some secret =>
          rw [isSecret] at isOk
          dsimp only at isOk
          cases isValue : exporter (field proof 21 37) with
          | none =>
              rw [isValue] at isOk
              cases isOk
          | some value =>
              rw [isValue] at isOk
              dsimp only at isOk
              cases isVerified : (verifyEnvelope blake proof secret value now
                defaultAuthWindowSecs cache).2 with
              | error error =>
                  rw [isVerified] at isOk
                  cases isOk
              | ok claims =>
                  rw [isVerified] at isOk
                  cases isOk
                  obtain ⟨isAuthentic, _⟩ := verifyEnvelope_ok_iff.mp isVerified
                  obtain ⟨authentic, inWindow⟩ := authenticate_ok_iff.mp isAuthentic
                  have sameDevice : claims.deviceId = device := by
                    have marked := wellMarked_of_deviceId isDevice
                    unfold envelopeDeviceId at isDevice
                    rw [if_neg (not_not.mpr marked)] at isDevice
                    split at isDevice
                    next => cases isDevice
                    next =>
                      cases isDevice
                      exact authentic.device
                  exact ⟨secret, value, claims, sameDevice, isSecret, authentic.nonce ▸ isValue,
                    authentic_iff_genuine.mp authentic, inWindow⟩

theorem authenticateClient_eq {blake : Blake3} {exporter : Bytes → Option Bytes} {secret : Bytes}
    {claims : AuthClaims} {value : Bytes} (nonzero : claims.deviceId ≠ 0)
    (isValue : exporter claims.nonce = some value) :
    authenticateClient blake exporter secret claims =
      .ok (makeEnvelope blake secret claims.deviceId claims.timestamp claims.nonce value) := by
  rw [authenticateClient, if_neg nonzero, isValue]

theorem authenticateClient_ok {blake : Blake3} {exporter : Bytes → Option Bytes}
    {secret proof : Bytes} {claims : AuthClaims}
    (isOk : authenticateClient blake exporter secret claims = .ok proof) :
    ∃ value, proof =
      makeEnvelope blake secret claims.deviceId claims.timestamp claims.nonce value := by
  unfold authenticateClient at isOk
  split at isOk
  next => cases isOk
  next =>
    split at isOk
    next => cases isOk
    next value isValue =>
      cases isOk
      exact ⟨value, rfl⟩

/-- Two ways to make one envelope agree on its claims. -/
theorem claims_of_makeEnvelope {blake : Blake3} {envelope secret tlsExporter : Bytes}
    {claims proved : AuthClaims} {provedSecret provedExporter : Bytes}
    (genuine : Genuine blake envelope secret tlsExporter claims) (fits : proved.Fits)
    (made : envelope = makeEnvelope blake provedSecret proved.deviceId proved.timestamp
      proved.nonce provedExporter) :
    proved = claims := by
  obtain ⟨device, timestamp, nonce⟩ := fields_makeEnvelope blake secret genuine.fits tlsExporter
  obtain ⟨provedDevice, provedTime, provedNonce⟩ :=
    fields_makeEnvelope blake provedSecret fits provedExporter
  rw [← genuine.made] at device timestamp nonce
  rw [← made] at provedDevice provedTime provedNonce
  cases claims
  cases proved
  rw [AuthClaims.mk.injEq]
  exact ⟨provedDevice.trans device.symm, provedTime.trans timestamp.symm,
    provedNonce.trans nonce.symm⟩

/-- The bytes of a genuine envelope are the message whose hash they end in, short of the
exporter. -/
theorem Genuine.message {blake : Blake3} {envelope secret tlsExporter : Bytes}
    {claims : AuthClaims} (genuine : Genuine blake envelope secret tlsExporter claims) :
    envelope.take prefixLen = front claims.deviceId claims.timestamp claims.nonce ∧
      field envelope 21 37 = claims.nonce ∧
      envelope.drop prefixLen =
        blake.keyed (deviceKey blake secret) (envelope.take prefixLen ++ tlsExporter) := by
  have isLength := length_front claims.deviceId claims.timestamp genuine.fits.nonce
  have isFront : envelope.take prefixLen =
      front claims.deviceId claims.timestamp claims.nonce := by
    rw [genuine.made, makeEnvelope_eq]
    exact List.take_left' isLength
  refine ⟨isFront, ?_, ?_⟩
  · obtain ⟨_, _, isNonce⟩ := fields_makeEnvelope blake secret genuine.fits tlsExporter
    rw [← genuine.made] at isNonce
    exact isNonce.symm
  · rw [isFront, genuine.made]
    exact drop_makeEnvelope blake secret _ _ genuine.fits.nonce tlsExporter

/-- A client asks for one message only: what it says in front, and the exporter. -/
theorem Endpoint.Asks.proves {endpoint : Endpoint} {number : Nat} {event : ConnectionEvent}
    {key message : Bytes} (asks : endpoint.Asks number event key message) :
    ∃ secret claims value proof, event = .proves secret claims ∧
      authenticateClient endpoint.blake (endpoint.exporter number) secret claims.val = .ok proof ∧
      endpoint.exporter number claims.val.nonce = some value ∧
      key = deviceKey endpoint.blake secret ∧
      message = front claims.val.deviceId claims.val.timestamp claims.val.nonce ++ value := by
  obtain ⟨answer, isLength, differs⟩ := asks
  cases event with
  | proves secret claims =>
      dsimp only [Endpoint.sent?] at differs
      by_cases zero : claims.val.deviceId = 0
      · rw [authenticateClient, authenticateClient, if_pos zero, if_pos zero] at differs
        exact absurd rfl differs
      · cases isValue : endpoint.exporter number claims.val.nonce with
        | none =>
            rw [authenticateClient, authenticateClient, if_neg zero, if_neg zero, isValue]
              at differs
            exact absurd rfl differs
        | some value =>
            refine ⟨secret, claims, value, _, rfl, authenticateClient_eq zero isValue, isValue, ?_⟩
            by_contra other
            apply differs
            rw [authenticateClient_eq zero isValue, authenticateClient_eq zero isValue,
              makeEnvelope_eq, makeEnvelope_eq, Blake3.keyed_answering_of_ne]
            · rfl
            · rintro ⟨isKey, isMessage⟩
              exact other ⟨isKey.symm, isMessage.symm⟩
  | _ => exact absurd rfl differs

/-! ### One connection -/

/-- How far a client of this program has come. -/
def ClientStory (proved : List (Bytes × AuthClaims)) (proof : Option Bytes) :
    ClientPhase → Prop
  | .connected => proved = [] ∧ proof = none
  | .proving device => ∃ secret claims, proved = [(secret, claims)] ∧ claims.deviceId = device
  | .relaying device => ∃ secret claims, proved = [(secret, claims)] ∧ claims.deviceId = device
  | .closed => proved.length ≤ 1

/-- How far the server has come. -/
def ServerStory (authenticated : List (Nat × Nat)) (answer : Option Bytes) : ServerPhase → Prop
  | .accepted => authenticated = [] ∧ answer = none
  | .relaying device => ∃ now, authenticated = [(device, now)]
  | .closed => authenticated.length ≤ 1

/-- What holds of a connection on which these claims were proved and which was authenticated as
these devices. -/
structure ConnectionStory (endpoint : Endpoint) (past : List RelayEvent) (number : Nat)
    (connection : Connection) (proved : List (Bytes × AuthClaims))
    (authenticated : List (Nat × Nat)) : Prop where
  client : if connection.own then ClientStory proved connection.proof connection.client
    else proved = [] ∧ connection.client = .connected
  server : ServerStory authenticated connection.answer connection.server
  made : connection.own = true → ∀ proof, connection.proof = some proof →
    ∃ secret claims value, proved = [(secret, claims)] ∧ claims.Fits ∧
      proof = makeEnvelope endpoint.blake secret claims.deviceId claims.timestamp claims.nonce value
  sent : ∀ proof, connection.proof = some proof →
    ∃ earlier event, earlier ++ [.connection number event] <+: past ∧
      endpoint.sent? number event = some proof
  answered : ∀ answer, connection.answer = some answer →
    ∃ device now, authenticated = [(device, now)] ∧
      (connection.own = true →
        ∃ secret claims, proved = [(secret, claims)] ∧ claims.deviceId = device)

/-- What is seen when a connection is authenticated, and when its client starts to relay. -/
def Agreed (endpoint : Endpoint) (honest : Nat → Prop) (front : List RelayObservation) :
    RelayObservation → Prop
  | .authenticated number device now => honest device → ∃ secret claims,
      endpoint.keys.lookup device = some secret ∧ claims.deviceId = device ∧
      .proved number secret claims ∈ front ∧
      absDiff now claims.timestamp ≤ defaultAuthWindowSecs
  | .relays number device => ∃ now, .authenticated number device now ∈ front
  | _ => True

theorem mem_of_filterMap_authenticated {number device now : Nat}
    {observed : List RelayObservation}
    (isDevice : observed.filterMap (RelayObservation.authenticated? number) = [(device, now)]) :
    .authenticated number device now ∈ observed := by
  have member : (device, now) ∈ observed.filterMap (RelayObservation.authenticated? number) := by
    rw [isDevice]
    exact List.mem_singleton_self _
  obtain ⟨observation, isMember, isFound⟩ := List.mem_filterMap.mp member
  unfold RelayObservation.authenticated? at isFound
  split at isFound
  next other found time =>
    split at isFound
    next same =>
      cases isFound
      rw [← same]
      exact isMember
    next => cases isFound
  next => cases isFound

section Run

variable {endpoint : Endpoint} {honest : Nat → Prop} {past : List RelayEvent} {relays : Relays}
  {observed : List RelayObservation} {number : Nat} {connection : Connection}
  {proved : List (Bytes × AuthClaims)} {authenticated : List (Nat × Nat)}

/-- The events go on. -/
theorem ConnectionStory.later
    (story : ConnectionStory endpoint past number connection proved authenticated)
    (more : List RelayEvent) :
    ConnectionStory endpoint (past ++ more) number connection proved authenticated where
  client := story.client
  server := story.server
  made := story.made
  sent := by
    intro proof isProof
    obtain ⟨earlier, event, isPrefix, isSent⟩ := story.sent proof isProof
    exact ⟨earlier, event, isPrefix.trans (List.prefix_append _ _), isSent⟩
  answered := story.answered

/-- What holds after the events `past` that showed `observed`. -/
structure Authenticated (endpoint : Endpoint) (honest : Nat → Prop) (past : List RelayEvent)
    (observed : List RelayObservation) (relays : Relays) : Prop where
  stories : ∀ number connection, relays.connections[number]? = some connection →
    ConnectionStory endpoint past number connection
      (observed.filterMap (RelayObservation.proved? number))
      (observed.filterMap (RelayObservation.authenticated? number))
  fresh : ∀ number, relays.connections.length ≤ number →
    observed.filterMap (RelayObservation.proved? number) = [] ∧
      observed.filterMap (RelayObservation.authenticated? number) = []
  proofs : ∀ number secret claims proof, .connection number (.proves secret claims) ∈ past →
    authenticateClient endpoint.blake (endpoint.exporter number) secret claims.val = .ok proof →
    .proved number secret claims.val ∈ observed
  agreed : ∀ front item, front ++ [item] <+: observed → Agreed endpoint honest front item

/-- An event of one connection that keeps its story. -/
theorem Authenticated.moves (reached : Authenticated endpoint honest past observed relays)
    (isConnection : relays.connections[number]? = some connection) {event : ConnectionEvent}
    {cache : ReplayCache} {after : Connection} {emitted : List RelayObservation}
    (proofs : ∀ secret claims proof, event = .proves secret claims →
      authenticateClient endpoint.blake (endpoint.exporter number) secret claims.val = .ok proof →
      .proved number secret claims.val ∈ emitted)
    (others : ∀ other, other ≠ number →
      emitted.filterMap (RelayObservation.proved? other) = [] ∧
        emitted.filterMap (RelayObservation.authenticated? other) = [])
    (story : ConnectionStory endpoint (past ++ [.connection number event]) number after
      (observed.filterMap (RelayObservation.proved? number) ++
        emitted.filterMap (RelayObservation.proved? number))
      (observed.filterMap (RelayObservation.authenticated? number) ++
        emitted.filterMap (RelayObservation.authenticated? number)))
    (agreed : ∀ front item, front ++ [item] <+: emitted →
      Agreed endpoint honest (observed ++ front) item) :
    Authenticated endpoint honest (past ++ [.connection number event]) (observed ++ emitted)
      ⟨cache, relays.connections.set number after⟩ := by
  have within := (List.getElem?_eq_some_iff.mp isConnection).1
  have unseen : ∀ other, other ≠ number →
      (observed ++ emitted).filterMap (RelayObservation.proved? other) =
          observed.filterMap (RelayObservation.proved? other) ∧
        (observed ++ emitted).filterMap (RelayObservation.authenticated? other) =
          observed.filterMap (RelayObservation.authenticated? other) := by
    intro other different
    obtain ⟨noProof, noDevice⟩ := others other different
    rw [List.filterMap_append, List.filterMap_append, noProof, noDevice, List.append_nil,
      List.append_nil]
    exact ⟨rfl, rfl⟩
  constructor
  · intro other found isFound
    by_cases same : other = number
    · subst same
      rw [List.getElem?_set_self within] at isFound
      cases isFound
      rw [List.filterMap_append, List.filterMap_append]
      exact story
    · rw [List.getElem?_set_ne (Ne.symm same)] at isFound
      rw [(unseen other same).1, (unseen other same).2]
      exact (reached.stories other found isFound).later _
  · intro other beyond
    rw [List.length_set] at beyond
    have different : other ≠ number := by omega
    rw [(unseen other different).1, (unseen other different).2]
    exact reached.fresh other beyond
  · intro other secret claims proof member isProof
    rcases List.mem_append.mp member with old | new
    · exact List.mem_append_left _ (reached.proofs other secret claims proof old isProof)
    · cases List.mem_singleton.mp new
      exact List.mem_append_right _ (proofs secret claims proof rfl isProof)
  · exact front_append reached.agreed agreed

/-- A client proves its claims. -/
theorem Authenticated.proves (reached : Authenticated endpoint honest past observed relays)
    (isConnection : relays.connections[number]? = some connection) {secret : Bytes}
    {claims : { claims : AuthClaims // claims.Fits }} {cache : ReplayCache} {after : Connection}
    {emitted : List RelayObservation}
    (stepped : endpoint.connectionStep relays.cache number connection (.proves secret claims) =
      some (cache, after, emitted)) :
    Authenticated endpoint honest (past ++ [.connection number (.proves secret claims)])
      (observed ++ emitted) ⟨cache, relays.connections.set number after⟩ := by
  have story := (reached.stories number connection isConnection).later
    [.connection number (.proves secret claims)]
  unfold Endpoint.connectionStep at stepped
  dsimp only at stepped
  split at stepped
  next ready =>
    obtain ⟨isOwn, isConnected⟩ := ready
    have client := story.client
    rw [if_pos isOwn, isConnected] at client
    obtain ⟨noProof, notSent⟩ := client
    split at stepped
    next error isError =>
      cases stepped
      refine reached.moves isConnection ?_ (fun _ _ => ⟨rfl, rfl⟩) ?_
        (fun front item isPrefix => absurd (List.prefix_nil.mp isPrefix) (by simp))
      · intro _ _ proof isEvent isProof
        cases isEvent
        cases isError.symm.trans isProof
      · rw [List.filterMap_nil, List.filterMap_nil, List.append_nil, List.append_nil]
        refine ⟨?_, story.server, story.made, story.sent, story.answered⟩
        rw [if_pos isOwn, noProof]
        exact Nat.zero_le 1
    next proof isProof =>
      cases stepped
      refine reached.moves isConnection ?_ ?_ ?_ ?_
      · intro _ _ _ isEvent _
        cases isEvent
        exact List.mem_singleton_self _
      · intro other different
        simp [RelayObservation.proved?, RelayObservation.authenticated?, Ne.symm different]
      · have isProved : [RelayObservation.proved number secret claims.val].filterMap
            (RelayObservation.proved? number) = [(secret, claims.val)] := by
          simp [RelayObservation.proved?]
        have nothing : [RelayObservation.proved number secret claims.val].filterMap
            (RelayObservation.authenticated? number) = [] := rfl
        rw [noProof, isProved, nothing, List.append_nil, List.nil_append]
        refine ⟨?_, story.server, ?_, ?_, ?_⟩
        · rw [if_pos isOwn]
          exact ⟨secret, claims.val, rfl, rfl⟩
        · intro _ made isMade
          cases isMade
          obtain ⟨value, isMade⟩ := authenticateClient_ok isProof
          exact ⟨secret, claims.val, value, rfl, claims.property, isMade⟩
        · intro made isMade
          cases isMade
          refine ⟨past, .proves secret claims, List.prefix_rfl, ?_⟩
          rw [Endpoint.sent?, isProof]
          rfl
        · intro answer isAnswer
          obtain ⟨_, _, _, agrees⟩ := story.answered answer isAnswer
          obtain ⟨_, _, isProved, _⟩ := agrees isOwn
          rw [noProof] at isProved
          cases isProved
      · intro front item isPrefix
        obtain ⟨rfl, rfl⟩ := front_singleton isPrefix
        trivial
  next => cases stepped

/-- The far end of a connection sends anything. -/
theorem Authenticated.sends (reached : Authenticated endpoint honest past observed relays)
    (isConnection : relays.connections[number]? = some connection) {bytes : Bytes}
    {cache : ReplayCache} {after : Connection} {emitted : List RelayObservation}
    (stepped : endpoint.connectionStep relays.cache number connection (.sends bytes) =
      some (cache, after, emitted)) :
    Authenticated endpoint honest (past ++ [.connection number (.sends bytes)])
      (observed ++ emitted) ⟨cache, relays.connections.set number after⟩ := by
  have story := (reached.stories number connection isConnection).later
    [.connection number (.sends bytes)]
  unfold Endpoint.connectionStep at stepped
  dsimp only at stepped
  split at stepped
  next foreign =>
    cases stepped
    refine reached.moves isConnection nofun (fun _ _ => ⟨rfl, rfl⟩) ?_
      (fun front item isPrefix => absurd (List.prefix_nil.mp isPrefix) (by simp))
    rw [List.filterMap_nil, List.filterMap_nil, List.append_nil, List.append_nil]
    have client := story.client
    rw [if_neg foreign.1] at client
    refine ⟨?_, story.server, ?_, ?_, story.answered⟩
    · rw [if_neg foreign.1]
      exact client
    · intro isOwn
      exact absurd isOwn foreign.1
    · intro proof isProof
      cases isProof
      exact ⟨past, .sends bytes, List.prefix_rfl, rfl⟩
  next => cases stepped

/-- An event after which only the phases have changed. -/
theorem Authenticated.phases (reached : Authenticated endpoint honest past observed relays)
    (isConnection : relays.connections[number]? = some connection) {event : ConnectionEvent}
    {cache : ReplayCache} {server : ServerPhase} {client : ClientPhase}
    {emitted : List RelayObservation}
    (notProof : ∀ secret claims, event ≠ .proves secret claims)
    (noProof : ∀ other, emitted.filterMap (RelayObservation.proved? other) = [])
    (noDevice : ∀ other, emitted.filterMap (RelayObservation.authenticated? other) = [])
    (isServer : ServerStory (observed.filterMap (RelayObservation.authenticated? number))
      connection.answer server)
    (isClient : if connection.own then ClientStory
        (observed.filterMap (RelayObservation.proved? number)) connection.proof client
      else observed.filterMap (RelayObservation.proved? number) = [] ∧ client = .connected)
    (agreed : ∀ front item, front ++ [item] <+: emitted →
      Agreed endpoint honest (observed ++ front) item) :
    Authenticated endpoint honest (past ++ [.connection number event]) (observed ++ emitted)
      ⟨cache, relays.connections.set number { connection with server, client }⟩ := by
  have story := (reached.stories number connection isConnection).later [.connection number event]
  refine reached.moves isConnection
    (fun secret claims _ isEvent => absurd isEvent (notProof secret claims))
    (fun other _ => ⟨noProof other, noDevice other⟩) ?_ agreed
  rw [noProof, noDevice, List.append_nil, List.append_nil]
  exact ⟨isClient, isServer, story.made, story.sent, story.answered⟩

/-- The end of a task leaves at most one authentication behind. -/
theorem ServerStory.closed {authenticated : List (Nat × Nat)} {answer : Option Bytes}
    {server : ServerPhase} (story : ServerStory authenticated answer server) :
    ServerStory authenticated answer .closed := by
  cases server with
  | accepted =>
      rw [story.1]
      exact Nat.zero_le 1
  | relaying device =>
      obtain ⟨now, rfl⟩ := story
      exact Nat.le_refl 1
  | closed => exact story

theorem ClientStory.closed {proved : List (Bytes × AuthClaims)} {proof : Option Bytes}
    {client : ClientPhase} (story : ClientStory proved proof client) : ClientStory proved proof .closed := by
  cases client with
  | connected =>
      rw [story.1]
      exact Nat.zero_le 1
  | proving device =>
      obtain ⟨secret, claims, rfl, _⟩ := story
      exact Nat.le_refl 1
  | relaying device =>
      obtain ⟨secret, claims, rfl, _⟩ := story
      exact Nat.le_refl 1
  | closed => exact story

/-! ### The verification -/

/-- A client of this program is accepted as the device whose claims it proved. -/
theorem Authenticated.own_device (reached : Authenticated endpoint honest past observed relays)
    (isConnection : relays.connections[number]? = some connection) {proof : Bytes}
    (isProof : connection.proof = some proof) (isOwn : connection.own = true)
    {secret value : Bytes} {claims : AuthClaims}
    (genuine : Genuine endpoint.blake proof secret value claims) :
    ∃ provedSecret,
      observed.filterMap (RelayObservation.proved? number) = [(provedSecret, claims)] := by
  have story := reached.stories number connection isConnection
  obtain ⟨provedSecret, proved, provedValue, isProved, fits, made⟩ :=
    story.made isOwn proof isProof
  refine ⟨provedSecret, ?_⟩
  rw [isProved, claims_of_makeEnvelope genuine fits made]

/-- What is accepted as an honest device was proved on this connection with the secret of the
device: some client has asked for its hash, the exporter in the message tells the connection, and
the key tells the secret. -/
theorem Authenticated.proved_of_genuine
    (reached : Authenticated endpoint honest past observed relays) {events : List RelayEvent}
    (sound : Sound endpoint honest events) (isPast : past <+: events)
    (isConnection : relays.connections[number]? = some connection) {proof : Bytes}
    (isProof : connection.proof = some proof) {secret value : Bytes} {claims : AuthClaims}
    (isHonest : honest claims.deviceId)
    (isSecret : endpoint.keys.lookup claims.deviceId = some secret)
    (isValue : endpoint.exporter number claims.nonce = some value)
    (genuine : Genuine endpoint.blake proof secret value claims) :
    .proved number secret claims ∈ observed := by
  have story := reached.stories number connection isConnection
  obtain ⟨earlier, event, isPrefix, isSent⟩ := story.sent proof isProof
  obtain ⟨isFront, isNonce, isTag⟩ := genuine.message
  rw [← isNonce] at isValue
  obtain ⟨other, asking, member, asks⟩ := sound.unforgeable earlier number event proof
    claims.deviceId secret value (isPrefix.trans isPast) isSent isHonest isSecret isValue isTag
  obtain ⟨provedSecret, proved, otherValue, made, rfl, isMade, isOther, sameKey, sameMessage⟩ :=
    asks.proves
  have inPast : .connection other (.proves provedSecret proved) ∈ past := isPrefix.subset member
  have inEvents := isPast.subset inPast
  have sameLength : (proof.take prefixLen).length =
      (front proved.val.deviceId proved.val.timestamp proved.val.nonce).length := by
    rw [isFront, length_front _ _ genuine.fits.nonce, length_front _ _ proved.property.nonce]
  obtain ⟨sameFront, rfl⟩ := List.append_inj sameMessage sameLength
  have sameConnection : number = other :=
    sound.distinct number event proof other provedSecret proved value
      (isPast.subset (mem_of_front isPrefix)) isSent inEvents isValue isOther
  have sameSecret : provedSecret = secret :=
    sound.secrets other provedSecret proved claims.deviceId secret inEvents isHonest isSecret
      sameKey.symm
  have madeAlso : proof = makeEnvelope endpoint.blake provedSecret proved.val.deviceId
      proved.val.timestamp proved.val.nonce value := by
    rw [makeEnvelope_eq, ← sameFront, ← sameKey, ← isTag, List.take_append_drop]
  have sameClaims := claims_of_makeEnvelope genuine proved.property madeAlso
  rw [sameConnection, ← sameSecret, ← sameClaims]
  exact reached.proofs other provedSecret proved made inPast isMade

/-- The server takes a proof off the connection. -/
theorem Authenticated.verifies (reached : Authenticated endpoint honest past observed relays)
    {events : List RelayEvent} (sound : Sound endpoint honest events) (isPast : past <+: events)
    (isConnection : relays.connections[number]? = some connection) {now : Nat} {written : Bool}
    {cache : ReplayCache} {after : Connection} {emitted : List RelayObservation}
    (stepped : endpoint.connectionStep relays.cache number connection (.verifies now written) =
      some (cache, after, emitted)) :
    Authenticated endpoint honest (past ++ [.connection number (.verifies now written)])
      (observed ++ emitted) ⟨cache, relays.connections.set number after⟩ := by
  have story := reached.stories number connection isConnection
  have refused : ∀ error, Authenticated endpoint honest
      (past ++ [.connection number (.verifies now written)])
      (observed ++ [.refused number error])
      ⟨cache, relays.connections.set number { connection with server := .closed }⟩ := by
    intro error
    refine reached.phases isConnection nofun (fun _ => rfl) (fun _ => rfl) story.server.closed
      story.client ?_
    intro front item isPrefix
    obtain ⟨rfl, rfl⟩ := front_singleton isPrefix
    trivial
  unfold Endpoint.connectionStep at stepped
  dsimp only at stepped
  split at stepped
  next proof isAccepted isProof =>
    have server := story.server
    rw [isAccepted] at server
    split at stepped
    next =>
      cases stepped
      exact refused none
    next =>
      obtain ⟨⟨next, result⟩, isResult, isNext⟩ := Option.map_eq_some_iff.mp stepped
      cases result with
      | error error =>
          cases isNext
          exact refused (some error)
      | ok device =>
          obtain ⟨secret, value, claims, isDevice, isSecret, isValue, genuine, inWindow⟩ :=
            authenticateServer_ok isResult
          have ownDevice : connection.own = true → ∃ provedSecret,
              observed.filterMap (RelayObservation.proved? number) = [(provedSecret, claims)] :=
            fun isOwn => reached.own_device isConnection isProof isOwn genuine
          have agreed : Agreed endpoint honest observed (.authenticated number device now) := by
            intro isHonest
            rw [← isDevice] at isHonest isSecret ⊢
            exact ⟨secret, claims, isSecret, rfl, reached.proved_of_genuine sound isPast
              isConnection isProof isHonest isSecret isValue genuine, inWindow⟩
          have isSeen : [RelayObservation.authenticated number device now].filterMap
              (RelayObservation.authenticated? number) = [(device, now)] := by
            simp [RelayObservation.authenticated?]
          have unseen : [RelayObservation.authenticated number device now].filterMap
              (RelayObservation.proved? number) = [] := rfl
          have kept : ∀ (server : ServerPhase) (answer : Option Bytes),
              ServerStory [(device, now)] answer server →
              Authenticated endpoint honest
                (past ++ [.connection number (.verifies now written)])
                (observed ++ [.authenticated number device now])
                ⟨cache, relays.connections.set number { connection with server, answer }⟩ := by
            intro phase answer isPhase
            refine reached.moves isConnection nofun ?_ ?_ ?_
            · intro other different
              simp [RelayObservation.proved?, RelayObservation.authenticated?, Ne.symm different]
            · rw [isSeen, unseen, server.1, List.append_nil, List.nil_append]
              have later := story.later [.connection number (.verifies now written)]
              refine ⟨later.client, isPhase, later.made, later.sent, ?_⟩
              intro _ _
              refine ⟨device, now, rfl, ?_⟩
              intro isOwn
              obtain ⟨provedSecret, isProved⟩ := ownDevice isOwn
              exact ⟨provedSecret, claims, isProved, isDevice⟩
            · intro front item isPrefix
              obtain ⟨rfl, rfl⟩ := front_singleton isPrefix
              rw [List.append_nil]
              exact agreed
          dsimp only at isNext
          split at isNext
          next =>
            cases isNext
            exact kept (.relaying device) (some okAnswer) ⟨now, rfl⟩
          next =>
            cases isNext
            exact kept .closed connection.answer (Nat.le_refl 1)
  next => cases stepped

/-- The client reads the answer. -/
theorem Authenticated.answered (reached : Authenticated endpoint honest past observed relays)
    (isConnection : relays.connections[number]? = some connection)
    {cache : ReplayCache} {after : Connection} {emitted : List RelayObservation}
    (stepped : endpoint.connectionStep relays.cache number connection .answered =
      some (cache, after, emitted)) :
    Authenticated endpoint honest (past ++ [.connection number .answered])
      (observed ++ emitted) ⟨cache, relays.connections.set number after⟩ := by
  have story := reached.stories number connection isConnection
  unfold Endpoint.connectionStep at stepped
  dsimp only at stepped
  split at stepped
  next device answer isProving isAnswer =>
    have client := story.client
    rw [isProving] at client
    have isOwn : connection.own = true := by
      by_contra notOwn
      rw [if_neg notOwn] at client
      cases client.2
    rw [if_pos isOwn] at client
    split at stepped
    next =>
      cases stepped
      refine reached.phases isConnection nofun (fun _ => rfl) (fun _ => rfl) story.server ?_ ?_
      · rw [if_pos isOwn]
        exact client
      · intro front item isPrefix
        obtain ⟨rfl, rfl⟩ := front_singleton isPrefix
        rw [List.append_nil]
        obtain ⟨found, now, isFound, agrees⟩ := story.answered answer isAnswer
        obtain ⟨secret, claims, isProved, isDevice⟩ := agrees isOwn
        obtain ⟨provedSecret, proved, isClaims, sameDevice⟩ := client
        rw [isProved] at isClaims
        cases isClaims
        rw [← isDevice, sameDevice] at isFound
        exact ⟨now, mem_of_filterMap_authenticated isFound⟩
    next =>
      cases stepped
      refine reached.phases isConnection nofun (fun _ => rfl) (fun _ => rfl) story.server ?_
        (fun front item isPrefix => absurd (List.prefix_nil.mp isPrefix) (by simp))
      rw [if_pos isOwn]
      exact ClientStory.closed client
  next => cases stepped

/-! ### The runs -/

/-- Every event keeps it. -/
theorem Authenticated.step (reached : Authenticated endpoint honest past observed relays)
    {events : List RelayEvent} (sound : Sound endpoint honest events) (isPast : past <+: events)
    {event : RelayEvent} {next : Relays} {emitted : List RelayObservation}
    (stepped : endpoint.step relays event = some (next, emitted)) :
    Authenticated endpoint honest (past ++ [event]) (observed ++ emitted) next := by
  cases event with
  | connects own =>
      cases stepped
      rw [List.append_nil]
      refine ⟨?_, ?_, ?_, reached.agreed⟩
      · intro number connection isConnection
        rcases getElem?_snoc isConnection with old | ⟨rfl, rfl⟩
        · exact (reached.stories number connection old).later _
        · obtain ⟨noProof, noDevice⟩ := reached.fresh _ (Nat.le_refl _)
          rw [noProof, noDevice]
          refine ⟨?_, ⟨rfl, rfl⟩, nofun, nofun, nofun⟩
          cases own <;> exact ⟨rfl, rfl⟩
      · intro number beyond
        rw [List.length_append, List.length_singleton] at beyond
        exact reached.fresh number (Nat.le_of_succ_le beyond)
      · intro number secret claims proof member isProof
        rcases List.mem_append.mp member with old | new
        · exact reached.proofs number secret claims proof old isProof
        · cases List.mem_singleton.mp new
  | connection number event =>
      obtain ⟨connection, isConnection, stepped⟩ := Option.bind_eq_some_iff.mp stepped
      obtain ⟨⟨cache, after, seen⟩, stepped, isNext⟩ := Option.map_eq_some_iff.mp stepped
      cases isNext
      have story := reached.stories number connection isConnection
      cases event with
      | proves secret claims => exact reached.proves isConnection stepped
      | sends bytes => exact reached.sends isConnection stepped
      | verifies now written => exact reached.verifies sound isPast isConnection stepped
      | answered => exact reached.answered isConnection stepped
      | clientFails =>
          unfold Endpoint.connectionStep at stepped
          dsimp only at stepped
          split at stepped
          next isOwn =>
            cases stepped
            have client := story.client
            rw [if_pos isOwn] at client
            refine reached.phases isConnection nofun (fun _ => rfl) (fun _ => rfl) story.server ?_
              (fun front item isPrefix => absurd (List.prefix_nil.mp isPrefix) (by simp))
            rw [if_pos isOwn]
            exact client.closed
          next => cases stepped
      | serverFails =>
          cases stepped
          exact reached.phases isConnection nofun (fun _ => rfl) (fun _ => rfl)
            story.server.closed story.client
            (fun front item isPrefix => absurd (List.prefix_nil.mp isPrefix) (by simp))

theorem Authenticated.start (endpoint : Endpoint) (honest : Nat → Prop) (cache : ReplayCache) :
    Authenticated endpoint honest [] [] (Relays.start cache) where
  stories := fun number connection isConnection => by cases isConnection
  fresh := fun number _ => ⟨rfl, rfl⟩
  proofs := fun number secret claims proof member _ => absurd member List.not_mem_nil
  agreed := fun front item isPrefix => absurd (List.prefix_nil.mp isPrefix) (by simp)

theorem authenticated_of_run {events : List RelayEvent} {cache : ReplayCache}
    (sound : Sound endpoint honest events)
    (ran : run endpoint.step (Relays.start cache) events = some (relays, observed)) :
    Authenticated endpoint honest events observed relays := by
  refine run_invariant ran (fun past observed relays =>
    Authenticated endpoint honest past observed relays) (.start endpoint honest cache) ?_
  intro past event observed relays next emitted isPrefix _ stepped reached
  exact reached.step sound ((List.prefix_append _ _).trans isPrefix) stepped

/-- In any run of any number of connections: a connection that is authenticated as an honest
device has a client at its end which proved this on it, with the secret of the device and within
the window of the server's clock; a client relays only on a connection that the server has
authenticated as its device, and the server only on one it has authenticated; and each end
authenticates at most once on a connection. -/
theorem authentication_agreement (endpoint : Endpoint) (honest : Nat → Prop) (cache : ReplayCache)
    (events : List RelayEvent) (sound : Sound endpoint honest events) (relays : Relays)
    (observed : List RelayObservation)
    (ran : run endpoint.step (Relays.start cache) events = some (relays, observed)) :
    (∀ front number device now, front ++ [.authenticated number device now] <+: observed →
      honest device → ∃ secret claims, endpoint.keys.lookup device = some secret ∧
        claims.deviceId = device ∧ .proved number secret claims ∈ front ∧
        absDiff now claims.timestamp ≤ defaultAuthWindowSecs) ∧
    (∀ front number device, front ++ [.relays number device] <+: observed →
      ∃ now, .authenticated number device now ∈ front) ∧
    (∀ number connection device, relays.connections[number]? = some connection →
      connection.server = .relaying device →
        ∃ now, .authenticated number device now ∈ observed) ∧
    ∀ number, (observed.filterMap (RelayObservation.authenticated? number)).length ≤ 1 ∧
      (observed.filterMap (RelayObservation.proved? number)).length ≤ 1 := by
  have reached := authenticated_of_run sound ran
  refine ⟨?_, ?_, ?_, ?_⟩
  · intro front number device now isPrefix
    exact reached.agreed front _ isPrefix
  · intro front number device isPrefix
    exact reached.agreed front _ isPrefix
  · intro number connection device isConnection isRelaying
    have server := (reached.stories number connection isConnection).server
    rw [isRelaying] at server
    obtain ⟨now, isDevice⟩ := server
    exact ⟨now, mem_of_filterMap_authenticated isDevice⟩
  · intro number
    cases isConnection : relays.connections[number]? with
    | none =>
        obtain ⟨noProof, noDevice⟩ := reached.fresh number (List.getElem?_eq_none_iff.mp isConnection)
        rw [noProof, noDevice]
        exact ⟨Nat.zero_le 1, Nat.zero_le 1⟩
    | some connection =>
        have story := reached.stories number connection isConnection
        refine ⟨story.server.closed, ?_⟩
        have client := story.client
        split at client
        next => exact client.closed
        next =>
          rw [client.1]
          exact Nat.zero_le 1

end Run

/-! ### A client and a stranger -/

/-- The server of device 7, with two connections. -/
def sampleEndpoint : Endpoint where
  blake := sampleBlake
  keys := (∅ : Table Nat Bytes).insert 7 sampleSecret
  exporter := fun number _ =>
    match number with
    | 0 => some (List.replicate 32 7)
    | 1 => some (List.replicate 32 8)
    | _ => none

def sampleClaims : { claims : AuthClaims // claims.Fits } :=
  ⟨⟨7, 1000, List.replicate 16 1⟩, ⟨by decide, by decide, rfl⟩⟩

/-- What the device sends on the first connection. -/
def sampleProof : Bytes :=
  makeEnvelope sampleBlake sampleSecret 7 1000 (List.replicate 16 1) (List.replicate 32 7)

/-- The device proves itself on the first connection, and a stranger repeats the proof on the
second, where it comes first. -/
def strangerBeside : List RelayEvent :=
  [.connects true, .connects false, .connection 0 (.proves sampleSecret sampleClaims),
    .connection 1 (.sends sampleProof), .connection 1 (.verifies 1001 true),
    .connection 0 (.verifies 1005 true), .connection 0 .answered]

theorem sent_strangerBeside {number : Nat} {event : ConnectionEvent} {bytes : Bytes}
    (member : .connection number event ∈ strangerBeside)
    (isSent : sampleEndpoint.sent? number event = some bytes) :
    bytes = sampleProof ∧ (number = 0 ∧ event = .proves sampleSecret sampleClaims ∨
      number = 1 ∧ event = .sends sampleProof) := by
  simp only [strangerBeside, List.mem_cons, List.not_mem_nil, or_false, reduceCtorEq,
    RelayEvent.connection.injEq, false_or] at member
  rcases member with ⟨rfl, rfl⟩ | ⟨rfl, rfl⟩ | ⟨rfl, rfl⟩ | ⟨rfl, rfl⟩ | ⟨rfl, rfl⟩
  · have isProof : sampleEndpoint.sent? 0 (.proves sampleSecret sampleClaims) =
        some sampleProof := rfl
    cases isProof.symm.trans isSent
    exact ⟨rfl, Or.inl ⟨rfl, rfl⟩⟩
  · cases isSent
    exact ⟨rfl, Or.inr ⟨rfl, rfl⟩⟩
  · cases isSent
  · cases isSent
  · cases isSent

theorem proves_strangerBeside {number : Nat} {secret : Bytes}
    {claims : { claims : AuthClaims // claims.Fits }}
    (member : .connection number (.proves secret claims) ∈ strangerBeside) :
    number = 0 ∧ secret = sampleSecret ∧ claims = sampleClaims := by
  simpa [strangerBeside] using member

theorem sound_strangerBeside : Sound sampleEndpoint (fun _ => True) strangerBeside where
  distinct := by
    intro number event bytes other secret claims value member isSent isClient isOne isOther
    obtain ⟨rfl, _, _⟩ := proves_strangerBeside isClient
    cases isOther
    rcases (sent_strangerBeside member isSent).2 with ⟨isFirst, _⟩ | ⟨isSecond, _⟩
    · exact isFirst
    · rw [isSecond] at isOne
      cases isOne
  secrets := by
    intro number secret claims device held isClient _ isHeld _
    obtain ⟨_, isSecret, _⟩ := proves_strangerBeside isClient
    rcases Table.of_lookup_insert isHeld with ⟨_, isSample⟩ | ⟨_, nothing⟩
    · exact isSecret.trans isSample.symm
    · cases nothing
  unforgeable := by
    intro earlier number event bytes device secret value isPrefix isSent _ isHeld isValue isTag
    have isSecret : secret = sampleSecret := by
      rcases Table.of_lookup_insert isHeld with ⟨_, isSample⟩ | ⟨_, nothing⟩
      · exact isSample
      · cases nothing
    obtain ⟨rfl, ⟨rfl, rfl⟩ | ⟨rfl, rfl⟩⟩ := sent_strangerBeside (mem_of_front isPrefix) isSent
    · cases isValue
      rw [isSecret]
      exact ⟨0, .proves sampleSecret sampleClaims, List.mem_concat_self, List.replicate 32 0, rfl,
        by decide +kernel⟩
    · -- The proof ends in the hash for the exporter of the first connection.
      cases isValue
      rw [isSecret] at isTag
      exact absurd isTag (by decide +kernel)

theorem authentication_agreement_stranger :
    ∃ relays observed,
      run sampleEndpoint.step (Relays.start ⟨8, ∅, []⟩) strangerBeside = some (relays, observed) ∧
      observed = [.proved 0 sampleSecret sampleClaims.val,
        .refused 1 (some (.auth .invalidProof)), .authenticated 0 7 1005, .relays 0 7] ∧
      ∃ secret claims, sampleEndpoint.keys.lookup 7 = some secret ∧ claims.deviceId = 7 ∧
        .proved 0 secret claims ∈ observed.take 2 ∧
        absDiff 1005 claims.timestamp ≤ defaultAuthWindowSecs := by
  refine ⟨_, _, rfl, by decide +kernel, ?_⟩
  have agreement := authentication_agreement sampleEndpoint (fun _ => True) ⟨8, ∅, []⟩
    strangerBeside sound_strangerBeside _ _ rfl
  exact agreement.1 _ 0 7 1005 ⟨[.relays 0 7], by decide +kernel⟩ trivial

end SmartFecTunnel.Auth
