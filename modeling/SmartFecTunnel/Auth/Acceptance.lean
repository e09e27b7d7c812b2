import SmartFecTunnel.Auth.Envelope

/-!
Contract: what `verify_envelope` accepts (`src/quic_auth.rs`), and the part of
`authenticate_server` around it (`src/quic_relay.rs`).

Owns:
- `Genuine`, the envelopes made for a secret and an exporter, by their claims;
- acceptance is genuineness, freshness and the replay check, nothing else;
- an envelope that fails any check but the last leaves the replay cache alone;
- `authenticateServer` never reads outside an envelope whose device id was read.

Does not own: the replay check, and what the TLS exporter of a connection is.
-/

namespace SmartFecTunnel.Auth

open SmartFecTunnel.Library

/-- The claims have the widths of their source types. -/
structure AuthClaims.Fits (claims : AuthClaims) : Prop where
  deviceId : claims.deviceId < 256 ^ 8
  timestamp : claims.timestamp < 256 ^ 8
  nonce : claims.nonce.length = 16

/-- The bytes are the envelope `make_envelope` makes for these claims. -/
structure Genuine (blake : Blake3) (envelope secret tlsExporter : Bytes)
    (claims : AuthClaims) : Prop where
  fits : claims.Fits
  nonzero : claims.deviceId ≠ 0
  made : envelope = makeEnvelope blake secret claims.deviceId claims.timestamp claims.nonce
    tlsExporter

/-! ### The layout -/

/-- The bytes before the keyed hash. -/
def front (deviceId timestamp : Nat) (nonce : Bytes) : Bytes :=
  magic ++ ([version] ++ (pack [(8, deviceId), (8, timestamp)] ++ nonce))

theorem length_front (deviceId timestamp : Nat) {nonce : Bytes} (isNonce : nonce.length = 16) :
    (front deviceId timestamp nonce).length = prefixLen := by
  simp [front, magic, prefixLen, width, isNonce]

theorem makeEnvelope_eq (blake : Blake3) (secret : Bytes) (deviceId timestamp : Nat)
    (nonce tlsExporter : Bytes) :
    makeEnvelope blake secret deviceId timestamp nonce tlsExporter =
      front deviceId timestamp nonce ++
        blake.keyed (deviceKey blake secret) (front deviceId timestamp nonce ++ tlsExporter) := by
  simp [makeEnvelope, front, pack]

/-- The proof of an envelope starts where its front ends. -/
theorem drop_makeEnvelope (blake : Blake3) (secret : Bytes) (deviceId timestamp : Nat)
    {nonce : Bytes} (isNonce : nonce.length = 16) (tlsExporter : Bytes) :
    (makeEnvelope blake secret deviceId timestamp nonce tlsExporter).drop prefixLen =
      blake.keyed (deviceKey blake secret) (front deviceId timestamp nonce ++ tlsExporter) := by
  rw [makeEnvelope_eq, List.drop_left' (length_front deviceId timestamp isNonce)]

theorem WellMarked.length_nonce {envelope : Bytes} (marked : WellMarked envelope) :
    (field envelope 21 37).length = 16 :=
  length_field (by rw [marked.1]; decide)

/-- The front is read back from the fields of an envelope. -/
theorem WellMarked.front_eq {envelope : Bytes} (marked : WellMarked envelope) :
    front (number envelope 5 13) (number envelope 13 21) (field envelope 21 37) =
      envelope.take prefixLen := by
  obtain ⟨isLength, isMagic, isVersion⟩ := marked
  have long : envelope.length = 69 := isLength
  have first : magic = field envelope 0 4 := by simp [field, isMagic]
  have second : [version] = field envelope 4 5 := by
    have within : 4 < envelope.length := by omega
    rw [List.getElem?_eq_getElem within, Option.some.injEq] at isVersion
    rw [field, List.drop_take, List.drop_eq_getElem_cons within, isVersion]
    rfl
  have third : pack [(8, number envelope 5 13), (8, number envelope 13 21)] =
      field envelope 5 21 :=
    pack_unpack 5 [8, 8] (by rw [long]; decide)
  rw [front, first, second, third, field_append_field (by omega) (by omega) (by omega),
    field_append_field (by omega) (by omega) (by omega),
    field_append_field (by omega) (by omega) (by omega)]
  rfl

theorem length_makeEnvelope (blake : Blake3) (secret : Bytes) (deviceId timestamp : Nat)
    {nonce : Bytes} (isNonce : nonce.length = 16) (tlsExporter : Bytes) :
    (makeEnvelope blake secret deviceId timestamp nonce tlsExporter).length = envelopeLen := by
  rw [makeEnvelope_eq, List.length_append, length_front deviceId timestamp isNonce,
    blake.keyed_length]
  rfl

theorem wellMarked_makeEnvelope (blake : Blake3) (secret : Bytes) (deviceId timestamp : Nat)
    {nonce : Bytes} (isNonce : nonce.length = 16) (tlsExporter : Bytes) :
    WellMarked (makeEnvelope blake secret deviceId timestamp nonce tlsExporter) := by
  refine ⟨length_makeEnvelope blake secret deviceId timestamp isNonce tlsExporter, ?_, ?_⟩
  · rw [makeEnvelope_eq, front, List.append_assoc]
    exact List.take_left' rfl
  · rw [makeEnvelope_eq, front, List.append_assoc, List.append_assoc]
    rfl

/-- The fields of a made envelope are what it was made of. -/
theorem fields_makeEnvelope (blake : Blake3) (secret : Bytes) {claims : AuthClaims}
    (fits : claims.Fits) (tlsExporter : Bytes) :
    let envelope := makeEnvelope blake secret claims.deviceId claims.timestamp claims.nonce
      tlsExporter
    claims.deviceId = number envelope 5 13 ∧ claims.timestamp = number envelope 13 21 ∧
      claims.nonce = field envelope 21 37 := by
  intro envelope
  have isEnvelope : envelope = makeEnvelope blake secret claims.deviceId claims.timestamp
      claims.nonce tlsExporter := rfl
  rw [makeEnvelope_eq] at isEnvelope
  generalize blake.keyed _ _ = proof at isEnvelope
  -- The device id and the timestamp are fields of one packed block behind the marks.
  have packed : envelope = pack [(5, fromBeBytes (magic ++ [version])), (8, claims.deviceId),
      (8, claims.timestamp)] ++ (claims.nonce ++ proof) := by
    rw [isEnvelope, front]
    simp [pack, magic, version, toBeBytes, fromBeBytes]
  refine ⟨?_, ?_, ?_⟩
  · rw [packed]
    exact (number_pack 1 rfl fits.deviceId rfl rfl _).symm
  · rw [packed]
    exact (number_pack 2 rfl fits.timestamp rfl rfl _).symm
  · rw [packed, field_block _ _ _ (by simp [width]) (by simp [width, fits.nonce])]

/-! ### Acceptance -/

/-- Passing the checks that do not depend on the time is being genuine. -/
theorem authentic_iff_genuine {blake : Blake3} {envelope secret tlsExporter : Bytes}
    {claims : AuthClaims} :
    Authentic blake envelope secret tlsExporter claims ↔
      Genuine blake envelope secret tlsExporter claims := by
  constructor
  · intro authentic
    have isNonce : claims.nonce.length = 16 := by
      rw [authentic.nonce]
      exact authentic.marked.length_nonce
    have long : envelope.length = 69 := authentic.marked.1
    have numberLt : ∀ {start stop}, stop = start + 8 → stop ≤ 69 →
        number envelope start stop < 256 ^ 8 := by
      intro start stop isStop within
      have below := fromBeBytes_lt (field envelope start stop)
      rw [length_field (by omega), isStop, Nat.add_sub_cancel_left] at below
      rw [isStop]
      exact below
    refine ⟨⟨?_, ?_, isNonce⟩, authentic.nonzero, ?_⟩
    · rw [authentic.device]
      exact numberLt rfl (by omega)
    · rw [authentic.timestamp]
      exact numberLt rfl (by omega)
    · have isFront := authentic.marked.front_eq
      rw [← authentic.device, ← authentic.timestamp, ← authentic.nonce] at isFront
      have isProof := authentic.proof
      rw [drop_makeEnvelope _ _ _ _ isNonce] at isProof
      rw [makeEnvelope_eq, isProof, isFront, List.take_append_drop]
  · intro genuine
    obtain ⟨device, timestamp, nonce⟩ := fields_makeEnvelope blake secret genuine.fits tlsExporter
    rw [← genuine.made] at device timestamp nonce
    have marked := wellMarked_makeEnvelope blake secret claims.deviceId claims.timestamp
      genuine.fits.nonce tlsExporter
    rw [← genuine.made] at marked
    exact ⟨marked, device, genuine.nonzero, timestamp, nonce, by rw [← genuine.made]⟩

theorem verifyEnvelope_ok_iff {blake : Blake3} {envelope secret tlsExporter : Bytes}
    {now window : Nat} {cache : ReplayCache} {claims : AuthClaims} :
    (verifyEnvelope blake envelope secret tlsExporter now window cache).2 = .ok claims ↔
      authenticate blake envelope secret tlsExporter now window = .ok claims ∧
        (cache.checkAndInsert claims.nonce now window).2 = true := by
  unfold verifyEnvelope
  cases authenticate blake envelope secret tlsExporter now window with
  | error => simp
  | ok found =>
    by_cases admitted : (cache.checkAndInsert found.nonce now window).2 = true
    · simp only [admitted, ↓reduceIte, Except.ok.injEq]
      exact ⟨fun same => ⟨same, same ▸ admitted⟩, And.left⟩
    · simp only [admitted, Bool.false_eq_true, ↓reduceIte, reduceCtorEq, Except.ok.injEq, false_iff,
        not_and]
      exact fun same checked => admitted (same ▸ checked)

/-- Every rejection but the replay comes before the replay check. -/
theorem cache_of_error {blake : Blake3} {envelope secret tlsExporter : Bytes}
    {now window : Nat} {cache : ReplayCache} {error : AuthError}
    (rejected : (verifyEnvelope blake envelope secret tlsExporter now window cache).2 =
      .error error) (notReplay : error ≠ .replayed) :
    (verifyEnvelope blake envelope secret tlsExporter now window cache).1 = cache := by
  unfold verifyEnvelope at rejected ⊢
  cases authenticated : authenticate blake envelope secret tlsExporter now window with
  | error => rfl
  | ok found =>
    rw [authenticated] at rejected
    by_cases admitted : (cache.checkAndInsert found.nonce now window).2 = true
    · simp [admitted] at rejected
    · simp only [admitted, Bool.false_eq_true, ↓reduceIte, Except.error.injEq] at rejected
      exact absurd rejected.symm notReplay

/-- Bytes that are no envelope of this secret and exporter never reach the cache. -/
theorem cache_of_not_genuine {blake : Blake3} {envelope secret tlsExporter : Bytes}
    (forged : ∀ claims, ¬ Genuine blake envelope secret tlsExporter claims)
    (now window : Nat) (cache : ReplayCache) :
    (verifyEnvelope blake envelope secret tlsExporter now window cache).1 = cache := by
  unfold verifyEnvelope
  cases authenticated : authenticate blake envelope secret tlsExporter now window with
  | error => rfl
  | ok found =>
    have authentic := (authenticate_ok_iff.mp authenticated).1
    exact absurd (authentic_iff_genuine.mp authentic) (forged found)

/-! ### The server -/

def defaultAuthWindowSecs : Nat := 30

inductive ServerError where
  | auth (error : AuthError)
  | unknownDevice
  | exporter
deriving DecidableEq, Repr

/-- `proof[21..37].try_into().unwrap()`; `none` is the panic. -/
def proofNonce (proof : Bytes) : Option Bytes :=
  match slice? proof 21 37 with
  | none => none
  | some nonce => if nonce.length = 16 then some nonce else none

/-- `authenticate_server` from the proof on: `exporter` is the connection's key
export for a nonce, which can fail, and `now` the Unix time.  `none` is a panic. -/
def authenticateServer (blake : Blake3) (keys : Table Nat Bytes)
    (exporter : Bytes → Option Bytes) (now : Nat) (cache : ReplayCache) (proof : Bytes) :
    Option (ReplayCache × Except ServerError Nat) :=
  match envelopeDeviceId proof with
  | .error error => some (cache, .error (.auth error))
  | .ok deviceId =>
    match keys.lookup deviceId with
    | none => some (cache, .error .unknownDevice)
    | some secret =>
      match proofNonce proof with
      | none => none
      | some nonce =>
        match exporter nonce with
        | none => some (cache, .error .exporter)
        | some tlsExporter =>
          let verified :=
            verifyEnvelope blake proof secret tlsExporter now defaultAuthWindowSecs cache
          match verified.2 with
          | .error error => some (verified.1, .error (.auth error))
          | .ok _ => some (verified.1, .ok deviceId)

theorem wellMarked_of_deviceId {envelope : Bytes} {deviceId : Nat}
    (isDevice : envelopeDeviceId envelope = .ok deviceId) : WellMarked envelope := by
  by_contra unmarked
  simp [envelopeDeviceId, unmarked] at isDevice

theorem proofNonce_of_deviceId {envelope : Bytes} {deviceId : Nat}
    (isDevice : envelopeDeviceId envelope = .ok deviceId) :
    proofNonce envelope = some (field envelope 21 37) := by
  have marked := wellMarked_of_deviceId isDevice
  have within : 37 ≤ envelope.length := by
    rw [marked.1]
    decide
  unfold proofNonce
  rw [slice?_of_le (by decide) within]
  exact if_pos marked.length_nonce

/-- The server never panics on what a client sends as its proof. -/
theorem authenticateServer_total (blake : Blake3) (keys : Table Nat Bytes)
    (exporter : Bytes → Option Bytes) (now : Nat) (cache : ReplayCache) (proof : Bytes) :
    (authenticateServer blake keys exporter now cache proof).isSome = true := by
  unfold authenticateServer
  cases isDevice : envelopeDeviceId proof with
  | error => rfl
  | ok deviceId =>
    dsimp only
    rw [proofNonce_of_deviceId isDevice]
    grind

/-- Exactly the genuine, fresh and new envelopes are accepted; every rejection
but that of a replay leaves the cache as it was; and the server can slice the
nonce out of every envelope whose device id it could read. -/
theorem accepts_exactly_genuine (blake : Blake3) (envelope secret tlsExporter : Bytes)
    (now window : Nat) (cache : ReplayCache) :
    (∀ claims,
      (verifyEnvelope blake envelope secret tlsExporter now window cache).2 = .ok claims ↔
        Genuine blake envelope secret tlsExporter claims ∧
          absDiff now claims.timestamp ≤ window ∧
          (cache.checkAndInsert claims.nonce now window).2 = true) ∧
      (∀ error,
        (verifyEnvelope blake envelope secret tlsExporter now window cache).2 = .error error →
          error ≠ .replayed →
          (verifyEnvelope blake envelope secret tlsExporter now window cache).1 = cache) ∧
      ((∀ claims, ¬ Genuine blake envelope secret tlsExporter claims) →
        (verifyEnvelope blake envelope secret tlsExporter now window cache).1 = cache) ∧
      (∀ deviceId, envelopeDeviceId envelope = .ok deviceId →
        (proofNonce envelope).isSome = true) ∧
      ∀ (keys : Table Nat Bytes) (exporter : Bytes → Option Bytes),
        (authenticateServer blake keys exporter now cache envelope).isSome = true := by
  refine ⟨?_, ?_, ?_, ?_, ?_⟩
  · intro claims
    rw [verifyEnvelope_ok_iff, authenticate_ok_iff, authentic_iff_genuine, and_assoc]
  · intro error rejected notReplay
    exact cache_of_error rejected notReplay
  · intro forged
    exact cache_of_not_genuine forged now window cache
  · intro deviceId isDevice
    rw [proofNonce_of_deviceId isDevice]
    rfl
  · intro keys exporter
    exact authenticateServer_total blake keys exporter now cache envelope

end SmartFecTunnel.Auth
