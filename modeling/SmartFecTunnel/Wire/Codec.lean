import SmartFecTunnel.Library.Crypto
import SmartFecTunnel.Library.Layout
import SmartFecTunnel.Library.Table
import SmartFecTunnel.Fec.Frame

/-!
Contract: frames on the wire (`Frame::encode`, `Frame::decode`,
`Frame::encode_wire`, `Frame::decode_v3`, `v3_selector_prefix`,
`decode_client_frame` and `decode_server_frame` in `src/main.rs`).

A version 3 datagram is a four-byte selector of the device, four random bytes, a
nonce and the sealed frame.  Versions 1 and 2 are in the clear with a keyed hash
at the end; the server refuses them.

Owns:
- that a sealed frame is opened as the frame it was;
- that a frame opened under version 3 comes from the ciphertext in the datagram
  and nothing else of it;
- the selector table of a keyring.
-/

namespace SmartFecTunnel.Wire

open SmartFecTunnel.Library
open SmartFecTunnel.Fec

/-- The number whose bytes spell `SFEC`. -/
def magic : Nat := 0x53464543
def header : Nat := 36
def headerV2 : Nat := 44
def v3Selector : Nat := 8
def v3SelectorPrefixLen : Nat := 4
def v3Nonce : Nat := 24
def v3InnerHeader : Nat := 31
def tag : Nat := 16

inductive WireError where
  | shortFrame
  | shortV2Frame
  | badProtocolVersion
  | badAuth
  | badProtocol
  | badLength
  | v3EncryptionFailed
  | invalidV3Envelope
  | v3AuthenticationFailed
  | shortV3Payload
  | badV3Length
  | shortV3Envelope
  | unknownV3Selector
  | legacyRemoved
deriving DecidableEq, Repr

def WireError.message : WireError → String
  | .shortFrame => "short frame"
  | .shortV2Frame => "short v2 frame"
  | .badProtocolVersion => "bad protocol version"
  | .badAuth => "bad auth"
  | .badProtocol => "bad protocol"
  | .badLength => "bad length"
  | .v3EncryptionFailed => "v3 encryption failed"
  | .invalidV3Envelope => "invalid v3 envelope"
  | .v3AuthenticationFailed => "v3 authentication failed"
  | .shortV3Payload => "short v3 payload"
  | .badV3Length => "bad v3 length"
  | .shortV3Envelope => "short v3 envelope"
  | .unknownV3Selector => "unknown v3 selector"
  | .legacyRemoved => "legacy V1/V2 protocol removed"

/-! ### Versions 1 and 2 -/

/-- The fields every version has, from the session on. -/
def commonFields (frame : Frame) : List (Nat × Nat) :=
  [(8, frame.session), (8, frame.sequence), (8, frame.group), (2, frame.index), (1, frame.data),
    (1, frame.parity), (2, frame.payload.length)]

def legacyFields (frame : Frame) : List (Nat × Nat) :=
  [(4, magic), (1, frame.version), (1, frame.kind)] ++
    (if frame.version = versionV2 then [(8, frame.keyId)] else []) ++ commonFields frame

def encode (blake : Blake3) (frame : Frame) (key : Bytes) : Bytes :=
  let out := pack (legacyFields frame) ++ frame.payload
  out ++ (blake.keyed key out).take tag

/-- Header length, key id and offset of the common fields, by version. -/
def legacyHeader (buf : Bytes) : Except WireError (Nat × Nat × Nat) :=
  if number buf 4 5 = versionV1 then .ok (header, 0, 6)
  else if number buf 4 5 = versionV2 then
    if buf.length < headerV2 + tag then .error .shortV2Frame
    else .ok (headerV2, number buf 6 14, 14)
  else .error .badProtocolVersion

def decode (blake : Blake3) (buf key : Bytes) : Except WireError Frame :=
  if buf.length < 6 + tag then .error .shortFrame
  else
    match legacyHeader buf with
    | .error error => .error error
    | .ok (headerLen, keyId, offset) =>
      if buf.length < headerLen + tag then .error .shortFrame
      else
        let bodyLen := buf.length - tag
        if (blake.keyed key (buf.take bodyLen)).take tag ≠ buf.drop bodyLen then .error .badAuth
        else if number buf 0 4 ≠ magic then .error .badProtocol
        else
          let payloadLen := number buf (offset + 28) (offset + 30)
          if headerLen + payloadLen + tag ≠ buf.length then .error .badLength
          else
            .ok
              { version := number buf 4 5, keyId, kind := number buf 5 6
                session := number buf offset (offset + 8)
                sequence := number buf (offset + 8) (offset + 16)
                group := number buf (offset + 16) (offset + 24)
                index := number buf (offset + 24) (offset + 26)
                data := number buf (offset + 26) (offset + 27)
                parity := number buf (offset + 27) (offset + 28)
                payload := field buf headerLen (headerLen + payloadLen) }

/-! ### Version 3 -/

/-- The bytes of `smart-fec-v3-selector`. -/
def selectorDomain : Bytes :=
  [115, 109, 97, 114, 116, 45, 102, 101, 99, 45, 118, 51, 45, 115, 101, 108, 101, 99, 116, 111, 114]

def v3SelectorPrefix (blake : Blake3) (keyId : Nat) : Bytes :=
  (blake.hash (selectorDomain ++ toBeBytes 8 keyId)).take v3SelectorPrefixLen

/-- The plaintext of a sealed frame. -/
def inner (frame : Frame) : Bytes :=
  pack ((1, frame.kind) :: commonFields frame) ++ frame.payload

/-- The random bytes of one sealed frame. -/
structure Randomness where
  nonce : Bytes
  suffix : Bytes
  nonce_length : nonce.length = v3Nonce
  suffix_length : suffix.length = v3Selector - v3SelectorPrefixLen

def encodeWire (blake : Blake3) (aead : Aead) (random : Randomness) (frame : Frame) (key : Bytes) :
    Except WireError Bytes :=
  if frame.version ≠ versionV3 then .ok (encode blake frame key)
  else
    match aead.encrypt key random.nonce (inner frame) with
    | none => .error .v3EncryptionFailed
    | some ciphertext =>
      .ok (v3SelectorPrefix blake frame.keyId ++
        (random.suffix ++ (random.nonce ++ ciphertext)))

/-- The nonce of a version 3 datagram. -/
def nonceOf (buf : Bytes) : Bytes := field buf v3Selector (v3Selector + v3Nonce)

/-- The ciphertext of a version 3 datagram. -/
def ciphertextOf (buf : Bytes) : Bytes := buf.drop (v3Selector + v3Nonce)

/-- Read the plaintext of a sealed frame. -/
def parseInner (keyId : Nat) (plain : Bytes) : Except WireError Frame :=
  if plain.length < v3InnerHeader then .error .shortV3Payload
  else if v3InnerHeader + number plain 29 31 ≠ plain.length then .error .badV3Length
  else
    .ok
      { version := versionV3, keyId, kind := number plain 0 1
        session := number plain 1 9, sequence := number plain 9 17, group := number plain 17 25
        index := number plain 25 27, data := number plain 27 28, parity := number plain 28 29
        payload := plain.drop v3InnerHeader }

def decodeV3 (blake : Blake3) (aead : Aead) (buf : Bytes) (keyId : Nat) (key : Bytes) :
    Except WireError Frame :=
  if buf.length < v3Selector + v3Nonce + v3InnerHeader + tag ∨
      buf.take v3SelectorPrefixLen ≠ v3SelectorPrefix blake keyId then .error .invalidV3Envelope
  else
    match aead.decrypt key (nonceOf buf) (ciphertextOf buf) with
    | none => .error .v3AuthenticationFailed
    | some plain => parseInner keyId plain

/-- The datagram begins with the magic number of versions 1 and 2. -/
def StartsWithMagic (buf : Bytes) : Prop := buf.take 4 = toBeBytes 4 magic

instance (buf : Bytes) : Decidable (StartsWithMagic buf) := inferInstanceAs (Decidable (_ = _))

def decodeClientFrame (blake : Blake3) (aead : Aead) (buf : Bytes) (keyId : Nat) (key : Bytes) :
    Except WireError Frame :=
  if StartsWithMagic buf then decode blake buf key else decodeV3 blake aead buf keyId key

/-- Device and key by selector. -/
abbrev Selectors := Table Bytes (Nat × Bytes)

def decodeServerFrame (blake : Blake3) (aead : Aead) (selectors : Selectors) (bytes : Bytes) :
    Except WireError (Frame × Bytes) :=
  if StartsWithMagic bytes then .error .legacyRemoved
  else if bytes.length < v3Selector then .error .shortV3Envelope
  else
    match selectors.lookup (bytes.take v3SelectorPrefixLen) with
    | none => .error .unknownV3Selector
    | some (keyId, selected) =>
      (decodeV3 blake aead bytes keyId selected).map fun frame => (frame, selected)

/-! ### The selector table -/

/-- The start-up loop of the server over the devices of its keyring. -/
def insertSelectors (blake : Blake3) : Selectors → List (Nat × Bytes) → Except String Selectors
  | selectors, [] => .ok selectors
  | selectors, (keyId, deviceKey) :: rest =>
    if v3SelectorPrefix blake keyId ∈ selectors then
      .error "keyring contains a V3 selector collision"
    else insertSelectors blake (selectors.insert (v3SelectorPrefix blake keyId) (keyId, deviceKey)) rest

def selectorTable (blake : Blake3) (keyring : Table Nat Bytes) : Except String Selectors :=
  insertSelectors blake ∅ (keyring.entries.map fun entry => (entry.1, entry.2))

theorem lookup_insertSelectors {blake : Blake3} {selectors table : Selectors}
    {devices : List (Nat × Bytes)} (built : insertSelectors blake selectors devices = .ok table)
    {selector : Bytes} {device : Nat × Bytes} (found : table.lookup selector = some device) :
    selectors.lookup selector = some device ∨ device ∈ devices := by
  induction devices generalizing selectors with
  | nil =>
      cases built
      exact Or.inl found
  | cons first rest inductionHypothesis =>
      obtain ⟨keyId, deviceKey⟩ := first
      unfold insertSelectors at built
      split at built
      next => cases built
      next =>
        rcases inductionHypothesis built with old | inRest
        · rcases Table.of_lookup_insert old with ⟨_, rfl⟩ | ⟨_, older⟩
          · exact Or.inr List.mem_cons_self
          · exact Or.inl older
        · exact Or.inr (List.mem_cons_of_mem _ inRest)

/-- The table names only devices of the keyring, with their keys. -/
theorem lookup_selectorTable {blake : Blake3} {keyring : Table Nat Bytes} {selectors : Selectors}
    (built : selectorTable blake keyring = .ok selectors) {selector : Bytes} {keyId : Nat}
    {key : Bytes} (found : selectors.lookup selector = some (keyId, key)) :
    keyring.lookup keyId = some key := by
  rcases lookup_insertSelectors built found with empty | listed
  · cases empty
  · obtain ⟨entry, member, isDevice⟩ := List.mem_map.mp listed
    cases isDevice
    exact Table.lookup_eq_some_iff.mpr member

/-! ### What opening tells -/

/-- The values of a frame fit their fields. -/
structure Fits (frame : Frame) : Prop where
  kind : frame.kind < 256 ^ 1
  session : frame.session < 256 ^ 8
  sequence : frame.sequence < 256 ^ 8
  group : frame.group < 256 ^ 8
  index : frame.index < 256 ^ 2
  data : frame.data < 256 ^ 1
  parity : frame.parity < 256 ^ 1
  payload : frame.payload.length < 256 ^ 2

theorem parseInner_inner {frame : Frame} (isV3 : frame.version = versionV3) (fits : Fits frame) :
    parseInner frame.keyId (inner frame) = .ok frame := by
  have long : (inner frame).length = v3InnerHeader + frame.payload.length := by
    rw [inner, List.length_append, length_pack]
    rfl
  have kind : number (inner frame) 0 1 = frame.kind := number_pack 0 rfl fits.kind rfl rfl _
  have session : number (inner frame) 1 9 = frame.session :=
    number_pack 1 rfl fits.session rfl rfl _
  have sequence : number (inner frame) 9 17 = frame.sequence :=
    number_pack 2 rfl fits.sequence rfl rfl _
  have group : number (inner frame) 17 25 = frame.group := number_pack 3 rfl fits.group rfl rfl _
  have index : number (inner frame) 25 27 = frame.index := number_pack 4 rfl fits.index rfl rfl _
  have data : number (inner frame) 27 28 = frame.data := number_pack 5 rfl fits.data rfl rfl _
  have parity : number (inner frame) 28 29 = frame.parity :=
    number_pack 6 rfl fits.parity rfl rfl _
  have payloadLen : number (inner frame) 29 31 = frame.payload.length :=
    number_pack 7 rfl fits.payload rfl rfl _
  have payload : (inner frame).drop v3InnerHeader = frame.payload :=
    List.drop_left' (length_pack _)
  unfold parseInner
  rw [if_neg (by omega), payloadLen, if_neg (by omega), kind, session, sequence, group, index, data,
    parity, payload, ← isV3]

theorem parseInner_identity {keyId : Nat} {plain : Bytes} {frame : Frame}
    (parsed : parseInner keyId plain = .ok frame) :
    frame.version = versionV3 ∧ frame.keyId = keyId := by
  unfold parseInner at parsed
  split at parsed
  next => cases parsed
  next =>
    split at parsed
    next => cases parsed
    next =>
      cases parsed
      exact ⟨rfl, rfl⟩

/-- An opened frame is what the ciphertext of the datagram decrypts to. -/
theorem decodeV3_opens {blake : Blake3} {aead : Aead} {buf key : Bytes} {keyId : Nat}
    {frame : Frame} (opened : decodeV3 blake aead buf keyId key = .ok frame) :
    ∃ plain, aead.decrypt key (nonceOf buf) (ciphertextOf buf) = some plain ∧
      parseInner keyId plain = .ok frame := by
  unfold decodeV3 at opened
  split at opened
  next => cases opened
  next =>
    split at opened
    next => cases opened
    next plain decrypted => exact ⟨plain, decrypted, opened⟩

theorem legacyHeader_version {buf : Bytes} {layout : Nat × Nat × Nat}
    (isLegacy : legacyHeader buf = .ok layout) : number buf 4 5 ≠ versionV3 := by
  unfold legacyHeader at isLegacy
  split at isLegacy
  next isV1 =>
    rw [isV1]
    decide
  next =>
    split at isLegacy
    next isV2 =>
      rw [isV2]
      decide
    next => cases isLegacy

/-- The ways `decode` can succeed. -/
theorem decode_ok {blake : Blake3} {buf key : Bytes} {frame : Frame}
    (decoded : decode blake buf key = .ok frame) :
    ∃ headerLen keyId offset, legacyHeader buf = .ok (headerLen, keyId, offset) ∧
      (blake.keyed key (buf.take (buf.length - tag))).take tag = buf.drop (buf.length - tag) ∧
      number buf 0 4 = magic ∧
      headerLen + number buf (offset + 28) (offset + 30) + tag = buf.length ∧
      frame = { version := number buf 4 5, keyId, kind := number buf 5 6
                session := number buf offset (offset + 8)
                sequence := number buf (offset + 8) (offset + 16)
                group := number buf (offset + 16) (offset + 24)
                index := number buf (offset + 24) (offset + 26)
                data := number buf (offset + 26) (offset + 27)
                parity := number buf (offset + 27) (offset + 28)
                payload := field buf headerLen
                  (headerLen + number buf (offset + 28) (offset + 30)) } := by
  unfold decode at decoded
  split at decoded
  next => cases decoded
  next =>
    split at decoded
    next => cases decoded
    next headerLen keyId offset isLegacy =>
      dsimp only at decoded
      split at decoded
      next => cases decoded
      next =>
        split at decoded
        next => cases decoded
        next authentic =>
          split at decoded
          next => cases decoded
          next mark =>
            split at decoded
            next => cases decoded
            next size =>
              cases decoded
              exact ⟨headerLen, keyId, offset, isLegacy, not_not.mp authentic, not_not.mp mark,
                not_not.mp size, rfl⟩

/-- A frame in the clear is of version 1 or 2. -/
theorem decode_version {blake : Blake3} {buf key : Bytes} {frame : Frame}
    (decoded : decode blake buf key = .ok frame) : frame.version ≠ versionV3 := by
  obtain ⟨headerLen, keyId, offset, isLegacy, _, _, _, rfl⟩ := decode_ok decoded
  exact legacyHeader_version isLegacy

/-- A version 3 frame that the client opens was sealed. -/
theorem decodeClientFrame_opens {blake : Blake3} {aead : Aead} {buf key : Bytes} {keyId : Nat}
    {frame : Frame} (decoded : decodeClientFrame blake aead buf keyId key = .ok frame)
    (isV3 : frame.version = versionV3) : decodeV3 blake aead buf keyId key = .ok frame := by
  unfold decodeClientFrame at decoded
  split at decoded
  next => exact absurd isV3 (decode_version decoded)
  next => exact decoded

/-- What the server opens was sealed for a device of the selector table. -/
theorem decodeServerFrame_opens {blake : Blake3} {aead : Aead} {selectors : Selectors}
    {bytes key : Bytes} {frame : Frame}
    (opened : decodeServerFrame blake aead selectors bytes = .ok (frame, key)) :
    selectors.lookup (bytes.take v3SelectorPrefixLen) = some (frame.keyId, key) ∧
      decodeV3 blake aead bytes frame.keyId key = .ok frame ∧ frame.version = versionV3 := by
  unfold decodeServerFrame at opened
  split at opened
  next => cases opened
  next =>
    split at opened
    next => cases opened
    next =>
      split at opened
      next => cases opened
      next keyId selected found =>
        cases isFrame : decodeV3 blake aead bytes keyId selected with
        | error error =>
            rw [isFrame] at opened
            cases opened
        | ok decoded =>
            rw [isFrame] at opened
            cases opened
            obtain ⟨plain, _, parsed⟩ := decodeV3_opens isFrame
            obtain ⟨isV3, isDevice⟩ := parseInner_identity parsed
            rw [isDevice]
            exact ⟨found, isFrame, isV3⟩

/-! ### What sealing produces -/

/-- The datagram carries the nonce and the ciphertext of this frame. -/
def Seals (aead : Aead) (key : Bytes) (frame : Frame) (buf : Bytes) : Prop :=
  aead.encrypt key (nonceOf buf) (inner frame) = some (ciphertextOf buf)

theorem length_v3SelectorPrefix (blake : Blake3) (keyId : Nat) :
    (v3SelectorPrefix blake keyId).length = v3SelectorPrefixLen := by
  rw [v3SelectorPrefix, List.length_take, blake.hash_length]
  rfl

theorem encodeWire_seals {blake : Blake3} {aead : Aead} {random : Randomness} {frame : Frame}
    {key buf : Bytes} (isV3 : frame.version = versionV3)
    (encoded : encodeWire blake aead random frame key = .ok buf) : Seals aead key frame buf := by
  unfold encodeWire at encoded
  rw [if_neg (not_not.mpr isV3)] at encoded
  split at encoded
  next => cases encoded
  next ciphertext encrypted =>
    have selector : (v3SelectorPrefix blake frame.keyId ++ random.suffix).length = v3Selector := by
      rw [List.length_append, length_v3SelectorPrefix, random.suffix_length]
      rfl
    cases encoded
    unfold Seals
    rw [← List.append_assoc]
    have isNonce : nonceOf ((v3SelectorPrefix blake frame.keyId ++ random.suffix) ++
        (random.nonce ++ ciphertext)) = random.nonce :=
      field_block _ _ _ selector.symm (by rw [selector, random.nonce_length])
    have isCiphertext : ciphertextOf ((v3SelectorPrefix blake frame.keyId ++ random.suffix) ++
        (random.nonce ++ ciphertext)) = ciphertext := by
      unfold ciphertextOf
      rw [← List.append_assoc]
      exact List.drop_left' (by rw [List.length_append, selector, random.nonce_length])
    rw [isNonce, isCiphertext]
    exact encrypted

/-- A datagram with the nonce and the ciphertext of a sealed frame opens as that
frame or not at all. -/
theorem Seals.opens {blake : Blake3} {aead : Aead} {frame opened : Frame} {key sent buf : Bytes}
    (isSealed : Seals aead key frame sent) (isV3 : frame.version = versionV3) (fits : Fits frame)
    (sameNonce : nonceOf buf = nonceOf sent) (sameCiphertext : ciphertextOf buf = ciphertextOf sent)
    (isOpened : decodeV3 blake aead buf frame.keyId key = .ok opened) : opened = frame := by
  obtain ⟨plain, decrypted, parsed⟩ := decodeV3_opens isOpened
  have isPlain := aead.decrypt_encrypt _ _ _ _ isSealed
  rw [sameNonce, sameCiphertext, isPlain] at decrypted
  cases decrypted
  rw [parseInner_inner isV3 fits] at parsed
  cases parsed
  rfl

end SmartFecTunnel.Wire
