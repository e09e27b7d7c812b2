import SmartFecTunnel.Wire.Codec

/-!
Contract: the frame codecs are exact inverses.

The decoders of `Codec` read fixed ranges of a buffer whose length was checked
before.  Here they are written once more with every range checked where it is
read, as the source's slices are.

Owns:
- `decodeChecked` and `decodeV3Checked`, and that no range is out of bounds;
- decoding after encoding for every frame that fits its fields;
- encoding after decoding for every byte string that is accepted.

Does not own: the choice between the formats by the first bytes of a datagram.
-/

namespace SmartFecTunnel.Wire

open SmartFecTunnel.Library
open SmartFecTunnel.Fec

/-! ### Reads with their bounds checks -/

/-- `legacyHeader` with checked reads. -/
def legacyHeaderChecked (buf : Bytes) : Option (Except WireError (Nat × Nat × Nat)) := do
  let version ← number? buf 4 5
  if version = versionV1 then some (.ok (header, 0, 6))
  else if version = versionV2 then
    if buf.length < headerV2 + tag then some (.error .shortV2Frame)
    else do
      let keyId ← number? buf 6 14
      some (.ok (headerV2, keyId, 14))
  else some (.error .badProtocolVersion)

/-- The frame behind a header whose authentication was checked. -/
def legacyBodyChecked (buf : Bytes) (headerLen keyId offset : Nat) :
    Option (Except WireError Frame) := do
  let payloadLen ← number? buf (offset + 28) (offset + 30)
  if headerLen + payloadLen + tag ≠ buf.length then some (.error .badLength)
  else do
    let version ← number? buf 4 5
    let kind ← number? buf 5 6
    let session ← number? buf offset (offset + 8)
    let sequence ← number? buf (offset + 8) (offset + 16)
    let group ← number? buf (offset + 16) (offset + 24)
    let index ← number? buf (offset + 24) (offset + 26)
    let data ← number? buf (offset + 26) (offset + 27)
    let parity ← number? buf (offset + 27) (offset + 28)
    let payload ← slice? buf headerLen (headerLen + payloadLen)
    some (.ok { version, keyId, kind, session, sequence, group, index, data, parity, payload })

/-- `decode` with checked reads; `none` is a panic. -/
def decodeChecked (blake : Blake3) (buf key : Bytes) : Option (Except WireError Frame) :=
  if buf.length < 6 + tag then some (.error .shortFrame)
  else do
    match ← legacyHeaderChecked buf with
    | .error error => some (.error error)
    | .ok (headerLen, keyId, offset) =>
      if buf.length < headerLen + tag then some (.error .shortFrame)
      else do
        -- The subtraction underflows on a buffer shorter than the tag.
        let bodyLen ← if tag ≤ buf.length then some (buf.length - tag) else none
        let body ← slice? buf 0 bodyLen
        let received ← slice? buf bodyLen buf.length
        if (blake.keyed key body).take tag ≠ received then some (.error .badAuth)
        else do
          let mark ← number? buf 0 4
          if mark ≠ magic then some (.error .badProtocol)
          else legacyBodyChecked buf headerLen keyId offset

/-- `parseInner` with checked reads. -/
def parseInnerChecked (keyId : Nat) (plain : Bytes) : Option (Except WireError Frame) :=
  if plain.length < v3InnerHeader then some (.error .shortV3Payload)
  else do
    let payloadLen ← number? plain 29 31
    if v3InnerHeader + payloadLen ≠ plain.length then some (.error .badV3Length)
    else do
      let kind ← number? plain 0 1
      let session ← number? plain 1 9
      let sequence ← number? plain 9 17
      let group ← number? plain 17 25
      let index ← number? plain 25 27
      let data ← number? plain 27 28
      let parity ← number? plain 28 29
      let payload ← slice? plain v3InnerHeader plain.length
      some (.ok { version := versionV3, keyId, kind, session, sequence, group, index, data, parity
                  payload })

/-- `decodeV3` with checked reads; `none` is a panic. -/
def decodeV3Checked (blake : Blake3) (aead : Aead) (buf : Bytes) (keyId : Nat) (key : Bytes) :
    Option (Except WireError Frame) :=
  if buf.length < v3Selector + v3Nonce + v3InnerHeader + tag then some (.error .invalidV3Envelope)
  else do
    let selector ← slice? buf 0 v3SelectorPrefixLen
    if selector ≠ v3SelectorPrefix blake keyId then some (.error .invalidV3Envelope)
    else do
      let nonce ← slice? buf v3Selector (v3Selector + v3Nonce)
      let ciphertext ← slice? buf (v3Selector + v3Nonce) buf.length
      match aead.decrypt key nonce ciphertext with
      | none => some (.error .v3AuthenticationFailed)
      | some plain => parseInnerChecked keyId plain

theorem slice?_from {buf : Bytes} {start : Nat} (within : start ≤ buf.length) :
    slice? buf start buf.length = some (buf.drop start) := by
  rw [slice?_of_le within (Nat.le_refl _), List.take_length]

theorem slice?_to {buf : Bytes} {stop : Nat} (within : stop ≤ buf.length) :
    slice? buf 0 stop = some (buf.take stop) := by
  rw [slice?_of_le (Nat.zero_le _) within, List.drop_zero]

theorem legacyHeaderChecked_eq {buf : Bytes} (long : 6 + tag ≤ buf.length) :
    legacyHeaderChecked buf = some (legacyHeader buf) := by
  unfold tag at long
  unfold legacyHeaderChecked legacyHeader
  rw [number?_of_le (by omega) (by omega), Option.bind_eq_bind, Option.bind_some]
  split
  · rfl
  · split
    · split
      · rfl
      next enough =>
        unfold headerV2 tag at enough
        rw [number?_of_le (by omega) (by omega)]
        rfl
    · rfl

/-- The header and the offset of an accepted version are consistent. -/
theorem legacyHeader_layout {buf : Bytes} {headerLen keyId offset : Nat}
    (isLegacy : legacyHeader buf = .ok (headerLen, keyId, offset)) :
    6 ≤ offset ∧ offset + 30 = headerLen := by
  unfold legacyHeader at isLegacy
  split at isLegacy
  · cases isLegacy
    exact ⟨by decide, rfl⟩
  · split at isLegacy
    · split at isLegacy
      · cases isLegacy
      · cases isLegacy
        exact ⟨by decide, rfl⟩
    · cases isLegacy

/-- No read of `decode` is out of bounds. -/
theorem decodeChecked_eq (blake : Blake3) (buf key : Bytes) :
    decodeChecked blake buf key = some (decode blake buf key) := by
  unfold decodeChecked decode
  by_cases short : buf.length < 6 + tag
  · rw [if_pos short, if_pos short]
  · rw [if_neg short, if_neg short, legacyHeaderChecked_eq (Nat.le_of_not_lt short),
      Option.bind_eq_bind, Option.bind_some]
    cases isLegacy : legacyHeader buf with
    | error error => rfl
    | ok layout =>
        obtain ⟨headerLen, keyId, offset⟩ := layout
        obtain ⟨low, isHeader⟩ := legacyHeader_layout isLegacy
        dsimp only
        by_cases shortBody : buf.length < headerLen + tag
        · rw [if_pos shortBody, if_pos shortBody]
        · have hasTag : tag ≤ buf.length := by omega
          rw [if_neg shortBody, if_neg shortBody, if_pos hasTag]
          simp only [Option.bind_eq_bind, Option.bind_some]
          rw [slice?_to (Nat.sub_le _ _), slice?_from (Nat.sub_le _ _),
            number?_of_le (by omega) (by omega)]
          simp only [Option.bind_some]
          split
          · rfl
          · split
            · rfl
            · unfold legacyBodyChecked
              rw [number?_of_le (by omega) (by omega)]
              simp only [Option.bind_eq_bind, Option.bind_some]
              split
              · rfl
              next sameLength =>
                rw [number?_of_le (by omega) (by omega), number?_of_le (by omega) (by omega),
                  number?_of_le (by omega) (by omega), number?_of_le (by omega) (by omega),
                  number?_of_le (by omega) (by omega), number?_of_le (by omega) (by omega),
                  number?_of_le (by omega) (by omega), number?_of_le (by omega) (by omega),
                  slice?_of_le (by omega) (by omega)]
                rfl

theorem parseInnerChecked_eq (keyId : Nat) (plain : Bytes) :
    parseInnerChecked keyId plain = some (parseInner keyId plain) := by
  unfold parseInnerChecked parseInner v3InnerHeader
  split
  · rfl
  next long =>
    rw [number?_of_le (by omega) (by omega)]
    simp only [Option.bind_eq_bind, Option.bind_some]
    split
    · rfl
    · rw [number?_of_le (by omega) (by omega), number?_of_le (by omega) (by omega),
        number?_of_le (by omega) (by omega), number?_of_le (by omega) (by omega),
        number?_of_le (by omega) (by omega), number?_of_le (by omega) (by omega),
        number?_of_le (by omega) (by omega), slice?_from (by omega)]
      rfl

/-- No read of `decode_v3` is out of bounds. -/
theorem decodeV3Checked_eq (blake : Blake3) (aead : Aead) (buf : Bytes) (keyId : Nat)
    (key : Bytes) :
    decodeV3Checked blake aead buf keyId key = some (decodeV3 blake aead buf keyId key) := by
  unfold decodeV3Checked decodeV3
  by_cases short : buf.length < v3Selector + v3Nonce + v3InnerHeader + tag
  · rw [if_pos short, if_pos (Or.inl short)]
  · have long : 79 ≤ buf.length := Nat.le_of_not_lt short
    have selector : v3SelectorPrefixLen ≤ buf.length := by
      unfold v3SelectorPrefixLen
      omega
    rw [if_neg short, slice?_to selector]
    simp only [Option.bind_eq_bind, Option.bind_some]
    by_cases other : buf.take v3SelectorPrefixLen ≠ v3SelectorPrefix blake keyId
    · rw [if_pos other, if_pos (Or.inr other)]
    · rw [if_neg other, if_neg (not_or.mpr ⟨short, other⟩)]
      have nonce : v3Selector + v3Nonce ≤ buf.length := by
        unfold v3Selector v3Nonce
        omega
      rw [slice?_of_le (Nat.le_add_right _ _) nonce, slice?_from nonce]
      simp only [Option.bind_some]
      unfold nonceOf ciphertextOf field
      cases aead.decrypt key ((buf.take (v3Selector + v3Nonce)).drop v3Selector)
        (buf.drop (v3Selector + v3Nonce)) with
      | none => rfl
      | some plain => exact parseInnerChecked_eq keyId plain

/-! ### Versions 1 and 2 -/

/-- A frame that `encode` writes in the clear without loss: version 1 has no place
for a key id. -/
inductive Legacy (frame : Frame) : Prop
  | v1 (version : frame.version = versionV1) (keyId : frame.keyId = 0)
  | v2 (version : frame.version = versionV2) (keyId : frame.keyId < 256 ^ 8)

theorem legacyFields_v1 {frame : Frame} (isV1 : frame.version = versionV1) :
    legacyFields frame =
      (4, magic) :: (1, versionV1) :: (1, frame.kind) :: commonFields frame := by
  unfold legacyFields
  rw [isV1]
  rfl

theorem legacyFields_v2 {frame : Frame} (isV2 : frame.version = versionV2) :
    legacyFields frame =
      (4, magic) :: (1, versionV2) :: (1, frame.kind) :: (8, frame.keyId) :: commonFields frame := by
  unfold legacyFields
  rw [isV2]
  rfl

/-- The common fields are read back at the offset of the version. -/
theorem decode_common {frame : Frame} {front : List (Nat × Nat)} {buf rest : Bytes}
    {offset : Nat} (isBuf : buf = pack (front ++ commonFields frame) ++ rest)
    (isOffset : offset = width front) (fits : Fits frame) :
    number buf offset (offset + 8) = frame.session ∧
    number buf (offset + 8) (offset + 16) = frame.sequence ∧
    number buf (offset + 16) (offset + 24) = frame.group ∧
    number buf (offset + 24) (offset + 26) = frame.index ∧
    number buf (offset + 26) (offset + 27) = frame.data ∧
    number buf (offset + 27) (offset + 28) = frame.parity ∧
    number buf (offset + 28) (offset + 30) = frame.payload.length := by
  have place : ∀ position size value start stop,
      (commonFields frame)[position]? = some (size, value) → value < 256 ^ size →
      start = offset + width ((commonFields frame).take position) → stop = start + size →
      number buf start stop = value := by
    intro position size value start stop isField small atStart atStop
    have inAll : (front ++ commonFields frame)[front.length + position]? = some (size, value) := by
      rw [List.getElem?_append_right (Nat.le_add_right _ _), Nat.add_sub_cancel_left]
      exact isField
    rw [isBuf]
    refine number_pack _ inAll small ?_ atStop rest
    rw [atStart, isOffset, List.take_append, List.take_of_length_le (Nat.le_add_right _ _),
      Nat.add_sub_cancel_left]
    simp [width]
  exact ⟨place 0 8 _ _ _ rfl fits.session rfl rfl, place 1 8 _ _ _ rfl fits.sequence rfl rfl,
    place 2 8 _ _ _ rfl fits.group rfl rfl, place 3 2 _ _ _ rfl fits.index rfl rfl,
    place 4 1 _ _ _ rfl fits.data rfl rfl, place 5 1 _ _ _ rfl fits.parity rfl rfl,
    place 6 2 _ _ _ rfl fits.payload rfl rfl⟩

/-- Decoding a buffer whose header is the one of a frame in the clear. -/
theorem decode_of_layout {blake : Blake3} {frame : Frame} {key buf : Bytes}
    (front : List (Nat × Nat)) (headerLen offset : Nat)
    (isBuf : buf = encode blake frame key)
    (isFields : legacyFields frame = front ++ commonFields frame) (isOffset : offset = width front)
    (low : 6 ≤ offset) (isHeader : offset + 30 = headerLen)
    (isLegacy : legacyHeader buf = .ok (headerLen, frame.keyId, offset))
    (mark : number buf 0 4 = magic) (version : number buf 4 5 = frame.version)
    (kind : number buf 5 6 = frame.kind) (fits : Fits frame) :
    decode blake buf key = .ok frame := by
  have headerSize : (pack (legacyFields frame)).length = headerLen := by
    rw [length_pack, isFields, ← isHeader, isOffset]
    simp [width, commonFields, List.sum_append]
  have tagSize : ((blake.keyed key (pack (legacyFields frame) ++ frame.payload)).take tag).length =
      tag := by
    rw [List.length_take, blake.keyed_length]
    rfl
  have whole : buf = (pack (legacyFields frame) ++ frame.payload) ++
      (blake.keyed key (pack (legacyFields frame) ++ frame.payload)).take tag := isBuf
  have size : buf.length = headerLen + frame.payload.length + tag := by
    rw [whole, List.length_append, List.length_append, headerSize, tagSize]
  have body : buf.take (buf.length - tag) = pack (legacyFields frame) ++ frame.payload := by
    rw [size, Nat.add_sub_cancel, whole]
    exact List.take_left' (by rw [List.length_append, headerSize])
  have rest : buf.drop (buf.length - tag) =
      (blake.keyed key (pack (legacyFields frame) ++ frame.payload)).take tag := by
    rw [size, Nat.add_sub_cancel, whole]
    exact List.drop_left' (by rw [List.length_append, headerSize])
  have payload : field buf headerLen (headerLen + frame.payload.length) = frame.payload := by
    rw [whole, List.append_assoc]
    exact field_block _ _ _ headerSize.symm (by rw [headerSize])
  obtain ⟨session, sequence, group, index, data, parity, payloadLen⟩ :=
    decode_common (whole.trans (by rw [isFields, List.append_assoc])) isOffset fits
  unfold decode
  have long : ¬ buf.length < 6 + tag := by omega
  have longBody : ¬ buf.length < headerLen + tag := by omega
  rw [if_neg long, isLegacy]
  dsimp only
  rw [if_neg longBody, body, rest, if_neg (not_not.mpr rfl), if_neg (not_not.mpr mark), payloadLen,
    if_neg (not_not.mpr size.symm), version, kind, session, sequence, group, index, data, parity,
    payload]

theorem magic_fits : magic < 256 ^ 4 := by decide

/-- The first three fields of a frame in the clear are read back. -/
theorem decode_front {frame : Frame} {version : Nat} {fields : List (Nat × Nat)} {buf rest : Bytes}
    (isBuf : buf = pack ((4, magic) :: (1, version) :: (1, frame.kind) :: fields) ++ rest)
    (small : version < 256 ^ 1) (fits : Fits frame) :
    number buf 0 4 = magic ∧ number buf 4 5 = version ∧ number buf 5 6 = frame.kind := by
  subst isBuf
  exact ⟨number_pack 0 rfl magic_fits rfl rfl _, number_pack 1 rfl small rfl rfl _,
    number_pack 2 rfl fits.kind rfl rfl _⟩

/-- A frame of version 1 or 2 is decoded as it was. -/
theorem decode_encode {blake : Blake3} {frame : Frame} (legacy : Legacy frame) (fits : Fits frame)
    (key : Bytes) : decode blake (encode blake frame key) key = .ok frame := by
  generalize isBuf : encode blake frame key = buf
  have whole : buf = pack (legacyFields frame) ++ (frame.payload ++
      (blake.keyed key (pack (legacyFields frame) ++ frame.payload)).take tag) := by
    rw [← isBuf, ← List.append_assoc]
    rfl
  cases legacy with
  | v1 isV1 isKeyId =>
      have fields := legacyFields_v1 isV1
      nth_rewrite 1 [fields] at whole
      obtain ⟨mark, version, kind⟩ := decode_front whole (by decide) fits
      have isLegacy : legacyHeader buf = .ok (header, frame.keyId, 6) := by
        unfold legacyHeader
        rw [if_pos version, isKeyId]
      exact decode_of_layout [(4, magic), (1, versionV1), (1, frame.kind)] header 6 isBuf.symm
        fields rfl (by decide) rfl isLegacy mark (version.trans isV1.symm) kind fits
  | v2 isV2 keyIdFits =>
      have fields := legacyFields_v2 isV2
      nth_rewrite 1 [fields] at whole
      obtain ⟨mark, version, kind⟩ := decode_front whole (by decide) fits
      have keyId : number buf 6 14 = frame.keyId := by
        rw [whole]
        exact number_pack 3 rfl keyIdFits rfl rfl _
      have long : ¬ buf.length < headerV2 + tag := by
        have tagSize : ((blake.keyed key
            (pack (legacyFields frame) ++ frame.payload)).take tag).length = tag := by
          rw [List.length_take, blake.keyed_length]
          rfl
        rw [whole, List.length_append, List.length_append, tagSize, length_pack]
        have headerSize : width ((4, magic) :: (1, versionV2) :: (1, frame.kind) ::
            (8, frame.keyId) :: commonFields frame) = headerV2 := rfl
        omega
      have isLegacy : legacyHeader buf = .ok (headerV2, frame.keyId, 14) := by
        unfold legacyHeader
        rw [if_neg (by rw [version]; decide), if_pos version, if_neg long, keyId]
      exact decode_of_layout [(4, magic), (1, versionV2), (1, frame.kind), (8, frame.keyId)]
        headerV2 14 isBuf.symm fields rfl (by decide) rfl isLegacy mark (version.trans isV2.symm)
        kind fits

/-- The version and the layout of a header that `decode` accepts. -/
theorem legacyHeader_cases {buf : Bytes} {headerLen keyId offset : Nat}
    (isLegacy : legacyHeader buf = .ok (headerLen, keyId, offset)) :
    (number buf 4 5 = versionV1 ∧ headerLen = header ∧ keyId = 0 ∧ offset = 6) ∨
      (number buf 4 5 = versionV2 ∧ headerLen = headerV2 ∧ keyId = number buf 6 14 ∧
        offset = 14) := by
  unfold legacyHeader at isLegacy
  split at isLegacy
  next isV1 =>
    cases isLegacy
    exact Or.inl ⟨isV1, rfl, rfl, rfl⟩
  next =>
    split at isLegacy
    next isV2 =>
      split at isLegacy
      next => cases isLegacy
      next =>
        cases isLegacy
        exact Or.inr ⟨isV2, rfl, rfl, rfl⟩
    next => cases isLegacy

/-- An accepted buffer in the clear is the encoding of the frame it was decoded to. -/
theorem encode_decode {blake : Blake3} {buf key : Bytes} {frame : Frame}
    (decoded : decode blake buf key = .ok frame) : encode blake frame key = buf := by
  obtain ⟨headerLen, keyId, offset, isLegacy, authentic, mark, size, isFrame⟩ := decode_ok decoded
  have layout := legacyHeader_layout isLegacy
  have payloadLen : frame.payload.length = number buf (offset + 28) (offset + 30) := by
    rw [isFrame]
    dsimp only
    rw [length_field (by omega), Nat.add_sub_cancel_left]
  -- Reading every field and packing it again gives back the header.
  have front : pack (legacyFields frame) = field buf 0 headerLen := by
    rcases legacyHeader_cases isLegacy with ⟨isV1, rfl, rfl, rfl⟩ | ⟨isV2, rfl, rfl, rfl⟩
    · have isFields : legacyFields frame = unpack buf 0 [4, 1, 1, 8, 8, 8, 2, 1, 1, 2] := by
        rw [legacyFields_v1 (by rw [isFrame]; exact isV1), commonFields, payloadLen, ← isV1, ← mark,
          isFrame]
        rfl
      rw [isFields]
      exact pack_unpack 0 _ (by unfold header at size; simp; omega)
    · have isFields : legacyFields frame = unpack buf 0 [4, 1, 1, 8, 8, 8, 8, 2, 1, 1, 2] := by
        rw [legacyFields_v2 (by rw [isFrame]; exact isV2), commonFields, payloadLen, ← isV2, ← mark,
          isFrame]
        rfl
      rw [isFields]
      exact pack_unpack 0 _ (by unfold headerV2 at size; simp; omega)
  have payload : frame.payload = field buf headerLen (buf.length - tag) := by
    rw [isFrame]
    dsimp only
    congr 1
    omega
  have body : pack (legacyFields frame) ++ frame.payload = buf.take (buf.length - tag) := by
    rw [front, payload, field_append_field (Nat.zero_le _) (by omega) (by omega), field,
      List.drop_zero]
  unfold encode
  rw [body]
  dsimp only
  rw [authentic, List.take_append_drop]

/-! ### Version 3 -/

theorem length_inner (frame : Frame) :
    (inner frame).length = v3InnerHeader + frame.payload.length := by
  rw [inner, List.length_append, length_pack]
  rfl

/-- The datagram of a sealed frame: its length and its selector. -/
theorem encodeWire_shape {blake : Blake3} {aead : Aead} {random : Randomness} {frame : Frame}
    {key buf : Bytes} (isV3 : frame.version = versionV3)
    (encoded : encodeWire blake aead random frame key = .ok buf) :
    buf.length = v3Selector + v3Nonce + v3InnerHeader + tag + frame.payload.length ∧
      buf.take v3SelectorPrefixLen = v3SelectorPrefix blake frame.keyId := by
  unfold encodeWire at encoded
  rw [if_neg (not_not.mpr isV3)] at encoded
  split at encoded
  next => cases encoded
  next ciphertext encrypted =>
    cases encoded
    have size := aead.encrypt_length _ _ _ _ encrypted
    rw [length_inner] at size
    constructor
    · rw [List.length_append, List.length_append, List.length_append, length_v3SelectorPrefix,
        random.suffix_length, random.nonce_length, size]
      unfold v3SelectorPrefixLen v3Selector tag
      omega
    · exact List.take_left' (length_v3SelectorPrefix blake frame.keyId)

theorem encodeWire_ok {blake : Blake3} {aead : Aead} {frame : Frame} (isV3 : frame.version = versionV3)
    (fits : frame.payload.length < 256 ^ 2) (random : Randomness) (key : Bytes) :
    ∃ buf, encodeWire blake aead random frame key = .ok buf := by
  have small : (inner frame).length < 2 ^ 32 := by
    rw [length_inner]
    unfold v3InnerHeader
    omega
  obtain ⟨ciphertext, encrypted⟩ :=
    Option.isSome_iff_exists.mp (aead.encrypt_isSome key random.nonce _ small)
  unfold encodeWire
  rw [if_neg (not_not.mpr isV3), encrypted]
  exact ⟨_, rfl⟩

/-- A sealed frame is opened as it was. -/
theorem decodeV3_encodeWire {blake : Blake3} {aead : Aead} {random : Randomness} {frame : Frame}
    {key buf : Bytes} (isV3 : frame.version = versionV3) (fits : Fits frame)
    (encoded : encodeWire blake aead random frame key = .ok buf) :
    decodeV3 blake aead buf frame.keyId key = .ok frame := by
  obtain ⟨size, selector⟩ := encodeWire_shape isV3 encoded
  have isSealed := encodeWire_seals isV3 encoded
  unfold decodeV3
  rw [if_neg (not_or.mpr ⟨by omega, not_not.mpr selector⟩),
    aead.decrypt_encrypt _ _ _ _ isSealed]
  exact parseInner_inner isV3 fits

/-- An accepted plaintext is the one of the frame it was parsed to. -/
theorem inner_parseInner {keyId : Nat} {plain : Bytes} {frame : Frame}
    (parsed : parseInner keyId plain = .ok frame) : inner frame = plain := by
  unfold parseInner at parsed
  split at parsed
  next => cases parsed
  next long =>
    split at parsed
    next => cases parsed
    next size =>
      have isSize : v3InnerHeader + number plain 29 31 = plain.length := not_not.mp size
      have payloadLen : (plain.drop v3InnerHeader).length = number plain 29 31 := by
        rw [List.length_drop]
        omega
      have within : 0 + [1, 8, 8, 8, 2, 1, 1, 2].sum ≤ plain.length := Nat.le_of_not_lt long
      cases parsed
      unfold inner commonFields
      dsimp only
      rw [payloadLen]
      show pack (unpack plain 0 [1, 8, 8, 8, 2, 1, 1, 2]) ++ plain.drop v3InnerHeader = plain
      rw [pack_unpack 0 _ within]
      exact List.take_append_drop v3InnerHeader plain

/-- An accepted sealed datagram is an encoding of the frame it was opened as. -/
theorem encodeWire_decodeV3 {blake : Blake3} {aead : Aead} (authentic : aead.Authentic)
    {buf key : Bytes} {keyId : Nat} {frame : Frame}
    (opened : decodeV3 blake aead buf keyId key = .ok frame) :
    ∃ random, encodeWire blake aead random frame key = .ok buf := by
  obtain ⟨plain, decrypted, parsed⟩ := decodeV3_opens opened
  obtain ⟨isV3, isKeyId⟩ := parseInner_identity parsed
  have shape : 79 ≤ buf.length ∧ buf.take v3SelectorPrefixLen = v3SelectorPrefix blake keyId := by
    unfold decodeV3 at opened
    split at opened
    next => cases opened
    next accepted =>
      rw [not_or, not_not] at accepted
      exact ⟨Nat.le_of_not_lt accepted.1, accepted.2⟩
  obtain ⟨long, selector⟩ := shape
  have encrypted := authentic _ _ _ _ decrypted
  refine ⟨⟨nonceOf buf, field buf v3SelectorPrefixLen v3Selector, ?_, ?_⟩, ?_⟩
  · rw [nonceOf, length_field (by unfold v3Selector v3Nonce; omega), Nat.add_sub_cancel_left]
  · rw [length_field (by unfold v3Selector; omega)]
  · unfold encodeWire
    dsimp only
    rw [if_neg (not_not.mpr isV3), inner_parseInner parsed, encrypted]
    dsimp only
    have front : v3SelectorPrefix blake frame.keyId = field buf 0 v3SelectorPrefixLen := by
      rw [isKeyId, ← selector, field, List.drop_zero]
    rw [front, nonceOf, ← List.append_assoc,
      field_append_field (by decide) (by decide) (by unfold v3SelectorPrefixLen; omega),
      ← List.append_assoc,
      field_append_field (by decide) (by decide) (by unfold v3Selector; omega), field,
      List.drop_zero, ciphertextOf, List.take_append_drop]

/-! ### All versions -/

/-- The codecs are exact inverses: every frame that fits its fields is decoded as it
was, every accepted byte string is an encoding of the frame it was decoded to, and
no read of a decoder is out of bounds. -/
theorem codecs_inverse (blake : Blake3) (aead : Aead) (authentic : aead.Authentic) (key : Bytes) :
    (∀ frame, Legacy frame → Fits frame → decode blake (encode blake frame key) key = .ok frame) ∧
    (∀ buf frame, decode blake buf key = .ok frame → encode blake frame key = buf) ∧
    (∀ frame random, frame.version = versionV3 → Fits frame →
      ∃ buf, encodeWire blake aead random frame key = .ok buf ∧
        decodeV3 blake aead buf frame.keyId key = .ok frame) ∧
    (∀ buf keyId frame, decodeV3 blake aead buf keyId key = .ok frame →
      ∃ random, encodeWire blake aead random frame key = .ok buf) ∧
    (∀ buf, decodeChecked blake buf key = some (decode blake buf key)) ∧
    ∀ buf keyId, decodeV3Checked blake aead buf keyId key =
      some (decodeV3 blake aead buf keyId key) := by
  refine ⟨?_, ?_, ?_, ?_, ?_, ?_⟩
  · intro frame legacy fits
    exact decode_encode legacy fits key
  · intro buf frame decoded
    exact encode_decode decoded
  · intro frame random isV3 fits
    obtain ⟨buf, encoded⟩ := encodeWire_ok isV3 fits.payload random key
    exact ⟨buf, encoded, decodeV3_encodeWire isV3 fits encoded⟩
  · intro buf keyId frame opened
    exact encodeWire_decodeV3 authentic opened
  · exact fun buf => decodeChecked_eq blake buf key
  · exact fun buf keyId => decodeV3Checked_eq blake aead buf keyId key

/-! ### One sealed report -/

/-- The key of the secret `v3-device-secret-at-least-32-bytes`. -/
def reportKey : Bytes :=
  [48, 14, 93, 80, 180, 242, 230, 215, 95, 28, 251, 194, 129, 97, 209, 52, 201, 34, 215, 29,
    166, 112, 129, 153, 199, 43, 212, 20, 160, 51, 168, 189]

/-- The first report of session 91 of device `keyId`. -/
def lossReport (keyId : Nat) : Frame where
  version := versionV3
  keyId := keyId
  kind := kindReport
  session := 91
  sequence := 1
  group := 0
  index := 0
  data := 0
  parity := 0
  payload := [0, 0, 38, 148]

theorem lossReport_fits (keyId : Nat) : Fits (lossReport keyId) := by
  constructor <;> simp [lossReport, kindReport]

def reportRandom : Randomness where
  nonce := List.replicate 24 9
  suffix := List.replicate 4 9
  nonce_length := List.length_replicate
  suffix_length := List.length_replicate

/-- The cipher as it answers for this report. -/
def reportCipher : Aead :=
  Aead.sampled
    { list :=
        [⟨reportKey, reportRandom.nonce, inner (lossReport 7),
          [111, 41, 1, 210, 60, 211, 213, 133, 166, 205, 245, 176, 151, 212, 75, 144, 106, 78,
            13, 191, 178, 164, 80, 25, 220, 209, 227, 116, 203, 232, 247, 13, 139, 15, 230, 110,
            84, 196, 31, 42, 176, 97, 110, 176, 224, 188, 154, 64, 14, 251, 229]⟩]
      length := by decide +kernel
      tagged := by decide +kernel
      injective := by decide +kernel }

/-- The hash as it answers for the selector of device 7. -/
def reportHash : Blake3 :=
  Blake3.sampled
    [(selectorDomain ++ toBeBytes 8 7,
      [125, 68, 8, 174, 26, 186, 110, 112, 130, 152, 239, 59, 103, 133, 231, 178, 105, 91, 243,
        125, 248, 251, 97, 93, 192, 164, 126, 24, 196, 189, 187, 170])]
    (by decide)

theorem codecs_inverse_sealed_report :
    ∃ buf, encodeWire reportHash reportCipher.strict reportRandom (lossReport 7) reportKey = .ok buf ∧
      decodeV3 reportHash reportCipher.strict buf 7 reportKey = .ok (lossReport 7) :=
  (codecs_inverse reportHash reportCipher.strict reportCipher.strict_authentic reportKey).2.2.1
    (lossReport 7) reportRandom rfl (lossReport_fits 7)

end SmartFecTunnel.Wire
