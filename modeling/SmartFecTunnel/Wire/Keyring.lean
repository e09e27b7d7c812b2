import SmartFecTunnel.Library.Text
import SmartFecTunnel.Wire.RoundTrip

/-!
Contract: the keyring of the server (`key` and `parse_keyring` in `src/main.rs`) and
what its selector table makes of it.

A keyring is a text with one `key_id secret` entry for each device.  At start-up the
server maps the selector of every device to the device and its key.

Owns:
- the parser with its error texts, and the devices of an accepted text;
- that every device is found under its selector;
- when the frames of a device reach the server, and when the identity of a device
  is bound to its secret.

Does not own: the permissions of the keyring file.
-/

namespace SmartFecTunnel.Wire

open SmartFecTunnel.Library
open SmartFecTunnel.Fec

def maxDeviceKeys : Nat := 65536

def key (blake : Blake3) (raw : Text) : Bytes := blake.hash (utf8 raw)

/-! ### The parser -/

inductive KeyringError where
  | missingKeyId
  | invalidKeyId (line : Nat)
  | missingKeySecret
  | invalidEntry (line : Nat)
  | duplicateKeyId (line : Nat)
  | tooManyDevices
  | noDeviceKeys
deriving DecidableEq, Repr

def KeyringError.message : KeyringError → String
  | .missingKeyId => "missing key id"
  | .invalidKeyId line => s!"invalid key id at line {line}"
  | .missingKeySecret => "missing key secret"
  | .invalidEntry line => s!"invalid keyring entry at line {line}"
  | .duplicateKeyId line => s!"duplicate key id at line {line}"
  | .tooManyDevices => "keyring exceeds maximum device count"
  | .noDeviceKeys => "keyring contains no device keys"

/-- An entry: a nonzero id, a secret of at least 32 bytes, and nothing else. -/
def parseEntry (lineNo : Nat) (fields : List Text) : Except KeyringError (Nat × Text) :=
  match fields with
  | [] => .error .missingKeyId
  | first :: rest =>
    match parseU64 first with
    | none => .error (.invalidKeyId lineNo)
    | some id =>
      match rest with
      | [] => .error .missingKeySecret
      | secret :: more =>
        if id = 0 ∨ (utf8 secret).length < 32 ∨ more ≠ [] then .error (.invalidEntry lineNo)
        else .ok (id, secret)

/-- One line; `none` is a blank line or a comment. -/
def parseLine (lineNo : Nat) (line : Text) : Option (Except KeyringError (Nat × Text)) :=
  let line := trim line
  if line.isEmpty ∨ line.head? = some '#' then none
  else some (parseEntry lineNo (splitWhitespace line))

/-- The loop over the lines, of which `lineNo` is the number of the first. -/
def parseLines (blake : Blake3) : (lineNo : Nat) → List Text → Table Nat Bytes →
    Except KeyringError (Table Nat Bytes)
  | _, [], result => .ok result
  | lineNo, line :: rest, result =>
    match parseLine lineNo line with
    | none => parseLines blake (lineNo + 1) rest result
    | some (.error error) => .error error
    | some (.ok (id, secret)) =>
      let inserted := result.insert id (key blake secret)
      if id ∈ result then .error (.duplicateKeyId lineNo)
      else if maxDeviceKeys < inserted.size then .error .tooManyDevices
      else parseLines blake (lineNo + 1) rest inserted

def parseKeyring (blake : Blake3) (text : Text) : Except KeyringError (Table Nat Bytes) :=
  match parseLines blake 1 (lines text) ∅ with
  | .error error => .error error
  | .ok result => if result.size = 0 then .error .noDeviceKeys else .ok result

/-! ### The devices of a text -/

/-- The device of a line that has one. -/
def deviceOf (line : Text) : Option (Nat × Text) :=
  match parseLine 0 line with
  | some (.ok device) => some device
  | _ => none

/-- The devices of a keyring text, with their secrets. -/
def devices (text : Text) : List (Nat × Text) := (lines text).filterMap deviceOf

/-- Line numbers only matter for error texts. -/
theorem deviceOf_eq_some {lineNo : Nat} {line : Text} {device : Nat × Text}
    (parsed : parseLine lineNo line = some (.ok device)) : deviceOf line = some device := by
  unfold deviceOf
  unfold parseLine at parsed ⊢
  dsimp only at parsed ⊢
  split at parsed
  next => cases parsed
  next shown =>
    rw [if_neg shown]
    unfold parseEntry at parsed ⊢
    split at parsed
    next => cases parsed
    next =>
      split at parsed
      next => cases parsed
      next =>
        split at parsed
        next => cases parsed
        next =>
          split at parsed
          next => cases parsed
          next valid =>
            cases parsed
            rw [if_neg valid]

theorem deviceOf_eq_none {lineNo : Nat} {line : Text} (skipped : parseLine lineNo line = none) :
    deviceOf line = none := by
  unfold deviceOf
  unfold parseLine at skipped ⊢
  dsimp only at skipped ⊢
  split at skipped
  next blank => rw [if_pos blank]
  next => cases skipped

/-- What the loop adds to a table: the devices of the lines, each under its own id. -/
theorem parseLines_ok {blake : Blake3} {lineNo : Nat} {rest : List Text}
    {result table : Table Nat Bytes} (parsed : parseLines blake lineNo rest result = .ok table) :
    (∀ id secret, (id, secret) ∈ rest.filterMap deviceOf →
      id ∉ result ∧ table.lookup id = some (key blake secret)) ∧
    (∀ id value, result.lookup id = some value → table.lookup id = some value) ∧
    ∀ id value, table.lookup id = some value → result.lookup id = some value ∨
      ∃ secret, (id, secret) ∈ rest.filterMap deviceOf ∧ value = key blake secret := by
  induction rest generalizing lineNo result with
  | nil =>
      cases parsed
      exact ⟨by simp, fun _ _ found => found, fun _ _ found => Or.inl found⟩
  | cons line rest inductionHypothesis =>
      unfold parseLines at parsed
      split at parsed
      next skipped =>
        obtain ⟨added, kept, origin⟩ := inductionHypothesis parsed
        rw [List.filterMap_cons_none (deviceOf_eq_none skipped)]
        exact ⟨added, kept, origin⟩
      next => cases parsed
      next id secret isDevice =>
        dsimp only at parsed
        split at parsed
        next => cases parsed
        next fresh =>
          split at parsed
          next => cases parsed
          next =>
            obtain ⟨added, kept, origin⟩ := inductionHypothesis parsed
            rw [List.filterMap_cons_some (deviceOf_eq_some isDevice)]
            refine ⟨?_, ?_, ?_⟩
            · intro other otherSecret member
              rcases List.mem_cons.mp member with same | later
              · cases same
                exact ⟨fresh, kept id _ (by rw [Table.lookup_insert_eq, if_pos rfl])⟩
              · obtain ⟨notIn, found⟩ := added other otherSecret later
                exact ⟨fun old => notIn (Table.mem_insert.mpr (Or.inr old)), found⟩
            · intro other value found
              apply kept
              rw [Table.lookup_insert_eq, if_neg]
              · exact found
              · rintro rfl
                exact fresh (Table.mem_iff_exists_lookup.mpr ⟨value, found⟩)
            · intro other value found
              rcases origin other value found with old | ⟨otherSecret, later, isKey⟩
              · rcases Table.of_lookup_insert old with ⟨same, rfl⟩ | ⟨_, older⟩
                · exact Or.inr ⟨secret, by rw [same]; exact List.mem_cons_self, rfl⟩
                · exact Or.inl older
              · exact Or.inr ⟨otherSecret, List.mem_cons_of_mem _ later, isKey⟩

theorem parseKeyring_ok {blake : Blake3} {text : Text} {keyring : Table Nat Bytes}
    (parsed : parseKeyring blake text = .ok keyring) :
    parseLines blake 1 (lines text) ∅ = .ok keyring := by
  unfold parseKeyring at parsed
  split at parsed
  next => cases parsed
  next result isResult =>
    split at parsed
    next => cases parsed
    next =>
      cases parsed
      exact isResult

/-- A device of an accepted text has the key of its secret. -/
theorem lookup_of_device {blake : Blake3} {text : Text} {keyring : Table Nat Bytes}
    (parsed : parseKeyring blake text = .ok keyring) {id : Nat} {secret : Text}
    (isDevice : (id, secret) ∈ devices text) : keyring.lookup id = some (key blake secret) :=
  ((parseLines_ok (parseKeyring_ok parsed)).1 id secret isDevice).2

/-- Every key of an accepted keyring is the key of a device of its text. -/
theorem device_of_lookup {blake : Blake3} {text : Text} {keyring : Table Nat Bytes}
    (parsed : parseKeyring blake text = .ok keyring) {id : Nat} {value : Bytes}
    (found : keyring.lookup id = some value) :
    ∃ secret, (id, secret) ∈ devices text ∧ value = key blake secret := by
  rcases (parseLines_ok (parseKeyring_ok parsed)).2.2 id value found with impossible | isDevice
  · cases impossible
  · exact isDevice

/-! ### The selector table -/

theorem insertSelectors_complete {blake : Blake3} {selectors table : Selectors}
    {list : List (Nat × Bytes)} (built : insertSelectors blake selectors list = .ok table) :
    (∀ selector device, selectors.lookup selector = some device →
      table.lookup selector = some device) ∧
    ∀ device ∈ list, table.lookup (v3SelectorPrefix blake device.1) = some device := by
  induction list generalizing selectors with
  | nil =>
      cases built
      exact ⟨fun _ _ found => found, by simp⟩
  | cons first rest inductionHypothesis =>
      obtain ⟨id, deviceKey⟩ := first
      unfold insertSelectors at built
      split at built
      next => cases built
      next fresh =>
        obtain ⟨kept, added⟩ := inductionHypothesis built
        constructor
        · intro selector device found
          apply kept
          rw [Table.lookup_insert_eq, if_neg]
          · exact found
          · rintro rfl
            exact fresh (Table.mem_iff_exists_lookup.mpr ⟨device, found⟩)
        · intro device member
          rcases List.mem_cons.mp member with rfl | later
          · apply kept
            rw [Table.lookup_insert_eq, if_pos rfl]
          · exact added device later

/-- Every device of the keyring is found under its selector. -/
theorem selectorTable_complete {blake : Blake3} {keyring : Table Nat Bytes} {selectors : Selectors}
    (built : selectorTable blake keyring = .ok selectors) {id : Nat} {deviceKey : Bytes}
    (isDevice : keyring.lookup id = some deviceKey) :
    selectors.lookup (v3SelectorPrefix blake id) = some (id, deviceKey) := by
  apply (insertSelectors_complete built).2 (id, deviceKey)
  exact List.mem_map.mpr ⟨⟨id, deviceKey⟩, Table.lookup_eq_some_iff.mp isDevice, rfl⟩

/-! ### Every device is served -/

/-- The first bytes of a sealed datagram are those of the versions in the clear
exactly for a device whose selector is the magic number. -/
theorem startsWithMagic_iff {blake : Blake3} {buf : Bytes} {id : Nat}
    (selector : buf.take v3SelectorPrefixLen = v3SelectorPrefix blake id) :
    StartsWithMagic buf ↔ v3SelectorPrefix blake id = toBeBytes 4 magic := by
  unfold StartsWithMagic
  rw [← selector]
  rfl

/-- What the server makes of a datagram with the selector of a device. -/
theorem decodeServerFrame_of_selector {blake : Blake3} {aead : Aead} {selectors : Selectors}
    {buf deviceKey : Bytes} {id : Nat}
    (selector : buf.take v3SelectorPrefixLen = v3SelectorPrefix blake id)
    (distinct : v3SelectorPrefix blake id ≠ toBeBytes 4 magic) (long : v3Selector ≤ buf.length)
    (found : selectors.lookup (v3SelectorPrefix blake id) = some (id, deviceKey)) :
    decodeServerFrame blake aead selectors buf =
      (decodeV3 blake aead buf id deviceKey).map fun frame => (frame, deviceKey) := by
  unfold decodeServerFrame
  rw [if_neg (by rw [startsWithMagic_iff selector]; exact distinct), if_neg (by omega), selector,
    found]

/-- The frames of a device reach the server, and the server's frames the device,
exactly when the selector of the device is not the magic number of the versions in
the clear. -/
theorem device_served_iff (blake : Blake3) (aead : Aead) (text : Text)
    (keyring : Table Nat Bytes) (selectors : Selectors)
    (parsed : parseKeyring blake text = .ok keyring)
    (built : selectorTable blake keyring = .ok selectors) (id : Nat) (secret : Text)
    (isDevice : (id, secret) ∈ devices text) (frame : Frame) (random : Randomness)
    (isV3 : frame.version = versionV3) (isId : frame.keyId = id) (fits : Fits frame) :
    (∃ buf, encodeWire blake aead random frame (key blake secret) = .ok buf ∧
      decodeServerFrame blake aead selectors buf = .ok (frame, key blake secret) ∧
      decodeClientFrame blake aead buf id (key blake secret) = .ok frame) ↔
    v3SelectorPrefix blake id ≠ toBeBytes 4 magic := by
  obtain ⟨buf, encoded⟩ := @encodeWire_ok blake aead frame isV3 fits.payload random (key blake secret)
  obtain ⟨size, selector⟩ := encodeWire_shape isV3 encoded
  have opened := decodeV3_encodeWire isV3 fits encoded
  rw [isId] at selector opened
  constructor
  · rintro ⟨other, isOther, served, _⟩ collides
    rw [encoded] at isOther
    cases isOther
    unfold decodeServerFrame at served
    rw [if_pos ((startsWithMagic_iff selector).mpr collides)] at served
    cases served
  · intro distinct
    refine ⟨buf, encoded, ?_, ?_⟩
    · rw [decodeServerFrame_of_selector selector distinct (by omega)
        (selectorTable_complete built (lookup_of_device parsed isDevice)), opened]
      rfl
    · unfold decodeClientFrame
      rw [if_neg (by rw [startsWithMagic_iff selector]; exact distinct)]
      exact opened

/-- The hash of the secret `second-device-secret-at-least-32-bytes`. -/
def secondKey : Bytes :=
  [96, 156, 1, 10, 224, 232, 10, 129, 65, 225, 202, 80, 80, 111, 185, 232, 81, 203, 148, 37,
    242, 184, 129, 187, 38, 54, 3, 242, 176, 184, 159, 169]

/-- The hash as it answers for the selectors and the secrets of three devices. -/
def deviceHash : Blake3 :=
  Blake3.sampled
    [(selectorDomain ++ toBeBytes 8 7,
      [125, 68, 8, 174, 26, 186, 110, 112, 130, 152, 239, 59, 103, 133, 231, 178, 105, 91, 243,
        125, 248, 251, 97, 93, 192, 164, 126, 24, 196, 189, 187, 170]),
    (selectorDomain ++ toBeBytes 8 8,
      [212, 195, 233, 104, 33, 207, 249, 130, 201, 184, 36, 173, 173, 60, 93, 103, 205, 171,
        238, 71, 48, 109, 24, 146, 180, 102, 182, 24, 239, 63, 157, 44]),
    (selectorDomain ++ toBeBytes 8 4194440299,
      [83, 70, 69, 67, 90, 240, 133, 162, 255, 218, 221, 0, 157, 6, 224, 48, 207, 41, 236, 65,
        80, 52, 230, 169, 175, 68, 141, 100, 42, 58, 20, 219]),
    (utf8 "v3-device-secret-at-least-32-bytes".toList, reportKey),
    (utf8 "second-device-secret-at-least-32-bytes".toList, secondKey)]
    (by decide +kernel)

/-- Start-up on a keyring text. -/
def started (text : Text) : Option (Table Nat Bytes × Selectors) :=
  (parseKeyring deviceHash text).toOption.bind fun keyring =>
    (selectorTable deviceHash keyring).toOption.map fun selectors => (keyring, selectors)

theorem of_started {text : Text} {keyring : Table Nat Bytes} {selectors : Selectors}
    (isStarted : started text = some (keyring, selectors)) :
    parseKeyring deviceHash text = .ok keyring ∧ selectorTable deviceHash keyring = .ok selectors := by
  unfold started at isStarted
  cases parsed : parseKeyring deviceHash text with
  | error error =>
      rw [parsed] at isStarted
      cases isStarted
  | ok result =>
      cases built : selectorTable deviceHash result with
      | error error =>
          rw [parsed] at isStarted
          simp only [Except.toOption, Option.bind_some, built, Option.map_none] at isStarted
          cases isStarted
      | ok table =>
          rw [parsed] at isStarted
          simp only [Except.toOption, Option.bind_some, built, Option.map_some] at isStarted
          cases isStarted
          exact ⟨rfl, built⟩

/-- The key of the first secret. -/
theorem reportKey_eq :
    key deviceHash "v3-device-secret-at-least-32-bytes".toList = reportKey := by
  decide +kernel

/-- Device 7 is served. -/
theorem device_served_seven :
    ∃ keyring selectors buf,
      parseKeyring deviceHash "7 v3-device-secret-at-least-32-bytes".toList = .ok keyring ∧
      selectorTable deviceHash keyring = .ok selectors ∧
      encodeWire deviceHash reportCipher reportRandom (lossReport 7) reportKey = .ok buf ∧
      decodeServerFrame deviceHash reportCipher selectors buf = .ok (lossReport 7, reportKey) := by
  have starts : (started "7 v3-device-secret-at-least-32-bytes".toList).isSome := by decide +kernel
  obtain ⟨⟨keyring, selectors⟩, isStarted⟩ := Option.isSome_iff_exists.mp starts
  obtain ⟨parsed, built⟩ := of_started isStarted
  obtain ⟨buf, encoded, served, _⟩ := (device_served_iff deviceHash reportCipher
    "7 v3-device-secret-at-least-32-bytes".toList keyring selectors parsed built 7
    "v3-device-secret-at-least-32-bytes".toList (by decide +kernel) (lossReport 7) reportRandom rfl
    rfl (lossReport_fits 7)).mpr (by decide)
  rw [reportKey_eq] at encoded served
  exact ⟨keyring, selectors, buf, parsed, built, encoded, served⟩

/-- The selector of device 4194440299 spells `SFEC`: start-up accepts the device, the
server refuses its frames and the device refuses the server's. -/
theorem device_not_served :
    ∃ keyring selectors buf,
      parseKeyring deviceHash "4194440299 v3-device-secret-at-least-32-bytes".toList = .ok keyring ∧
      selectorTable deviceHash keyring = .ok selectors ∧
      keyring.lookup 4194440299 = some reportKey ∧
      encodeWire deviceHash reportCipher reportRandom (lossReport 4194440299) reportKey = .ok buf ∧
      decodeServerFrame deviceHash reportCipher selectors buf = .error .legacyRemoved ∧
      (decodeClientFrame deviceHash reportCipher buf 4194440299 reportKey).toOption = none := by
  have starts : ((started "4194440299 v3-device-secret-at-least-32-bytes".toList).map
      fun result => result.1.lookup 4194440299) = some (some reportKey) := by
    decide +kernel
  obtain ⟨⟨keyring, selectors⟩, isStarted, isDevice⟩ := Option.map_eq_some_iff.mp starts
  obtain ⟨parsed, built⟩ := of_started isStarted
  obtain ⟨buf, encoded⟩ := @encodeWire_ok deviceHash reportCipher (lossReport 4194440299) rfl
    (lossReport_fits _).payload reportRandom reportKey
  have selector := (encodeWire_shape rfl encoded).2
  have refused : ((encodeWire deviceHash reportCipher reportRandom (lossReport 4194440299)
      reportKey).toOption.bind fun sent =>
        (decodeClientFrame deviceHash reportCipher sent 4194440299 reportKey).toOption) = none := by
    decide +kernel
  rw [encoded] at refused
  refine ⟨keyring, selectors, buf, parsed, built, isDevice, encoded, ?_, refused⟩
  unfold decodeServerFrame
  exact if_pos ((startsWithMagic_iff selector).mpr (by decide))

/-! ### The identity of a device is bound to its secret -/

/-- The blake3 hash does not collide on the secrets of a keyring. -/
def CollisionFree (blake : Blake3) (text : Text) : Prop :=
  ∀ left ∈ devices text, ∀ right ∈ devices text,
    key blake left.2 = key blake right.2 → left.2 = right.2

instance (blake : Blake3) (text : Text) : Decidable (CollisionFree blake text) :=
  inferInstanceAs (Decidable (∀ left ∈ devices text, ∀ right ∈ devices text, _ → _))

/-- The datagram `buf` needs no forgery once `sent` was sealed under `deviceKey`: if a
key of the keyring opens it at all, it is this key and `buf` carries the nonce and the
ciphertext of `sent`. -/
def Unforged (aead : Aead) (keyring : Table Nat Bytes) (deviceKey sent buf : Bytes) : Prop :=
  ∀ id other, keyring.lookup id = some other →
    (aead.decrypt other (nonceOf buf) (ciphertextOf buf)).isSome →
    other = deviceKey ∧ nonceOf buf = nonceOf sent ∧ ciphertextOf buf = ciphertextOf sent

/-- The datagram with another selector. -/
def withSelector (selector buf : Bytes) : Bytes := selector ++ buf.drop v3SelectorPrefixLen

theorem drop_withSelector (blake : Blake3) (id : Nat) (buf : Bytes) {count : Nat}
    (beyond : v3SelectorPrefixLen ≤ count) :
    (withSelector (v3SelectorPrefix blake id) buf).drop count = buf.drop count := by
  unfold withSelector
  rw [List.drop_append, length_v3SelectorPrefix, List.drop_eq_nil_of_le, List.nil_append,
    List.drop_drop]
  · congr 1
    omega
  · rw [length_v3SelectorPrefix]
    exact beyond

/-- Another selector leaves the nonce and the ciphertext as they are. -/
theorem withSelector_parts (blake : Blake3) (id : Nat) {buf : Bytes}
    (long : v3SelectorPrefixLen ≤ buf.length) :
    (withSelector (v3SelectorPrefix blake id) buf).length = buf.length ∧
    (withSelector (v3SelectorPrefix blake id) buf).take v3SelectorPrefixLen =
      v3SelectorPrefix blake id ∧
    nonceOf (withSelector (v3SelectorPrefix blake id) buf) = nonceOf buf ∧
    ciphertextOf (withSelector (v3SelectorPrefix blake id) buf) = ciphertextOf buf := by
  refine ⟨?_, ?_, ?_, ?_⟩
  · unfold withSelector
    rw [List.length_append, length_v3SelectorPrefix, List.length_drop]
    omega
  · exact List.take_left' (length_v3SelectorPrefix blake id)
  · unfold nonceOf field
    rw [List.drop_take, List.drop_take, drop_withSelector blake id buf (by decide)]
  · exact drop_withSelector blake id buf (by decide)

/-- The frame opens under the identity that the selector names. -/
theorem decodeV3_withSelector {blake : Blake3} {aead : Aead} {random : Randomness} {frame : Frame}
    {deviceKey buf : Bytes} (isV3 : frame.version = versionV3) (fits : Fits frame)
    (encoded : encodeWire blake aead random frame deviceKey = .ok buf) (id : Nat) :
    decodeV3 blake aead (withSelector (v3SelectorPrefix blake id) buf) id deviceKey =
      .ok { frame with keyId := id } := by
  obtain ⟨size, _⟩ := encodeWire_shape isV3 encoded
  have isSealed := encodeWire_seals isV3 encoded
  have long : v3SelectorPrefixLen ≤ buf.length := by
    rw [size]
    unfold v3SelectorPrefixLen v3Selector
    omega
  obtain ⟨sameLength, selector, sameNonce, sameCiphertext⟩ := withSelector_parts blake id long
  unfold decodeV3
  rw [if_neg (not_or.mpr ⟨by omega, not_not.mpr selector⟩), sameNonce, sameCiphertext,
    aead.decrypt_encrypt _ _ _ _ isSealed]
  exact @parseInner_inner { frame with keyId := id } isV3
    ⟨fits.kind, fits.session, fits.sequence, fits.group, fits.index, fits.data, fits.parity,
      fits.payload⟩

/-- Whatever an attacker makes of a sealed frame of one device without a forgery, the
server never takes it for a frame of a second device, exactly when the two devices
have different secrets or the server opens nothing for the second one. -/
theorem identity_bound_iff (blake : Blake3) (aead : Aead) (text : Text)
    (keyring : Table Nat Bytes) (selectors : Selectors)
    (parsed : parseKeyring blake text = .ok keyring)
    (built : selectorTable blake keyring = .ok selectors)
    (collisionFree : CollisionFree blake text) (left right : Nat) (leftSecret rightSecret : Text)
    (isLeft : (left, leftSecret) ∈ devices text) (isRight : (right, rightSecret) ∈ devices text)
    (frame : Frame) (random : Randomness) (sent : Bytes) (isV3 : frame.version = versionV3)
    (fits : Fits frame)
    (encoded : encodeWire blake aead random frame (key blake leftSecret) = .ok sent)
    (own : Unforged aead keyring (key blake leftSecret) sent sent) :
    (∀ buf, Unforged aead keyring (key blake leftSecret) sent buf →
      ∀ opened deviceKey, decodeServerFrame blake aead selectors buf = .ok (opened, deviceKey) →
        opened.keyId ≠ right) ↔
    leftSecret ≠ rightSecret ∨ v3SelectorPrefix blake right = toBeBytes 4 magic := by
  have rightKey := lookup_of_device parsed isRight
  constructor
  · intro bound
    by_contra neither
    rw [not_or, not_not] at neither
    obtain ⟨sameSecret, distinct⟩ := neither
    have size := (encodeWire_shape isV3 encoded).1
    have long : v3SelectorPrefixLen ≤ sent.length := by
      rw [size]
      unfold v3SelectorPrefixLen v3Selector
      omega
    obtain ⟨sameLength, selector, sameNonce, sameCiphertext⟩ := withSelector_parts blake right long
    have unforged : Unforged aead keyring (key blake leftSecret) sent
        (withSelector (v3SelectorPrefix blake right) sent) := by
      unfold Unforged
      rw [sameNonce, sameCiphertext]
      exact own
    have opened : decodeServerFrame blake aead selectors
        (withSelector (v3SelectorPrefix blake right) sent) =
          .ok ({ frame with keyId := right }, key blake leftSecret) := by
      rw [decodeServerFrame_of_selector selector distinct (by omega)
        (selectorTable_complete built rightKey), ← sameSecret,
        decodeV3_withSelector isV3 fits encoded right]
      rfl
    exact bound _ unforged _ _ opened rfl
  · intro condition buf unforged opened deviceKey isOpened isRightId
    obtain ⟨found, decoded, _⟩ := decodeServerFrame_opens isOpened
    rw [isRightId] at found decoded
    have isKey := lookup_selectorTable built found
    rw [rightKey] at isKey
    cases isKey
    obtain ⟨plain, decrypted, _⟩ := decodeV3_opens decoded
    have sameKey := (unforged right _ rightKey (by rw [decrypted]; rfl)).1
    rcases condition with otherSecret | collides
    · exact otherSecret (collisionFree _ isRight _ isLeft sameKey).symm
    · -- The server refuses every datagram that begins with the magic number.
      have selector : buf.take v3SelectorPrefixLen = v3SelectorPrefix blake right := by
        unfold decodeV3 at decoded
        split at decoded
        next => cases decoded
        next accepted => exact not_not.mp (not_or.mp accepted).2
      unfold decodeServerFrame at isOpened
      rw [if_pos ((startsWithMagic_iff selector).mpr collides)] at isOpened
      cases isOpened

/-- A report of device 7 that no other key of the keyring opens. -/
theorem report_own {text : Text} {keyring : Table Nat Bytes} {sent : Bytes}
    (parsed : parseKeyring deviceHash text = .ok keyring)
    (encoded : encodeWire deviceHash reportCipher reportRandom (lossReport 7) reportKey = .ok sent)
    (foreign : ∀ device ∈ devices text, key deviceHash device.2 ≠ reportKey →
      ((encodeWire deviceHash reportCipher reportRandom (lossReport 7) reportKey).toOption.bind
        fun buf => reportCipher.decrypt (key deviceHash device.2) (nonceOf buf)
          (ciphertextOf buf)) = none) :
    Unforged reportCipher keyring reportKey sent sent := by
  intro id other found opens
  refine ⟨?_, rfl, rfl⟩
  obtain ⟨secret, isDevice, isKey⟩ := device_of_lookup parsed found
  by_contra different
  rw [isKey] at different opens
  have refused := foreign _ isDevice different
  rw [encoded] at refused
  have closed : reportCipher.decrypt (key deviceHash secret) (nonceOf sent) (ciphertextOf sent) =
      none := refused
  rw [closed] at opens
  cases opens

/-- Two devices with secrets of their own. -/
def distinctSecrets : Text :=
  "7 v3-device-secret-at-least-32-bytes\n8 second-device-secret-at-least-32-bytes".toList

/-- A report of device 7 is never taken for one of device 8. -/
theorem identity_bound_distinct_secrets :
    ∃ keyring selectors sent,
      parseKeyring deviceHash distinctSecrets = .ok keyring ∧
      selectorTable deviceHash keyring = .ok selectors ∧
      encodeWire deviceHash reportCipher reportRandom (lossReport 7) reportKey = .ok sent ∧
      ∀ buf, Unforged reportCipher keyring reportKey sent buf → ∀ opened deviceKey,
        decodeServerFrame deviceHash reportCipher selectors buf = .ok (opened, deviceKey) →
        opened.keyId ≠ 8 := by
  have starts : (started distinctSecrets).isSome := by decide +kernel
  obtain ⟨⟨keyring, selectors⟩, isStarted⟩ := Option.isSome_iff_exists.mp starts
  obtain ⟨parsed, built⟩ := of_started isStarted
  obtain ⟨sent, encoded⟩ := @encodeWire_ok deviceHash reportCipher (lossReport 7) rfl
    (lossReport_fits 7).payload reportRandom reportKey
  have own := report_own parsed encoded (by decide +kernel)
  refine ⟨keyring, selectors, sent, parsed, built, encoded, ?_⟩
  rw [← reportKey_eq] at encoded own ⊢
  exact (identity_bound_iff deviceHash reportCipher distinctSecrets keyring selectors parsed built
    (by decide +kernel) 7 8 "v3-device-secret-at-least-32-bytes".toList
    "second-device-secret-at-least-32-bytes".toList (by decide +kernel) (by decide +kernel)
    (lossReport 7) reportRandom sent rfl (lossReport_fits 7) encoded own).mpr
    (Or.inl (by decide +kernel))

/-- Two devices with one secret. -/
def sharedSecret : Text :=
  "7 v3-device-secret-at-least-32-bytes\n8 v3-device-secret-at-least-32-bytes".toList

/-- A report of device 7 with the selector of device 8 is taken for one of device 8. -/
theorem identity_rewritten :
    ∃ keyring selectors sent,
      parseKeyring deviceHash sharedSecret = .ok keyring ∧
      selectorTable deviceHash keyring = .ok selectors ∧
      keyring.lookup 7 = some reportKey ∧
      encodeWire deviceHash reportCipher reportRandom (lossReport 7) reportKey = .ok sent ∧
      Unforged reportCipher keyring reportKey sent
        (withSelector (v3SelectorPrefix deviceHash 8) sent) ∧
      decodeServerFrame deviceHash reportCipher selectors
        (withSelector (v3SelectorPrefix deviceHash 8) sent) = .ok (lossReport 8, reportKey) := by
  have starts : ((started sharedSecret).map fun result =>
      (result.1.lookup 7, result.1.lookup 8)) = some (some reportKey, some reportKey) := by
    decide +kernel
  obtain ⟨⟨keyring, selectors⟩, isStarted, isDevice⟩ := Option.map_eq_some_iff.mp starts
  obtain ⟨first, second⟩ := Prod.mk.inj isDevice
  obtain ⟨parsed, built⟩ := of_started isStarted
  obtain ⟨sent, encoded⟩ := @encodeWire_ok deviceHash reportCipher (lossReport 7) rfl
    (lossReport_fits 7).payload reportRandom reportKey
  have size := (encodeWire_shape rfl encoded).1
  have long : v3SelectorPrefixLen ≤ sent.length := by
    rw [size]
    decide
  obtain ⟨sameLength, selector, sameNonce, sameCiphertext⟩ := withSelector_parts deviceHash 8 long
  refine ⟨keyring, selectors, sent, parsed, built, first, encoded, ?_, ?_⟩
  · unfold Unforged
    rw [sameNonce, sameCiphertext]
    exact report_own parsed encoded (by decide +kernel)
  · rw [decodeServerFrame_of_selector selector (by decide) (by rw [sameLength, size]; decide)
      (selectorTable_complete built second), decodeV3_withSelector rfl (lossReport_fits 7) encoded 8]
    rfl

end SmartFecTunnel.Wire
