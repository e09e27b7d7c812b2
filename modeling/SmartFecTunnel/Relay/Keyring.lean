import SmartFecTunnel.Auth.Envelope
import SmartFecTunnel.Wire.Keyring

/-!
Contract: the keyring of the QUIC relay (`parse_keyring` in `src/quic_relay.rs`),
beside the one of the FEC server (`parse_keyring` in `src/main.rs`).  Both servers
read the same file.

Owns:
- the relay's parser with its error texts;
- a line-by-line simulation between the two loops;
- when the two agree on a text: always, unless the text is well formed and has more
  devices than the FEC server takes.

Does not own: the permissions of the keyring file.
-/

namespace SmartFecTunnel.Relay

open SmartFecTunnel.Library
open SmartFecTunnel.Auth
open SmartFecTunnel.Wire (key maxDeviceKeys deviceOf devices)

/-! ### The parser -/

inductive KeyringError where
  | missingDeviceId
  | invalidDeviceId (line : Nat)
  | missingDeviceSecret
  | invalidEntry (line : Nat)
  | noDevices
deriving DecidableEq, Repr

def KeyringError.message : KeyringError → String
  | .missingDeviceId => "missing device id"
  | .invalidDeviceId line => s!"invalid device id on line {line}"
  | .missingDeviceSecret => "missing device secret"
  | .invalidEntry line => s!"invalid keyring entry on line {line}"
  | .noDevices => "keyring contains no devices"

/-- An entry: a nonzero id that is not in the table, a secret of at least 32 bytes, and
nothing else. -/
def parseEntry (lineNo : Nat) (keys : Table Nat Text) (fields : List Text) :
    Except KeyringError (Nat × Text) :=
  match fields with
  | [] => .error .missingDeviceId
  | first :: rest =>
    match parseU64 first with
    | none => .error (.invalidDeviceId lineNo)
    | some id =>
      match rest with
      | [] => .error .missingDeviceSecret
      | secret :: more =>
        if id = 0 ∨ (utf8 secret).length < 32 ∨ more ≠ [] ∨ id ∈ keys then
          .error (.invalidEntry lineNo)
        else .ok (id, secret)

/-- The loop over the lines, of which `lineNo` is the number of the first. -/
def parseLines : (lineNo : Nat) → List Text → Table Nat Text →
    Except KeyringError (Table Nat Text)
  | _, [], keys => .ok keys
  | lineNo, line :: rest, keys =>
    let line := trim line
    if line.isEmpty ∨ line.head? = some '#' then parseLines (lineNo + 1) rest keys
    else
      match parseEntry lineNo keys (splitWhitespace line) with
      | .error error => .error error
      | .ok (id, secret) => parseLines (lineNo + 1) rest (keys.insert id secret)

def parseKeyring (text : Text) : Except KeyringError (Table Nat Text) :=
  match parseLines 1 (lines text) ∅ with
  | .error error => .error error
  | .ok keys => if keys.size = 0 then .error .noDevices else .ok keys

/-! ### Agreement -/

/-- Both parsers accept the text or neither does, and then the table of the FEC server
holds the device key of each secret in the relay's, and nothing else. -/
structure Agree (blake : Blake3) (text : Text) : Prop where
  accepted : (Wire.parseKeyring blake text).isOk = (parseKeyring text).isOk
  same : ∀ keyring keys, Wire.parseKeyring blake text = .ok keyring →
    parseKeyring text = .ok keys →
    ∀ id, keyring.lookup id = (keys.lookup id).map fun secret => deviceKey blake (utf8 secret)

/-- Blank lines and comments. -/
def Skipped (line : Text) : Prop := (trim line).isEmpty ∨ (trim line).head? = some '#'

instance (line : Text) : Decidable (Skipped line) := inferInstanceAs (Decidable (_ ∨ _))

/-- Every line is skipped or the entry of a device, and no id is repeated. -/
structure WellFormed (list : List Text) : Prop where
  entries : ∀ line ∈ list, ¬ Skipped line → (deviceOf line).isSome
  distinct : ((list.filterMap deviceOf).map Prod.fst).Nodup

/-! ### One line -/

/-- What the two parsers make of the words of an entry. -/
theorem entry_cases (lineNo : Nat) (keys : Table Nat Text) (fields : List Text) :
    ((∀ number, ∃ error, Wire.parseEntry number fields = .error error) ∧
      ∃ error, parseEntry lineNo keys fields = .error error) ∨
    ∃ id secret, (∀ number, Wire.parseEntry number fields = .ok (id, secret)) ∧
      parseEntry lineNo keys fields =
        if id ∈ keys then .error (.invalidEntry lineNo) else .ok (id, secret) := by
  unfold Wire.parseEntry parseEntry
  cases fields with
  | nil => simp
  | cons first rest =>
    dsimp only
    cases parseU64 first with
    | none => simp
    | some id =>
      cases rest with
      | nil => simp
      | cons secret more =>
        dsimp only
        by_cases invalid : id = 0 ∨ (utf8 secret).length < 32 ∨ more ≠ []
        · have refused : id = 0 ∨ (utf8 secret).length < 32 ∨ more ≠ [] ∨ id ∈ keys := by tauto
          rw [if_pos refused]
          simp [invalid]
        · have narrowed : (id = 0 ∨ (utf8 secret).length < 32 ∨ more ≠ [] ∨ id ∈ keys) ↔
              id ∈ keys := by tauto
          refine Or.inr ⟨id, secret, fun _ => if_neg invalid, ?_⟩
          simp only [narrowed]

theorem parseLine_of_skipped (lineNo : Nat) {line : Text} (skipped : Skipped line) :
    Wire.parseLine lineNo line = none := if_pos skipped

theorem parseLine_of_shown (lineNo : Nat) {line : Text} (shown : ¬ Skipped line) :
    Wire.parseLine lineNo line =
      some (Wire.parseEntry lineNo (splitWhitespace (trim line))) := if_neg shown

theorem deviceOf_of_skipped {line : Text} (skipped : Skipped line) : deviceOf line = none := by
  rw [deviceOf, parseLine_of_skipped 0 skipped]

/-- What the two loops make of a line that is not skipped. -/
theorem line_cases (lineNo : Nat) (keys : Table Nat Text) {line : Text}
    (shown : ¬ Skipped line) :
    (deviceOf line = none ∧ (∃ error, Wire.parseLine lineNo line = some (.error error)) ∧
      ∃ error, parseEntry lineNo keys (splitWhitespace (trim line)) = .error error) ∨
    ∃ id secret, deviceOf line = some (id, secret) ∧
      Wire.parseLine lineNo line = some (.ok (id, secret)) ∧
      parseEntry lineNo keys (splitWhitespace (trim line)) =
        if id ∈ keys then .error (.invalidEntry lineNo) else .ok (id, secret) := by
  rw [deviceOf, parseLine_of_shown 0 shown, parseLine_of_shown lineNo shown]
  rcases entry_cases lineNo keys (splitWhitespace (trim line)) with
    ⟨refused, relayRefused⟩ | ⟨id, secret, read, relayRead⟩
  · obtain ⟨first, isFirst⟩ := refused 0
    obtain ⟨error, isError⟩ := refused lineNo
    left
    simp [isFirst, isError, relayRefused]
  · right
    exact ⟨id, secret, by rw [read 0], by rw [read lineNo], relayRead⟩

/-! ### The relay's loop -/

theorem parseLines_cons_of_skipped (lineNo : Nat) {line : Text} (skipped : Skipped line)
    (rest : List Text) (keys : Table Nat Text) :
    parseLines lineNo (line :: rest) keys = parseLines (lineNo + 1) rest keys := by
  rw [parseLines]
  exact if_pos skipped

theorem parseLines_cons_of_shown (lineNo : Nat) {line : Text} (shown : ¬ Skipped line)
    (rest : List Text) (keys : Table Nat Text) :
    parseLines lineNo (line :: rest) keys =
      match parseEntry lineNo keys (splitWhitespace (trim line)) with
      | .error error => .error error
      | .ok (id, secret) => parseLines (lineNo + 1) rest (keys.insert id secret) := by
  rw [parseLines]
  exact if_neg shown

theorem wellFormed_cons_of_skipped {line : Text} (skipped : Skipped line) (rest : List Text) :
    WellFormed (line :: rest) ↔ WellFormed rest := by
  constructor
  · intro wellFormed
    have distinct := wellFormed.distinct
    rw [List.filterMap_cons_none (deviceOf_of_skipped skipped)] at distinct
    exact ⟨fun other member => wellFormed.entries other (List.mem_cons_of_mem _ member), distinct⟩
  · intro wellFormed
    refine ⟨?_, ?_⟩
    · simp only [List.forall_mem_cons]
      exact ⟨fun shown => absurd skipped shown, wellFormed.entries⟩
    · rw [List.filterMap_cons_none (deviceOf_of_skipped skipped)]
      exact wellFormed.distinct

theorem wellFormed_cons_of_device {line : Text} {device : Nat × Text}
    (isDevice : deviceOf line = some device) (rest : List Text) :
    WellFormed (line :: rest) ↔
      WellFormed rest ∧ ∀ other ∈ rest.filterMap deviceOf, other.1 ≠ device.1 := by
  have fresh : device.1 ∉ (rest.filterMap deviceOf).map Prod.fst ↔
      ∀ other ∈ rest.filterMap deviceOf, other.1 ≠ device.1 := by
    rw [List.mem_map, not_exists]
    exact forall_congr' fun other => not_and
  constructor
  · intro wellFormed
    have distinct := wellFormed.distinct
    rw [List.filterMap_cons_some isDevice, List.map_cons, List.nodup_cons, fresh] at distinct
    exact ⟨⟨fun other member => wellFormed.entries other (List.mem_cons_of_mem _ member),
      distinct.2⟩, distinct.1⟩
  · intro both
    refine ⟨?_, ?_⟩
    · simp only [List.forall_mem_cons, isDevice]
      exact ⟨fun _ => rfl, both.1.entries⟩
    · rw [List.filterMap_cons_some isDevice, List.map_cons, List.nodup_cons, fresh]
      exact ⟨both.2, both.1.distinct⟩

/-- The relay accepts the lines exactly when they are well formed and repeat no id of the
table, and adds their devices to it. -/
theorem parseLines_isOk_iff (lineNo : Nat) (list : List Text) (keys : Table Nat Text) :
    (∃ after, parseLines lineNo list keys = .ok after) ↔
      WellFormed list ∧ ∀ device ∈ list.filterMap deviceOf, device.1 ∉ keys := by
  induction list generalizing lineNo keys with
  | nil => simpa [parseLines] using WellFormed.mk (by simp) (by simp)
  | cons line rest inductionHypothesis =>
      by_cases skipped : Skipped line
      · rw [parseLines_cons_of_skipped lineNo skipped, inductionHypothesis,
          wellFormed_cons_of_skipped skipped,
          List.filterMap_cons_none (deviceOf_of_skipped skipped)]
      · rw [parseLines_cons_of_shown lineNo skipped]
        rcases line_cases lineNo keys skipped with
          ⟨noDevice, _, error, refused⟩ | ⟨id, secret, isDevice, _, read⟩
        · rw [refused]
          simp only [reduceCtorEq, exists_false, false_iff, not_and]
          intro wellFormed
          have shown := wellFormed.entries line List.mem_cons_self skipped
          rw [noDevice] at shown
          cases shown
        · rw [read, wellFormed_cons_of_device isDevice, List.filterMap_cons_some isDevice]
          by_cases known : id ∈ keys
          · simp [known]
          · simp only [known, ↓reduceIte, inductionHypothesis, Table.mem_insert, not_or,
              List.forall_mem_cons, not_false_eq_true, true_and]
            constructor
            · intro both
              exact ⟨⟨both.1, fun other member => (both.2 other member).1⟩,
                fun other member => (both.2 other member).2⟩
            · intro both
              exact ⟨both.1.1, fun other member => ⟨both.1.2 other member, both.2 other member⟩⟩

theorem size_parseLines {lineNo : Nat} {list : List Text} {keys after : Table Nat Text}
    (parsed : parseLines lineNo list keys = .ok after) :
    after.size = keys.size + (list.filterMap deviceOf).length := by
  induction list generalizing lineNo keys with
  | nil =>
      cases parsed
      rfl
  | cons line rest inductionHypothesis =>
      by_cases skipped : Skipped line
      · rw [parseLines_cons_of_skipped lineNo skipped] at parsed
        rw [List.filterMap_cons_none (deviceOf_of_skipped skipped), inductionHypothesis parsed]
      · rw [parseLines_cons_of_shown lineNo skipped] at parsed
        rcases line_cases lineNo keys skipped with
          ⟨_, _, error, refused⟩ | ⟨id, secret, isDevice, _, read⟩
        · rw [refused] at parsed
          cases parsed
        · rw [read] at parsed
          by_cases known : id ∈ keys
          · simp [known] at parsed
          · simp only [known, ↓reduceIte] at parsed
            rw [List.filterMap_cons_some isDevice, inductionHypothesis parsed,
              Table.size_insert_of_notMem secret known, List.length_cons]
            omega

/-! ### Both loops -/

/-- The two tables after the same lines. -/
structure Matches (blake : Blake3) (keyring : Table Nat Bytes) (keys : Table Nat Text) :
    Prop where
  same : ∀ id, keyring.lookup id = (keys.lookup id).map fun secret => deviceKey blake (utf8 secret)
  size : keyring.size = keys.size

theorem Matches.mem_iff {blake : Blake3} {keyring : Table Nat Bytes} {keys : Table Nat Text}
    (both : Matches blake keyring keys) (id : Nat) : id ∈ keyring ↔ id ∈ keys := by
  rw [Table.mem_iff_exists_lookup, Table.mem_iff_exists_lookup, both.same]
  simp

theorem Matches.insert {blake : Blake3} {keyring : Table Nat Bytes} {keys : Table Nat Text}
    (both : Matches blake keyring keys) {id : Nat} (fresh : id ∉ keys) (secret : Text) :
    Matches blake (keyring.insert id (key blake secret)) (keys.insert id secret) := by
  constructor
  · intro other
    rw [Table.lookup_insert_eq, Table.lookup_insert_eq]
    split
    · rfl
    · exact both.same other
  · have newId : id ∉ keyring := fun known => fresh ((both.mem_iff id).mp known)
    rw [Table.size_insert_of_notMem _ newId, Table.size_insert_of_notMem _ fresh, both.size]

/-- From matching tables the two loops have the same result, except that the FEC server
stops when there are too many devices. -/
theorem simulation {blake : Blake3} {lineNo : Nat} {list : List Text}
    {keyring : Table Nat Bytes} {keys : Table Nat Text} (both : Matches blake keyring keys)
    (few : keys.size ≤ maxDeviceKeys) :
    (∀ result, Wire.parseLines blake lineNo list keyring = .ok result →
      ∃ after, parseLines lineNo list keys = .ok after ∧ after.size ≤ maxDeviceKeys ∧
        Matches blake result after) ∧
    ∀ after, parseLines lineNo list keys = .ok after → after.size ≤ maxDeviceKeys →
      ∃ result, Wire.parseLines blake lineNo list keyring = .ok result := by
  induction list generalizing lineNo keyring keys with
  | nil => simp [parseLines, Wire.parseLines, both, few]
  | cons line rest inductionHypothesis =>
      rw [Wire.parseLines]
      by_cases skipped : Skipped line
      · rw [parseLines_cons_of_skipped lineNo skipped, parseLine_of_skipped lineNo skipped]
        exact inductionHypothesis both few
      · rw [parseLines_cons_of_shown lineNo skipped]
        rcases line_cases lineNo keys skipped with
          ⟨_, ⟨_, isError⟩, _, refused⟩ | ⟨id, secret, _, isDevice, read⟩
        · rw [isError, refused]
          simp
        · rw [isDevice, read]
          dsimp only
          by_cases known : id ∈ keys
          · rw [if_pos known, if_pos ((both.mem_iff id).mpr known)]
            simp
          · rw [if_neg known, if_neg fun inRing => known ((both.mem_iff id).mp inRing)]
            have next := both.insert known secret
            by_cases crowded : maxDeviceKeys < (keyring.insert id (key blake secret)).size
            · rw [if_pos crowded]
              refine ⟨by simp, ?_⟩
              intro after parsed fits
              have grown := size_parseLines parsed
              rw [next.size] at crowded
              omega
            · rw [if_neg crowded]
              rw [next.size, not_lt] at crowded
              exact inductionHypothesis next crowded

theorem parseKeyring_ok_iff {text : Text} {keys : Table Nat Text} :
    parseKeyring text = .ok keys ↔ parseLines 1 (lines text) ∅ = .ok keys ∧ keys.size ≠ 0 := by
  unfold parseKeyring
  cases parseLines 1 (lines text) ∅ with
  | error => simp
  | ok after =>
    by_cases empty : after.size = 0
    · simp only [empty, ↓reduceIte, reduceCtorEq, Except.ok.injEq, false_iff, not_and, not_not]
      exact fun same => same ▸ empty
    · simp only [empty, ↓reduceIte, Except.ok.injEq]
      exact ⟨fun same => ⟨same, same ▸ empty⟩, And.left⟩

theorem wire_parseKeyring_ok_iff {blake : Blake3} {text : Text} {keyring : Table Nat Bytes} :
    Wire.parseKeyring blake text = .ok keyring ↔
      Wire.parseLines blake 1 (lines text) ∅ = .ok keyring ∧ keyring.size ≠ 0 := by
  unfold Wire.parseKeyring
  cases Wire.parseLines blake 1 (lines text) ∅ with
  | error => simp
  | ok result =>
    by_cases empty : result.size = 0
    · simp only [empty, ↓reduceIte, reduceCtorEq, Except.ok.injEq, false_iff, not_and, not_not]
      exact fun same => same ▸ empty
    · simp only [empty, ↓reduceIte, Except.ok.injEq]
      exact ⟨fun same => ⟨same, same ▸ empty⟩, And.left⟩

theorem matches_empty (blake : Blake3) : Matches blake ∅ ∅ := ⟨fun _ => rfl, rfl⟩

/-- The relay accepts what the FEC server accepts, with a matching table. -/
theorem relay_of_wire {blake : Blake3} {text : Text} {keyring : Table Nat Bytes}
    (accepted : Wire.parseKeyring blake text = .ok keyring) :
    ∃ keys, parseKeyring text = .ok keys ∧ keys.size ≤ maxDeviceKeys ∧
      Matches blake keyring keys := by
  obtain ⟨parsed, nonempty⟩ := wire_parseKeyring_ok_iff.mp accepted
  obtain ⟨keys, relayParsed, few, both⟩ :=
    (simulation (matches_empty blake) (Nat.zero_le _)).1 keyring parsed
  exact ⟨keys, parseKeyring_ok_iff.mpr ⟨relayParsed, both.size ▸ nonempty⟩, few, both⟩

/-- The FEC server accepts what the relay accepts, unless there are too many devices. -/
theorem wire_of_relay (blake : Blake3) {text : Text} {keys : Table Nat Text}
    (accepted : parseKeyring text = .ok keys) (few : keys.size ≤ maxDeviceKeys) :
    ∃ keyring, Wire.parseKeyring blake text = .ok keyring := by
  obtain ⟨parsed, nonempty⟩ := parseKeyring_ok_iff.mp accepted
  have run := @simulation blake 1 (lines text) ∅ ∅ (matches_empty blake) (Nat.zero_le _)
  obtain ⟨keyring, wireParsed⟩ := run.2 keys parsed few
  obtain ⟨after, relayParsed, _, both⟩ := run.1 keyring wireParsed
  rw [parsed] at relayParsed
  cases relayParsed
  exact ⟨keyring, wire_parseKeyring_ok_iff.mpr ⟨wireParsed, both.size.symm ▸ nonempty⟩⟩

/-- A well-formed text with a device is accepted by the relay, whatever their number. -/
theorem relay_accepts {text : Text} (wellFormed : WellFormed (lines text))
    (nonempty : devices text ≠ []) :
    ∃ keys, parseKeyring text = .ok keys ∧ keys.size = (devices text).length := by
  obtain ⟨keys, parsed⟩ := (parseLines_isOk_iff 1 (lines text) ∅).mpr
    ⟨wellFormed, fun device _ => AList.notMem_empty device.1⟩
  have size : keys.size = 0 + (devices text).length := size_parseLines parsed
  rw [Nat.zero_add] at size
  refine ⟨keys, parseKeyring_ok_iff.mpr ⟨parsed, ?_⟩, size⟩
  rw [size]
  exact fun empty => nonempty (List.length_eq_zero_iff.mp empty)

/-- Agreement is acceptance by the FEC server of all that the relay accepts. -/
theorem Agree.of_accepts {blake : Blake3} {text : Text}
    (accepts : ∀ keys, parseKeyring text = .ok keys → keys.size ≤ maxDeviceKeys) :
    Agree blake text := by
  constructor
  · cases isWire : Wire.parseKeyring blake text with
    | ok keyring =>
      obtain ⟨keys, isRelay, _⟩ := relay_of_wire isWire
      rw [isRelay]
      rfl
    | error =>
      cases isRelay : parseKeyring text with
      | error => rfl
      | ok keys =>
        obtain ⟨keyring, accepted⟩ := wire_of_relay blake isRelay (accepts keys isRelay)
        rw [isWire] at accepted
        cases accepted
  · intro keyring keys isWire isRelay
    obtain ⟨after, relayParsed, _, both⟩ := relay_of_wire isWire
    rw [isRelay] at relayParsed
    cases relayParsed
    exact both.same

/-- A well-formed text with more devices than the FEC server takes divides the two. -/
theorem not_agree {blake : Blake3} {text : Text} (wellFormed : WellFormed (lines text))
    (crowded : maxDeviceKeys < (devices text).length) : ¬ Agree blake text := by
  intro agree
  have nonempty : devices text ≠ [] := by
    intro empty
    rw [empty] at crowded
    exact absurd crowded (Nat.not_lt_zero _)
  obtain ⟨keys, isRelay, size⟩ := relay_accepts wellFormed nonempty
  have accepted := agree.accepted
  rw [isRelay] at accepted
  cases isWire : Wire.parseKeyring blake text with
  | error =>
    rw [isWire] at accepted
    cases accepted
  | ok keyring =>
    obtain ⟨after, relayParsed, few, _⟩ := relay_of_wire isWire
    rw [isRelay] at relayParsed
    cases relayParsed
    omega

/-- The two parsers agree on a text exactly when it has at most 65536 devices or is not
well formed, so that both refuse it. -/
theorem keyrings_agree_iff (blake : Blake3) (text : Text) :
    Agree blake text ↔
      (WellFormed (lines text) → (devices text).length ≤ maxDeviceKeys) := by
  constructor
  · intro agree wellFormed
    by_contra crowded
    exact not_agree wellFormed (not_le.mp crowded) agree
  · intro few
    apply Agree.of_accepts
    intro keys isRelay
    have parsed := (parseKeyring_ok_iff.mp isRelay).1
    have wellFormed := ((parseLines_isOk_iff 1 (lines text) ∅).mp ⟨keys, parsed⟩).1
    have size : keys.size = 0 + (devices text).length := size_parseLines parsed
    rw [size, Nat.zero_add]
    exact few wellFormed

/-! ### A keyring of 65537 devices -/

/-- 32 times the letter `x`. -/
def plainSecret : Text := List.replicate 32 'x'

def plainEntry (id : Nat) : Text := decimalDigits 5 id ++ ' ' :: plainSecret

/-- The entries of the devices 1, 2, 3 and so on. -/
def plainEntries (count : Nat) : List Text :=
  (List.range count).map fun index => plainEntry (index + 1)

/-- The entries, each on a line of its own. -/
def plainKeyring (count : Nat) : Text := (plainEntries count).flatMap fun line => line ++ ['\n']

theorem isWhitespace_digit {char : Char} (digit : 48 ≤ char.toNat ∧ char.toNat ≤ 57) :
    ¬ isWhitespace char = true := by
  simp only [isWhitespace, Bool.decide_or, Bool.or_eq_true, decide_eq_true_eq]
  omega

/-- The entry has digits, one space and the letters of the secret. -/
theorem mem_plainEntry {id : Nat} {char : Char} (member : char ∈ plainEntry id) :
    (48 ≤ char.toNat ∧ char.toNat ≤ 57) ∨ char = ' ' ∨ char = 'x' := by
  rcases List.mem_append.mp member with digit | rest
  · exact Or.inl (decimalDigits_plain 5 id char digit)
  · cases rest with
    | head => exact Or.inr (Or.inl rfl)
    | tail _ letter => exact Or.inr (Or.inr (List.eq_of_mem_replicate letter))

theorem getLast?_plainEntry (id : Nat) : (plainEntry id).getLast? = some 'x' := by
  unfold plainEntry
  rw [List.getLast?_append]
  rfl

theorem plainEntry_plain (id : Nat) :
    '\n' ∉ plainEntry id ∧ (plainEntry id).getLast? ≠ some '\r' := by
  constructor
  · intro member
    exact absurd (mem_plainEntry member) (by decide)
  · rw [getLast?_plainEntry]
    decide

theorem head?_plainEntry (id : Nat) :
    ∃ char, (plainEntry id).head? = some char ∧ 48 ≤ char.toNat ∧ char.toNat ≤ 57 :=
  ⟨_, rfl, decimalDigits_plain 5 id _ List.mem_cons_self⟩

theorem trim_plainEntry (id : Nat) : trim (plainEntry id) = plainEntry id := by
  obtain ⟨first, isFirst, digit⟩ := head?_plainEntry id
  apply trim_eq_self
  · intro char isHead
    rw [isFirst] at isHead
    cases isHead
    exact isWhitespace_digit digit
  · intro char isLast
    rw [getLast?_plainEntry] at isLast
    cases isLast
    decide

theorem shown_plainEntry (id : Nat) : ¬ Skipped (plainEntry id) := by
  obtain ⟨first, isFirst, digit⟩ := head?_plainEntry id
  unfold Skipped
  rw [trim_plainEntry, isFirst]
  rintro (empty | comment)
  · rw [List.isEmpty_iff.mp empty] at isFirst
    cases isFirst
  · cases comment
    exact absurd digit (by decide)

theorem deviceOf_plainEntry {id : Nat} (positive : 0 < id) (small : id < 100000) :
    deviceOf (plainEntry id) = some (id, plainSecret) := by
  have words : splitWhitespace (plainEntry id) = [decimalDigits 5 id, plainSecret] := by
    apply splitWhitespace_pair
    · exact List.cons_ne_nil _ _
    · exact List.cons_ne_nil _ _
    · intro char member
      exact isWhitespace_digit (decimalDigits_plain 5 id char member)
    · intro char member
      rw [List.eq_of_mem_replicate member]
      decide
  have number : parseU64 (decimalDigits 5 id) = some id :=
    parseU64_decimalDigits (by decide) small (by omega)
  have long : ¬ (utf8 plainSecret).length < 32 := by decide
  rw [deviceOf, parseLine_of_shown 0 (shown_plainEntry id), trim_plainEntry, words, Wire.parseEntry,
    number]
  simp [positive.ne', long]

theorem deviceOf_plainEntry_of_mem {index count : Nat} (member : index ∈ List.range count)
    (small : count < 100000) : deviceOf (plainEntry (index + 1)) = some (index + 1, plainSecret) := by
  have below := List.mem_range.mp member
  exact deviceOf_plainEntry (Nat.succ_pos index) (by omega)

theorem devices_plainEntries {count : Nat} (small : count < 100000) :
    (plainEntries count).filterMap deviceOf =
      (List.range count).map fun index => (index + 1, plainSecret) := by
  unfold plainEntries
  rw [List.filterMap_map]
  apply List.filterMap_eq_map_iff_forall_eq_some.mpr
  intro index member
  exact deviceOf_plainEntry_of_mem member small

theorem lines_plainKeyring (count : Nat) : lines (plainKeyring count) = plainEntries count := by
  apply lines_flatMap
  intro line member
  obtain ⟨index, -, rfl⟩ := List.mem_map.mp member
  exact plainEntry_plain (index + 1)

theorem wellFormed_plainEntries {count : Nat} (small : count < 100000) :
    WellFormed (plainEntries count) := by
  constructor
  · intro line member _
    obtain ⟨index, isIndex, rfl⟩ := List.mem_map.mp member
    rw [deviceOf_plainEntry_of_mem isIndex small]
    rfl
  · rw [devices_plainEntries small, List.map_map]
    exact List.nodup_range.map (Nat.succ_injective)

/-- The relay takes a keyring of 65537 devices, the FEC server does not, whatever the hash. -/
theorem crowded_keyring : ¬ ∃ blake, Agree blake (plainKeyring 65537) := by
  rintro ⟨blake, agree⟩
  revert agree
  apply not_agree
  · rw [lines_plainKeyring]
    exact wellFormed_plainEntries (by decide)
  · rw [devices, lines_plainKeyring, devices_plainEntries (by decide), List.length_map,
      List.length_range]
    decide

end SmartFecTunnel.Relay
