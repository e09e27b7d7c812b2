import SmartFecTunnel.Library.BigEndian

/-!
Contract: the two cryptographic libraries the programs call, as interfaces.

Owns:
- `Blake3`, an unkeyed and a keyed hash with 32-byte results, and one with given
  values;
- `Blake3.Asks`, for which message something asks the keyed hash;
- `Aead`, authenticated encryption that opens what it sealed;
- `Aead.Authentic`, that a cipher opens nothing else, and a cipher that has it;
- `Aead.sampled`, a cipher that takes given values on a few inputs, and
  `Aead.streaming`, one with a given pad and given tags.

Does not own: any secrecy or unforgeability assumption.  What an attacker can
produce is stated where an attacker is modelled.
-/

namespace SmartFecTunnel.Library

/-- The `blake3` crate.  A hash of several updates is the hash of their
concatenation. -/
structure Blake3 where
  hash : Bytes → Bytes
  keyed : (key input : Bytes) → Bytes
  hash_length : ∀ input, (hash input).length = 32
  keyed_length : ∀ key input, (keyed key input).length = 32

theorem length_zeros (_key _input : Bytes) : (List.replicate 32 (0 : UInt8)).length = 32 :=
  List.length_replicate

/-- A hash that takes the given values and is zero elsewhere. -/
def Blake3.sampled (samples : List (Bytes × Bytes))
    (lengths : ∀ sample ∈ samples, sample.2.length = 32) : Blake3 where
  hash := fun input =>
    ((samples.find? fun sample => sample.1 = input).map Prod.snd).getD (List.replicate 32 0)
  keyed := fun _ _ => List.replicate 32 0
  hash_length := by
    intro input
    cases found : samples.find? fun sample => sample.1 = input with
    | none => rfl
    | some sample => exact lengths sample (List.mem_of_find?_eq_some found)
  keyed_length := length_zeros

/-- The same hash but for one answer of the keyed one. -/
def Blake3.answering (blake : Blake3) (key message answer : Bytes)
    (isLength : answer.length = 32) : Blake3 where
  hash := blake.hash
  keyed := fun other input =>
    if other = key ∧ input = message then answer else blake.keyed other input
  hash_length := blake.hash_length
  keyed_length := by
    intro other input
    split
    next => exact isLength
    next => exact blake.keyed_length other input

theorem Blake3.keyed_answering_of_ne (blake : Blake3) {key message answer : Bytes}
    (isLength : answer.length = 32) {other input : Bytes}
    (different : ¬ (other = key ∧ input = message)) :
    (blake.answering key message answer isLength).keyed other input = blake.keyed other input :=
  if_neg different

/-- What is computed asks for the keyed hash of a message: with another answer it comes out
differently. -/
def Blake3.Asks {α : Type} (blake : Blake3) (computed : Blake3 → α) (key message : Bytes) : Prop :=
  ∃ answer isLength, computed (blake.answering key message answer isLength) ≠ computed blake

structure KeyedSample where
  key : Bytes
  input : Bytes
  value : Bytes
deriving DecidableEq, Repr

/-- The same hash, with given values of the keyed one. -/
def Blake3.withKeyed (blake : Blake3) (samples : List KeyedSample)
    (lengths : ∀ sample ∈ samples, sample.value.length = 32) : Blake3 where
  hash := blake.hash
  keyed := fun key input =>
    ((samples.find? fun sample => sample.key = key ∧ sample.input = input).map
      KeyedSample.value).getD (blake.keyed key input)
  hash_length := blake.hash_length
  keyed_length := by
    intro key input
    cases found : samples.find? fun sample => sample.key = key ∧ sample.input = input with
    | none => exact blake.keyed_length key input
    | some sample => exact lengths sample (List.mem_of_find?_eq_some found)

/-- The `XChaCha20Poly1305` cipher of the `chacha20poly1305` crate, without
associated data.  Encryption fails only beyond the length limit of the cipher. -/
structure Aead where
  encrypt : (key nonce plaintext : Bytes) → Option Bytes
  decrypt : (key nonce ciphertext : Bytes) → Option Bytes
  encrypt_isSome : ∀ key nonce plaintext, plaintext.length < 2 ^ 32 →
    (encrypt key nonce plaintext).isSome
  encrypt_length : ∀ key nonce plaintext ciphertext,
    encrypt key nonce plaintext = some ciphertext → ciphertext.length = plaintext.length + 16
  decrypt_encrypt : ∀ key nonce plaintext ciphertext,
    encrypt key nonce plaintext = some ciphertext → decrypt key nonce ciphertext = some plaintext

/-- Only what encryption produces under the same key and nonce decrypts. -/
def Aead.Authentic (aead : Aead) : Prop :=
  ∀ key nonce ciphertext plaintext, aead.decrypt key nonce ciphertext = some plaintext →
    aead.encrypt key nonce plaintext = some ciphertext

/-- The same cipher, which also refuses what encryption does not produce. -/
def Aead.strict (aead : Aead) : Aead where
  encrypt := aead.encrypt
  decrypt := fun key nonce ciphertext =>
    (aead.decrypt key nonce ciphertext).filter fun plaintext =>
      aead.encrypt key nonce plaintext = some ciphertext
  encrypt_isSome := aead.encrypt_isSome
  encrypt_length := aead.encrypt_length
  decrypt_encrypt := by
    intro key nonce plaintext ciphertext encrypted
    rw [aead.decrypt_encrypt key nonce plaintext ciphertext encrypted]
    simp [encrypted]

theorem Aead.strict_authentic (aead : Aead) : aead.strict.Authentic := by
  intro key nonce ciphertext plaintext decrypted
  have kept := (Option.filter_eq_some_iff.mp decrypted).2
  exact of_decide_eq_true kept

/-! ### A cipher with given values -/

structure Sample where
  key : Bytes
  nonce : Bytes
  plaintext : Bytes
  ciphertext : Bytes
deriving DecidableEq, Repr

/-- The samples can be values of one cipher that elsewhere appends sixteen zeros. -/
structure Samples where
  list : List Sample
  length : ∀ sample ∈ list, sample.ciphertext.length = sample.plaintext.length + 16
  tagged : ∀ sample ∈ list,
    sample.ciphertext.drop sample.plaintext.length ≠ List.replicate 16 0
  injective : ∀ left ∈ list, ∀ right ∈ list, left.key = right.key → left.nonce = right.nonce →
    left.ciphertext = right.ciphertext → left.plaintext = right.plaintext

namespace Samples

variable (samples : Samples)

def encrypt (key nonce plaintext : Bytes) : Bytes :=
  ((samples.list.find? fun sample =>
      sample.key = key ∧ sample.nonce = nonce ∧ sample.plaintext = plaintext).map
    Sample.ciphertext).getD (plaintext ++ List.replicate 16 0)

def decrypt (key nonce ciphertext : Bytes) : Option Bytes :=
  match samples.list.find? fun sample =>
    sample.key = key ∧ sample.nonce = nonce ∧ sample.ciphertext = ciphertext with
  | some sample => some sample.plaintext
  | none =>
    if ciphertext.drop (ciphertext.length - 16) = List.replicate 16 0 then
      some (ciphertext.take (ciphertext.length - 16))
    else none

theorem encrypt_cases (key nonce plaintext : Bytes) :
    (∃ sample ∈ samples.list, sample.key = key ∧ sample.nonce = nonce ∧
      sample.plaintext = plaintext ∧ samples.encrypt key nonce plaintext = sample.ciphertext) ∨
    samples.encrypt key nonce plaintext = plaintext ++ List.replicate 16 0 := by
  unfold encrypt
  cases isFound : samples.list.find? fun sample =>
    sample.key = key ∧ sample.nonce = nonce ∧ sample.plaintext = plaintext with
  | none => exact Or.inr rfl
  | some sample =>
      have matched := List.find?_some isFound
      rw [decide_eq_true_eq] at matched
      exact Or.inl ⟨sample, List.mem_of_find?_eq_some isFound, matched.1, matched.2.1, matched.2.2,
        rfl⟩

theorem encrypt_length (key nonce plaintext : Bytes) :
    (samples.encrypt key nonce plaintext).length = plaintext.length + 16 := by
  rcases samples.encrypt_cases key nonce plaintext with
    ⟨sample, member, _, _, isPlain, isCipher⟩ | isCipher
  · rw [isCipher, samples.length sample member, isPlain]
  · rw [isCipher, List.length_append, List.length_replicate]

theorem decrypt_encrypt (key nonce plaintext : Bytes) :
    samples.decrypt key nonce (samples.encrypt key nonce plaintext) = some plaintext := by
  unfold decrypt
  rcases samples.encrypt_cases key nonce plaintext with
    ⟨sample, member, isKey, isNonce, isPlain, isCipher⟩ | isCipher
  · rw [isCipher]
    split
    next other isFound =>
      have matched := List.find?_some isFound
      rw [decide_eq_true_eq] at matched
      rw [samples.injective other (List.mem_of_find?_eq_some isFound) sample member
        (matched.1.trans isKey.symm) (matched.2.1.trans isNonce.symm) matched.2.2, isPlain]
    next absent =>
      have unmatched := List.find?_eq_none.mp absent sample member
      simp [isKey, isNonce] at unmatched
  · rw [isCipher]
    split
    next other isFound =>
      have matched := List.find?_some isFound
      rw [decide_eq_true_eq] at matched
      have isMember := List.mem_of_find?_eq_some isFound
      have sameLength := samples.length other isMember
      rw [matched.2.2, List.length_append, List.length_replicate] at sameLength
      have zeros := samples.tagged other isMember
      rw [matched.2.2, List.drop_left' (by omega)] at zeros
      exact absurd rfl zeros
    next =>
      rw [List.length_append, List.length_replicate, Nat.add_sub_cancel, List.drop_left,
        List.take_left, if_pos rfl]

end Samples

def Aead.sampled (samples : Samples) : Aead where
  encrypt := fun key nonce plaintext => some (samples.encrypt key nonce plaintext)
  decrypt := samples.decrypt
  encrypt_isSome := fun _ _ _ _ => rfl
  encrypt_length := by
    intro key nonce plaintext ciphertext isCipher
    cases isCipher
    exact samples.encrypt_length key nonce plaintext
  decrypt_encrypt := by
    intro key nonce plaintext ciphertext isCipher
    cases isCipher
    exact samples.decrypt_encrypt key nonce plaintext

/-! ### A pad and a tag -/

/-- Each byte is combined with the byte of the pad at its place, if the pad goes so far. -/
def masked : (pad bytes : Bytes) → Bytes
  | _, [] => []
  | [], byte :: rest => byte :: rest
  | first :: pad, byte :: rest => (byte ^^^ first) :: masked pad rest

theorem length_masked (pad bytes : Bytes) : (masked pad bytes).length = bytes.length := by
  induction pad, bytes using masked.induct with
  | case1 pad => rw [masked]
  | case2 byte rest => rw [masked]
  | case3 first pad byte rest inductionHypothesis =>
      rw [masked, List.length_cons, List.length_cons, inductionHypothesis]

theorem masked_masked (pad bytes : Bytes) : masked pad (masked pad bytes) = bytes := by
  induction pad, bytes using masked.induct with
  | case1 pad => rw [masked, masked]
  | case2 byte rest => rw [masked, masked]
  | case3 first pad byte rest inductionHypothesis =>
      rw [masked, masked, inductionHypothesis, UInt8.xor_assoc, UInt8.xor_self, UInt8.xor_zero]

/-- The cipher that masks the plaintext and puts a tag behind it. -/
def Aead.streaming (pad : (key nonce : Bytes) → Bytes)
    (authenticator : (key nonce plaintext : Bytes) → Bytes)
    (isLength : ∀ key nonce plaintext, (authenticator key nonce plaintext).length = 16) :
    Aead where
  encrypt := fun key nonce plaintext =>
    some (masked (pad key nonce) plaintext ++ authenticator key nonce plaintext)
  decrypt := fun key nonce ciphertext =>
    let plaintext := masked (pad key nonce) (ciphertext.take (ciphertext.length - 16))
    if ciphertext.drop (ciphertext.length - 16) = authenticator key nonce plaintext then
      some plaintext
    else none
  encrypt_isSome := fun _ _ _ _ => rfl
  encrypt_length := by
    intro key nonce plaintext ciphertext isCipher
    cases isCipher
    rw [List.length_append, length_masked, isLength]
  decrypt_encrypt := by
    intro key nonce plaintext ciphertext isCipher
    cases isCipher
    dsimp only
    rw [List.length_append, isLength, Nat.add_sub_cancel, List.take_left, List.drop_left,
      masked_masked, if_pos rfl]

end SmartFecTunnel.Library
