import SmartFecTunnel.Library.Crypto
import SmartFecTunnel.Library.Layout
import SmartFecTunnel.Library.Run
import SmartFecTunnel.Auth.ReplayCache

/-!
Contract: the authentication envelope of the QUIC transports (`make_envelope`,
`envelope_device_id` and `verify_envelope` in `src/quic_auth.rs`).

An envelope is 69 bytes: magic, version, device id, timestamp, nonce and a keyed
hash of all that and the TLS exporter.

Owns: when an accepted envelope can be accepted again.  The cache entry lives
from the time of acceptance, the envelope's validity from its own timestamp; the
two nest exactly when the timestamp is not in the future and the validity ends
before the end of time.

Does not own: the hash.
-/

namespace SmartFecTunnel.Auth

open SmartFecTunnel.Library

/-- The bytes `SFTA`. -/
def magic : Bytes := [83, 70, 84, 65]
def version : UInt8 := 1
def prefixLen : Nat := 4 + 1 + 8 + 8 + 16
def envelopeLen : Nat := prefixLen + 32

structure AuthClaims where
  deviceId : Nat
  timestamp : Nat
  nonce : Bytes
deriving DecidableEq, Repr

inductive AuthError where
  | invalidEnvelope
  | zeroDevice
  | expired
  | invalidProof
  | replayed
deriving DecidableEq, Repr

def AuthError.message : AuthError → String
  | .invalidEnvelope => "invalid authentication envelope"
  | .zeroDevice => "device id must be non-zero"
  | .expired => "expired authentication envelope"
  | .invalidProof => "invalid device proof"
  | .replayed => "replayed authentication envelope"

def deviceKey (blake : Blake3) (secret : Bytes) : Bytes := blake.hash secret

def makeEnvelope (blake : Blake3) (secret : Bytes) (deviceId timestamp : Nat)
    (nonce tlsExporter : Bytes) : Bytes :=
  let front := magic ++ ([version] ++ (toBeBytes 8 deviceId ++ (toBeBytes 8 timestamp ++ nonce)))
  front ++ blake.keyed (deviceKey blake secret) (front ++ tlsExporter)

/-- The length, magic and version checks. -/
def WellMarked (envelope : Bytes) : Prop :=
  envelope.length = envelopeLen ∧ envelope.take 4 = magic ∧ envelope[4]? = some version

instance (envelope : Bytes) : Decidable (WellMarked envelope) :=
  inferInstanceAs (Decidable (_ ∧ _ ∧ _))

def envelopeDeviceId (envelope : Bytes) : Except AuthError Nat :=
  if ¬ WellMarked envelope then .error .invalidEnvelope
  else if number envelope 5 13 = 0 then .error .zeroDevice
  else .ok (number envelope 5 13)

/-- `u64::abs_diff`. -/
def absDiff (left right : Nat) : Nat := max left right - min left right

/-- The checks before the replay cache: the claims of an authentic envelope. -/
def authenticate (blake : Blake3) (envelope secret tlsExporter : Bytes) (now window : Nat) :
    Except AuthError AuthClaims :=
  if ¬ WellMarked envelope then .error .invalidEnvelope
  else
    match envelopeDeviceId envelope with
    | .error error => .error error
    | .ok deviceId =>
      let timestamp := number envelope 13 21
      if window < absDiff now timestamp then .error .expired
      else
        let nonce := field envelope 21 37
        let expected := makeEnvelope blake secret deviceId timestamp nonce tlsExporter
        if expected.drop prefixLen ≠ envelope.drop prefixLen then .error .invalidProof
        else .ok { deviceId, timestamp, nonce }

def verifyEnvelope (blake : Blake3) (envelope secret tlsExporter : Bytes) (now window : Nat)
    (cache : ReplayCache) : ReplayCache × Except AuthError AuthClaims :=
  match authenticate blake envelope secret tlsExporter now window with
  | .error error => (cache, .error error)
  | .ok claims =>
    let checked := cache.checkAndInsert claims.nonce now window
    (checked.1, if checked.2 then .ok claims else .error .replayed)

/-! ### Runs -/

/-- One call: an envelope with the secret and exporter it is checked against, and
the time. -/
structure Attempt where
  envelope : Bytes
  secret : Bytes
  tlsExporter : Bytes
  now : Nat
  now_le : now ≤ maxU64

/-- The timestamp field of the envelope. -/
def Attempt.timestamp (call : Attempt) : Nat := number call.envelope 13 21

/-- The same bytes, secret and exporter, at any time. -/
def Attempt.Repeats (later earlier : Attempt) : Prop :=
  later.envelope = earlier.envelope ∧ later.secret = earlier.secret ∧
    later.tlsExporter = earlier.tlsExporter

instance (later earlier : Attempt) : Decidable (later.Repeats earlier) :=
  inferInstanceAs (Decidable (_ ∧ _ ∧ _))

def attempt (blake : Blake3) (window : Nat) (cache : ReplayCache) (call : Attempt) :
    ReplayCache × Except AuthError AuthClaims :=
  verifyEnvelope blake call.envelope call.secret call.tlsExporter call.now window cache

/-- One call of a run; the output pairs the call with its result. -/
def step (blake : Blake3) (window : Nat) (cache : ReplayCache) (call : Attempt) :
    Option (ReplayCache × List (Attempt × Except AuthError AuthClaims)) :=
  let result := attempt blake window cache call
  some (result.1, [(call, result.2)])

/-- The calls of a list are made at nondecreasing times. -/
def InOrder (calls : List Attempt) : Prop := calls.Pairwise fun early late => early.now ≤ late.now

/-- The number of other envelopes accepted in a run. -/
def othersAccepted (call : Attempt) (results : List (Attempt × Except AuthError AuthClaims)) :
    Nat :=
  results.countP fun result => ¬ result.1.Repeats call ∧ result.2.isOk

/-- After `call` on `cache`, no repetition of it is accepted, whatever is called
in between, as long as fewer than `capacity` other envelopes are accepted. -/
def NeverRepeated (blake : Blake3) (window : Nat) (cache : ReplayCache) (call : Attempt) : Prop :=
  ∀ (between : List Attempt) (replay : Attempt) (last : ReplayCache)
    (results : List (Attempt × Except AuthError AuthClaims)),
    InOrder (call :: between ++ [replay]) → replay.Repeats call →
    run (step blake window) (attempt blake window cache call).1 between = some (last, results) →
    othersAccepted call results < cache.capacity →
    ¬ (attempt blake window last replay).2.isOk

/-! ### What one call does -/

/-- The checks that do not depend on the time. -/
structure Authentic (blake : Blake3) (envelope secret tlsExporter : Bytes)
    (claims : AuthClaims) : Prop where
  marked : WellMarked envelope
  device : claims.deviceId = number envelope 5 13
  nonzero : claims.deviceId ≠ 0
  timestamp : claims.timestamp = number envelope 13 21
  nonce : claims.nonce = field envelope 21 37
  proof : (makeEnvelope blake secret claims.deviceId claims.timestamp claims.nonce
    tlsExporter).drop prefixLen = envelope.drop prefixLen

theorem authenticate_ok_iff {blake : Blake3} {envelope secret tlsExporter : Bytes}
    {now window : Nat} {claims : AuthClaims} :
    authenticate blake envelope secret tlsExporter now window = .ok claims ↔
      Authentic blake envelope secret tlsExporter claims ∧
        absDiff now claims.timestamp ≤ window := by
  unfold authenticate envelopeDeviceId
  by_cases marked : WellMarked envelope
  · by_cases zero : number envelope 5 13 = 0
    · simp only [marked, not_true_eq_false, zero, ↓reduceIte, reduceCtorEq, false_iff, not_and]
      intro authentic
      exact absurd (authentic.device.trans zero) authentic.nonzero
    · simp only [marked, not_true_eq_false, zero, ↓reduceIte]
      split
      next late =>
        simp only [reduceCtorEq, false_iff, not_and]
        intro authentic
        rw [authentic.timestamp]
        omega
      next early =>
        split
        next wrong =>
          simp only [reduceCtorEq, false_iff, not_and]
          intro authentic
          have proof := authentic.proof
          rw [authentic.device, authentic.timestamp, authentic.nonce] at proof
          exact absurd proof wrong
        next right =>
          constructor
          · intro isClaims
            cases isClaims
            exact ⟨⟨marked, rfl, zero, rfl, rfl, not_not.mp right⟩, not_lt.mp early⟩
          · rintro ⟨authentic, _⟩
            cases claims
            rw [Except.ok.injEq, AuthClaims.mk.injEq]
            exact ⟨authentic.device.symm, authentic.timestamp.symm, authentic.nonce.symm⟩
  · simp only [marked, not_false_eq_true, ↓reduceIte, reduceCtorEq, false_iff, not_and]
    intro authentic
    exact absurd authentic.marked marked

/-- A call leaves the cache alone, or runs the replay check on its nonce. -/
theorem attempt_cases (blake : Blake3) (window : Nat) (cache : ReplayCache) (call : Attempt) :
    ((attempt blake window cache call).1 = cache ∧
      (attempt blake window cache call).2.isOk = false) ∨
    ∃ claims, Authentic blake call.envelope call.secret call.tlsExporter claims ∧
      absDiff call.now claims.timestamp ≤ window ∧
      (attempt blake window cache call).1 =
        (cache.checkAndInsert claims.nonce call.now window).1 ∧
      (attempt blake window cache call).2 =
        if (cache.checkAndInsert claims.nonce call.now window).2 then .ok claims
        else .error .replayed := by
  unfold attempt verifyEnvelope
  split
  next => exact Or.inl ⟨rfl, rfl⟩
  next claims isOk =>
    obtain ⟨authentic, inWindow⟩ := authenticate_ok_iff.mp isOk
    exact Or.inr ⟨claims, authentic, inWindow, rfl, rfl⟩

theorem ok_of_isOk {result : Except AuthError AuthClaims} (isOk : result.isOk = true) :
    ∃ claims, result = .ok claims := by
  cases result with
  | error => cases isOk
  | ok claims => exact ⟨claims, rfl⟩

/-- An accepted repetition is still in the window. -/
theorem valid_of_isOk {blake : Blake3} {window : Nat} {cache : ReplayCache}
    {call replay : Attempt} {claims : AuthClaims} (repeats : replay.Repeats call)
    (authentic : Authentic blake call.envelope call.secret call.tlsExporter claims)
    (accepted : (attempt blake window cache replay).2.isOk = true) :
    absDiff replay.now claims.timestamp ≤ window := by
  rcases attempt_cases blake window cache replay with ⟨_, failed⟩ |
    ⟨found, foundAuthentic, inWindow, _, _⟩
  · rw [failed] at accepted
    cases accepted
  · rw [foundAuthentic.timestamp, repeats.1, ← authentic.timestamp] at inWindow
    exact inWindow

/-! ### The cache along a run -/

/-- What holds of the cache after the calls `past`. -/
structure Kept (capacity window : Nat) (past : List Attempt) (cache : ReplayCache) : Prop where
  capacity : cache.capacity = capacity
  coherent : ReplayCache.Coherent cache.entries cache.order
  ordered : ∀ time, (∀ earlier ∈ past, earlier.now ≤ time) →
    ReplayCache.Ordered cache.order (ReplayCache.expiry time window)

theorem Kept.attempt {capacity window : Nat} {past : List Attempt} {cache : ReplayCache}
    (kept : Kept capacity window past cache) (blake : Blake3) {call : Attempt}
    (later : ∀ earlier ∈ past, earlier.now ≤ call.now) :
    Kept capacity window (past ++ [call]) (attempt blake window cache call).1 := by
  rcases attempt_cases blake window cache call with ⟨same, _⟩ | ⟨claims, _, _, isNext, _⟩
  · rw [same]
    exact ⟨kept.capacity, kept.coherent, fun time bound =>
      kept.ordered time fun earlier member => bound earlier (List.mem_append_left _ member)⟩
  · obtain ⟨_, isOrder, sameCapacity, coherent⟩ :=
      cache.checkAndInsert_eq kept.coherent claims.nonce call.now window
    rw [isNext]
    refine ⟨sameCapacity.trans kept.capacity, coherent, ?_⟩
    intro time bound
    have ordered := (kept.ordered call.now later).admitNonce (Nat.le_refl call.now) cache.capacity
      claims.nonce
    rw [← isOrder] at ordered
    have isLater := bound call List.mem_concat_self
    exact ⟨ordered.sorted, fun pair member =>
      (ordered.bounded pair member).trans (ReplayCache.expiry_mono isLater window)⟩

theorem kept_of_run (blake : Blake3) {window capacity : Nat} {start cache : ReplayCache}
    {past : List Attempt} {results : List (Attempt × Except AuthError AuthClaims)}
    (isNew : ReplayCache.new capacity = .ok start) (inOrder : InOrder past)
    (ran : run (step blake window) start past = some (cache, results)) :
    0 < capacity ∧ Kept capacity window past cache := by
  unfold ReplayCache.new at isNew
  split at isNew
  next => cases isNew
  next positive =>
    cases isNew
    obtain ⟨state, outputs, ranState, kept⟩ :=
      run_induction (step blake window) ⟨capacity, ∅, []⟩ past
        (fun past _ cache => Kept capacity window past cache)
        ⟨rfl, ⟨List.nodup_nil, fun nonce expiresAt => by simp⟩,
          fun time _ => ⟨List.Pairwise.nil, fun pair member => absurd member List.not_mem_nil⟩⟩
        (by
          intro past call outputs cache isPrefix _ kept
          refine ⟨_, _, rfl, kept.attempt blake ?_⟩
          intro earlier member
          have ordered := inOrder.sublist isPrefix.sublist
          exact (List.pairwise_append.mp ordered).2.2 earlier member call
            (List.mem_singleton_self _))
    rw [ran] at ranState
    cases ranState
    exact ⟨Nat.pos_of_ne_zero positive, kept⟩

/-! ### Repetition -/

/-- An accepted call leaves its nonce as the newest pair of the queue. -/
theorem accepted_queue {blake : Blake3} {window : Nat} {cache : ReplayCache} {call : Attempt}
    {claims : AuthClaims} (coherent : ReplayCache.Coherent cache.entries cache.order)
    (accepted : (attempt blake window cache call).2 = .ok claims) :
    Authentic blake call.envelope call.secret call.tlsExporter claims ∧
      absDiff call.now claims.timestamp ≤ window ∧
      ∃ front, (attempt blake window cache call).1.order =
        front ++ [(claims.nonce, ReplayCache.expiry call.now window)] := by
  rcases attempt_cases blake window cache call with ⟨_, failed⟩ |
    ⟨found, authentic, inWindow, isNext, isResult⟩
  · rw [accepted] at failed
    cases failed
  · obtain ⟨isAdmitted, isOrder, _, _⟩ :=
      cache.checkAndInsert_eq coherent found.nonce call.now window
    rw [accepted] at isResult
    split at isResult
    next admitted =>
      cases isResult
      refine ⟨authentic, inWindow, ?_⟩
      rw [isNext, isOrder]
      rw [isAdmitted] at admitted
      unfold ReplayCache.admitNonce at admitted ⊢
      dsimp only at admitted ⊢
      split
      next queued =>
        rw [if_pos queued] at admitted
        cases admitted
      next => exact ⟨_, rfl⟩
    next => cases isResult

/-- While the newest pair has not expired and too few other envelopes are
accepted to push it out, it stays queued. -/
theorem stays_queued {blake : Blake3} {window capacity expiresAt : Nat} {call : Attempt}
    {claims : AuthClaims} {between : List Attempt} {cache last : ReplayCache}
    {results : List (Attempt × Except AuthError AuthClaims)} {front back : List (Bytes × Nat)}
    (authentic : Authentic blake call.envelope call.secret call.tlsExporter claims)
    (sameCapacity : cache.capacity = capacity)
    (coherent : ReplayCache.Coherent cache.entries cache.order)
    (queued : cache.order = front ++ (claims.nonce, expiresAt) :: back)
    (live : ∀ other ∈ between, other.now < expiresAt)
    (ran : run (step blake window) cache between = some (last, results))
    (few : back.length + othersAccepted call results < capacity) :
    ReplayCache.Coherent last.entries last.order ∧
      ∃ front back, last.order = front ++ (claims.nonce, expiresAt) :: back := by
  induction between generalizing cache results front back with
  | nil =>
      cases ran
      exact ⟨coherent, front, back, queued⟩
  | cons other rest inductionHypothesis =>
      rw [run_cons] at ran
      obtain ⟨⟨middle, first⟩, isStep, isRest⟩ := Option.bind_eq_some_iff.mp ran
      cases isStep
      obtain ⟨⟨final, more⟩, ranRest, isFinal⟩ := Option.map_eq_some_iff.mp isRest
      cases isFinal
      have restLive : ∀ later ∈ rest, later.now < expiresAt := fun later member =>
        live later (List.mem_cons_of_mem _ member)
      have split : othersAccepted call
          ([(other, (attempt blake window cache other).2)] ++ more) =
            (if ¬ other.Repeats call ∧ (attempt blake window cache other).2.isOk then 1 else 0) +
              othersAccepted call more := by
        unfold othersAccepted
        rw [List.countP_append, List.countP_singleton]
        simp only [decide_eq_true_eq]
      rw [split] at few
      rcases attempt_cases blake window cache other with ⟨same, failed⟩ |
        ⟨found, foundAuthentic, _, isNext, isResult⟩
      · rw [same] at ranRest
        exact inductionHypothesis sameCapacity coherent queued restLive ranRest (by omega)
      · obtain ⟨isAdmitted, isOrder, nextCapacity, nextCoherent⟩ :=
          cache.checkAndInsert_eq coherent found.nonce other.now window
        rw [isNext] at ranRest
        have accepted : (attempt blake window cache other).2.isOk =
            (cache.checkAndInsert found.nonce other.now window).2 := by
          rw [isResult]
          cases (cache.checkAndInsert found.nonce other.now window).2 <;> rfl
        rw [accepted, isAdmitted, queued, sameCapacity] at few
        -- A repetition of the call is refused, so an accepted call is another one.
        have isOther : (ReplayCache.admitNonce capacity window
            (front ++ (claims.nonce, expiresAt) :: back) found.nonce other.now).2 = true →
              ¬ other.Repeats call := by
          rintro admitted ⟨sameEnvelope, _, _⟩
          have sameNonce : found.nonce = claims.nonce := by
            rw [foundAuthentic.nonce, authentic.nonce, sameEnvelope]
          rw [sameNonce, ReplayCache.admitNonce_refuses (live other List.mem_cons_self)] at admitted
          cases admitted
        obtain ⟨kept, added, isQueue, count⟩ :=
          ReplayCache.admitNonce_keeps (live other List.mem_cons_self) found.nonce (by
            intro admitted
            rw [if_pos ⟨isOther admitted, admitted⟩] at few
            omega)
        have nextQueued : (cache.checkAndInsert found.nonce other.now window).1.order =
            kept ++ (claims.nonce, expiresAt) :: (back ++ added) := by
          rw [isOrder, queued, sameCapacity]
          exact isQueue
        apply inductionHypothesis (nextCapacity.trans sameCapacity) nextCoherent nextQueued
          restLive ranRest
        rw [List.length_append, count]
        by_cases admitted : (ReplayCache.admitNonce capacity window
            (front ++ (claims.nonce, expiresAt) :: back) found.nonce other.now).2 = true
        · rw [if_pos ⟨isOther admitted, admitted⟩] at few
          rw [if_pos admitted]
          omega
        · rw [if_neg (fun both => admitted both.2)] at few
          rw [if_neg admitted]
          omega

/-- An envelope whose timestamp is not in the future at acceptance is valid only
while its cache entry lives. -/
theorem before_expiry {now timestamp window later : Nat} (notFuture : timestamp ≤ now)
    (ends : timestamp + window < maxU64) (valid : absDiff later timestamp ≤ window) :
    later < ReplayCache.expiry now window := by
  unfold absDiff at valid
  unfold ReplayCache.expiry saturatingAdd
  generalize maxU64 = limit at ends ⊢
  omega

/-- Any other accepted envelope is still valid when its cache entry expires. -/
theorem valid_at_expiry {now timestamp window : Nat} (inTime : now ≤ maxU64)
    (valid : absDiff now timestamp ≤ window)
    (notNested : ¬ (timestamp ≤ now ∧ timestamp + window < maxU64)) :
    now ≤ ReplayCache.expiry now window ∧
      absDiff (ReplayCache.expiry now window) timestamp ≤ window := by
  unfold absDiff at valid ⊢
  unfold ReplayCache.expiry saturatingAdd
  generalize maxU64 = limit at inTime notNested ⊢
  omega

/-- An accepted call that happens after the run `past` of a new cache. -/
structure AcceptedAfter (blake : Blake3) (window capacity : Nat) (past : List Attempt)
    (cache : ReplayCache) (call : Attempt) : Prop where
  reached : ∃ start results, ReplayCache.new capacity = .ok start ∧
    run (step blake window) start past = some (cache, results)
  inOrder : InOrder (past ++ [call])
  accepted : (attempt blake window cache call).2.isOk = true

/-- A repetition when the cache entry expires is accepted, if the envelope is
still valid then. -/
theorem accepted_at_expiry {blake : Blake3} {window capacity : Nat} {cache : ReplayCache}
    {past : List Attempt} {call replay : Attempt} {claims : AuthClaims}
    {front : List (Bytes × Nat)} (kept : Kept capacity window (past ++ [call]) cache)
    (authentic : Authentic blake call.envelope call.secret call.tlsExporter claims)
    (queued : cache.order = front ++ [(claims.nonce, ReplayCache.expiry call.now window)])
    (repeats : replay.Repeats call) (isLater : ∀ earlier ∈ past ++ [call], earlier.now ≤ replay.now)
    (expired : ReplayCache.expiry call.now window ≤ replay.now)
    (valid : absDiff replay.now claims.timestamp ≤ window) :
    (attempt blake window cache replay).2.isOk = true := by
  obtain ⟨sameEnvelope, sameSecret, sameExporter⟩ := repeats
  have isOk : authenticate blake replay.envelope replay.secret replay.tlsExporter replay.now
      window = .ok claims := by
    rw [sameEnvelope, sameSecret, sameExporter]
    exact authenticate_ok_iff.mpr ⟨authentic, valid⟩
  have ordered := kept.ordered replay.now isLater
  rw [queued] at ordered
  obtain ⟨isAdmitted, _⟩ := cache.checkAndInsert_eq kept.coherent claims.nonce replay.now window
  rw [queued, ReplayCache.admitNonce_expired ordered expired] at isAdmitted
  unfold attempt verifyEnvelope
  rw [isOk]
  dsimp only
  rw [isAdmitted]
  rfl

/-- A repetition while the nonce is queued and unexpired is refused. -/
theorem refused_while_queued {blake : Blake3} {window expiresAt : Nat} {cache : ReplayCache}
    {call replay : Attempt} {claims : AuthClaims} {front back : List (Bytes × Nat)}
    (authentic : Authentic blake call.envelope call.secret call.tlsExporter claims)
    (coherent : ReplayCache.Coherent cache.entries cache.order)
    (queued : cache.order = front ++ (claims.nonce, expiresAt) :: back)
    (repeats : replay.Repeats call)
    (live : absDiff replay.now claims.timestamp ≤ window → replay.now < expiresAt) :
    ¬ (attempt blake window cache replay).2.isOk = true := by
  rcases attempt_cases blake window cache replay with ⟨_, failed⟩ |
    ⟨found, foundAuthentic, inWindow, _, isResult⟩
  · rw [failed]
    exact Bool.false_ne_true
  · have sameNonce : found.nonce = claims.nonce := by
      rw [foundAuthentic.nonce, authentic.nonce, repeats.1]
    have sameTimestamp : found.timestamp = claims.timestamp := by
      rw [foundAuthentic.timestamp, authentic.timestamp, repeats.1]
    rw [sameTimestamp] at inWindow
    obtain ⟨isAdmitted, _⟩ := cache.checkAndInsert_eq coherent found.nonce replay.now window
    rw [sameNonce, queued, ReplayCache.admitNonce_refuses (live inWindow)] at isAdmitted
    rw [isResult, sameNonce, isAdmitted]
    exact Bool.false_ne_true

/-- An accepted envelope can never be accepted again exactly when its timestamp
is not in the future and its validity ends before the last representable
second. -/
theorem never_repeated_iff (blake : Blake3) (window capacity : Nat) (past : List Attempt)
    (cache : ReplayCache) (call : Attempt)
    (happened : AcceptedAfter blake window capacity past cache call) :
    NeverRepeated blake window cache call ↔
      call.timestamp ≤ call.now ∧ call.timestamp + window < maxU64 := by
  obtain ⟨⟨start, results, isNew, ran⟩, inOrder, accepted⟩ := happened
  obtain ⟨pastInOrder, _, before⟩ := List.pairwise_append.mp inOrder
  have beforeCall : ∀ earlier ∈ past, earlier.now ≤ call.now := fun earlier member =>
    before earlier member call (List.mem_singleton_self _)
  obtain ⟨positive, kept⟩ := kept_of_run blake isNew pastInOrder ran
  have nextKept := kept.attempt blake beforeCall
  obtain ⟨claims, isClaims⟩ := ok_of_isOk accepted
  obtain ⟨authentic, inWindow, front, isQueue⟩ := accepted_queue kept.coherent isClaims
  have isTimestamp : call.timestamp = claims.timestamp := authentic.timestamp.symm
  rw [isTimestamp]
  constructor
  · -- Otherwise a repetition when the entry expires is accepted.
    intro never
    by_contra notNested
    have expiryLe : ReplayCache.expiry call.now window ≤ maxU64 := min_le_right _ _
    obtain ⟨later, stillValid⟩ := valid_at_expiry call.now_le inWindow notNested
    let replay : Attempt :=
      { call with now := ReplayCache.expiry call.now window, now_le := expiryLe }
    have isReplay : InOrder (call :: [] ++ [replay]) := by
      refine List.Pairwise.cons ?_ (List.pairwise_singleton _ _)
      intro other member
      cases List.mem_singleton.mp member
      exact later
    refine never [] replay _ [] isReplay ⟨rfl, rfl, rfl⟩ rfl (kept.capacity ▸ positive) ?_
    refine accepted_at_expiry nextKept authentic isQueue ⟨rfl, rfl, rfl⟩ ?_ (Nat.le_refl _)
      stillValid
    intro earlier member
    rcases List.mem_append.mp member with old | new
    · exact (beforeCall earlier old).trans later
    · cases List.mem_singleton.mp new
      exact later
  · rintro ⟨notFuture, ends⟩ between replay last outcome ordered repeats ranBetween few
    have live : absDiff replay.now claims.timestamp ≤ window →
        replay.now < ReplayCache.expiry call.now window := before_expiry notFuture ends
    intro again
    have valid := valid_of_isOk repeats authentic again
    have beforeReplay : ∀ other ∈ between, other.now ≤ replay.now := by
      intro other member
      exact (List.pairwise_append.mp ordered).2.2 other (List.mem_cons_of_mem _ member) replay
        (List.mem_singleton_self _)
    obtain ⟨lastCoherent, _, _, stillQueued⟩ := stays_queued authentic nextKept.capacity
      nextKept.coherent isQueue
      (fun other member => (beforeReplay other member).trans_lt (live valid)) ranBetween (by
        rw [kept.capacity] at few
        simpa using few)
    exact refused_while_queued authentic lastCoherent stillQueued repeats live again

/-! ### The devices' own clocks -/

/-- The bytes of `test-device-secret`, and their hash. -/
def sampleSecret : Bytes :=
  [116, 101, 115, 116, 45, 100, 101, 118, 105, 99, 101, 45, 115, 101, 99, 114, 101, 116]

def sampleKey : Bytes :=
  [81, 79, 17, 230, 117, 129, 26, 181, 142, 21, 28, 147, 61, 27, 31, 20,
    136, 48, 246, 226, 231, 58, 45, 75, 77, 25, 0, 146, 183, 68, 184, 40]

/-- What is hashed for device 7, a nonce of ones and an exporter of one byte throughout. -/
def sampleMessage (timestamp : Nat) (byte : UInt8) : Bytes :=
  magic ++ ([version] ++ (toBeBytes 8 7 ++ (toBeBytes 8 timestamp ++ List.replicate 16 1))) ++
    List.replicate 32 byte

/-- The library as it answers for these, at two timestamps and with two exporters. -/
def sampleBlake : Blake3 :=
  (Blake3.sampled [(sampleSecret, sampleKey)] (by decide)).withKeyed
    [⟨sampleKey, sampleMessage 1000 7,
        [178, 130, 129, 233, 164, 179, 62, 16, 126, 191, 58, 156, 169, 3, 9, 66,
          93, 156, 43, 159, 243, 211, 143, 101, 221, 51, 60, 209, 246, 139, 127, 224]⟩,
      ⟨sampleKey, sampleMessage 1030 7,
        [13, 191, 156, 251, 60, 133, 125, 21, 117, 71, 13, 46, 164, 67, 122, 122,
          132, 33, 169, 216, 81, 62, 110, 203, 167, 189, 170, 70, 216, 2, 181, 61]⟩,
      ⟨sampleKey, sampleMessage 1000 8,
        [61, 193, 129, 194, 17, 240, 131, 36, 72, 130, 201, 156, 66, 115, 175, 254,
          120, 114, 86, 24, 24, 73, 73, 209, 178, 253, 188, 125, 30, 201, 38, 167]⟩]
    (by decide)

/-- A call at `now` with an envelope made for `timestamp`. -/
def sampleCall (timestamp now : Nat) (now_le : now ≤ maxU64) : Attempt where
  envelope := makeEnvelope sampleBlake sampleSecret 7 timestamp (List.replicate 16 1)
    (List.replicate 32 7)
  secret := sampleSecret
  tlsExporter := List.replicate 32 7
  now
  now_le

/-- The test's call: an envelope of timestamp 1000, accepted at 1005. -/
theorem never_repeated_on_time :
    NeverRepeated sampleBlake 30 ⟨8, ∅, []⟩ (sampleCall 1000 1005 (by decide)) := by
  have happened : AcceptedAfter sampleBlake 30 8 [] ⟨8, ∅, []⟩
      (sampleCall 1000 1005 (by decide)) :=
    ⟨⟨_, _, rfl, rfl⟩, List.pairwise_singleton _ _, by decide +kernel⟩
  exact (never_repeated_iff _ _ _ _ _ _ happened).mpr (by decide +kernel)

/-- A device whose clock is 30 seconds ahead is accepted at 1000, when its
envelope of timestamp 1030 is new, and at 1031 once more. -/
theorem accepted_twice :
    AcceptedAfter sampleBlake 30 8 [] ⟨8, ∅, []⟩ (sampleCall 1030 1000 (by decide)) ∧
      ¬ NeverRepeated sampleBlake 30 ⟨8, ∅, []⟩
        (sampleCall 1030 1000 (by decide)) := by
  refine ⟨⟨⟨_, _, rfl, rfl⟩, List.pairwise_singleton _ _, by decide +kernel⟩, ?_⟩
  intro never
  refine never [] (sampleCall 1030 1031 (by decide)) _ [] ?_ ⟨rfl, rfl, rfl⟩ rfl
    (by decide) (by decide +kernel)
  refine List.Pairwise.cons ?_ (List.pairwise_singleton _ _)
  intro other member
  cases List.mem_singleton.mp member
  decide

end SmartFecTunnel.Auth
