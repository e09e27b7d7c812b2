import SmartFecTunnel.Library.TokenBucket
import SmartFecTunnel.Fec.Pacing

/-!
Contract: how much a pacer lets through (`Pacer` in `src/main.rs`).

Callers come at arbitrary times, and a sleep may last longer than it was asked to.
Times and tokens are exact.

Owns:
- `waitLate`, a `wait` that oversleeps, and the releases of a sequence of calls;
- the bucket never runs into debt, and every interval gets at most one bucket and
  what the rate allows, exactly when each call fits into the bucket;
- a frame of the encoder that does not.

Does not own: the rounding of the clock and of floating-point numbers.
-/

namespace SmartFecTunnel.Fec

open SmartFecTunnel.Library
open SmartFecTunnel.Wire
open Encoder

namespace Pacer

/-- `wait`, where the sleep lasts `oversleep` longer than the delay. -/
def waitLate (pacer : Pacer) (bytes : Nat) (now oversleep : ℚ) : Pacer × ℚ :=
  let tokens := min (pacer.tokens + (now - pacer.updated) * pacer.bytesPerSecond) pacer.capacity
  if tokens < bytes then
    let delay := (pacer.capacity - tokens) / pacer.bytesPerSecond
    let woken := now + delay + oversleep
    ({ pacer with tokens := pacer.capacity - bytes, updated := woken }, woken)
  else ({ pacer with tokens := tokens - bytes, updated := now }, now)

/-- Without oversleeping it is the `wait` of the sender. -/
theorem waitLate_zero (pacer : Pacer) (bytes : Nat) (now : ℚ) :
    pacer.waitLate bytes now 0 = pacer.wait bytes now := by
  unfold waitLate wait
  simp only [add_zero]

/-- A call `pause` after the last one returned. -/
structure WaitCall where
  bytes : Nat
  pause : ℚ
  oversleep : ℚ
  pause_nonneg : 0 ≤ pause
  oversleep_nonneg : 0 ≤ oversleep

/-- When each call returns, what it releases then and the tokens it leaves. -/
def releases (pacer : Pacer) (now : ℚ) : List WaitCall → List (Spending ℚ)
  | [] => []
  | call :: rest =>
    let waited := pacer.waitLate call.bytes (now + call.pause) call.oversleep
    { time := waited.2, amount := call.bytes, left := waited.1.tokens } ::
      releases waited.1 waited.2 rest

/-- The tokens stay in the bucket, and no interval gets more than a full bucket and the
inflow. -/
structure Conforms (pacer : Pacer) (log : List (Spending ℚ)) : Prop where
  inBucket : ∀ release ∈ log, 0 ≤ release.left ∧ release.left ≤ pacer.capacity
  limited : ∀ start stop, start ≤ stop →
    spentWithin start stop log ≤ pacer.capacity + pacer.bytesPerSecond * (stop - start)

/-! ### One call -/

/-- A pacer between two calls. -/
structure Idle (pacer : Pacer) (now : ℚ) : Prop where
  rate : 0 < pacer.bytesPerSecond
  room : 0 ≤ pacer.capacity
  level : pacer.tokens ≤ pacer.capacity
  past : pacer.updated ≤ now

/-- What a call does to the account. -/
structure Released (pacer : Pacer) (bytes : Nat) (now : ℚ) (waited : Pacer × ℚ) : Prop where
  rate : waited.1.bytesPerSecond = pacer.bytesPerSecond
  capacity : waited.1.capacity = pacer.capacity
  updated : waited.1.updated = waited.2
  later : now ≤ waited.2
  full : waited.1.tokens + bytes ≤ pacer.capacity
  inflow : waited.1.tokens + bytes ≤
    pacer.tokens + pacer.bytesPerSecond * (waited.2 - pacer.updated)
  covered : bytes ≤ pacer.capacity → 0 ≤ waited.1.tokens

theorem Idle.released {pacer : Pacer} {now : ℚ} (idle : pacer.Idle now) (bytes : Nat)
    {oversleep : ℚ} (nonneg : 0 ≤ oversleep) :
    Released pacer bytes now (pacer.waitLate bytes now oversleep) := by
  have rate := idle.rate
  have full : min (pacer.tokens + (now - pacer.updated) * pacer.bytesPerSecond) pacer.capacity ≤
      pacer.capacity := min_le_right _ _
  have filled : min (pacer.tokens + (now - pacer.updated) * pacer.bytesPerSecond) pacer.capacity ≤
      pacer.tokens + (now - pacer.updated) * pacer.bytesPerSecond := min_le_left _ _
  unfold waitLate
  dsimp only
  generalize min (pacer.tokens + (now - pacer.updated) * pacer.bytesPerSecond) pacer.capacity =
    tokens at full filled ⊢
  split
  next short =>
    have delay : 0 ≤ (pacer.capacity - tokens) / pacer.bytesPerSecond :=
      div_nonneg (by linarith) rate.le
    have refill : pacer.bytesPerSecond * ((pacer.capacity - tokens) / pacer.bytesPerSecond) =
        pacer.capacity - tokens := mul_div_cancel₀ _ rate.ne'
    have extra : 0 ≤ pacer.bytesPerSecond * oversleep := mul_nonneg rate.le nonneg
    refine ⟨rfl, rfl, rfl, by dsimp only; linarith, by dsimp only; linarith, ?_, ?_⟩
    · dsimp only
      linarith
    · intro fits
      dsimp only
      linarith
  next enough =>
    refine ⟨rfl, rfl, rfl, le_refl now, by dsimp only; linarith, ?_, ?_⟩
    · dsimp only
      linarith
    · intro _
      dsimp only
      linarith

theorem Released.idle {pacer : Pacer} {bytes : Nat} {now : ℚ} {waited : Pacer × ℚ}
    (idle : pacer.Idle now) (released : Released pacer bytes now waited) :
    waited.1.Idle waited.2 := by
  have count : (0 : ℚ) ≤ bytes := Nat.cast_nonneg bytes
  have full := released.full
  refine ⟨?_, ?_, ?_, released.updated.le⟩
  · rw [released.rate]
    exact idle.rate
  · rw [released.capacity]
    exact idle.room
  · rw [released.capacity]
    linarith

/-! ### A sequence of calls -/

/-- The account is right whatever the sizes. -/
theorem Idle.metered {pacer : Pacer} {now : ℚ} (idle : pacer.Idle now) (calls : List WaitCall) :
    Metered pacer.bytesPerSecond pacer.capacity pacer.updated pacer.tokens
      (pacer.releases now calls) := by
  induction calls generalizing pacer now with
  | nil => trivial
  | cons call rest inductionHypothesis =>
      have paused : pacer.Idle (now + call.pause) :=
        ⟨idle.rate, idle.room, idle.level, by linarith [idle.past, call.pause_nonneg]⟩
      have released := paused.released call.bytes call.oversleep_nonneg
      have metered := inductionHypothesis (released.idle paused)
      rw [released.rate, released.capacity, released.updated] at metered
      exact ⟨paused.past.trans released.later, Nat.cast_nonneg _, released.full, released.inflow,
        metered⟩

/-- No call leaves a debt exactly when each fits into a full bucket. -/
theorem Idle.neverOverdrawn_iff {pacer : Pacer} {now : ℚ} (idle : pacer.Idle now)
    (calls : List WaitCall) :
    NeverOverdrawn (pacer.releases now calls) ↔
      ∀ call ∈ calls, (call.bytes : ℚ) ≤ pacer.capacity := by
  induction calls generalizing pacer now with
  | nil => simp [releases, NeverOverdrawn]
  | cons call rest inductionHypothesis =>
      have paused : pacer.Idle (now + call.pause) :=
        ⟨idle.rate, idle.room, idle.level, by linarith [idle.past, call.pause_nonneg]⟩
      have released := paused.released call.bytes call.oversleep_nonneg
      have later := inductionHypothesis (released.idle paused)
      have first : 0 ≤ (pacer.waitLate call.bytes (now + call.pause) call.oversleep).1.tokens ↔
          (call.bytes : ℚ) ≤ pacer.capacity := by
        constructor
        · intro solvent
          linarith [released.full]
        · exact released.covered
      rw [released.capacity] at later
      unfold NeverOverdrawn at later ⊢
      simp only [releases, List.forall_mem_cons, first, later]

/-- The bucket keeps its account exactly when each call fits into it. -/
theorem Idle.conforms_iff {pacer : Pacer} {now : ℚ} (idle : pacer.Idle now)
    (calls : List WaitCall) :
    pacer.Conforms (pacer.releases now calls) ↔
      ∀ call ∈ calls, (call.bytes : ℚ) ≤ pacer.capacity := by
  rw [← idle.neverOverdrawn_iff calls]
  constructor
  · intro conforms release member
    exact (conforms.inBucket release member).1
  · intro solvent
    have metered := idle.metered calls
    constructor
    · intro release member
      exact ⟨solvent release member, metered.left_le member⟩
    · intro start stop ordered
      exact metered.conforms idle.rate.le idle.room solvent ordered

theorem idle_new {rateMbps now : ℚ} {pacer : Pacer} (isNew : new rateMbps now = some pacer) :
    pacer.Idle now ∧ pacer.capacity = max (500 * rateMbps) 1392 := by
  have valid := valid_new isNew
  unfold new at isNew
  split at isNew
  next allowed =>
    cases isNew
    refine ⟨⟨by linarith [valid.rate], by linarith [valid.room], le_refl _, le_refl _⟩, ?_⟩
    have perBatch : rateMbps * 1000000 / 8 * (4 / 1000) = 500 * rateMbps := by ring
    have floor : ((header + shardBytes + tag : Nat) : ℚ) = 1392 := by
      norm_num [header, shardBytes, tag]
    dsimp only
    rw [perBatch, floor]
  next => cases isNew

/-- A new pacer keeps to its rate exactly when every call fits into the bucket, which
holds four milliseconds of the rate and at least 1392 bytes. -/
theorem pacer_conforms_iff (rateMbps now : ℚ) (pacer : Pacer)
    (isNew : new rateMbps now = some pacer) (calls : List WaitCall) :
    pacer.Conforms (pacer.releases now calls) ↔
      ∀ call ∈ calls, (call.bytes : ℚ) ≤ max (500 * rateMbps) 1392 := by
  obtain ⟨idle, capacity⟩ := idle_new isNew
  rw [← capacity]
  exact idle.conforms_iff calls

/-! ### A full frame -/

/-- The only frame of a new encoder for one fragment. -/
def onlyFrame (payload : Bytes) : Frame where
  version := versionV3
  keyId := 1
  kind := kindData
  session := 7
  sequence := 1
  group := 1
  index := 0
  data := 1
  parity := 0
  payload := fragmentShard 1 0 1 payload

/-- A datagram that fills one fragment leaves in one frame of the largest size. -/
theorem full_frame (rs : ReedSolomon) (payload : Bytes) (isFull : payload.length = chunkBytes) :
    ∃ encoder, (withIdentity 7 versionV3 1 none).calls rs [.encodeDatagram payload, .flush] =
      some (encoder, [onlyFrame payload]) := by
  have nonempty : payload.isEmpty = false := by
    cases payload with
    | nil => cases isFull
    | cons => rfl
  have oneChunk : datagramChunks payload = [payload] := by
    have count : divCeil chunkBytes chunkBytes = 1 := by decide
    have whole : payload.take chunkBytes = payload := List.take_of_length_le isFull.le
    simp [datagramChunks, nonempty, chunks, isFull, count, whole]
  have pushed : ((withIdentity 7 versionV3 1 none).encodeDatagram rs payload) =
      ({ withIdentity 7 versionV3 1 none with
          packet := 2, shards := [fragmentShard 1 0 1 payload] }, .ok []) := by
    have count : divCeil (max payload.length 1) chunkBytes = 1 := by
      rw [isFull]
      decide
    unfold encodeDatagram
    rw [count, oneChunk]
    rfl
  refine ⟨{ withIdentity 7 versionV3 1 none with packet := 2, sequence := 2, group := 2 }, ?_⟩
  unfold Encoder.calls
  rw [run_cons]
  unfold Encoder.call
  dsimp only
  rw [pushed]
  rfl

theorem wireLength_onlyFrame {payload : Bytes} (isFull : payload.length = chunkBytes) :
    wireLength (onlyFrame payload) = 1419 := by
  simp [wireLength, v3Selector, v3Nonce, v3InnerHeader, tag, onlyFrame, fragmentShard, isFull,
    chunkBytes, shardBytes, fragmentHeader]

/-- One call, at once. -/
def callNow (bytes : Nat) : WaitCall := ⟨bytes, 0, 0, le_refl 0, le_refl 0⟩

/-- At thirty megabits the eleventh of twelve such frames waits for the bucket. -/
theorem pacer_conforms_burst :
    ∃ pacer, new 30 0 = some pacer ∧
      pacer.Conforms (pacer.releases 0 (List.replicate 12 (callNow 1419))) := by
  have accepted : (new 30 0).isSome := by
    unfold new
    rw [if_pos (by norm_num)]
    rfl
  obtain ⟨pacer, isNew⟩ := Option.isSome_iff_exists.mp accepted
  refine ⟨pacer, isNew, (pacer_conforms_iff 30 0 pacer isNew _).mpr ?_⟩
  intro call member
  rw [List.eq_of_mem_replicate member]
  norm_num [callNow]

/-- At one megabit the first full frame of an encoder takes more than the bucket holds. -/
theorem bucket_overdrawn :
    ∃ pacer encoder frame, new 1 0 = some pacer ∧
      (withIdentity 7 versionV3 1 none).calls ReedSolomon.standard
        [.encodeDatagram (List.replicate 1326 0), .flush] = some (encoder, [frame]) ∧
      ¬ pacer.Conforms (pacer.releases 0 [callNow (wireLength frame)]) := by
  have accepted : (new 1 0).isSome := by
    unfold new
    rw [if_pos (by norm_num)]
    rfl
  obtain ⟨pacer, isNew⟩ := Option.isSome_iff_exists.mp accepted
  have isFull : (List.replicate 1326 (0 : UInt8)).length = chunkBytes := List.length_replicate
  obtain ⟨encoder, sent⟩ := full_frame ReedSolomon.standard _ isFull
  refine ⟨pacer, encoder, _, isNew, sent, ?_⟩
  obtain ⟨idle, capacity⟩ := idle_new isNew
  rw [idle.conforms_iff, capacity, wireLength_onlyFrame isFull]
  norm_num [callNow]

end Pacer

end SmartFecTunnel.Fec
