import Mathlib.Algebra.Order.Floor.Semiring
import Mathlib.Data.Rat.Floor
import Mathlib.Tactic.Linarith
import SmartFecTunnel.Fec.EncoderOutput

/-!
Contract: when the frames of an encoder leave (`Pacer` and `send_frames` of
`src/main.rs`).

Times are seconds, tokens are bytes, and both are exact.  A loop makes one call
on its encoder after the other and sends the frames of a call before the next
one, so a call starts when it is due and the frames before it have left.

Owns:
- `Pacer`, and `Sender`, an encoder behind a pacer;
- the departures of a run: in the order of the frames, with those of one group
  within five quarters of a second;
- `Busy`: what a pacer without a pause has sent by a given time.

Does not own: what the receiver does with them.
-/

namespace SmartFecTunnel.Fec

open SmartFecTunnel.Library
open SmartFecTunnel.Wire
open Encoder

structure Pacer where
  bytesPerSecond : ℚ
  capacity : ℚ
  tokens : ℚ
  updated : ℚ

namespace Pacer

/-- `Pacer::new`, which refuses other rates. -/
def new (rateMbps now : ℚ) : Option Pacer :=
  if 1 ≤ rateMbps ∧ rateMbps ≤ 1000 then
    let bytesPerSecond := rateMbps * 1000000 / 8
    let capacity := max (bytesPerSecond * (4 / 1000)) ((header + shardBytes + tag : Nat) : ℚ)
    some { bytesPerSecond, capacity, tokens := capacity, updated := now }
  else none

/-- `wait`, and the time when it returns.  It fills the bucket up before it goes on. -/
def wait (pacer : Pacer) (bytes : Nat) (now : ℚ) : Pacer × ℚ :=
  let tokens := min (pacer.tokens + (now - pacer.updated) * pacer.bytesPerSecond) pacer.capacity
  if tokens < bytes then
    let delay := (pacer.capacity - tokens) / pacer.bytesPerSecond
    ({ pacer with tokens := pacer.capacity - bytes, updated := now + delay }, now + delay)
  else ({ pacer with tokens := tokens - bytes, updated := now }, now)

/-- A pacer in use.  The largest frame is 27 bytes larger than the smallest bucket, so
that the tokens may fall below zero. -/
structure Valid (pacer : Pacer) (now : ℚ) : Prop where
  rate : 125000 ≤ pacer.bytesPerSecond
  room : 1392 ≤ pacer.capacity
  batch : pacer.capacity + 27 ≤ pacer.bytesPerSecond * (12 / 1000)
  debt : -27 ≤ pacer.tokens
  past : pacer.updated ≤ now

theorem valid_new {rateMbps now : ℚ} {pacer : Pacer} (isNew : new rateMbps now = some pacer) :
    pacer.Valid now := by
  unfold new at isNew
  split at isNew
  next allowed =>
    cases isNew
    have rate : 125000 ≤ rateMbps * 1000000 / 8 := by linarith
    have floor : ((header + shardBytes + tag : Nat) : ℚ) = 1392 := by
      norm_num [header, shardBytes, tag]
    refine ⟨rate, ?_, ?_, ?_, le_refl now⟩
    · exact floor ▸ le_max_right _ _
    · dsimp only
      rw [floor, ← le_sub_iff_add_le]
      apply max_le
      · linarith
      · linarith
    · dsimp only
      rw [floor]
      exact le_trans (by norm_num) (le_max_right _ _)
  next => cases isNew

theorem Valid.later {pacer : Pacer} {now later : ℚ} (valid : pacer.Valid now)
    (isLater : now ≤ later) : pacer.Valid later :=
  ⟨valid.rate, valid.room, valid.batch, valid.debt, valid.past.trans isLater⟩

/-- One frame waits at most twelve milliseconds. -/
theorem Valid.wait {pacer : Pacer} {now : ℚ} (valid : pacer.Valid now) {bytes : Nat}
    (small : bytes ≤ 1419) :
    now ≤ (pacer.wait bytes now).2 ∧ (pacer.wait bytes now).2 ≤ now + 12 / 1000 ∧
      (pacer.wait bytes now).1.Valid (pacer.wait bytes now).2 := by
  have rate := valid.rate
  have room := valid.room
  have batch := valid.batch
  have debt := valid.debt
  have bytesSmall : (bytes : ℚ) ≤ 1419 := by exact_mod_cast small
  have elapsed : 0 ≤ (now - pacer.updated) * pacer.bytesPerSecond :=
    mul_nonneg (by linarith [valid.past]) (by linarith)
  have positive : 0 < pacer.bytesPerSecond := by linarith
  unfold Pacer.wait
  dsimp only
  generalize isTokens : min (pacer.tokens + (now - pacer.updated) * pacer.bytesPerSecond)
    pacer.capacity = tokens
  have tokensLow : -27 ≤ tokens := by
    rw [← isTokens]
    exact le_min (by linarith) (by linarith)
  have tokensHigh : tokens ≤ pacer.capacity := by
    rw [← isTokens]
    exact min_le_right _ _
  split
  next short =>
    have delayLow : 0 ≤ (pacer.capacity - tokens) / pacer.bytesPerSecond :=
      div_nonneg (by linarith) positive.le
    have delayHigh : (pacer.capacity - tokens) / pacer.bytesPerSecond ≤ 12 / 1000 := by
      rw [div_le_iff₀ positive]
      linarith
    refine ⟨by linarith, by linarith, rate, room, batch, ?_, le_refl _⟩
    dsimp only
    linarith
  next enough =>
    refine ⟨le_refl _, by linarith, rate, room, batch, ?_, le_refl _⟩
    dsimp only
    linarith

/-- A pacer that has sent `sent` bytes since its bucket was last full, at time zero, and
has not been idle. -/
structure Busy (pacer : Pacer) (now sent : ℚ) : Prop where
  updated : pacer.updated = now
  tokens : pacer.tokens ≤ pacer.capacity
  balance : pacer.bytesPerSecond * now + pacer.capacity = pacer.tokens + sent

theorem Busy.wait {pacer : Pacer} {now sent : ℚ} (busy : pacer.Busy now sent)
    (positive : 0 < pacer.bytesPerSecond) (bytes : Nat) :
    (pacer.wait bytes now).1.Busy (pacer.wait bytes now).2 (sent + bytes) := by
  have tokens := busy.tokens
  have balance := busy.balance
  have noRefill : min (pacer.tokens + (now - pacer.updated) * pacer.bytesPerSecond)
      pacer.capacity = pacer.tokens := by
    rw [busy.updated, sub_self, zero_mul, add_zero]
    exact min_eq_left tokens
  have count : (0 : ℚ) ≤ bytes := Nat.cast_nonneg bytes
  unfold Pacer.wait
  dsimp only
  rw [noRefill]
  split
  next =>
    refine ⟨rfl, by dsimp only; linarith, ?_⟩
    dsimp only
    rw [mul_add, mul_div_cancel₀ _ positive.ne']
    linarith
  next =>
    refine ⟨rfl, by dsimp only; linarith, ?_⟩
    dsimp only
    linarith

@[simp] theorem wait_bytesPerSecond (pacer : Pacer) (bytes : Nat) (now : ℚ) :
    (pacer.wait bytes now).1.bytesPerSecond = pacer.bytesPerSecond := by
  unfold Pacer.wait
  dsimp only
  split <;> rfl

end Pacer

/-- Size of a sealed frame. -/
def wireLength (frame : Frame) : Nat :=
  v3Selector + v3Nonce + v3InnerHeader + tag + frame.payload.length

theorem wireLength_le {frame : Frame} (small : frame.payload.length ≤ shardBytes) :
    wireLength frame ≤ 1419 := by
  unfold shardBytes at small
  unfold wireLength v3Selector v3Nonce v3InnerHeader tag
  omega

/-- A frame and the time when it leaves. -/
abbrev Departure := Frame × ℚ

/-- `send_frames` from `now` on: the pacer, the time when the last frame has left, and when
each leaves. -/
def sendFrames (pacer : Pacer) (now : ℚ) : List Frame → Pacer × ℚ × List Departure
  | [] => (pacer, now, [])
  | frame :: rest =>
    let waited := pacer.wait (wireLength frame) now
    let sent := sendFrames waited.1 waited.2 rest
    (sent.1, sent.2.1, (frame, waited.2) :: sent.2.2)

theorem sendFrames_frames (pacer : Pacer) (now : ℚ) (frames : List Frame) :
    (sendFrames pacer now frames).2.2.map Prod.fst = frames := by
  induction frames generalizing pacer now with
  | nil => rfl
  | cons frame rest inductionHypothesis => simp [sendFrames, inductionHypothesis]

/-- Frames leave in order, each within twelve milliseconds of the one before. -/
theorem sendFrames_times {pacer : Pacer} {now : ℚ} (valid : pacer.Valid now)
    (frames : List Frame) (small : ∀ frame ∈ frames, frame.payload.length ≤ shardBytes) :
    (sendFrames pacer now frames).1.Valid (sendFrames pacer now frames).2.1 ∧
      (sendFrames pacer now frames).2.2.Pairwise (fun left right => left.2 ≤ right.2) ∧
      (∀ departure ∈ (sendFrames pacer now frames).2.2,
        now ≤ departure.2 ∧ departure.2 ≤ (sendFrames pacer now frames).2.1) ∧
      now ≤ (sendFrames pacer now frames).2.1 ∧
      (sendFrames pacer now frames).2.1 ≤ now + frames.length * (12 / 1000) := by
  induction frames generalizing pacer now with
  | nil => simpa [sendFrames] using valid
  | cons frame rest inductionHypothesis =>
      obtain ⟨notBefore, soon, waited⟩ :=
        valid.wait (wireLength_le (small frame List.mem_cons_self))
      obtain ⟨restValid, ordered, between, started, finished⟩ := inductionHypothesis waited
        fun other member => small other (List.mem_cons_of_mem frame member)
      simp only [sendFrames, List.length_cons]
      push_cast
      refine ⟨restValid, ?_, ?_, by linarith, by linarith⟩
      · rw [List.pairwise_cons]
        exact ⟨fun later member => (between later member).1, ordered⟩
      · intro departure member
        cases member with
        | head => exact ⟨notBefore, started⟩
        | tail _ inRest =>
            have inside := between departure inRest
            exact ⟨by linarith, inside.2⟩

/-- A busy pacer keeps its rate. -/
theorem sendFrames_busy {pacer : Pacer} {now sent : ℚ} (busy : pacer.Busy now sent)
    (positive : 0 < pacer.bytesPerSecond) (frames : List Frame) :
    (sendFrames pacer now frames).1.Busy (sendFrames pacer now frames).2.1
        (sent + (frames.map wireLength).sum) ∧
      (sendFrames pacer now frames).1.bytesPerSecond = pacer.bytesPerSecond := by
  induction frames generalizing pacer now sent with
  | nil => simpa [sendFrames] using busy
  | cons frame rest inductionHypothesis =>
      obtain ⟨restBusy, sameRate⟩ := inductionHypothesis (busy.wait positive (wireLength frame))
        (by rw [Pacer.wait_bytesPerSecond]; exact positive)
      rw [Pacer.wait_bytesPerSecond] at sameRate
      simp only [sendFrames, List.map_cons, List.sum_cons]
      rw [Nat.cast_add, ← add_assoc]
      exact ⟨restBusy, sameRate⟩

/-! ### A sender -/

/-- A call on the encoder and the time when it is due. -/
structure TimedCall where
  time : ℚ
  call : Encoder.Call

structure Sender where
  encoder : Encoder
  pacer : Pacer
  /-- When the frames sent so far have left. -/
  clock : ℚ

namespace Sender

/-- One round of the loop around an encoder. -/
def step (rs : ReedSolomon) (sender : Sender) (timed : TimedCall) : Sender × List Departure :=
  let called := sender.encoder.call rs timed.call
  let sent := sendFrames sender.pacer (max sender.clock timed.time) called.2
  ({ encoder := called.1, pacer := sent.1, clock := sent.2.1 }, sent.2.2)

/-- The departures of a stream of calls. -/
def departures (rs : ReedSolomon) (sender : Sender) (stream : List TimedCall) :
    Option (Sender × List Departure) :=
  run (fun state input => some (state.step rs input)) sender stream

/-- A new encoder behind a new pacer, if the pacer accepts the rate. -/
def start (rateMbps : ℚ) (session version keyId : Nat) (hook : Option Nat) : Option Sender :=
  (Pacer.new rateMbps 0).map fun pacer =>
    { encoder := withIdentity session version keyId hook, pacer, clock := 0 }

/-- The frames that leave are those the calls hand out. -/
theorem departures_calls {rs : ReedSolomon} {sender last : Sender} {stream : List TimedCall}
    {departures : List Departure} (ran : sender.departures rs stream = some (last, departures)) :
    sender.encoder.calls rs (stream.map TimedCall.call) =
      some (last.encoder, departures.map Prod.fst) := by
  induction stream generalizing sender departures with
  | nil =>
      cases ran
      rfl
  | cons timed rest inductionHypothesis =>
      unfold Sender.departures at ran
      rw [run_cons, Option.bind_some] at ran
      obtain ⟨⟨final, more⟩, ranRest, isLast⟩ := Option.map_eq_some_iff.mp ran
      cases isLast
      have called := inductionHypothesis ranRest
      simp only [Encoder.calls, List.map_cons, run_cons, Option.bind_some] at called ⊢
      simp only [step] at called
      rw [called, List.map_append]
      simp only [Option.map_some, step, sendFrames_frames]

/-- Every stream has its departures. -/
theorem exists_departures (rs : ReedSolomon) (sender : Sender) (stream : List TimedCall) :
    ∃ last departures, sender.departures rs stream = some (last, departures) := by
  induction stream generalizing sender with
  | nil => exact ⟨sender, [], rfl⟩
  | cons timed rest inductionHypothesis =>
      obtain ⟨last, more, ran⟩ := inductionHypothesis (sender.step rs timed).1
      refine ⟨last, (sender.step rs timed).2 ++ more, ?_⟩
      unfold departures at ran ⊢
      rw [run_cons, Option.bind_some, ran]
      rfl

end Sender

/-! ### Departures of a run -/

/-- The departures so far: in order, and those of one group within five quarters of a
second. -/
structure Paced (sender : Sender) (departures : List Departure) : Prop where
  valid : sender.pacer.Valid sender.clock
  ordered : departures.Pairwise fun left right => left.2 ≤ right.2
  past : ∀ departure ∈ departures, departure.2 ≤ sender.clock
  close : ∀ left ∈ departures, ∀ right ∈ departures, left.1.IsShard → right.1.IsShard →
    left.1.group = right.1.group → right.2 ≤ left.2 + 5 / 4

/-- The frames of one call leave after the earlier ones and within five quarters of a
second, and a group is never split between two calls. -/
theorem Paced.step {rs : ReedSolomon} {sender : Sender} {departures : List Departure}
    {groups : List (List Frame)} (paced : Paced sender departures)
    (emitted : Emitted sender.encoder (departures.map Prod.fst) groups)
    (few : sender.encoder.shards.length < dataShards) {timed : TimedCall}
    (small : ∀ payload, timed.call = .encodeDatagram payload → payload.length ≤ maxDatagram) :
    Paced (sender.step rs timed).1 (departures ++ (sender.step rs timed).2) ∧
      (sender.step rs timed).1.encoder.shards.length < dataShards ∧
      ∃ later, Emitted (sender.step rs timed).1.encoder
        ((departures ++ (sender.step rs timed).2).map Prod.fst) later := by
  obtain ⟨_, later, nextEmitted, nextFew, extended, count⟩ :=
    @Emitted.call rs _ _ _ emitted few _ small
  have valid := paced.valid.later (le_max_left sender.clock timed.time)
  have smallFrames : ∀ frame ∈ (sender.encoder.call rs timed.call).2,
      frame.payload.length ≤ shardBytes := fun frame member =>
    nextEmitted.payload_le (List.mem_append_right _ member)
  obtain ⟨nextValid, nextOrdered, between, started, finished⟩ :=
    sendFrames_times valid (sender.encoder.call rs timed.call).2 smallFrames
  have isFrames := sendFrames_frames sender.pacer (max sender.clock timed.time)
    (sender.encoder.call rs timed.call).2
  have inCall : ∀ departure ∈ (sender.step rs timed).2,
      departure.1 ∈ (sender.encoder.call rs timed.call).2 := by
    intro departure member
    rw [← isFrames]
    exact List.mem_map_of_mem member
  have clockLe : sender.clock ≤ max sender.clock timed.time := le_max_left _ _
  have isNext : (departures ++ (sender.step rs timed).2).map Prod.fst =
      departures.map Prod.fst ++ (sender.encoder.call rs timed.call).2 := by
    rw [List.map_append]
    exact congrArg _ isFrames
  have quick : ((sender.encoder.call rs timed.call).2.length : ℚ) ≤ 102 := by exact_mod_cast count
  refine ⟨⟨nextValid, ?_, ?_, ?_⟩, nextFew, later, isNext ▸ nextEmitted⟩
  · rw [List.pairwise_append]
    refine ⟨paced.ordered, nextOrdered, ?_⟩
    intro left isLeft right isRight
    exact (paced.past left isLeft).trans (clockLe.trans (between right isRight).1)
  · intro departure member
    rcases List.mem_append.mp member with old | new
    · exact (paced.past departure old).trans (clockLe.trans started)
    · exact (between departure new).2
  · -- A group of this call has a number that no earlier frame has.
    have apart : ∀ old ∈ departures, ∀ new ∈ (sender.step rs timed).2, old.1.IsShard →
        new.1.IsShard → old.1.group ≠ new.1.group := by
      intro old isOld new isNew oldShard newShard
      have below := emitted.group_lt (List.mem_map_of_mem isOld) oldShard
      have above := emitted.group_le_of_new nextEmitted extended (inCall new isNew) newShard
      omega
    intro left isLeft right isRight leftShard rightShard sameGroup
    rcases List.mem_append.mp isLeft with oldLeft | newLeft
    · rcases List.mem_append.mp isRight with oldRight | newRight
      · exact paced.close left oldLeft right oldRight leftShard rightShard sameGroup
      · exact absurd sameGroup (apart left oldLeft right newRight leftShard rightShard)
    · rcases List.mem_append.mp isRight with oldRight | newRight
      · exact absurd sameGroup.symm (apart right oldRight left newLeft rightShard leftShard)
      · have notBefore := (between left newLeft).1
        have notAfter := (between right newRight).2
        linarith

/-- The departures of any stream of datagrams the tunnel can read, at any rate a pacer
accepts. -/
theorem paced_of_departures {rs : ReedSolomon} {rateMbps : ℚ} {session version keyId : Nat}
    {hook : Option Nat} {sender last : Sender} {stream : List TimedCall}
    {departures : List Departure}
    (started : Sender.start rateMbps session version keyId hook = some sender)
    (small : ∀ payload ∈ Encoder.datagrams (stream.map TimedCall.call),
      payload.length ≤ maxDatagram)
    (ran : sender.departures rs stream = some (last, departures)) :
    Paced last departures ∧
      ∃ groups, Emitted last.encoder (departures.map Prod.fst) groups := by
  obtain ⟨pacer, isPacer, rfl⟩ := Option.map_eq_some_iff.mp started
  obtain ⟨paced, _, emitted⟩ := run_invariant ran
    (fun _ departures sender => Paced sender departures ∧
      sender.encoder.shards.length < dataShards ∧
      ∃ groups, Emitted sender.encoder (departures.map Prod.fst) groups)
    (by
      refine ⟨⟨Pacer.valid_new isPacer, List.Pairwise.nil, ?_, ?_⟩, show 0 < dataShards by decide,
        [], Emitted.initial session version keyId hook⟩
      · intro departure member
        cases member
      · intro left member
        cases member)
    (by
      rintro past timed departures sender next sent isPrefix _ stepped ⟨paced, few, groups, emitted⟩
      cases stepped
      apply paced.step emitted few
      intro payload isCall
      have called := isPrefix.map TimedCall.call
      rw [List.map_append, List.map_singleton, isCall] at called
      exact small payload (mem_datagrams_of_front called))
  exact ⟨paced, emitted⟩

end SmartFecTunnel.Fec
