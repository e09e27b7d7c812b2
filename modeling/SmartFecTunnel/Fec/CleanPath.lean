import SmartFecTunnel.Fec.Encoder
import SmartFecTunnel.Fec.SequenceWindow

/-!
Contract: what the two halves of the tunnel do while nothing is lost.

A decoder that misses nothing reports no loss, a controller that is told of no
loss asks for no redundancy, and an encoder that is asked for none sends data and
reports only.

Owns:
- `NoLoss`, the two figures of a report that say so;
- `Idle`, a controller that has never heard of a loss, and what its encoder sends;
- `Follows`, a decoder and the sequence numbers that arrived at it.

Does not own: the network, and who talks to whom.
-/

namespace SmartFecTunnel.Fec

open SmartFecTunnel.Library

/-- The figure of a report that has no loss to tell of. -/
def NoLoss (lossPpm : Nat) : Prop := lossPpm = 0 ∨ lossPpm = lossSampleUnavailable

theorem NoLoss.lt {lossPpm : Nat} (noLoss : NoLoss lossPpm) : lossPpm < 256 ^ 4 := by
  rcases noLoss with rfl | rfl <;> decide

/-! ### The controller -/

namespace Adaptive

/-- The controller asks for no redundancy and remembers no loss. -/
structure Idle (adaptive : Adaptive) : Prop where
  parity : adaptive.parity = 0
  smoothed : adaptive.smoothedLossPpm = 0
  bypassed : adaptive.bypassed = false

theorem idle_default : Idle default := ⟨rfl, rfl, rfl⟩

theorem Idle.reportUnavailable {adaptive : Adaptive} (idle : adaptive.Idle) :
    adaptive.reportUnavailable.Idle := by
  unfold Adaptive.reportUnavailable
  dsimp only
  split
  · rw [idle.parity, if_pos rfl]
    exact ⟨rfl, rfl, idle.bypassed⟩
  · exact ⟨idle.parity, idle.smoothed, idle.bypassed⟩

theorem Idle.reportSample {adaptive : Adaptive} (idle : adaptive.Idle) :
    adaptive.reportSample.Idle := by
  have noTarget : target 0 = 0 := rfl
  unfold Adaptive.reportSample
  simp only [idle.smoothed, idle.bypassed, idle.parity, noTarget, Bool.false_eq_true, if_false,
    Nat.lt_irrefl]
  exact ⟨rfl, rfl, rfl⟩

theorem Idle.report {adaptive : Adaptive} (idle : adaptive.Idle) {lossPpm : Nat}
    (noLoss : NoLoss lossPpm) : (adaptive.report lossPpm).Idle := by
  rcases noLoss with rfl | rfl
  · unfold Adaptive.report
    rw [if_neg (by decide), idle.smoothed]
    dsimp only
    rw [if_neg (by decide)]
    apply Idle.reportSample
    exact ⟨idle.parity, rfl, idle.bypassed⟩
  · unfold Adaptive.report
    rw [if_pos rfl]
    exact idle.reportUnavailable

end Adaptive

/-! ### The encoder -/

/-- A data frame, or a report that tells of no loss. -/
def Frame.Plain (frame : Frame) : Prop :=
  frame.kind = kindData ∨
    frame.kind = kindReport ∧ ∃ lossPpm, NoLoss lossPpm ∧ frame.payload = toBeBytes 4 lossPpm

namespace Encoder

/-- The counters have gone on, and the controller is as it was. -/
structure Advances (later earlier : Encoder) : Prop where
  sequence : earlier.sequence ≤ later.sequence
  packet : earlier.packet ≤ later.packet
  group : earlier.group ≤ later.group
  adaptive : later.adaptive = earlier.adaptive
  forceParity : later.forceParity = earlier.forceParity

theorem Advances.refl (encoder : Encoder) : Advances encoder encoder :=
  ⟨Nat.le_refl _, Nat.le_refl _, Nat.le_refl _, rfl, rfl⟩

theorem Advances.trans {first second third : Encoder} (late : Advances third second)
    (early : Advances second first) : Advances third first where
  sequence := early.sequence.trans late.sequence
  packet := early.packet.trans late.packet
  group := early.group.trans late.group
  adaptive := late.adaptive.trans early.adaptive
  forceParity := late.forceParity.trans early.forceParity

theorem flush_advances (rs : ReedSolomon) (encoder : Encoder) :
    Advances (encoder.flush rs).1 encoder := by
  have goneOn : ∀ (shards : List Bytes) (used groups : Nat), Advances { encoder with
      shards, sequence := encoder.sequence + used, group := encoder.group + groups } encoder :=
    fun _ _ _ => ⟨Nat.le_add_right _ _, Nat.le_refl _, Nat.le_add_right _ _, rfl, rfl⟩
  unfold flush
  dsimp only
  split
  · exact Advances.refl encoder
  · split
    · split
      · exact goneOn _ _ 0
      · split
        · exact goneOn _ _ 0
        · rw [Nat.add_assoc]
          exact goneOn _ _ 1
    · exact goneOn _ _ 1

/-- A controller that asks for nothing, and no hook that asks in its place. -/
structure Idle (encoder : Encoder) : Prop where
  adaptive : encoder.adaptive.Idle
  forceParity : encoder.forceParity = none

theorem Idle.of_advances {later earlier : Encoder} (idle : earlier.Idle)
    (advances : Advances later earlier) : later.Idle where
  adaptive := advances.adaptive ▸ idle.adaptive
  forceParity := advances.forceParity.trans idle.forceParity

theorem Idle.flush_data {encoder : Encoder} (idle : encoder.Idle) (rs : ReedSolomon)
    {frames : List Frame} (flushed : (encoder.flush rs).2 = .ok frames) :
    ∀ frame ∈ frames, frame.kind = kindData := by
  have noParity : ∀ data, encoder.parityFor data = 0 := by
    intro data
    simp [parityFor, idle.forceParity, idle.adaptive.parity]
  unfold flush at flushed
  simp only [noParity, Nat.lt_irrefl, if_false] at flushed
  intro frame member
  split at flushed
  · cases flushed
    cases member
  · cases flushed
    obtain ⟨_, _, rfl⟩ := List.mem_map.mp member
    rfl

/-- The loop over the fragments of a datagram. -/
theorem pushChunks_advances (rs : ReedSolomon) (packetId count index : Nat) (rest : List Bytes)
    (encoder : Encoder) (frames : List Frame) :
    Advances (pushChunks rs packetId count index rest encoder frames).1 encoder := by
  induction rest generalizing index encoder frames with
  | nil => exact Advances.refl encoder
  | cons chunk rest inductionHypothesis =>
      have pushed : Advances { encoder with
          shards := encoder.shards ++ [fragmentShard packetId index count chunk] } encoder :=
        ⟨Nat.le_refl _, Nat.le_refl _, Nat.le_refl _, rfl, rfl⟩
      have flushed := (flush_advances rs { encoder with
        shards := encoder.shards ++ [fragmentShard packetId index count chunk] }).trans pushed
      rw [pushChunks]
      dsimp only
      split
      · split
        next next more isNext =>
          rw [isNext] at flushed
          exact (inductionHypothesis _ next _).trans flushed
        next failed error isFailed =>
          rw [isFailed] at flushed
          exact flushed
      · exact (inductionHypothesis _ _ _).trans pushed

theorem Idle.pushChunks_data {encoder : Encoder} (idle : encoder.Idle) (rs : ReedSolomon)
    (packetId count index : Nat) (rest : List Bytes) {frames emitted : List Frame}
    (onlyData : ∀ frame ∈ frames, frame.kind = kindData)
    (pushed : (pushChunks rs packetId count index rest encoder frames).2 = .ok emitted) :
    ∀ frame ∈ emitted, frame.kind = kindData := by
  induction rest generalizing index encoder frames with
  | nil =>
      cases pushed
      exact onlyData
  | cons chunk rest inductionHypothesis =>
      have pushedIdle : Idle { encoder with
          shards := encoder.shards ++ [fragmentShard packetId index count chunk] } :=
        ⟨idle.adaptive, idle.forceParity⟩
      have advances := flush_advances rs { encoder with
        shards := encoder.shards ++ [fragmentShard packetId index count chunk] }
      rw [pushChunks] at pushed
      dsimp only at pushed
      split at pushed
      · split at pushed
        next next more isNext =>
          have moreData := pushedIdle.flush_data rs (congrArg Prod.snd isNext)
          rw [isNext] at advances
          refine inductionHypothesis (pushedIdle.of_advances advances) _ ?_ pushed
          intro frame member
          rcases List.mem_append.mp member with old | new
          · exact onlyData frame old
          · exact moreData frame new
        next => cases pushed
      · exact inductionHypothesis pushedIdle _ onlyData pushed

theorem encodeDatagram_advances (rs : ReedSolomon) (encoder : Encoder) (payload : Bytes) :
    Advances (encoder.encodeDatagram rs payload).1 encoder := by
  have counted : Advances { encoder with packet := encoder.packet + 1 } encoder :=
    ⟨Nat.le_refl _, Nat.le_succ _, Nat.le_refl _, rfl, rfl⟩
  unfold encodeDatagram
  dsimp only
  split
  · exact counted
  · exact (pushChunks_advances rs _ _ _ _ _ _).trans counted

theorem Idle.encodeDatagram_data {encoder : Encoder} (idle : encoder.Idle) (rs : ReedSolomon)
    (payload : Bytes) {frames : List Frame}
    (encoded : (encoder.encodeDatagram rs payload).2 = .ok frames) :
    ∀ frame ∈ frames, frame.kind = kindData := by
  have counted : Idle { encoder with packet := encoder.packet + 1 } :=
    ⟨idle.adaptive, idle.forceParity⟩
  unfold encodeDatagram at encoded
  dsimp only at encoded
  split at encoded
  · cases encoded
  · exact counted.pushChunks_data rs _ _ _ _ (fun _ => (absurd · List.not_mem_nil)) encoded

end Encoder

/-! ### The decoder -/

namespace Decoder

/-- A window that has all it waits for has nothing missing. -/
theorem Window.reportAt_complete {accepted : List Nat} {decoder : Decoder}
    (window : Window accepted decoder) {cutoff : Nat}
    (complete : ∀ seq, decoder.finalizedSequence < seq → seq ≤ cutoff → seq ∈ accepted) :
    (decoder.reportAt cutoff).sequenceGapPpm = 0 := by
  have all : Finset.Ioc decoder.finalizedSequence cutoff ⊆
      decoder.seenSequences.filter fun seq =>
        decoder.finalizedSequence + 1 ≤ seq ∧ seq ≤ cutoff := by
    intro seq member
    have ⟨above, within⟩ := Finset.mem_Ioc.mp member
    rw [Finset.mem_filter, window.seen_iff]
    exact ⟨⟨complete seq above within, above⟩, above, within⟩
  have enough := Finset.card_le_card all
  rw [Nat.card_Ioc] at enough
  unfold reportAt
  dsimp only
  rw [Nat.sub_eq_zero_of_le enough, Nat.zero_mul, Nat.zero_div, Nat.zero_mod, Nat.zero_min]

/-- The decoder has taken note of every sequence number that arrived. -/
structure Follows (arrived : List Nat) (decoder : Decoder) : Prop where
  noted : ∃ accepted, Window accepted decoder ∧
    ∀ seq ∈ arrived, seq ≤ decoder.finalizedSequence ∨ seq ∈ accepted
  highest : 0 < decoder.highestSequence → decoder.highestSequence ∈ arrived

theorem follows_new (session : Nat) : Follows [] (Decoder.new session) where
  noted := ⟨[], window_new session, fun _ member => absurd member List.not_mem_nil⟩
  highest := fun impossible => absurd impossible (Nat.lt_irrefl 0)

theorem Follows.of_sameWindow {arrived : List Nat} {decoder next : Decoder}
    (follows : Follows arrived decoder) (same : SameWindow next decoder) :
    Follows arrived next where
  noted := by
    obtain ⟨accepted, window, noted⟩ := follows.noted
    refine ⟨accepted, window.of_sameWindow same, ?_⟩
    rw [same.finalized]
    exact noted
  highest := by
    rw [same.highest]
    exact follows.highest

theorem Follows.observe {arrived : List Nat} {decoder : Decoder}
    (follows : Follows arrived decoder) (seq : Nat) :
    Follows (arrived ++ [seq]) (decoder.observeSeq seq).1 := by
  obtain ⟨accepted, window, noted⟩ := follows.noted
  have ⟨_, nextWindow⟩ := window.observe seq
  have finalized := window.observeSeq_finalized seq
  have highest := window.observeSeq_highest seq
  constructor
  · refine ⟨_, nextWindow, fun other member => ?_⟩
    rcases List.mem_append.mp member with old | new
    · rcases noted other old with late | isAccepted
      · left
        rw [finalized]
        split
        next zero =>
          have ordered := window.ordered
          omega
        next => exact late
      · right
        split
        · exact List.mem_append_left _ isAccepted
        · exact isAccepted
    · rw [List.mem_singleton.mp new]
      rcases Nat.eq_zero_or_pos seq with rfl | positive
      · exact .inl (Nat.zero_le _)
      · rcases Nat.eq_zero_or_pos decoder.highestSequence with zero | started
        · rw [window.observeSeq_first zero positive]
          exact .inr (List.mem_append_right _ (List.mem_singleton_self _))
        · rw [finalized, if_neg (by omega)]
          by_cases isNew : decoder.finalizedSequence < seq ∧ seq ∉ accepted
          · rw [(window.observeSeq_true_iff started seq).mpr isNew]
            exact .inr (List.mem_append_right _ (List.mem_singleton_self _))
          · rw [Bool.eq_false_iff.mpr fun isTrue =>
              isNew ((window.observeSeq_true_iff started seq).mp isTrue)]
            by_cases late : seq ≤ decoder.finalizedSequence
            · exact .inl late
            · exact .inr (not_not.mp fun fresh => isNew ⟨not_le.mp late, fresh⟩)
  · intro positive
    rw [highest] at positive ⊢
    rcases le_total seq decoder.highestSequence with below | above
    · rw [Nat.max_eq_left below] at positive ⊢
      exact List.mem_append_left _ (follows.highest positive)
    · rw [Nat.max_eq_right above]
      exact List.mem_append_right _ (List.mem_singleton_self _)

/-- A report while everything behind the reorder window has arrived. -/
theorem Follows.report {arrived : List Nat} {decoder next : Decoder}
    {report : Option SequenceReport} (follows : Follows arrived decoder)
    (complete : ∀ seq, 0 < seq → seq + reorderWindow ≤ decoder.highestSequence → seq ∈ arrived)
    (reported : decoder.sequenceReport = some (next, report)) :
    Follows arrived next ∧ NoLoss (report.elim lossSampleUnavailable SequenceReport.sequenceGapPpm) := by
  obtain ⟨accepted, window, noted⟩ := follows.noted
  have nextWindow := window.report reported
  rcases sequenceReport_cases decoder with ⟨_, equal⟩ | ⟨enough, equal⟩
  · rw [equal] at reported
    cases reported
    exact ⟨follows, .inr rfl⟩
  · rw [equal] at reported
    cases reported
    refine ⟨⟨⟨accepted, nextWindow, fun seq member => ?_⟩, follows.highest⟩, .inl ?_⟩
    · refine (noted seq member).imp_left fun late => ?_
      change seq ≤ decoder.highestSequence - reorderWindow
      omega
    · rw [Option.elim_some]
      apply window.reportAt_complete
      intro seq above within
      have isArrived := complete seq (by omega) (by omega)
      exact (noted seq isArrived).resolve_left (by omega)

end Decoder

end SmartFecTunnel.Fec
