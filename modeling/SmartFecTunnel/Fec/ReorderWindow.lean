import SmartFecTunnel.Fec.SequenceWindow

/-!
Contract: which frames the sequence window of a decoder drops.

The window is meant to tolerate frames that arrive up to `reorderWindow` sequence
numbers behind the highest one.  Two marks decide: the baseline that the first
observation sets, and the cutoff of the last report that returned a sample.

Owns:
- `Marks`: where the finalized mark of a run comes from;
- that a frame within the reorder window is dropped in two situations only: it is
  below the first one, or exactly `reorderWindow` below the highest one of a report.

Does not own: the counters, which are in `SequenceWindow`.
-/

namespace SmartFecTunnel.Fec

open SmartFecTunnel.Library

namespace Decoder

/-- The sequence numbers observed, in order. -/
def observations (calls : List SequenceCall) : List Nat :=
  calls.filterMap fun
    | .observeSeq seq => some seq
    | .sequenceReport => none

/-- Distinct nonzero sequence numbers, none of which arrives after one that exceeds
it by more than the reorder window. -/
structure Reordered (calls : List SequenceCall) : Prop where
  distinct : (observations calls).Nodup
  nonzero : ∀ seq ∈ observations calls, seq ≠ 0
  displaced : (observations calls).Pairwise fun earlier later => earlier ≤ later + reorderWindow

/-- Some report of the run returned a sample while `highest` was the greatest
sequence number observed. -/
def SampledAt (session : Nat) (calls : List SequenceCall) (highest : Nat) : Prop :=
  ∃ front decoder events next report, front ++ [SequenceCall.sequenceReport] <+: calls ∧
    run sequenceCall (Decoder.new session) front = some (decoder, events) ∧
    decoder.sequenceReport = some (next, some report) ∧
    highest ∈ observations front ∧ ∀ seq ∈ observations front, seq ≤ highest

theorem observations_snoc_observe (calls : List SequenceCall) (seq : Nat) :
    observations (calls ++ [SequenceCall.observeSeq seq]) = observations calls ++ [seq] := by
  simp [observations]

theorem observations_snoc_report (calls : List SequenceCall) :
    observations (calls ++ [SequenceCall.sequenceReport]) = observations calls := by
  simp [observations]

theorem SampledAt.mono {session highest : Nat} {calls more : List SequenceCall}
    (sampled : SampledAt session calls highest) (isPrefix : calls <+: more) :
    SampledAt session more highest := by
  obtain ⟨front, decoder, events, next, report, inside, rest⟩ := sampled
  exact ⟨front, decoder, events, next, report, inside.trans isPrefix, rest⟩

/-! ### Where the finalized mark comes from -/

/-- After a run the highest number is the greatest one observed, and the finalized
mark is the baseline of the first one or the cutoff of a report. -/
structure Marks (session : Nat) (calls : List SequenceCall) (events : List SequenceEvent)
    (decoder : Decoder) : Prop where
  window : Window (acceptedOf events) decoder
  accepted : ∀ seq ∈ acceptedOf events, seq ∈ observations calls
  highest : ∀ seq ∈ observations calls, seq ≤ decoder.highestSequence
  attained : 0 < decoder.highestSequence → decoder.highestSequence ∈ observations calls
  baseline : ∀ first, firstNonzero calls = some first → first - 1 ≤ decoder.finalizedSequence
  unstarted : firstNonzero calls = none → decoder.highestSequence = 0
  sampled : ∀ highest, SampledAt session calls highest →
    highest - reorderWindow ≤ decoder.finalizedSequence
  origin : decoder.finalizedSequence = 0 ∨ firstNonzero calls = some (decoder.finalizedSequence + 1) ∨
    SampledAt session calls (decoder.finalizedSequence + reorderWindow)

theorem marks_new (session : Nat) : Marks session [] [] (Decoder.new session) where
  window := window_new session
  accepted := by simp [acceptedOf]
  highest := by simp [observations]
  attained := by simp [Decoder.new]
  baseline := by simp [firstNonzero]
  unstarted := by simp [Decoder.new]
  sampled := by
    intro highest sampled
    obtain ⟨front, _, _, _, _, isPrefix, _⟩ := sampled
    simp at isPrefix
  origin := Or.inl rfl

/-- A report that ends a run is one of an earlier part, or the last call. -/
theorem SampledAt.of_snoc {session highest : Nat} {calls : List SequenceCall} {call : SequenceCall}
    (sampled : SampledAt session (calls ++ [call]) highest) :
    SampledAt session calls highest ∨
      call = .sequenceReport ∧ ∃ decoder events next report,
        run sequenceCall (Decoder.new session) calls = some (decoder, events) ∧
        decoder.sequenceReport = some (next, some report) ∧
        highest ∈ observations calls ∧ ∀ seq ∈ observations calls, seq ≤ highest := by
  obtain ⟨front, decoder, events, next, report, isPrefix, rest⟩ := sampled
  rw [List.prefix_concat_iff] at isPrefix
  rcases isPrefix with whole | shorter
  · obtain ⟨isFront, isCall⟩ := List.append_inj' whole rfl
    subst isFront
    simp only [List.cons.injEq, and_true] at isCall
    exact Or.inr ⟨isCall.symm, decoder, events, next, report, rest⟩
  · exact Or.inl ⟨front, decoder, events, next, report, shorter, rest⟩

namespace Marks

variable {session : Nat} {calls : List SequenceCall} {events : List SequenceEvent}
  {decoder : Decoder}

theorem first_le (marks : Marks session calls events decoder) {first : Nat}
    (isFirst : firstNonzero calls = some first) : 0 < decoder.highestSequence := by
  obtain ⟨call, member, isSome⟩ := List.exists_of_findSome?_eq_some isFirst
  cases call with
  | sequenceReport => cases isSome
  | observeSeq seq =>
      have observed : seq ∈ observations calls := List.mem_filterMap.mpr ⟨_, member, rfl⟩
      have bound := marks.highest seq observed
      have positive : seq ≠ 0 := by
        rintro rfl
        cases isSome
      omega

theorem sampled_le (marks : Marks session calls events decoder) {highest : Nat}
    (sampled : SampledAt session calls highest) : highest ≤ decoder.highestSequence := by
  obtain ⟨front, _, _, _, _, isPrefix, _, _, member, _⟩ := sampled
  apply marks.highest
  have inside := (List.prefix_append front [SequenceCall.sequenceReport]).trans isPrefix
  exact (inside.filterMap _).subset member

theorem observe (marks : Marks session calls events decoder) (seq : Nat) :
    Marks session (calls ++ [SequenceCall.observeSeq seq])
      (events ++ [SequenceEvent.observed seq (decoder.observeSeq seq).2])
      (decoder.observeSeq seq).1 := by
  have highest := marks.window.observeSeq_highest seq
  have finalized := marks.window.observeSeq_finalized seq
  have earlier : ∀ top, SampledAt session (calls ++ [SequenceCall.observeSeq seq]) top →
      SampledAt session calls top := by
    intro top sampled
    rcases sampled.of_snoc with old | ⟨impossible, _⟩
    · exact old
    · cases impossible
  have first : firstNonzero (calls ++ [SequenceCall.observeSeq seq]) =
      (firstNonzero calls).or (if seq = 0 then none else some seq) := by
    rw [firstNonzero_append]
    simp [firstNonzero]
  refine ⟨marks.window.observed seq, ?_, ?_, ?_, ?_, ?_, ?_, ?_⟩
  · intro other member
    rw [observations_snoc_observe]
    cases isAccepted : (decoder.observeSeq seq).2 with
    | false =>
        have old : other ∈ acceptedOf events := by simpa [acceptedOf, isAccepted] using member
        exact List.mem_append_left _ (marks.accepted other old)
    | true =>
        have cases_ : other ∈ acceptedOf events ∨ other = seq := by
          simpa [acceptedOf, isAccepted] using member
        rcases cases_ with old | rfl
        · exact List.mem_append_left _ (marks.accepted other old)
        · simp
  · intro other member
    rw [observations_snoc_observe, List.mem_append, List.mem_singleton] at member
    rw [highest]
    rcases member with old | rfl
    · exact (marks.highest other old).trans (Nat.le_max_left _ _)
    · exact Nat.le_max_right _ _
  · intro positive
    rw [observations_snoc_observe, highest]
    rcases Nat.le_total decoder.highestSequence seq with below | above
    · simp [Nat.max_eq_right below]
    · rw [Nat.max_eq_left above]
      rw [highest, Nat.max_eq_left above] at positive
      exact List.mem_append_left _ (marks.attained positive)
  · intro top isFirst
    rw [first] at isFirst
    rw [finalized]
    cases before : firstNonzero calls with
    | none =>
        rw [before, Option.none_or] at isFirst
        rw [if_pos (marks.unstarted before)]
        split at isFirst
        next => cases isFirst
        next => cases isFirst; exact Nat.le_refl _
    | some old =>
        rw [before, Option.some_or] at isFirst
        cases isFirst
        have started := marks.first_le before
        rw [if_neg (by omega)]
        exact marks.baseline top before
  · intro none
    rw [first, Option.or_eq_none_iff] at none
    have zero : seq = 0 := by
      by_contra positive
      rw [if_neg positive] at none
      cases none.2
    rw [highest, marks.unstarted none.1, zero, Nat.max_self]
  · intro top sampled
    have old := earlier top sampled
    rw [finalized]
    split
    next zero =>
      have bound := marks.sampled_le old
      omega
    next => exact marks.sampled top old
  · rw [finalized, first]
    split
    next zero =>
      have unstarted : firstNonzero calls = none := by
        cases before : firstNonzero calls with
        | none => rfl
        | some old =>
            have started := marks.first_le before
            omega
      rw [unstarted, Option.none_or]
      rcases Nat.eq_zero_or_pos seq with rfl | positive
      · exact Or.inl rfl
      · right
        left
        rw [if_neg (by omega), Nat.sub_add_cancel positive]
    next started =>
      rcases marks.origin with zero | isFirst | sampled
      · exact Or.inl zero
      · exact Or.inr (Or.inl (by rw [isFirst, Option.some_or]))
      · exact Or.inr (Or.inr (sampled.mono (List.prefix_append _ _)))

theorem report (marks : Marks session calls events decoder)
    (ran : run sequenceCall (Decoder.new session) calls = some (decoder, events)) {next : Decoder}
    {report : Option SequenceReport} (reported : decoder.sequenceReport = some (next, report)) :
    Marks session (calls ++ [SequenceCall.sequenceReport])
      (events ++ report.toList.map SequenceEvent.reported) next := by
  have sameFirst : firstNonzero (calls ++ [SequenceCall.sequenceReport]) = firstNonzero calls := by
    rw [firstNonzero_append]
    simp [firstNonzero]
  have nextWindow := marks.window.report reported
  rw [← acceptedOf_snoc_report events report] at nextWindow
  have last : ∀ top, SampledAt session (calls ++ [SequenceCall.sequenceReport]) top →
      SampledAt session calls top ∨ report ≠ none ∧ top = decoder.highestSequence := by
    intro top sampled
    rcases sampled.of_snoc with old | ⟨_, other, _, _, _, ranOther, isReport, member, greatest⟩
    · exact Or.inl old
    · rw [ran] at ranOther
      cases ranOther
      rw [reported] at isReport
      cases isReport
      refine Or.inr ⟨Option.some_ne_none _, ?_⟩
      have below := marks.highest top member
      rcases Nat.eq_zero_or_pos decoder.highestSequence with zero | started
      · omega
      · exact Nat.le_antisymm below (greatest _ (marks.attained started))
  rcases sequenceReport_cases decoder with ⟨_, equal⟩ | ⟨enough, equal⟩
  · rw [equal] at reported
    cases reported
    refine ⟨nextWindow, ?_, ?_, ?_, ?_, ?_, ?_, ?_⟩
    · rw [acceptedOf_snoc_report, observations_snoc_report]
      exact marks.accepted
    · rw [observations_snoc_report]
      exact marks.highest
    · rw [observations_snoc_report]
      exact marks.attained
    · rw [sameFirst]
      exact marks.baseline
    · rw [sameFirst]
      exact marks.unstarted
    · intro top sampled
      rcases last top sampled with old | ⟨impossible, _⟩
      · exact marks.sampled top old
      · exact absurd rfl impossible
    · rw [sameFirst]
      rcases marks.origin with zero | isFirst | sampled
      · exact Or.inl zero
      · exact Or.inr (Or.inl isFirst)
      · exact Or.inr (Or.inr (sampled.mono (List.prefix_append _ _)))
  · have started : 0 < decoder.highestSequence := by omega
    have sampledNow : SampledAt session (calls ++ [SequenceCall.sequenceReport])
        decoder.highestSequence := by
      refine ⟨calls, decoder, events, _, _, List.prefix_rfl, ran, equal, marks.attained started, ?_⟩
      exact marks.highest
    rw [equal] at reported
    cases reported
    refine ⟨nextWindow, ?_, ?_, ?_, ?_, ?_, ?_, ?_⟩
    · rw [acceptedOf_snoc_report, observations_snoc_report]
      exact marks.accepted
    · rw [observations_snoc_report]
      exact marks.highest
    · rw [observations_snoc_report]
      exact marks.attained
    · rw [sameFirst]
      intro first isFirst
      have below := marks.baseline first isFirst
      simp only [finalizedAt]
      omega
    · rw [sameFirst]
      exact marks.unstarted
    · intro top sampled
      simp only [finalizedAt]
      rcases last top sampled with old | ⟨_, rfl⟩
      · have below := marks.sampled top old
        omega
      · exact Nat.le_refl _
    · right
      right
      simp only [finalizedAt]
      rw [Nat.sub_add_cancel (by omega)]
      exact sampledNow

end Marks

theorem marks_of_run (session : Nat) (calls : List SequenceCall) :
    ∃ decoder events, run sequenceCall (Decoder.new session) calls = some (decoder, events) ∧
      Marks session calls events decoder := by
  apply run_induction sequenceCall (Decoder.new session) calls (Marks session) (marks_new session)
  intro past call outputs state _ ran marks
  cases call with
  | observeSeq seq => exact ⟨_, _, rfl, marks.observe seq⟩
  | sequenceReport =>
      rcases sequenceReport_cases state with ⟨_, equal⟩ | ⟨_, equal⟩
      · exact ⟨_, _, by rw [sequenceCall, equal]; rfl, marks.report ran equal⟩
      · exact ⟨_, _, by rw [sequenceCall, equal]; rfl, marks.report ran equal⟩

/-! ### What the window drops -/

/-- Of distinct nonzero sequence numbers that are displaced by at most the reorder
window, exactly those are dropped that are below the first one observed or
exactly the window below the highest one of an earlier report with a sample. -/
theorem reorder_window (session : Nat) (calls : List SequenceCall) (reordered : Reordered calls)
    (front : List SequenceCall) (seq : Nat)
    (isPrefix : front ++ [SequenceCall.observeSeq seq] <+: calls) :
    ∃ decoder events,
      run sequenceCall (Decoder.new session) front = some (decoder, events) ∧
      ((decoder.observeSeq seq).2 = true ↔
        (∀ first, firstNonzero front = some first → first ≤ seq) ∧
          ¬ SampledAt session front (seq + reorderWindow)) := by
  obtain ⟨decoder, events, ran, marks⟩ := marks_of_run session front
  refine ⟨decoder, events, ran, ?_⟩
  have inside : observations front ++ [seq] <+: observations calls := by
    rw [← observations_snoc_observe]
    exact isPrefix.filterMap _
  have positive : seq ≠ 0 := reordered.nonzero seq (inside.subset (by simp))
  have isNew : seq ∉ acceptedOf events := by
    intro old
    have distinct := reordered.distinct.sublist inside.sublist
    rw [List.nodup_append] at distinct
    exact distinct.2.2 seq (marks.accepted seq old) seq (List.mem_singleton_self _) rfl
  have displaced : ∀ earlier ∈ observations front, earlier ≤ seq + reorderWindow := by
    have pairs := reordered.displaced.sublist inside.sublist
    rw [List.pairwise_append] at pairs
    intro earlier member
    exact pairs.2.2 earlier member seq (List.mem_singleton_self _)
  rcases Nat.eq_zero_or_pos decoder.highestSequence with zero | started
  · -- The first observation of the run sets the baseline below itself.
    rw [marks.window.observeSeq_first zero (Nat.pos_of_ne_zero positive)]
    simp only [true_iff]
    constructor
    · intro first isFirst
      have impossible := marks.first_le isFirst
      omega
    · intro sampled
      have impossible := marks.sampled_le sampled
      omega
  · rw [marks.window.observeSeq_true_iff started]
    constructor
    · rintro ⟨above, _⟩
      constructor
      · intro first isFirst
        have below := marks.baseline first isFirst
        omega
      · intro sampled
        have below := marks.sampled _ sampled
        omega
    · rintro ⟨notBelow, notCut⟩
      refine ⟨?_, isNew⟩
      rcases marks.origin with zero | isFirst | sampled
      · omega
      · exact notBelow _ isFirst
      · -- The mark is the cutoff of a report, so its highest number was observed.
        have cutoff : decoder.finalizedSequence ≤ seq := by
          obtain ⟨earlier, _, _, _, _, inside, _, _, member, _⟩ := sampled
          have within := (List.prefix_append earlier [SequenceCall.sequenceReport]).trans inside
          have bound := displaced _ ((within.filterMap _).subset member)
          omega
        rcases Nat.lt_or_eq_of_le cutoff with above | same
        · exact above
        · rw [same] at sampled
          exact absurd sampled notCut

/-- Number 2 arrives after number 3 and is accepted. -/
theorem reorder_window_swapped_pair :
    ∃ decoder events,
      run sequenceCall (Decoder.new 0) [.observeSeq 1, .observeSeq 3] = some (decoder, events) ∧
      (decoder.observeSeq 2).2 = true := by
  have reordered : Reordered [.observeSeq 1, .observeSeq 3, .observeSeq 2] :=
    ⟨by decide, by decide, by decide⟩
  obtain ⟨decoder, events, ran, accepts⟩ := reorder_window 0 _ reordered
    [.observeSeq 1, .observeSeq 3] 2 List.prefix_rfl
  refine ⟨decoder, events, ran, accepts.mpr ⟨?_, ?_⟩⟩
  · intro first isFirst
    cases isFirst
    decide
  · rintro ⟨front, _, _, _, _, isPrefix, _, _, member, _⟩
    have inFront : ∀ call ∈ front, call = .observeSeq 1 ∨ call = .observeSeq 3 := by
      intro call inside
      simpa using isPrefix.subset (List.mem_append_left _ inside)
    obtain ⟨call, inside, isSeq⟩ := List.mem_filterMap.mp member
    rcases inFront call inside with rfl | rfl <;> cases isSeq

/-- Two frames within the reorder window are dropped: number 1 after number 2 at the
start of a session, and number 33 after number 97 and a report. -/
theorem reordered_frames_dropped :
    (Reordered [.observeSeq 2, .observeSeq 1] ∧
      ∃ decoder events, run sequenceCall (Decoder.new 0) [.observeSeq 2] = some (decoder, events) ∧
        (decoder.observeSeq 1).2 = false) ∧
    (Reordered [.observeSeq 1, .observeSeq 97, .sequenceReport, .observeSeq 33] ∧
      ∃ decoder events,
        run sequenceCall (Decoder.new 0) [.observeSeq 1, .observeSeq 97, .sequenceReport] =
          some (decoder, events) ∧
        (decoder.observeSeq 33).2 = false) := by
  refine ⟨⟨⟨by decide, by decide, by decide⟩, _, _, rfl, by decide⟩,
    ⟨⟨by decide, by decide, by decide⟩, _, _, rfl, by decide⟩⟩

end Decoder

end SmartFecTunnel.Fec
