import Mathlib.Algebra.BigOperators.Group.List.Basic
import Mathlib.Order.Interval.Finset.Nat
import SmartFecTunnel.Fec.Decoder

/-!
Contract: the sequence window of a decoder over whole runs.

Owns:
- one inversion lemma each for `observeSeq` and `sequenceReport`;
- `Window`, the invariant that ties the stored sequence numbers to the list of
  sequence numbers accepted so far, and its preservation;
- the accounting of a run of observations and reports: what is accepted, what
  the reports add up to, and how far the window can open.
-/

namespace SmartFecTunnel.Fec

open SmartFecTunnel.Library

namespace Decoder

/-! ### What one call can do -/

/-- An observation is late, a duplicate, or accepted. -/
theorem observeSeq_cases (decoder : Decoder) (seq : Nat) :
    (seq ≤ (decoder.baseline seq).finalizedSequence ∧
      decoder.observeSeq seq =
        ({ decoder.baseline seq with
            lateSequences := saturatingIncrement decoder.lateSequences }, false)) ∨
    ((decoder.baseline seq).finalizedSequence < seq ∧ seq ∈ decoder.seenSequences ∧
      decoder.observeSeq seq =
        ({ decoder.baseline seq with
            highestSequence := max decoder.highestSequence seq
            duplicateSequences := saturatingIncrement decoder.duplicateSequences }, false)) ∨
    ((decoder.baseline seq).finalizedSequence < seq ∧ seq ∉ decoder.seenSequences ∧
      decoder.observeSeq seq =
        ({ decoder.baseline seq with
            highestSequence := max decoder.highestSequence seq
            seenSequences := insert seq decoder.seenSequences }, true)) := by
  have lateSame : (decoder.baseline seq).lateSequences = decoder.lateSequences := by
    unfold baseline; split <;> rfl
  have duplicateSame : (decoder.baseline seq).duplicateSequences = decoder.duplicateSequences := by
    unfold baseline; split <;> rfl
  have highestSame : (decoder.baseline seq).highestSequence = decoder.highestSequence := by
    unfold baseline; split <;> rfl
  have seenSame : (decoder.baseline seq).seenSequences = decoder.seenSequences := by
    unfold baseline; split <;> rfl
  unfold observeSeq
  by_cases late : seq ≤ (decoder.baseline seq).finalizedSequence
  · left
    simp [late, lateSame]
  · right
    by_cases seen : seq ∈ decoder.seenSequences
    · left
      simp only [not_le] at late
      simp [late, not_le.mpr late, seen, seenSame, highestSame, duplicateSame]
    · right
      simp only [not_le] at late
      simp [late, not_le.mpr late, seen, seenSame, highestSame]

theorem baseline_of_not_untouched {decoder : Decoder} (seq : Nat) (touched : ¬ decoder.Untouched) :
    decoder.baseline seq = decoder := by
  unfold baseline
  exact if_neg touched

/-- A sequence call changes nothing but the window. -/
structure SameStores (left right : Decoder) : Prop where
  session : left.session = right.session
  groups : left.groups = right.groups
  packets : left.packets = right.packets

theorem observeSeq_sameStores (decoder : Decoder) (seq : Nat) :
    SameStores (decoder.observeSeq seq).1 decoder := by
  have base : SameStores (decoder.baseline seq) decoder := by
    unfold baseline
    split <;> exact ⟨rfl, rfl, rfl⟩
  rcases observeSeq_cases decoder seq with ⟨_, equal⟩ | ⟨_, _, equal⟩ | ⟨_, _, equal⟩ <;>
    rw [equal] <;> exact ⟨base.session, base.groups, base.packets⟩

/-- The sequence window and the session of two decoders coincide. -/
structure SameWindow (left right : Decoder) : Prop where
  session : left.session = right.session
  highest : left.highestSequence = right.highestSequence
  finalized : left.finalizedSequence = right.finalizedSequence
  seen : left.seenSequences = right.seenSequences

theorem SameWindow.refl (decoder : Decoder) : SameWindow decoder decoder := ⟨rfl, rfl, rfl, rfl⟩

theorem SameWindow.trans {first second third : Decoder} (late : SameWindow third second)
    (early : SameWindow second first) : SameWindow third first :=
  ⟨late.session.trans early.session, late.highest.trans early.highest,
    late.finalized.trans early.finalized, late.seen.trans early.seen⟩

/-- The decoder after a report that finalizes everything up to the cutoff. -/
def finalizedAt (decoder : Decoder) (cutoff : Nat) : Decoder :=
  { decoder with
    seenSequences := decoder.seenSequences.filter fun seq => cutoff + 1 ≤ seq
    finalizedSequence := cutoff
    lateSequences := 0
    duplicateSequences := 0 }

/-- The report of the sequence numbers up to the cutoff. -/
def reportAt (decoder : Decoder) (cutoff : Nat) : SequenceReport :=
  let expected := cutoff - decoder.finalizedSequence
  let received := (decoder.seenSequences.filter fun seq =>
    decoder.finalizedSequence + 1 ≤ seq ∧ seq ≤ cutoff).card
  { expected, received, missing := expected - received
    sequenceGapPpm := min ((expected - received) * 1_000_000 / expected % 2 ^ 32) 1_000_000
    late := decoder.lateSequences, duplicates := decoder.duplicateSequences }

/-- A report call does nothing while fewer than 32 sequence numbers are behind
the reorder window, and finalizes all of them otherwise.  It never panics. -/
theorem sequenceReport_cases (decoder : Decoder) :
    (decoder.highestSequence - reorderWindow < decoder.finalizedSequence + 32 ∧
      decoder.sequenceReport = some (decoder, none)) ∨
    (decoder.finalizedSequence + 32 ≤ decoder.highestSequence - reorderWindow ∧
      decoder.sequenceReport =
        some (decoder.finalizedAt (decoder.highestSequence - reorderWindow),
          some (decoder.reportAt (decoder.highestSequence - reorderWindow)))) := by
  unfold sequenceReport
  by_cases behind : decoder.highestSequence - reorderWindow ≤ decoder.finalizedSequence
  · left
    exact ⟨by omega, by simp [behind]⟩
  · have ordered : decoder.finalizedSequence ≤ decoder.highestSequence - reorderWindow := by omega
    by_cases few :
        decoder.highestSequence - reorderWindow - decoder.finalizedSequence < 32
    · left
      exact ⟨by omega, by simp [behind, checkedSub, ordered, few]⟩
    · right
      have nonempty : decoder.finalizedSequence + 1 ≤ decoder.highestSequence - reorderWindow := by
        omega
      refine ⟨by omega, ?_⟩
      simp [behind, checkedSub, ordered, few, rangeCount, nonempty, finalizedAt, reportAt]

theorem sequenceReport_sameStores {decoder next : Decoder} {report : Option SequenceReport}
    (reported : decoder.sequenceReport = some (next, report)) : SameStores next decoder := by
  rcases sequenceReport_cases decoder with ⟨_, equal⟩ | ⟨_, equal⟩
  · rw [equal] at reported
    cases reported
    exact ⟨rfl, rfl, rfl⟩
  · rw [equal] at reported
    cases reported
    exact ⟨rfl, rfl, rfl⟩

/-! ### The window invariant -/

/-- `accepted` lists the sequence numbers accepted so far.  Those above the
finalized mark are exactly the stored ones. -/
structure Window (accepted : List Nat) (decoder : Decoder) : Prop where
  distinct : accepted.Nodup
  seen_iff : ∀ seq, seq ∈ decoder.seenSequences ↔ seq ∈ accepted ∧ decoder.finalizedSequence < seq
  le_highest : ∀ seq ∈ accepted, seq ≤ decoder.highestSequence
  ordered : decoder.finalizedSequence ≤ decoder.highestSequence
  fresh : decoder.highestSequence = 0 → accepted = []

theorem Window.of_sameWindow {accepted : List Nat} {decoder next : Decoder}
    (window : Window accepted decoder) (same : SameWindow next decoder) : Window accepted next where
  distinct := window.distinct
  seen_iff := by rw [same.seen, same.finalized]; exact window.seen_iff
  le_highest := by rw [same.highest]; exact window.le_highest
  ordered := by rw [same.highest, same.finalized]; exact window.ordered
  fresh := by rw [same.highest]; exact window.fresh

theorem window_new (session : Nat) : Window [] (Decoder.new session) where
  distinct := List.nodup_nil
  seen_iff := by simp [Decoder.new]
  le_highest := by simp
  ordered := Nat.le_refl 0
  fresh := fun _ => rfl

namespace Window

variable {accepted : List Nat} {decoder : Decoder}

theorem untouched_iff (window : Window accepted decoder) :
    decoder.Untouched ↔ decoder.highestSequence = 0 := by
  constructor
  · exact fun untouched => untouched.1
  · intro zero
    have finalizedZero : decoder.finalizedSequence = 0 := by
      have := window.ordered
      omega
    refine ⟨zero, finalizedZero, ?_⟩
    rw [Finset.eq_empty_iff_forall_notMem]
    intro seq stored
    have inAccepted := ((window.seen_iff seq).mp stored).1
    rw [window.fresh zero] at inAccepted
    cases inAccepted

/-- After the first observation of a positive number, acceptance means above the
finalized mark and not accepted before. -/
theorem observeSeq_true_iff (window : Window accepted decoder)
    (started : 0 < decoder.highestSequence) (seq : Nat) :
    (decoder.observeSeq seq).2 = true ↔ decoder.finalizedSequence < seq ∧ seq ∉ accepted := by
  have touched : ¬ decoder.Untouched := by
    rw [window.untouched_iff]
    omega
  have same := baseline_of_not_untouched seq touched
  rcases observeSeq_cases decoder seq with ⟨late, equal⟩ | ⟨above, seen, equal⟩ |
    ⟨above, unseen, equal⟩
  · rw [same] at late
    rw [equal]
    simp only [Bool.false_eq_true, false_iff, not_and]
    intro above
    omega
  · rw [same] at above
    rw [equal]
    simp only [Bool.false_eq_true, false_iff, not_and, not_not]
    exact fun _ => ((window.seen_iff seq).mp seen).1
  · rw [same] at above
    rw [equal]
    simp only [true_iff]
    exact ⟨above, fun inAccepted => unseen ((window.seen_iff seq).mpr ⟨inAccepted, above⟩)⟩

/-- On an untouched window every positive number is accepted, and becomes the
first one above the finalized mark. -/
theorem observeSeq_first (window : Window accepted decoder)
    (zero : decoder.highestSequence = 0) {seq : Nat} (positive : 0 < seq) :
    decoder.observeSeq seq =
      ({ decoder with
          finalizedSequence := seq - 1, highestSequence := seq, seenSequences := {seq} }, true) := by
  have untouched := window.untouched_iff.mpr zero
  have base : decoder.baseline seq = { decoder with finalizedSequence := seq - 1 } := by
    unfold baseline
    exact if_pos untouched
  rcases observeSeq_cases decoder seq with ⟨late, _⟩ | ⟨_, seen, _⟩ | ⟨_, _, equal⟩
  · rw [base] at late
    dsimp only at late
    omega
  · rw [untouched.2.2] at seen
    simp at seen
  · rw [equal, base, untouched.2.2, zero]
    simp

/-- An observation of zero on an untouched window is late and leaves it
untouched. -/
theorem observeSeq_zero (window : Window accepted decoder)
    (zero : decoder.highestSequence = 0) :
    decoder.observeSeq 0 =
      ({ decoder with lateSequences := saturatingIncrement decoder.lateSequences }, false) := by
  have untouched := window.untouched_iff.mpr zero
  have base : decoder.baseline 0 = decoder := by
    unfold baseline
    rw [if_pos untouched]
    have := untouched.2.1
    cases decoder
    simp_all
  rcases observeSeq_cases decoder 0 with ⟨_, equal⟩ | ⟨above, _⟩ | ⟨above, _⟩
  · rw [equal, base]
  · omega
  · omega

/-- One observation: an accepted number is new and joins the list. -/
theorem observe (window : Window accepted decoder) (seq : Nat) :
    ((decoder.observeSeq seq).2 = true → seq ∉ accepted) ∧
      Window (if (decoder.observeSeq seq).2 then accepted ++ [seq] else accepted)
        (decoder.observeSeq seq).1 := by
  rcases Nat.eq_zero_or_pos decoder.highestSequence with zero | started
  · have none : accepted = [] := window.fresh zero
    subst none
    rcases Nat.eq_zero_or_pos seq with rfl | positive
    · rw [window.observeSeq_zero zero]
      exact ⟨by simp, ⟨window.distinct, window.seen_iff, window.le_highest, window.ordered,
        window.fresh⟩⟩
    · rw [window.observeSeq_first zero positive]
      refine ⟨by simp, ⟨by simp, ?_, by simp, by simp, ?_⟩⟩
      · intro other
        simp only [Finset.mem_singleton, ↓reduceIte, List.nil_append, List.mem_singleton]
        omega
      · intro impossible
        dsimp only at impossible
        omega
  · have acceptIff := window.observeSeq_true_iff started seq
    have touched : ¬ decoder.Untouched := by
      rw [window.untouched_iff]
      omega
    have same := baseline_of_not_untouched seq touched
    refine ⟨fun isAccepted => (acceptIff.mp isAccepted).2, ?_⟩
    rcases observeSeq_cases decoder seq with ⟨late, equal⟩ | ⟨above, seen, equal⟩ |
      ⟨above, unseen, equal⟩
    · rw [equal, same]
      exact ⟨window.distinct, window.seen_iff, window.le_highest, window.ordered, window.fresh⟩
    · rw [equal, same]
      refine ⟨window.distinct, window.seen_iff, ?_, ?_, ?_⟩
      · exact fun other member => (window.le_highest other member).trans (le_max_left _ _)
      · exact window.ordered.trans (le_max_left _ _)
      · intro impossible
        dsimp only at impossible
        omega
    · rw [same] at above
      have isNew : seq ∉ accepted := (acceptIff.mp (by rw [equal])).2
      rw [equal, same]
      refine ⟨?_, ?_, ?_, ?_, ?_⟩
      · simp only [↓reduceIte]
        exact List.nodup_append.mpr ⟨window.distinct, List.nodup_singleton seq, by
          intro left inLeft right inRight
          rw [List.mem_singleton] at inRight
          rintro rfl
          exact isNew (inRight ▸ inLeft)⟩
      · intro other
        simp only [Finset.mem_insert, window.seen_iff, ↓reduceIte, List.mem_append,
          List.mem_singleton]
        constructor
        · rintro (rfl | ⟨inAccepted, aboveMark⟩)
          · exact ⟨Or.inr rfl, above⟩
          · exact ⟨Or.inl inAccepted, aboveMark⟩
        · rintro ⟨inAccepted | rfl, aboveMark⟩
          · exact Or.inr ⟨inAccepted, aboveMark⟩
          · exact Or.inl rfl
      · simp only [↓reduceIte, List.mem_append, List.mem_singleton]
        rintro other (inAccepted | rfl)
        · exact (window.le_highest other inAccepted).trans (le_max_left _ _)
        · exact le_max_right _ _
      · exact window.ordered.trans (le_max_left _ _)
      · intro impossible
        dsimp only at impossible
        omega

/-- An observation raises the highest number, late or not. -/
theorem observeSeq_highest (window : Window accepted decoder) (seq : Nat) :
    (decoder.observeSeq seq).1.highestSequence = max decoder.highestSequence seq := by
  rcases Nat.eq_zero_or_pos decoder.highestSequence with zero | started
  · rcases Nat.eq_zero_or_pos seq with rfl | positive
    · rw [window.observeSeq_zero zero, Nat.max_zero]
    · rw [window.observeSeq_first zero positive, zero, Nat.zero_max]
  · have touched : ¬ decoder.Untouched := by
      rw [window.untouched_iff]
      omega
    have same := baseline_of_not_untouched seq touched
    rcases observeSeq_cases decoder seq with ⟨late, equal⟩ | ⟨_, _, equal⟩ | ⟨_, _, equal⟩
    · rw [same] at late
      rw [equal, same, Nat.max_eq_left (late.trans window.ordered)]
    · rw [equal]
    · rw [equal]

/-- Only the first observation of a positive number moves the finalized mark. -/
theorem observeSeq_finalized (window : Window accepted decoder) (seq : Nat) :
    (decoder.observeSeq seq).1.finalizedSequence =
      if decoder.highestSequence = 0 then seq - 1 else decoder.finalizedSequence := by
  split
  next zero =>
    rcases Nat.eq_zero_or_pos seq with rfl | positive
    · rw [window.observeSeq_zero zero]
      exact (window.untouched_iff.mpr zero).2.1
    · rw [window.observeSeq_first zero positive]
  next started =>
    have touched : ¬ decoder.Untouched := by
      rw [window.untouched_iff]
      exact started
    have same := baseline_of_not_untouched seq touched
    rcases observeSeq_cases decoder seq with ⟨_, equal⟩ | ⟨_, _, equal⟩ | ⟨_, _, equal⟩ <;>
      rw [equal, same]

/-- A report moves the finalized mark and forgets only numbers below it. -/
theorem report (window : Window accepted decoder) {next : Decoder}
    {report : Option SequenceReport} (reported : decoder.sequenceReport = some (next, report)) :
    Window accepted next := by
  rcases sequenceReport_cases decoder with ⟨_, equal⟩ | ⟨enough, equal⟩
  · rw [equal] at reported
    cases reported
    exact window
  · rw [equal] at reported
    cases reported
    refine ⟨window.distinct, ?_, window.le_highest, ?_, window.fresh⟩
    · intro seq
      simp only [finalizedAt, Finset.mem_filter, window.seen_iff]
      constructor
      · rintro ⟨⟨inAccepted, _⟩, above⟩
        exact ⟨inAccepted, by omega⟩
      · rintro ⟨inAccepted, above⟩
        exact ⟨⟨inAccepted, by omega⟩, by omega⟩
    · simp only [finalizedAt]
      omega

end Window

/-! ### Accounting of a run -/

/-- The two calls that touch the window. -/
inductive SequenceCall where
  | observeSeq (seq : Nat)
  | sequenceReport
deriving DecidableEq, Repr

/-- What a caller learns from them. -/
inductive SequenceEvent where
  | observed (seq : Nat) (accepted : Bool)
  | reported (report : SequenceReport)
deriving DecidableEq, Repr

def sequenceCall (decoder : Decoder) : SequenceCall → Option (Decoder × List SequenceEvent)
  | .observeSeq seq =>
    some ((decoder.observeSeq seq).1, [.observed seq (decoder.observeSeq seq).2])
  | .sequenceReport =>
    decoder.sequenceReport.map fun result => (result.1, result.2.toList.map .reported)

/-- The accepted sequence numbers, in order of acceptance. -/
def acceptedOf (events : List SequenceEvent) : List Nat :=
  events.filterMap fun
    | .observed seq true => some seq
    | _ => none

/-- The number of observations that returned false. -/
def refusedOf (events : List SequenceEvent) : Nat :=
  events.countP fun
    | .observed _ false => true
    | _ => false

/-- The window after an observation, in terms of what the caller learned. -/
theorem Window.observed {events : List SequenceEvent} {decoder : Decoder}
    (window : Window (acceptedOf events) decoder) (seq : Nat) :
    Window (acceptedOf (events ++ [SequenceEvent.observed seq (decoder.observeSeq seq).2]))
      (decoder.observeSeq seq).1 := by
  have observed := (window.observe seq).2
  cases isAccepted : (decoder.observeSeq seq).2 with
  | false => simpa [acceptedOf, isAccepted] using observed
  | true => simpa [acceptedOf, isAccepted] using observed

theorem acceptedOf_snoc_report (events : List SequenceEvent) (report : Option SequenceReport) :
    acceptedOf (events ++ report.toList.map SequenceEvent.reported) = acceptedOf events := by
  cases report <;> simp [acceptedOf]

def reportsOf (events : List SequenceEvent) : List SequenceReport :=
  events.filterMap fun
    | .reported report => some report
    | _ => none

/-- The first nonzero sequence number observed. -/
def firstNonzero (calls : List SequenceCall) : Option Nat :=
  calls.findSome? fun
    | .observeSeq seq => if seq = 0 then none else some seq
    | .sequenceReport => none

/-- The late and duplicate observations that the reports and the pending
counters account for. -/
def tallied (events : List SequenceEvent) (decoder : Decoder) : Nat :=
  ((reportsOf events).map fun report => report.late + report.duplicates).sum +
    decoder.lateSequences + decoder.duplicateSequences

private theorem length_filter_le_split {low high : Nat} (ordered : low ≤ high) (list : List Nat) :
    (list.filter (· ≤ high)).length =
      (list.filter (· ≤ low)).length +
        (list.filter fun seq => low + 1 ≤ seq ∧ seq ≤ high).length := by
  induction list with
  | nil => rfl
  | cons head tail inductionHypothesis =>
      rw [List.filter_cons, List.filter_cons, List.filter_cons]
      simp only [decide_eq_true_eq]
      by_cases below : head ≤ low
      · rw [if_pos (show head ≤ high by omega), if_pos below, if_neg (by omega),
          List.length_cons, List.length_cons, inductionHypothesis]
        omega
      · by_cases belowHigh : head ≤ high
        · rw [if_pos belowHigh, if_neg below, if_pos (by omega), List.length_cons,
            List.length_cons, inductionHypothesis]
          omega
        · rw [if_neg belowHigh, if_neg below, if_neg (by omega), inductionHypothesis]

/-- What a report counts as received is what was accepted in its interval. -/
theorem Window.received_eq {accepted : List Nat} {decoder : Decoder}
    (window : Window accepted decoder) (cutoff : Nat) :
    (decoder.reportAt cutoff).received =
      (accepted.filter fun seq =>
        decoder.finalizedSequence + 1 ≤ seq ∧ seq ≤ cutoff).length := by
  have distinct := window.distinct.filter fun seq =>
    decide (decoder.finalizedSequence + 1 ≤ seq ∧ seq ≤ cutoff)
  rw [← List.toFinset_card_of_nodup distinct]
  unfold reportAt
  dsimp only
  congr 1
  ext seq
  simp only [Finset.mem_filter, window.seen_iff, List.mem_toFinset, List.mem_filter,
    decide_eq_true_eq]
  constructor
  · rintro ⟨⟨inAccepted, _⟩, range⟩
    exact ⟨inAccepted, range⟩
  · rintro ⟨inAccepted, range⟩
    exact ⟨⟨inAccepted, by omega⟩, range⟩

/-- No report can have received more than it expected. -/
theorem received_le_expected (decoder : Decoder) (cutoff : Nat) :
    (decoder.reportAt cutoff).received ≤ (decoder.reportAt cutoff).expected := by
  have within : (decoder.seenSequences.filter fun seq =>
      decoder.finalizedSequence + 1 ≤ seq ∧ seq ≤ cutoff) ⊆
      Finset.Ioc decoder.finalizedSequence cutoff := by
    intro seq member
    have range := (Finset.mem_filter.mp member).2
    exact Finset.mem_Ioc.mpr ⟨by omega, range.2⟩
  have bound := Finset.card_le_card within
  rw [Nat.card_Ioc] at bound
  exact bound

theorem sequenceGapPpm_le (decoder : Decoder) (cutoff : Nat) :
    (decoder.reportAt cutoff).sequenceGapPpm ≤ 1_000_000 :=
  min_le_right _ _

/-- What holds after every prefix of a run. -/
structure Accounting (calls : List SequenceCall) (events : List SequenceEvent)
    (decoder : Decoder) : Prop where
  window : Window (acceptedOf events) decoder
  unstarted : firstNonzero calls = none → decoder.highestSequence = 0
  started : ∀ first, firstNonzero calls = some first → 0 < first ∧ 0 < decoder.highestSequence ∧
    first - 1 ≤ decoder.finalizedSequence ∧
    ((reportsOf events).map SequenceReport.expected).sum =
      decoder.finalizedSequence - (first - 1) ∧
    ((reportsOf events).map SequenceReport.received).sum =
      ((acceptedOf events).filter (· ≤ decoder.finalizedSequence)).length
  noReport : firstNonzero calls = none → reportsOf events = []
  sound : ∀ report ∈ reportsOf events, report.received ≤ report.expected ∧
    report.missing = report.expected - report.received ∧ report.sequenceGapPpm ≤ 1_000_000
  tallied_le : tallied events decoder ≤ refusedOf events
  tallied_eq : refusedOf events < 2 ^ 64 → tallied events decoder = refusedOf events

theorem accounting_new (session : Nat) : Accounting [] [] (Decoder.new session) where
  window := window_new session
  unstarted := fun _ => rfl
  started := by intro first impossible; cases impossible
  noReport := fun _ => rfl
  sound := by intro report member; cases member
  tallied_le := Nat.le_refl 0
  tallied_eq := fun _ => rfl

theorem firstNonzero_append (past : List SequenceCall) (call : SequenceCall) :
    firstNonzero (past ++ [call]) = (firstNonzero past).or (firstNonzero [call]) := by
  simp [firstNonzero, List.findSome?_append]

/-- A refused observation adds one to the tally unless a counter is full. -/
private theorem tally_step {before tally refused : Nat} (rest counter : Nat)
    (le : before ≤ refused) (eq : refused < 2 ^ 64 → before = refused)
    (splitBefore : before = rest + counter)
    (splitAfter : tally = rest + saturatingIncrement counter) :
    tally ≤ refused + 1 ∧ (refused + 1 < 2 ^ 64 → tally = refused + 1) := by
  unfold saturatingIncrement at splitAfter
  constructor
  · omega
  · intro small
    have := eq (by omega)
    omega

private theorem reportsOf_observed (events : List SequenceEvent) (seq : Nat) (accepted : Bool) :
    reportsOf (events ++ [SequenceEvent.observed seq accepted]) = reportsOf events := by
  simp [reportsOf]

/-- The counters follow the refusals while neither is full. -/
private theorem Accounting.tallied_observe {calls : List SequenceCall}
    {events : List SequenceEvent} {decoder : Decoder}
    (accounting : Accounting calls events decoder) (seq : Nat) :
    tallied (events ++ [SequenceEvent.observed seq (decoder.observeSeq seq).2])
        (decoder.observeSeq seq).1 ≤
      refusedOf (events ++ [SequenceEvent.observed seq (decoder.observeSeq seq).2]) ∧
    (refusedOf (events ++ [SequenceEvent.observed seq (decoder.observeSeq seq).2]) < 2 ^ 64 →
      tallied (events ++ [SequenceEvent.observed seq (decoder.observeSeq seq).2])
        (decoder.observeSeq seq).1 =
      refusedOf (events ++ [SequenceEvent.observed seq (decoder.observeSeq seq).2])) := by
  have lateSame : (decoder.baseline seq).lateSequences = decoder.lateSequences := by
    unfold baseline; split <;> rfl
  have duplicateSame :
      (decoder.baseline seq).duplicateSequences = decoder.duplicateSequences := by
    unfold baseline; split <;> rfl
  have le := accounting.tallied_le
  have eq := accounting.tallied_eq
  unfold tallied at le eq ⊢
  rw [reportsOf_observed]
  rcases observeSeq_cases decoder seq with ⟨_, equal⟩ | ⟨_, _, equal⟩ | ⟨_, _, equal⟩
  · rw [equal]
    simp only [refusedOf, List.countP_append, List.countP_singleton, ↓reduceIte, duplicateSame]
    exact tally_step
      (((reportsOf events).map fun report => report.late + report.duplicates).sum +
        decoder.duplicateSequences) decoder.lateSequences le eq (by omega) (by omega)
  · rw [equal]
    simp only [refusedOf, List.countP_append, List.countP_singleton, ↓reduceIte, lateSame]
    exact tally_step
      (((reportsOf events).map fun report => report.late + report.duplicates).sum +
        decoder.lateSequences) decoder.duplicateSequences le eq (by omega) (by omega)
  · rw [equal]
    simp only [refusedOf, List.countP_append, List.countP_singleton, Bool.false_eq_true,
      ↓reduceIte, lateSame, duplicateSame, Nat.add_zero]
    exact ⟨le, eq⟩

theorem Accounting.observe {calls : List SequenceCall} {events : List SequenceEvent}
    {decoder : Decoder} (accounting : Accounting calls events decoder) (seq : Nat) :
    Accounting (calls ++ [SequenceCall.observeSeq seq])
      (events ++ [SequenceEvent.observed seq (decoder.observeSeq seq).2])
      (decoder.observeSeq seq).1 := by
  have window := accounting.window
  have sameReports := reportsOf_observed events seq (decoder.observeSeq seq).2
  have nextWindow := window.observed seq
  have tally := accounting.tallied_observe seq
  refine ⟨nextWindow, ?_, ?_, ?_, ?_, tally.1, tally.2⟩
  · intro none
    rw [firstNonzero_append, Option.or_eq_none_iff] at none
    have zeroSeq : seq = 0 := by
      by_contra positive
      simp [firstNonzero, positive] at none
    have zero := accounting.unstarted none.1
    subst zeroSeq
    rw [window.observeSeq_zero zero]
    exact zero
  · intro first isFirst
    rw [sameReports]
    rw [firstNonzero_append] at isFirst
    cases before : firstNonzero calls with
    | none =>
        -- The baseline is set by this very observation.
        rw [before] at isFirst
        have zero := accounting.unstarted before
        have noReports := accounting.noReport before
        have noneAccepted := window.fresh zero
        have positive : 0 < seq ∧ first = seq := by
          by_cases zeroSeq : seq = 0
          · simp [firstNonzero, zeroSeq] at isFirst
          · simp only [firstNonzero, List.findSome?_singleton, zeroSeq, ↓reduceIte,
              Option.none_or, Option.some.injEq] at isFirst
            exact ⟨Nat.pos_of_ne_zero zeroSeq, isFirst.symm⟩
        obtain ⟨positive, rfl⟩ := positive
        have split : acceptedOf (events ++ [.observed first true]) = [first] := by
          unfold acceptedOf at noneAccepted ⊢
          simp [noneAccepted]
        rw [window.observeSeq_first zero positive, split, noReports]
        have notBelow : ¬ first ≤ first - 1 := by omega
        simp [positive, notBelow]
    | some earlier =>
        -- The baseline stands and the finalized mark does not move.
        rw [before] at isFirst
        simp only [Option.some_or, Option.some.injEq] at isFirst
        subst isFirst
        obtain ⟨positive, running, above, expected, received⟩ := accounting.started earlier before
        have finalizedSame :
            (decoder.observeSeq seq).1.finalizedSequence = decoder.finalizedSequence := by
          rw [window.observeSeq_finalized, if_neg (by omega)]
        have highestGrows :
            decoder.highestSequence ≤ (decoder.observeSeq seq).1.highestSequence := by
          rw [window.observeSeq_highest]
          exact Nat.le_max_left _ _
        refine ⟨positive, by omega, by omega, by rw [finalizedSame]; exact expected, ?_⟩
        rw [finalizedSame, received]
        cases isAccepted : (decoder.observeSeq seq).2 with
        | false => simp [acceptedOf]
        | true =>
            have aboveMark := ((window.observeSeq_true_iff running seq).mp isAccepted).1
            have notBelow : ¬ seq ≤ decoder.finalizedSequence := by omega
            simp [acceptedOf, notBelow]
  · intro none
    rw [firstNonzero_append, Option.or_eq_none_iff] at none
    rw [sameReports]
    exact accounting.noReport none.1
  · rw [sameReports]
    exact accounting.sound

theorem Accounting.report {calls : List SequenceCall} {events : List SequenceEvent}
    {decoder next : Decoder} (accounting : Accounting calls events decoder)
    {report : Option SequenceReport} (reported : decoder.sequenceReport = some (next, report)) :
    Accounting (calls ++ [SequenceCall.sequenceReport])
      (events ++ report.toList.map SequenceEvent.reported) next := by
  have window := accounting.window
  have nextWindow := window.report reported
  have sameFirst : firstNonzero (calls ++ [SequenceCall.sequenceReport]) = firstNonzero calls := by
    rw [firstNonzero_append]
    simp [firstNonzero]
  have sameAccepted := acceptedOf_snoc_report events report
  have sameRefused :
      refusedOf (events ++ report.toList.map SequenceEvent.reported) = refusedOf events := by
    cases report <;> simp [refusedOf]
  have moreReports : reportsOf (events ++ report.toList.map SequenceEvent.reported) =
      reportsOf events ++ report.toList := by
    cases report <;> simp [reportsOf]
  rcases sequenceReport_cases decoder with ⟨_, equal⟩ | ⟨enough, equal⟩
  · rw [equal] at reported
    cases reported
    simp only [Option.toList_none, List.append_nil, List.map_nil] at *
    exact ⟨nextWindow, by rw [sameFirst]; exact accounting.unstarted,
      by rw [sameFirst]; exact accounting.started, by rw [sameFirst]; exact accounting.noReport,
      accounting.sound, accounting.tallied_le, accounting.tallied_eq⟩
  · rw [equal] at reported
    cases reported
    have running : 0 < decoder.highestSequence := by omega
    have isStarted : firstNonzero calls ≠ none := by
      intro none
      have := accounting.unstarted none
      omega
    have sameTally : tallied (events ++ (some (decoder.reportAt
          (decoder.highestSequence - reorderWindow))).toList.map SequenceEvent.reported)
        (decoder.finalizedAt (decoder.highestSequence - reorderWindow)) =
        tallied events decoder := by
      unfold tallied
      rw [moreReports]
      simp [finalizedAt, reportAt]
      omega
    refine ⟨?_, ?_, ?_, ?_, ?_, ?_, ?_⟩
    · rw [sameAccepted] at *
      exact nextWindow
    · rw [sameFirst]
      exact fun none => absurd none isStarted
    · rw [sameFirst, sameAccepted, moreReports]
      intro first isFirst
      obtain ⟨positive, _, above, expected, received⟩ := accounting.started first isFirst
      have counted := window.received_eq (decoder.highestSequence - reorderWindow)
      have split := length_filter_le_split
        (show decoder.finalizedSequence ≤ decoder.highestSequence - reorderWindow by omega)
        (acceptedOf events)
      refine ⟨positive, running, ?_, ?_, ?_⟩
      · simp only [finalizedAt]
        omega
      · simp only [List.map_append, List.sum_append, expected, finalizedAt, reportAt,
          Option.toList_some, List.map_cons, List.map_nil, List.sum_cons, List.sum_nil]
        omega
      · simp only [List.map_append, List.sum_append, received, Option.toList_some, List.map_cons,
          List.map_nil, List.sum_cons, List.sum_nil, counted, Nat.add_zero, finalizedAt]
        exact split.symm
    · rw [sameFirst]
      exact fun none => absurd none isStarted
    · rw [moreReports]
      intro report member
      rcases List.mem_append.mp member with old | new
      · exact accounting.sound report old
      · rw [Option.toList_some, List.mem_singleton] at new
        subst new
        exact ⟨received_le_expected _ _, rfl, sequenceGapPpm_le _ _⟩
    · rw [sameTally, sameRefused]
      exact accounting.tallied_le
    · rw [sameTally, sameRefused]
      exact accounting.tallied_eq

/-- After a report call the window is at most 95 wide. -/
theorem Window.narrow_after_report {accepted : List Nat} {decoder next : Decoder}
    (window : Window accepted decoder) {report : Option SequenceReport}
    (reported : decoder.sequenceReport = some (next, report)) :
    next.highestSequence - next.finalizedSequence ≤ 95 ∧ next.seenSequences.card ≤ 95 := by
  have nextWindow := window.report reported
  have narrow : next.highestSequence - next.finalizedSequence ≤ 95 := by
    rcases sequenceReport_cases decoder with ⟨few, equal⟩ | ⟨enough, equal⟩
    · rw [equal] at reported
      cases reported
      unfold reorderWindow at few
      omega
    · rw [equal] at reported
      cases reported
      simp only [finalizedAt]
      unfold reorderWindow
      omega
  refine ⟨narrow, ?_⟩
  have within : next.seenSequences ⊆
      Finset.Ioc next.finalizedSequence next.highestSequence := by
    intro seq stored
    obtain ⟨inAccepted, above⟩ := (nextWindow.seen_iff seq).mp stored
    exact Finset.mem_Ioc.mpr ⟨above, nextWindow.le_highest seq inAccepted⟩
  have bound := Finset.card_le_card within
  rw [Nat.card_Ioc] at bound
  omega

/-- Sequence accounting.  Every run of observations and reports on a fresh
decoder has a result, and in that result: acceptance is decided by the finalized
mark and the numbers accepted before; the reports partition the numbers between
the baseline and the mark; every report is consistent; the window is narrow
after a report; and the late and duplicate counters account for the refused
observations as long as fewer than `2 ^ 64` were refused. -/
theorem sequence_accounting (session : Nat) (calls : List SequenceCall) :
    ∃ decoder events,
      run sequenceCall (Decoder.new session) calls = some (decoder, events) ∧
      (acceptedOf events).Nodup ∧
      (∀ first, firstNonzero calls = some first →
        (∀ seq, (decoder.observeSeq seq).2 = true ↔
          decoder.finalizedSequence < seq ∧ seq ∉ acceptedOf events) ∧
        first - 1 ≤ decoder.finalizedSequence ∧
        ((reportsOf events).map SequenceReport.expected).sum =
          decoder.finalizedSequence - (first - 1) ∧
        ((reportsOf events).map SequenceReport.received).sum =
          ((acceptedOf events).filter (· ≤ decoder.finalizedSequence)).length) ∧
      (∀ report ∈ reportsOf events,
        report.received ≤ report.expected ∧
        report.missing = report.expected - report.received ∧
        report.sequenceGapPpm ≤ 1_000_000 ∧ report.sequenceGapPpm ≠ lossSampleUnavailable) ∧
      tallied events decoder ≤ refusedOf events ∧
      (refusedOf events < 2 ^ 64 → tallied events decoder = refusedOf events) ∧
      ∃ next report, decoder.sequenceReport = some (next, report) ∧
        next.finalizedSequence ≤ next.highestSequence ∧
        next.highestSequence - next.finalizedSequence ≤ 95 ∧ next.seenSequences.card ≤ 95 := by
  obtain ⟨decoder, events, ran, accounting⟩ :=
    run_induction sequenceCall (Decoder.new session) calls Accounting
      (accounting_new session) (by
        intro past call outputs state _ _ accounting
        cases call with
        | observeSeq seq => exact ⟨_, _, rfl, accounting.observe seq⟩
        | sequenceReport =>
            rcases sequenceReport_cases state with ⟨_, equal⟩ | ⟨_, equal⟩
            · exact ⟨_, _, by rw [sequenceCall, equal]; rfl, accounting.report equal⟩
            · exact ⟨_, _, by rw [sequenceCall, equal]; rfl, accounting.report equal⟩)
  refine ⟨decoder, events, ran, accounting.window.distinct, ?_, ?_, accounting.tallied_le,
    accounting.tallied_eq, ?_⟩
  · intro first isFirst
    obtain ⟨_, running, above, expected, received⟩ := accounting.started first isFirst
    exact ⟨accounting.window.observeSeq_true_iff running, above, expected, received⟩
  · intro report member
    obtain ⟨bounded, missing, gap⟩ := accounting.sound report member
    refine ⟨bounded, missing, gap, ?_⟩
    unfold lossSampleUnavailable
    omega
  · rcases sequenceReport_cases decoder with ⟨_, equal⟩ | ⟨_, equal⟩
    · exact ⟨_, _, equal, (accounting.window.report equal).ordered,
        accounting.window.narrow_after_report equal⟩
    · exact ⟨_, _, equal, (accounting.window.report equal).ordered,
        accounting.window.narrow_after_report equal⟩

/-- Repeating an accepted number only counts duplicates, up to the last `u64`. -/
private theorem run_repeat (count : Nat) (decoder : Decoder)
    (finalized : decoder.finalizedSequence = 0) (highest : decoder.highestSequence = 1)
    (seen : decoder.seenSequences = {1}) (fits : decoder.duplicateSequences ≤ 2 ^ 64 - 1) :
    run sequenceCall decoder (List.replicate count (.observeSeq 1)) =
      some ({ decoder with
          duplicateSequences := min (decoder.duplicateSequences + count) (2 ^ 64 - 1) },
        List.replicate count (.observed 1 false)) := by
  induction count generalizing decoder with
  | zero =>
      rw [List.replicate_zero, List.replicate_zero, run_nil, Nat.add_zero,
        Nat.min_eq_left fits]
  | succ count inductionHypothesis =>
      have touched : ¬ decoder.Untouched := by
        intro untouched
        have := untouched.1
        omega
      have observed : decoder.observeSeq 1 =
          ({ decoder with
              duplicateSequences := saturatingIncrement decoder.duplicateSequences }, false) := by
        have same := baseline_of_not_untouched 1 touched
        rcases observeSeq_cases decoder 1 with ⟨late, _⟩ | ⟨_, _, equal⟩ | ⟨_, unseen, _⟩
        · rw [same, finalized] at late
          omega
        · rw [equal, same, highest, Nat.max_self, ← highest]
        · rw [seen] at unseen
          simp at unseen
      have rest := inductionHypothesis
        { decoder with duplicateSequences := saturatingIncrement decoder.duplicateSequences }
        finalized highest seen (Nat.min_le_right _ _)
      have counted : min (saturatingIncrement decoder.duplicateSequences + count) (2 ^ 64 - 1) =
          min (decoder.duplicateSequences + (count + 1)) (2 ^ 64 - 1) := by
        unfold saturatingIncrement
        omega
      simp only [List.replicate_succ, run_cons, sequenceCall, observed, Option.bind_some, rest,
        counted, Option.map_some, List.cons_append, List.nil_append]

/-- After one observation of `1`, each of `count` repetitions is refused and the
counters hold what fits a `u64`. -/
private theorem run_first_repeat (count : Nat) :
    ∃ decoder events,
      run sequenceCall (Decoder.new 0) (.observeSeq 1 :: List.replicate count (.observeSeq 1)) =
        some (decoder, events) ∧
      refusedOf events = count ∧ tallied events decoder = min count (2 ^ 64 - 1) := by
  have first : (Decoder.new 0).observeSeq 1 =
      ({ Decoder.new 0 with
          finalizedSequence := 0, highestSequence := 1, seenSequences := {1} }, true) :=
    (window_new 0).observeSeq_first rfl (by decide)
  have repeated := run_repeat count ((Decoder.new 0).observeSeq 1).1
    (by rw [first]) (by rw [first]) (by rw [first]) (by rw [first]; exact Nat.zero_le _)
  have noReports :
      reportsOf (.observed 1 true :: List.replicate count (.observed 1 false)) = [] := by
    rw [reportsOf, List.filterMap_eq_nil_iff]
    intro event member
    rcases List.mem_cons.mp member with rfl | inRest
    · rfl
    · rw [(List.mem_replicate.mp inRest).2]
  refine ⟨{ ((Decoder.new 0).observeSeq 1).1 with
      duplicateSequences := min (0 + count) (2 ^ 64 - 1) },
    .observed 1 true :: List.replicate count (.observed 1 false), ?_, ?_, ?_⟩
  · rw [run_cons, sequenceCall, Option.bind_some, repeated, first]
    rfl
  · rw [refusedOf, List.countP_cons, List.countP_replicate]
    simp
  · rw [tallied, noReports, first]
    simp [Decoder.new]

/-- The counters saturate: after one observation of `1` and `2 ^ 64` repetitions
of it, `2 ^ 64` observations were refused and the counters hold one less. -/
theorem tally_saturates :
    ∃ decoder events,
      run sequenceCall (Decoder.new 0)
        (.observeSeq 1 :: List.replicate (2 ^ 64) (.observeSeq 1)) = some (decoder, events) ∧
      refusedOf events = 2 ^ 64 ∧ tallied events decoder ≠ refusedOf events := by
  obtain ⟨decoder, events, ran, refused, tally⟩ := run_first_repeat (2 ^ 64)
  refine ⟨decoder, events, ran, refused, ?_⟩
  omega

end Decoder

end SmartFecTunnel.Fec
