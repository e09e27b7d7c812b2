import Mathlib.Data.List.Induction
import Mathlib.Algebra.Order.BigOperators.Group.Finset
import Mathlib.Data.Multiset.OrderedMonoid
import SmartFecTunnel.Library.Family

/-!
Contract: a channel that loses and reorders messages, and neither invents nor repeats
one.

A trace lists what the channel takes in and gives out.  `LossyChannel` says which
traces are possible, with the messages still on the way.

Owns: that the possible traces are those in which at no point a message was given out
more often than it was taken in, and that channels side by side are a channel.

Does not own: any carrier of messages.
-/

namespace SmartFecTunnel.Library

universe u

inductive Transfer (α : Type u) where
  | taken (message : α)
  | given (message : α)
deriving DecidableEq, Repr

namespace Transfer

variable {α : Type u}

def taken? : Transfer α → Option α
  | .taken message => some message
  | .given _ => none

def given? : Transfer α → Option α
  | .taken _ => none
  | .given message => some message

/-- What a trace takes in. -/
def allTaken (trace : List (Transfer α)) : Multiset α := trace.filterMap taken?

/-- What a trace gives out. -/
def allGiven (trace : List (Transfer α)) : Multiset α := trace.filterMap given?

@[simp] theorem allTaken_append (front back : List (Transfer α)) :
    allTaken (front ++ back) = allTaken front + allTaken back := by
  simp [allTaken]

@[simp] theorem allGiven_append (front back : List (Transfer α)) :
    allGiven (front ++ back) = allGiven front + allGiven back := by
  simp [allGiven]

@[simp] theorem allTaken_nil : allTaken ([] : List (Transfer α)) = 0 := rfl
@[simp] theorem allGiven_nil : allGiven ([] : List (Transfer α)) = 0 := rfl
@[simp] theorem allTaken_taken (message : α) : allTaken [taken message] = {message} := rfl
@[simp] theorem allTaken_given (message : α) : allTaken [given message] = 0 := rfl
@[simp] theorem allGiven_taken (message : α) : allGiven [taken message] = 0 := rfl
@[simp] theorem allGiven_given (message : α) : allGiven [given message] = {message} := rfl

end Transfer

/-- A possible trace of the channel, and the messages on the way after it. -/
inductive LossyChannel {α : Type u} : List (Transfer α) → Multiset α → Prop
  | new : LossyChannel [] 0
  | take {past : List (Transfer α)} {way : Multiset α} (message : α)
      (channel : LossyChannel past way) :
      LossyChannel (past ++ [.taken message]) (message ::ₘ way)
  | give {past : List (Transfer α)} {way : Multiset α} {message : α}
      (channel : LossyChannel past (message ::ₘ way)) :
      LossyChannel (past ++ [.given message]) way
  | lose {past : List (Transfer α)} {way : Multiset α} {message : α}
      (channel : LossyChannel past (message ::ₘ way)) : LossyChannel past way

namespace LossyChannel

variable {α : Type u} {trace : List (Transfer α)} {way : Multiset α}

/-- What was given out and what is on the way has been taken in. -/
theorem conserved (channel : LossyChannel trace way) :
    Transfer.allGiven trace + way ≤ Transfer.allTaken trace := by
  induction channel with
  | new => simp
  | @take past way message channel inductionHypothesis =>
      simpa [add_comm _ {message}] using inductionHypothesis
  | @give past way message channel inductionHypothesis =>
      simpa [add_assoc] using inductionHypothesis
  | lose channel inductionHypothesis =>
      exact (Multiset.add_le_add_left (Multiset.le_cons_self _ _)).trans inductionHypothesis

/-- Every beginning of a trace is a trace. -/
theorem of_prefix (channel : LossyChannel trace way) :
    ∀ front, front <+: trace → ∃ between, LossyChannel front between := by
  induction channel with
  | new =>
      intro front isPrefix
      rw [List.prefix_nil.mp isPrefix]
      exact ⟨0, new⟩
  | @take past way message channel inductionHypothesis =>
      intro front isPrefix
      rcases List.prefix_concat_iff.mp isPrefix with rfl | shorter
      · exact ⟨_, channel.take message⟩
      · exact inductionHypothesis front shorter
  | @give past way message channel inductionHypothesis =>
      intro front isPrefix
      rcases List.prefix_concat_iff.mp isPrefix with rfl | shorter
      · exact ⟨_, channel.give⟩
      · exact inductionHypothesis front shorter
  | lose channel inductionHypothesis => exact inductionHypothesis

/-- The traces of the channel, without the messages on the way. -/
theorem exists_iff : (∃ way, LossyChannel trace way) ↔
    ∀ front, front <+: trace → Transfer.allGiven front ≤ Transfer.allTaken front := by
  constructor
  · rintro ⟨way, channel⟩ front isPrefix
    obtain ⟨between, shorter⟩ := channel.of_prefix front isPrefix
    exact (Multiset.le_add_right _ _).trans shorter.conserved
  · intro bounded
    -- Nothing needs to be lost: the way holds the rest of what was taken in.
    suffices exact_ : ∃ way, LossyChannel trace way ∧
        Transfer.allGiven trace + way = Transfer.allTaken trace from
      ⟨exact_.choose, exact_.choose_spec.1⟩
    induction trace using List.reverseRecOn with
    | nil => exact ⟨0, new, rfl⟩
    | append_singleton past transfer inductionHypothesis =>
        obtain ⟨way, channel, isWay⟩ := inductionHypothesis fun front isPrefix =>
          bounded front (isPrefix.trans (List.prefix_append _ _))
        cases transfer with
        | taken message =>
            refine ⟨_, channel.take message, ?_⟩
            simp [← isWay, add_comm _ {message}]
        | given message =>
            have whole := bounded _ List.prefix_rfl
            simp only [Transfer.allGiven_append, Transfer.allGiven_given,
              Transfer.allTaken_append, Transfer.allTaken_given, add_zero, ← isWay,
              add_le_add_iff_left] at whole
            obtain ⟨rest, rfl⟩ := Multiset.le_iff_exists_add.mp whole
            rw [Multiset.singleton_add] at channel isWay
            refine ⟨rest, channel.give, ?_⟩
            rw [Transfer.allGiven_append, Transfer.allTaken_append, Transfer.allGiven_given,
              Transfer.allTaken_given, add_zero, ← isWay, add_assoc, Multiset.singleton_add]

/-- One more transfer: enough of the message was taken in. -/
theorem exists_snoc {transfer : Transfer α} (channel : ∃ way, LossyChannel trace way)
    (bounded : Transfer.allGiven (trace ++ [transfer]) ≤ Transfer.allTaken (trace ++ [transfer])) :
    ∃ way, LossyChannel (trace ++ [transfer]) way := by
  rw [exists_iff] at channel ⊢
  intro front isPrefix
  rcases List.prefix_concat_iff.mp isPrefix with rfl | shorter
  · exact bounded
  · exact channel front shorter

/-- Channels side by side are a channel. -/
theorem of_members {ω : Type*} (transfer? : ω → Option (Transfer α)) {count : Nat}
    {seen : List (Nat × ω)} (within : ∀ output ∈ seen, output.1 < count)
    (each : ∀ place < count,
      ∃ way, LossyChannel ((outputsOf place seen).filterMap transfer?) way) :
    ∃ way, LossyChannel ((seen.map Prod.snd).filterMap transfer?) way := by
  rw [exists_iff]
  intro front isPrefix
  obtain ⟨outputs, isOutputs, rfl⟩ := List.prefix_filterMap_iff.mp isPrefix
  obtain ⟨part, isPart, rfl⟩ := List.prefix_map_iff.mp isOutputs
  have withinPart : ∀ output ∈ part, output.1 < count :=
    fun output member => within output (isPart.subset member)
  rw [← sum_outputsOf (fun outputs => Transfer.allGiven (outputs.filterMap transfer?)) rfl
      (fun front back => by rw [List.filterMap_append, Transfer.allGiven_append]) withinPart,
    ← sum_outputsOf (fun outputs => Transfer.allTaken (outputs.filterMap transfer?)) rfl
      (fun front back => by rw [List.filterMap_append, Transfer.allTaken_append]) withinPart]
  refine Finset.sum_le_sum fun place member => ?_
  have channel := each place (Finset.mem_range.mp member)
  exact exists_iff.mp channel _ ((isPart.filterMap _).filterMap transfer?)

end LossyChannel

end SmartFecTunnel.Library
