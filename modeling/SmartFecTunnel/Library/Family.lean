import Mathlib.Algebra.BigOperators.Group.Finset.Basic
import SmartFecTunnel.Library.Run

/-!
Contract: a growing family of machines that run independently of each other.

Every output carries the place of its member.

Owns:
- `outputsOf`, the outputs of one member, and that a measure of all outputs is the sum over
  the members;
- `Family`, every member is where a run of its own has led it, with the rules for a new
  member and for a step of one.

Does not own: which member moves.
-/

namespace SmartFecTunnel.Library

universe u v w

variable {σ : Type u} {ι : Type v} {ω : Type w}

/-- The outputs of the member at a place. -/
def outputsOf (place : Nat) (seen : List (Nat × ω)) : List ω :=
  seen.filterMap fun output => if output.1 = place then some output.2 else none

@[simp] theorem outputsOf_nil (place : Nat) : outputsOf place ([] : List (Nat × ω)) = [] := rfl

@[simp] theorem outputsOf_append (place : Nat) (front back : List (Nat × ω)) :
    outputsOf place (front ++ back) = outputsOf place front ++ outputsOf place back :=
  List.filterMap_append

theorem outputsOf_cons (place : Nat) (output : Nat × ω) (rest : List (Nat × ω)) :
    outputsOf place (output :: rest) =
      (if output.1 = place then [output.2] else []) ++ outputsOf place rest := by
  rw [outputsOf, List.filterMap_cons]
  by_cases isOwn : output.1 = place
  · simp only [if_pos isOwn]
    rfl
  · simp only [if_neg isOwn]
    rfl

/-- What one member puts out is its own. -/
theorem outputsOf_tagged (place other : Nat) (outputs : List ω) :
    outputsOf place (outputs.map fun output => (other, output)) =
      if other = place then outputs else [] := by
  induction outputs with
  | nil => simp
  | cons output outputs inductionHypothesis =>
      rw [List.map_cons, outputsOf_cons, inductionHypothesis]
      by_cases same : other = place
      · simp [same]
      · simp [same]

theorem outputsOf_eq_nil {place : Nat} {seen : List (Nat × ω)}
    (others : ∀ output ∈ seen, output.1 < place) : outputsOf place seen = [] := by
  rw [outputsOf, List.filterMap_eq_nil_iff]
  intro output member
  exact if_neg (Nat.ne_of_lt (others output member))

/-- What adds up over outputs adds up over the members. -/
theorem sum_outputsOf {M : Type*} [AddCommMonoid M] (measure : List ω → M) (zero : measure [] = 0)
    (add : ∀ front back, measure (front ++ back) = measure front + measure back) {count : Nat}
    {seen : List (Nat × ω)} (within : ∀ output ∈ seen, output.1 < count) :
    ∑ place ∈ Finset.range count, measure (outputsOf place seen) =
      measure (seen.map Prod.snd) := by
  induction seen with
  | nil => simp [zero]
  | cons output rest inductionHypothesis =>
      have ⟨isPlace, withinRest⟩ := List.forall_mem_cons.mp within
      have own : ∑ place ∈ Finset.range count,
          measure (if output.1 = place then [output.2] else []) = measure [output.2] := by
        rw [Finset.sum_eq_single_of_mem output.1 (Finset.mem_range.mpr isPlace)]
        · rw [if_pos rfl]
        · intro other _ different
          rw [if_neg (Ne.symm different), zero]
      simp only [outputsOf_cons, add, Finset.sum_add_distrib]
      rw [own, inductionHypothesis withinRest, ← add]
      rfl

/-- Every member is where a run of its own has led it, from one of the starts and with at most
so many inputs. -/
structure Family (step : σ → ι → Option (σ × List ω)) (Start : σ → Prop) (bound : Nat)
    (members : List σ) (seen : List (Nat × ω)) : Prop where
  ran : ∀ (place : Nat) (state : σ), members[place]? = some state → ∃ start inputs, Start start ∧
    inputs.length ≤ bound ∧ run step start inputs = some (state, outputsOf place seen)
  within : ∀ output ∈ seen, output.1 < members.length

namespace Family

variable {step : σ → ι → Option (σ × List ω)} {Start : σ → Prop} {bound : Nat} {members : List σ}
  {seen : List (Nat × ω)}

theorem empty : Family step Start 0 [] [] where
  ran _ _ found := nomatch found
  within _ member := nomatch member

theorem mono (family : Family step Start bound members seen) {more : Nat} (le : bound ≤ more) :
    Family step Start more members seen where
  ran place state found := by
    obtain ⟨start, inputs, isStart, few, ran⟩ := family.ran place state found
    exact ⟨start, inputs, isStart, few.trans le, ran⟩
  within := family.within

/-- A new member. -/
theorem add (family : Family step Start bound members seen) {start : σ} (isStart : Start start) :
    Family step Start bound (members ++ [start]) seen where
  ran place state found := by
    rcases getElem?_snoc found with old | ⟨isPlace, isState⟩
    · exact family.ran place state old
    · refine ⟨start, [], isStart, Nat.zero_le _, ?_⟩
      rw [isPlace, isState, outputsOf_eq_nil family.within]
      rfl
  within output member := by
    rw [List.length_append]
    exact Nat.lt_add_right _ (family.within output member)

/-- A step of the member at a place. -/
theorem move (family : Family step Start bound members seen) {place : Nat} {state next : σ}
    {input : ι} {emitted : List ω} (found : members[place]? = some state)
    (stepped : step state input = some (next, emitted)) :
    Family step Start (bound + 1) (members.set place next)
      (seen ++ emitted.map fun output => (place, output)) where
  ran other last isLast := by
    rw [outputsOf_append, outputsOf_tagged]
    rw [List.getElem?_set] at isLast
    split at isLast
    next same =>
      split at isLast
      next =>
        cases isLast
        obtain ⟨start, inputs, isStart, few, ran⟩ := family.ran place state found
        refine ⟨start, inputs ++ [input], isStart, ?_, ?_⟩
        · rw [List.length_append, List.length_singleton]
          omega
        · rw [if_pos same, ← same]
          exact run_snoc ran stepped
      next => cases isLast
    next different =>
      obtain ⟨start, inputs, isStart, few, ran⟩ := family.ran other last isLast
      rw [if_neg different, List.append_nil]
      exact ⟨start, inputs, isStart, Nat.le_succ_of_le few, ran⟩
  within output member := by
    rw [List.length_set]
    rcases List.mem_append.mp member with old | new
    · exact family.within output old
    · obtain ⟨_, _, isOutput⟩ := List.mem_map.mp new
      rw [← isOutput]
      exact (List.getElem?_eq_some_iff.mp found).1

end Family

end SmartFecTunnel.Library
