import Mathlib.Data.List.Basic

/-!
Contract: an element that stands in front of the first one of a kind.

Owns: where `place` puts an element, and that it is the only change.
-/

namespace SmartFecTunnel.Library

universe u

variable {α : Type u}

/-- Put an element in front of the first one that `marks` finds, or last. -/
def place (marks : α → Bool) (element : α) (rest : List α) : List α :=
  rest.insertIdx (rest.findIdx marks) element

theorem place_cons (marks : α → Bool) (element head : α) (rest : List α) :
    place marks element (head :: rest) =
      if marks head then element :: head :: rest else head :: place marks element rest := by
  unfold place
  rw [List.findIdx_cons]
  cases marks head with
  | true => rfl
  | false => rfl

/-- The part before the place has no element of the kind, and the part behind begins with
one. -/
theorem place_eq {marks : α → Bool} {element : α} {rest before after : List α}
    (isRest : rest = before ++ after) (unmarked : ∀ other ∈ before, marks other = false)
    (marked : ∀ other ∈ after.head?, marks other = true) :
    place marks element rest = before ++ element :: after := by
  subst isRest
  induction before with
  | nil =>
      rw [List.nil_append, List.nil_append]
      cases after with
      | nil => rfl
      | cons head after => rw [place_cons, if_pos (marked head rfl)]
  | cons head before inductionHypothesis =>
      have headUnmarked := unmarked head List.mem_cons_self
      rw [List.cons_append, place_cons, headUnmarked, if_neg Bool.false_ne_true,
        inductionHypothesis fun other member => unmarked other (List.mem_cons_of_mem head member)]
      rfl

/-- Every list can be cut at the place. -/
theorem exists_cut (marks : α → Bool) (rest : List α) :
    ∃ before after, rest = before ++ after ∧ (∀ other ∈ before, marks other = false) ∧
      ∀ other ∈ after.head?, marks other = true := by
  induction rest with
  | nil => exact ⟨[], [], rfl, nofun, nofun⟩
  | cons head rest inductionHypothesis =>
      cases isMarked : marks head with
      | true =>
          refine ⟨[], head :: rest, rfl, nofun, ?_⟩
          rintro other ⟨⟩
          exact isMarked
      | false =>
          obtain ⟨before, after, rfl, unmarked, marked⟩ := inductionHypothesis
          refine ⟨head :: before, after, rfl, ?_, marked⟩
          intro other member
          rcases List.mem_cons.mp member with rfl | later
          · exact isMarked
          · exact unmarked other later

/-- Without the element the list is as before. -/
theorem filter_place {marks keep : α → Bool} {element : α} (dropped : keep element = false)
    (rest : List α) : (place marks element rest).filter keep = rest.filter keep := by
  obtain ⟨before, after, isRest, unmarked, marked⟩ := exists_cut marks rest
  rw [place_eq isRest unmarked marked, isRest, List.filter_append, List.filter_append,
    List.filter_cons_of_neg (by rw [dropped]; exact Bool.false_ne_true)]

end SmartFecTunnel.Library
