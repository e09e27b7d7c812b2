import Mathlib.Tactic.Common

/-!
Contract: computations that stop at their first error.

Owns:
- when a sequence of them, a map over a list or a guard has a result;
- `firstError`, checks that report the first of their errors: of checks one after the other
  the errors are in a row, so the first of them is the least one where they ascend.
-/

namespace SmartFecTunnel.Library

universe u

variable {ε α β : Type u}

theorem bind_eq_ok_iff {first : Except ε α} {next : α → Except ε β} {result : β} :
    first >>= next = .ok result ↔ ∃ value, first = .ok value ∧ next value = .ok result := by
  cases first with
  | error error =>
      constructor
      · intro impossible
        cases impossible
      · rintro ⟨_, impossible, _⟩
        cases impossible
  | ok value =>
      constructor
      · exact fun continued => ⟨value, rfl, continued⟩
      · rintro ⟨_, same, continued⟩
        cases same
        exact continued

theorem bind_eq_error_iff {first : Except ε α} {next : α → Except ε β} {error : ε} :
    first >>= next = .error error ↔
      first = .error error ∨ ∃ value, first = .ok value ∧ next value = .error error := by
  cases first with
  | error other => simp [bind, Except.bind]
  | ok value => simp [bind, Except.bind]

theorem map_eq_bind (result : α → β) (outcome : Except ε α) :
    outcome.map result = outcome >>= fun value => .ok (result value) := by
  cases outcome with
  | error error => rfl
  | ok value => rfl

theorem ite_error_eq_ok_iff {condition : Prop} [Decidable condition] {outcome : Except ε α}
    {error : ε} {result : α} :
    (if condition then outcome else .error error) = .ok result ↔
      condition ∧ outcome = .ok result := by
  split
  next holds => exact ⟨fun isResult => ⟨holds, isResult⟩, fun both => both.2⟩
  next fails => exact ⟨fun impossible => (nomatch impossible), fun both => absurd both.1 fails⟩

/-- What every single result tells about its element, all of them tell about the list. -/
theorem map_eq_of_mapM {γ : Type u} {check : α → Except ε β} {view : α → γ} {wrap : β → γ}
    (agrees : ∀ element result, check element = .ok result → view element = wrap result)
    {list : List α} {results : List β} (checked : list.mapM check = .ok results) :
    list.map view = results.map wrap := by
  induction list generalizing results with
  | nil =>
      cases checked
      rfl
  | cons first rest inductionHypothesis =>
      rw [List.mapM_cons] at checked
      obtain ⟨value, isFirst, isRest⟩ := bind_eq_ok_iff.mp checked
      obtain ⟨values, restChecked, same⟩ := bind_eq_ok_iff.mp isRest
      cases same
      rw [List.map_cons, List.map_cons, agrees first value isFirst,
        inductionHypothesis restChecked]

/-! ### Checks -/

/-- The first of some errors, if there are any. -/
def firstError : List ε → Except ε Unit
  | [] => .ok ()
  | error :: _ => .error error

@[simp] theorem firstError_nil : firstError ([] : List ε) = .ok () := rfl

@[simp] theorem firstError_cons (error : ε) (errors : List ε) :
    firstError (error :: errors) = .error error := rfl

/-- A check and another one after it. -/
theorem firstError_append (front back : List ε) :
    firstError (front ++ back) = firstError front >>= fun _ => firstError back := by
  cases front with
  | nil => rfl
  | cons error rest => rfl

/-- And a result behind both. -/
theorem map_firstError_append {γ : Type} {result : Unit → γ} (front back : List ε) :
    (firstError (front ++ back)).map result =
      firstError front >>= fun _ => (firstError back).map result := by
  cases front with
  | nil => rfl
  | cons error rest => rfl

/-- A check of each item in turn. -/
theorem forM_firstError (errors : α → List ε) (items : List α) :
    (forM items fun item => firstError (errors item)) = firstError (items.flatMap errors) := by
  induction items with
  | nil => rfl
  | cons item items inductionHypothesis =>
      rw [List.forM_cons, inductionHypothesis, List.flatMap_cons, firstError_append]

theorem firstError_eq_ok_iff {errors : List ε} : firstError errors = .ok () ↔ errors = [] := by
  cases errors with
  | nil => simp
  | cons error rest => simp

/-- Where the errors ascend, the one reported is the least. -/
theorem firstError_eq_error_iff {errors : List ε} {rank : ε → Nat}
    (ascending : errors.Pairwise fun first second => rank first < rank second) {error : ε} :
    firstError errors = .error error ↔
      error ∈ errors ∧ ∀ other ∈ errors, rank error ≤ rank other := by
  cases errors with
  | nil => simp
  | cons first rest =>
      have ⟨isLeast, _⟩ := List.pairwise_cons.mp ascending
      constructor
      · intro isFirst
        cases isFirst
        refine ⟨List.mem_cons_self, fun other member => ?_⟩
        rcases List.mem_cons.mp member with rfl | later
        · exact Nat.le_refl _
        · exact Nat.le_of_lt (isLeast other later)
      · intro ⟨member, least⟩
        rcases List.mem_cons.mp member with rfl | later
        · rfl
        · have := isLeast error later
          have := least first List.mem_cons_self
          omega

end SmartFecTunnel.Library
