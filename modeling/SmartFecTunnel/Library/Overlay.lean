import Mathlib.Data.List.Basic

/-!
Contract: a list of which somebody manages some elements.

A deployment drops the elements that it manages and puts its own ones at one end.
The elements it does not manage are left alone.

Owns: what a deployment leaves of a list, that a second one like it changes
nothing, and what a changed one makes of an earlier deployment.
-/

namespace SmartFecTunnel.Library

universe u

variable {α : Type u}

/-- The end of a list where additions go. -/
inductive Position where
  | first
  | last
deriving DecidableEq, Repr

def Position.place (position : Position) (additions kept : List α) : List α :=
  match position with
  | .first => additions ++ kept
  | .last => kept ++ additions

theorem Position.filter_place (position : Position) (keep : α → Bool) (additions kept : List α) :
    (position.place additions kept).filter keep =
      position.place (additions.filter keep) (kept.filter keep) := by
  cases position with
  | first => exact List.filter_append ..
  | last => exact List.filter_append ..

@[simp]
theorem Position.place_nil (position : Position) (kept : List α) :
    position.place [] kept = kept := by
  cases position with
  | first => exact List.nil_append kept
  | last => exact List.append_nil kept

theorem Position.mem_place {position : Position} {additions kept : List α} {element : α} :
    element ∈ position.place additions kept ↔ element ∈ additions ∨ element ∈ kept := by
  cases position with
  | first => exact List.mem_append
  | last => exact List.mem_append.trans or_comm

theorem Position.length_place (position : Position) (additions kept : List α) :
    (position.place additions kept).length = additions.length + kept.length := by
  cases position with
  | first => exact List.length_append
  | last => exact List.length_append.trans (Nat.add_comm _ _)

/-- Which elements a deployment manages, and those it puts in their place. -/
structure Overlay (α : Type u) where
  managed : α → Bool
  position : Position
  additions : List α
  owned : ∀ element ∈ additions, managed element = true

namespace Overlay

def kept (overlay : Overlay α) (existing : List α) : List α :=
  existing.filter fun element => !overlay.managed element

def apply (overlay : Overlay α) (existing : List α) : List α :=
  overlay.position.place overlay.additions (overlay.kept existing)

theorem kept_eq_self {overlay : Overlay α} {existing : List α}
    (foreign : ∀ element ∈ existing, overlay.managed element = false) :
    overlay.kept existing = existing := by
  rw [kept, List.filter_eq_self]
  intro element member
  rw [foreign element member]
  rfl

theorem not_managed_of_mem_kept {overlay : Overlay α} {existing : List α} {element : α}
    (member : element ∈ overlay.kept existing) : overlay.managed element = false := by
  simpa using (List.mem_filter.mp member).2

theorem kept_additions (overlay : Overlay α) : overlay.kept overlay.additions = [] := by
  rw [kept, List.filter_eq_nil_iff]
  intro element member
  rw [overlay.owned element member]
  exact Bool.false_ne_true

theorem kept_place (overlay : Overlay α) (position : Position) (additions existing : List α) :
    overlay.kept (position.place additions existing) =
      position.place (overlay.kept additions) (overlay.kept existing) :=
  position.filter_place _ additions existing

theorem kept_kept (overlay : Overlay α) (existing : List α) :
    overlay.kept (overlay.kept existing) = overlay.kept existing :=
  kept_eq_self fun _ member => not_managed_of_mem_kept member

/-- What the deployment does not manage survives, in its order. -/
theorem kept_apply (overlay : Overlay α) (existing : List α) :
    overlay.kept (overlay.apply existing) = overlay.kept existing := by
  rw [apply, kept_place, kept_additions, kept_kept, Position.place_nil]

/-- What it manages are its own elements, and no others. -/
theorem managed_apply (overlay : Overlay α) (existing : List α) :
    (overlay.apply existing).filter overlay.managed = overlay.additions := by
  have own : overlay.additions.filter overlay.managed = overlay.additions :=
    List.filter_eq_self.mpr overlay.owned
  have none : (overlay.kept existing).filter overlay.managed = [] := by
    rw [List.filter_eq_nil_iff]
    intro element member
    rw [not_managed_of_mem_kept member]
    exact Bool.false_ne_true
  rw [apply, Position.filter_place, own, none]
  cases overlay.position with
  | first => exact List.append_nil _
  | last => exact List.nil_append _

/-- A second deployment changes nothing. -/
theorem apply_apply (overlay : Overlay α) (existing : List α) :
    overlay.apply (overlay.apply existing) = overlay.apply existing := by
  rw [apply, kept_apply, apply]

section Redeploy

variable {first second : Overlay α}

/-- A deployment that manages the same elements replaces the earlier one. -/
theorem apply_of_managed_eq (same : second.managed = first.managed) (existing : List α) :
    second.apply (first.apply existing) = second.apply existing := by
  have keptEq : second.kept = first.kept := by
    funext elements
    rw [kept, kept, same]
  rw [apply, keptEq, kept_apply, apply, keptEq]

/-- In general, what the earlier one added and the later one does not manage stays where it
was put. -/
theorem kept_redeploy (existing : List α) :
    second.kept (first.apply existing) =
      first.position.place (second.kept first.additions) (second.kept (first.kept existing)) := by
  rw [apply, kept_place]

/-- Of a list without elements of the earlier one. -/
theorem apply_redeploy {existing : List α}
    (foreign : ∀ element ∈ existing, first.managed element = false) :
    second.apply (first.apply existing) =
      second.position.place second.additions
        (first.position.place (second.kept first.additions) (second.kept existing)) := by
  rw [apply, kept_redeploy, kept_eq_self foreign]

/-- The earlier deployment is gone exactly if the later one manages all it added. -/
theorem apply_redeploy_iff {existing : List α}
    (foreign : ∀ element ∈ existing, first.managed element = false) :
    second.apply (first.apply existing) = second.apply existing ↔
      ∀ element ∈ first.additions, second.managed element = true := by
  rw [apply_redeploy foreign, apply]
  constructor
  · intro same
    have lengths := congrArg List.length same
    simp only [Position.length_place] at lengths
    have none : second.kept first.additions = [] := List.length_eq_zero_iff.mp (by omega)
    intro element member
    simpa using List.filter_eq_nil_iff.mp none element member
  · intro covered
    have none : second.kept first.additions = [] := by
      rw [kept, List.filter_eq_nil_iff]
      intro element member
      rw [covered element member]
      exact Bool.false_ne_true
    rw [none, Position.place_nil]

end Redeploy

end Overlay

end SmartFecTunnel.Library
