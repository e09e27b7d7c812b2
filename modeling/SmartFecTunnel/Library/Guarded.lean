import Mathlib.Data.List.Basic

/-!
Contract: a resource that several members share, with a lock for it.

A member that is inside holds the lock, and may rely on something of the resource that
nobody else disturbs.

Owns: `Guarded`, and its rules for a member that joins, comes in, works inside, goes out or
stays outside.

Does not own: what the members are, and what takes the lock.
-/

namespace SmartFecTunnel.Library

universe u v

variable {α : Type u} {ρ : Type v}

/-- At most one member is inside.  It holds the lock, and what it relies on is so. -/
structure Guarded (Inside : α → Prop) (Relies : α → ρ → Prop) (locked : Bool) (members : List α)
    (resource : ρ) : Prop where
  held : ∀ (place : Nat) (member : α), members[place]? = some member → Inside member →
    locked = true
  alone : ∀ (place other : Nat) (first second : α), members[place]? = some first →
    members[other]? = some second → Inside first → Inside second → place = other
  relies : ∀ (place : Nat) (member : α), members[place]? = some member → Inside member →
    Relies member resource

namespace Guarded

variable {Inside : α → Prop} {Relies : α → ρ → Prop} {locked : Bool} {members : List α}
  {resource : ρ}

/-- With nobody inside, the lock and the resource may be anything. -/
theorem of_outside (outside : ∀ member ∈ members, ¬ Inside member) :
    Guarded Inside Relies locked members resource where
  held _ member found inside := absurd inside (outside member (List.mem_of_getElem? found))
  alone _ _ first _ found _ inside _ := absurd inside (outside first (List.mem_of_getElem? found))
  relies _ member found inside := absurd inside (outside member (List.mem_of_getElem? found))

/-- An open lock tells that nobody is inside. -/
theorem outside_of_open (guarded : Guarded Inside Relies false members resource) :
    ∀ member ∈ members, ¬ Inside member := by
  intro member isMember inside
  obtain ⟨place, found⟩ := List.mem_iff_getElem?.mp isMember
  exact Bool.false_ne_true (guarded.held place member found inside)

/-- One inside keeps all others out. -/
theorem outside_of_inside (guarded : Guarded Inside Relies locked members resource) {place : Nat}
    {member : α} (found : members[place]? = some member) (inside : Inside member) :
    ∀ (other : Nat) (second : α), other ≠ place → members[other]? = some second → ¬ Inside second :=
  fun other second different isSecond isInside =>
    different (guarded.alone other place second member isSecond found isInside inside)

/-- The member at a place changes while all others are out. -/
theorem set_alone {place : Nat} {next : α}
    (others : ∀ (other : Nat) (second : α), other ≠ place → members[other]? = some second →
      ¬ Inside second)
    (held : Inside next → locked = true) (relies : Inside next → Relies next resource) :
    Guarded Inside Relies locked (members.set place next) resource := by
  have only : ∀ (other : Nat) (member : α), (members.set place next)[other]? = some member →
      Inside member → other = place ∧ member = next := by
    intro other member found inside
    rw [List.getElem?_set] at found
    split at found
    next same =>
      split at found
      next => exact ⟨same.symm, (Option.some.inj found).symm⟩
      next => cases found
    next different => exact absurd inside (others other member (Ne.symm different) found)
  constructor
  · intro other member found inside
    have ⟨_, same⟩ := only other member found inside
    exact held (same ▸ inside)
  · intro first second member twin found isTwin inside twinInside
    exact (only first member found inside).1.trans (only second twin isTwin twinInside).1.symm
  · intro other member found inside
    have ⟨_, same⟩ := only other member found inside
    rw [same] at inside ⊢
    exact relies inside

/-- Who takes an open lock comes in. -/
theorem enter (guarded : Guarded Inside Relies false members resource) (place : Nat) {next : α}
    {after : ρ} (relies : Relies next after) :
    Guarded Inside Relies true (members.set place next) after :=
  set_alone (fun _ second _ found => guarded.outside_of_open second (List.mem_of_getElem? found))
    (fun _ => rfl) fun _ => relies

/-- Who is inside changes the resource. -/
theorem work (guarded : Guarded Inside Relies locked members resource) {place : Nat}
    {member next : α} {after : ρ} (found : members[place]? = some member) (inside : Inside member)
    (relies : Relies next after) :
    Guarded Inside Relies locked (members.set place next) after :=
  set_alone (guarded.outside_of_inside found inside)
    (fun _ => guarded.held place member found inside) fun _ => relies

/-- Who is inside goes out, with the lock or without it. -/
theorem leave (guarded : Guarded Inside Relies locked members resource) {place : Nat}
    {member next : α} {after : ρ} {lock : Bool} (found : members[place]? = some member)
    (inside : Inside member) (outside : ¬ Inside next) :
    Guarded Inside Relies lock (members.set place next) after :=
  set_alone (guarded.outside_of_inside found inside) (fun isInside => absurd isInside outside)
    fun isInside => absurd isInside outside

/-- Members that nobody inside is added to. -/
theorem of_old {others : List α} (guarded : Guarded Inside Relies locked members resource)
    (old : ∀ (place : Nat) (member : α), others[place]? = some member → Inside member →
      members[place]? = some member) : Guarded Inside Relies locked others resource where
  held place member found inside := guarded.held place member (old place member found inside) inside
  alone place other first second found isSecond inside isInside :=
    guarded.alone place other first second (old place first found inside)
      (old other second isSecond isInside) inside isInside
  relies place member found inside :=
    guarded.relies place member (old place member found inside) inside

/-- Who goes out, or stays out, changes nothing for the others. -/
theorem stay (guarded : Guarded Inside Relies locked members resource) (place : Nat) {next : α}
    (outside : ¬ Inside next) : Guarded Inside Relies locked (members.set place next) resource := by
  refine guarded.of_old fun other member found inside => ?_
  rw [List.getElem?_set] at found
  split at found
  next =>
    split at found
    next =>
      cases found
      exact absurd inside outside
    next => cases found
  next => exact found

/-- A new member starts outside. -/
theorem join (guarded : Guarded Inside Relies locked members resource) {next : α}
    (outside : ¬ Inside next) : Guarded Inside Relies locked (members ++ [next]) resource := by
  refine guarded.of_old fun other member found inside => ?_
  rcases Nat.lt_or_ge other members.length with within | beyond
  · rwa [List.getElem?_append_left within] at found
  · rw [List.getElem?_append_right beyond] at found
    rw [List.mem_singleton.mp (List.mem_of_getElem? found)] at inside
    exact absurd inside outside

end Guarded

end SmartFecTunnel.Library
