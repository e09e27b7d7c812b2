import Mathlib.Data.Rat.Defs
import SmartFecTunnel.Library.Text

/-!
Contract: the values that Python's `json` reads, and their equality.

An object is a list of its members in the order of insertion.  Equality does not
look at that order, and equates a boolean with the number it counts as.

Owns:
- `Value`, and `same`, what `==` and `in` compare;
- the members of an object, `lookup` and `set`;
- `WellFormed`, no object has a key twice, and that such a value is equal to
  itself.

Does not own: the text of a value, and values that share a part.
-/

namespace SmartFecTunnel.Library

/-- A float that is not finite is no rational number.  Not-a-number is equal to itself only as
one object. -/
inductive Number where
  | int (value : Int)
  | float (value : Rat)
  | negativeZero
  | infinity (negative : Bool)
  | nan (object : Nat)
deriving DecidableEq

inductive Value where
  | null
  | bool (value : Bool)
  | number (value : Number)
  | string (value : Text)
  | array (items : List Value)
  | object (members : List (Text × Value))

namespace Number

/-- The rational number that a finite number is. -/
def finite? : Number → Option Rat
  | .int value => some value
  | .float value => some value
  | .negativeZero => some 0
  | .infinity _ => none
  | .nan _ => none

def same (left right : Number) : Bool :=
  match left.finite?, right.finite? with
  | some left, some right => left = right
  | none, none => left = right
  | _, _ => false

theorem same_self (number : Number) : number.same number = true := by
  cases number <;> simp [same, finite?]

end Number

namespace Value

/-- The members of an object. -/
def members : Value → List (Text × Value)
  | .object members => members
  | _ => []

/-- The items of an array. -/
def items : Value → List Value
  | .array items => items
  | _ => []

/-- The string that a member is, if it is one. -/
def stringMember (key : Text) (value : Value) : Option Text :=
  match value.members.lookup key with
  | some (.string text) => some text
  | _ => none

mutual

/-- `==`, or the same object. -/
def same : Value → Value → Bool
  | .null, .null => true
  | .bool left, .bool right => left = right
  | .bool left, .number right => (Number.int (if left then 1 else 0)).same right
  | .number left, .bool right => left.same (.int (if right then 1 else 0))
  | .number left, .number right => left.same right
  | .string left, .string right => left = right
  | .array left, .array right => sameItems left right
  | .object left, .object right => left.length = right.length && sameMembers left right
  | _, _ => false

def sameItems : List Value → List Value → Bool
  | [], [] => true
  | left :: lefts, right :: rights => same left right && sameItems lefts rights
  | _, _ => false

/-- Every member on the left is on the right. -/
def sameMembers : List (Text × Value) → List (Text × Value) → Bool
  | [], _ => true
  | (key, left) :: lefts, rights =>
    (match rights.lookup key with
      | some right => same left right
      | none => false) && sameMembers lefts rights

end

mutual

/-- No object has a key twice. -/
def WellFormed : Value → Prop
  | .array items => WellFormedItems items
  | .object members => (members.map Prod.fst).Nodup ∧ WellFormedMembers members
  | _ => True

def WellFormedItems : List Value → Prop
  | [] => True
  | item :: items => WellFormed item ∧ WellFormedItems items

def WellFormedMembers : List (Text × Value) → Prop
  | [] => True
  | (_, value) :: members => WellFormed value ∧ WellFormedMembers members

end

theorem wellFormedItems_iff {items : List Value} :
    WellFormedItems items ↔ ∀ item ∈ items, item.WellFormed := by
  induction items with
  | nil => simp [WellFormedItems]
  | cons item items inductionHypothesis => simp [WellFormedItems, inductionHypothesis]

theorem wellFormedMembers_iff {members : List (Text × Value)} :
    WellFormedMembers members ↔ ∀ member ∈ members, member.2.WellFormed := by
  induction members with
  | nil => simp [WellFormedMembers]
  | cons member members inductionHypothesis => simp [WellFormedMembers, inductionHypothesis]

theorem wellFormed_array {items : List Value} :
    (array items).WellFormed ↔ ∀ item ∈ items, item.WellFormed := by
  rw [WellFormed, wellFormedItems_iff]

theorem wellFormed_object {members : List (Text × Value)} :
    (object members).WellFormed ↔
      (members.map Prod.fst).Nodup ∧ ∀ member ∈ members, member.2.WellFormed := by
  rw [WellFormed, wellFormedMembers_iff]

end Value

/-! ### Members -/

/-- The members of an object, in the order of insertion. -/
abbrev Members := List (Text × Value)

namespace Members

def keys (members : Members) : List Text := members.map Prod.fst

/-- `members[key] = value`: the key keeps its place, and a new one comes last. -/
def set (key : Text) (value : Value) : Members → Members
  | [] => [(key, value)]
  | (first, old) :: members =>
    if first = key then (first, value) :: members else (first, old) :: set key value members

theorem lookup_cons (key first : Text) (value : Value) (members : Members) :
    List.lookup key ((first, value) :: members) =
      if key = first then some value else members.lookup key := by
  rw [List.lookup_cons]
  by_cases same : key = first
  · simp [same]
  · simp [same, beq_eq_false_iff_ne.mpr same]

theorem mem_of_lookup {members : Members} {key : Text} {value : Value}
    (found : members.lookup key = some value) : (key, value) ∈ members := by
  induction members with
  | nil => cases found
  | cons member members inductionHypothesis =>
      obtain ⟨first, old⟩ := member
      rw [lookup_cons] at found
      split at found
      next same =>
        rw [same, Option.some.inj found]
        exact List.mem_cons_self
      next => exact List.mem_cons_of_mem _ (inductionHypothesis found)

theorem lookup_of_mem {members : Members} (distinct : members.keys.Nodup) {key : Text}
    {value : Value} (member : (key, value) ∈ members) : members.lookup key = some value := by
  induction members with
  | nil => cases member
  | cons head members inductionHypothesis =>
      obtain ⟨first, old⟩ := head
      have ⟨fresh, distinct⟩ := List.nodup_cons.mp distinct
      rw [lookup_cons]
      rcases List.mem_cons.mp member with same | later
      · cases same
        rw [if_pos rfl]
      · have inKeys : key ∈ members.map Prod.fst := List.mem_map_of_mem later
        rw [if_neg (by rintro rfl; exact fresh inKeys)]
        exact inductionHypothesis distinct later

theorem lookup_isSome {members : Members} {key : Text} :
    (members.lookup key).isSome = true ↔ key ∈ members.keys := by
  induction members with
  | nil => simp [keys]
  | cons head members inductionHypothesis =>
      obtain ⟨first, old⟩ := head
      rw [lookup_cons]
      split
      next same => simp [keys, same]
      next other => simp [keys, other, inductionHypothesis]

@[simp]
theorem lookup_set (key other : Text) (value : Value) (members : Members) :
    (members.set key value).lookup other =
      if other = key then some value else members.lookup other := by
  induction members with
  | nil =>
      rw [set, lookup_cons]
  | cons head members inductionHypothesis =>
      obtain ⟨first, old⟩ := head
      rw [set]
      split
      next same =>
        subst same
        rw [lookup_cons, lookup_cons]
        split <;> rfl
      next different =>
        rw [lookup_cons, lookup_cons, inductionHypothesis]
        by_cases isFirst : other = first
        · rw [if_pos isFirst, if_pos isFirst, if_neg (by rw [isFirst]; exact different)]
        · rw [if_neg isFirst, if_neg isFirst]

theorem keys_set (key : Text) (value : Value) (members : Members) :
    (members.set key value).keys =
      if key ∈ members.keys then members.keys else members.keys ++ [key] := by
  induction members with
  | nil => rfl
  | cons head members inductionHypothesis =>
      obtain ⟨first, old⟩ := head
      rw [set]
      by_cases same : first = key
      · simp [same, keys]
      · rw [if_neg same]
        change first :: keys (set key value members) = _
        rw [inductionHypothesis]
        by_cases inRest : key ∈ keys members
        · have inKeys : key ∈ keys ((first, old) :: members) := List.mem_cons_of_mem _ inRest
          rw [if_pos inRest, if_pos inKeys]
          rfl
        · have notInKeys : key ∉ keys ((first, old) :: members) := by
            rintro (_ | ⟨_, inKeys⟩)
            · exact same rfl
            · exact inRest inKeys
          rw [if_neg inRest, if_neg notInKeys]
          rfl

theorem nodup_keys_set {members : Members} (distinct : members.keys.Nodup) (key : Text)
    (value : Value) : (members.set key value).keys.Nodup := by
  rw [keys_set]
  split
  next => exact distinct
  next fresh => exact distinct.append (List.nodup_singleton key) (by simpa using fresh)

/-- To set a key to what it holds changes nothing. -/
theorem set_eq_self {members : Members} {key : Text} {value : Value}
    (holds : members.lookup key = some value) : members.set key value = members := by
  induction members with
  | nil => cases holds
  | cons head members inductionHypothesis =>
      obtain ⟨first, old⟩ := head
      rw [lookup_cons] at holds
      rw [set]
      by_cases same : first = key
      · rw [if_pos same.symm] at holds
        rw [if_pos same, Option.some.inj holds]
      · rw [if_neg (Ne.symm same)] at holds
        rw [if_neg same, inductionHypothesis holds]

/-- The last value that a key is set to stays. -/
@[simp]
theorem set_set (key : Text) (value last : Value) (members : Members) :
    set key last (set key value members) = set key last members := by
  induction members with
  | nil =>
      rw [set, set, set, if_pos rfl]
  | cons head members inductionHypothesis =>
      obtain ⟨first, old⟩ := head
      rw [set]
      by_cases same : first = key
      · rw [if_pos same, set, set, if_pos same, if_pos same]
      · rw [if_neg same, set, set, if_neg same, if_neg same, inductionHypothesis]

theorem mem_set {members : Members} {key : Text} {value : Value} {member : Text × Value}
    (isMember : member ∈ members.set key value) : member = (key, value) ∨ member ∈ members := by
  induction members with
  | nil => exact .inl (List.mem_singleton.mp isMember)
  | cons head members inductionHypothesis =>
      obtain ⟨first, old⟩ := head
      rw [set] at isMember
      split at isMember
      next same =>
        rcases List.mem_cons.mp isMember with rfl | later
        · exact .inl (by rw [same])
        · exact .inr (List.mem_cons_of_mem _ later)
      next =>
        rcases List.mem_cons.mp isMember with rfl | later
        · exact .inr List.mem_cons_self
        · exact (inductionHypothesis later).imp_right (List.mem_cons_of_mem _)

/-- The members of other keys are left alone. -/
theorem filter_set (keep : Text → Bool) {key : Text} (dropped : keep key = false) (value : Value)
    (members : Members) :
    (members.set key value).filter (fun member => keep member.1) =
      members.filter fun member => keep member.1 := by
  induction members with
  | nil => simp [set, dropped]
  | cons head members inductionHypothesis =>
      obtain ⟨first, old⟩ := head
      rw [set]
      split
      next same => simp [same, dropped]
      next => simp [List.filter_cons, inductionHypothesis]

/-- Objects with the same keys in the same order and the same values are the same. -/
theorem eq_of_keys_of_lookup {left right : Members} (sameKeys : left.keys = right.keys)
    (distinct : left.keys.Nodup) (sameValues : ∀ key, left.lookup key = right.lookup key) :
    left = right := by
  induction left generalizing right with
  | nil =>
      cases right with
      | nil => rfl
      | cons head right => cases sameKeys
  | cons head left inductionHypothesis =>
      obtain ⟨key, value⟩ := head
      cases right with
      | nil => cases sameKeys
      | cons other right =>
          obtain ⟨otherKey, otherValue⟩ := other
          have ⟨fresh, distinct⟩ := List.nodup_cons.mp distinct
          have ⟨isKey, restKeys⟩ := List.cons.inj sameKeys
          dsimp only at isKey fresh
          subst isKey
          have values := sameValues key
          rw [lookup_cons, lookup_cons, if_pos rfl, if_pos rfl] at values
          rw [Option.some.inj values]
          congr 1
          refine inductionHypothesis restKeys distinct fun inner => ?_
          by_cases same : inner = key
          · have leftFresh : ¬ (left.lookup key).isSome = true :=
              fun present => fresh (lookup_isSome.mp present)
            have rightFresh : ¬ (right.lookup key).isSome = true := by
              intro present
              have inKeys := lookup_isSome.mp present
              rw [← show keys left = keys right from restKeys] at inKeys
              exact fresh inKeys
            rw [same, Option.not_isSome_iff_eq_none.mp leftFresh,
              Option.not_isSome_iff_eq_none.mp rightFresh]
          · have others := sameValues inner
            rw [lookup_cons, lookup_cons, if_neg same, if_neg same] at others
            exact others

end Members

/-! ### Equality -/

namespace Value

mutual

/-- A value that no key makes ambiguous is equal to itself. -/
theorem same_self : ∀ value : Value, value.WellFormed → value.same value = true
  | .null, _ => rfl
  | .bool _, _ => by simp [same]
  | .number value, _ => value.same_self
  | .string _, _ => by simp [same]
  | .array items, wellFormed => sameItems_self items wellFormed
  | .object members, wellFormed => by
      rw [same, decide_eq_true rfl, Bool.true_and]
      refine sameMembers_of_lookup members wellFormed.2 fun key value member => ?_
      exact Members.lookup_of_mem wellFormed.1 member

theorem sameItems_self : ∀ items : List Value, WellFormedItems items → sameItems items items = true
  | [], _ => rfl
  | item :: items, wellFormed => by
      rw [sameItems, same_self item wellFormed.1, sameItems_self items wellFormed.2]
      rfl

theorem sameMembers_of_lookup {others : Members} : ∀ members : Members,
    WellFormedMembers members →
    (∀ key value, (key, value) ∈ members → others.lookup key = some value) →
    sameMembers members others = true
  | [], _, _ => rfl
  | (key, value) :: members, wellFormed, found => by
      have rest := sameMembers_of_lookup members wellFormed.2
        fun other otherValue member => found other otherValue (List.mem_cons_of_mem _ member)
      rw [sameMembers, found key value List.mem_cons_self, rest]
      dsimp only
      rw [same_self value wellFormed.1]
      rfl

end

end Value

/-- A value as Python has it. -/
structure Document where
  value : Value
  wellFormed : value.WellFormed

end SmartFecTunnel.Library
