import SmartFecTunnel.Relay.Carrier

/-!
Contract: `CarrierReassembly::push` on arbitrary byte strings at arbitrary times
(`src/quic_relay.rs`).

`pushChecked` is `push` with the operations that can panic.  `SinceOpened` is the
part of a history since the open group of a message was opened, and `firstPart` the
first fragment received for an index in it.

Owns:
- no push panics;
- the bounds of the table and of every group in it;
- what a returned payload is made of;
- what a failed push does to the table.

Does not own: who sends the fragments.
-/

namespace SmartFecTunnel.Relay

open SmartFecTunnel.Library

namespace CarrierReassembly

/-! ### Panics -/

/-- The end of `push` once the part is in its group: `remove` and every part are
unwrapped. -/
def finishChecked (groups : Table Nat CarrierGroup) (message : Nat) (parts : List (Option Bytes)) :
    Option (CarrierReassembly × Except CarrierError (Option Bytes)) :=
  if parts.any Option.isNone then some (⟨groups⟩, .ok none)
  else
    (groups.lookup message).bind fun group =>
      (group.parts.mapM id).map fun parts =>
        if maxDatagram < (parts.map List.length).sum then
          (⟨groups.erase message⟩, .error .datagramTooLarge)
        else (⟨groups.erase message⟩, .ok (some parts.flatten))

/-- `push` with its ranges, its index and its `unwrap`s; `none` is a panic. -/
def pushChecked (reassembly : CarrierReassembly) (frame : Bytes) (now : Nat) :
    Option (CarrierReassembly × Except CarrierError (Option Bytes)) :=
  if frame.length < carrierHeader then some (reassembly, .error .shortFragment)
  else
    (number? frame 0 8).bind fun message =>
    (number? frame 8 10).bind fun index =>
    (number? frame 10 12).bind fun count =>
      if count = 0 ∨ maxCarrierFragments < count ∨ count ≤ index then
        some (reassembly, .error .invalidDimensions)
      else
        let groups := reassembly.unexpired now
        if message ∉ groups ∧ maxCarrierGroups ≤ groups.size then
          some (⟨groups⟩, .error .limitReached)
        else
          let group := (groups.lookup message).getD ⟨now, List.replicate count none⟩
          let groups := groups.insert message group
          if group.parts.length ≠ count then some (⟨groups⟩, .error .inconsistentCount)
          else
            (group.parts[index]?).bind fun slot =>
            (slice? frame carrierHeader frame.length).bind fun rest =>
              let parts := group.parts.set index (some (slot.getD rest))
              finishChecked (groups.insert message { group with parts }) message parts

theorem mapM_id_map_some (parts : List Bytes) : (parts.map some).mapM id = some parts := by
  induction parts with
  | nil => rfl
  | cons part rest inductionHypothesis => simp [inductionHypothesis]

/-- Parts none of which is missing. -/
theorem eq_map_some {parts : List (Option Bytes)} (full : ¬ parts.any Option.isNone = true) :
    parts = parts.reduceOption.map some := by
  induction parts with
  | nil => rfl
  | cons part rest inductionHypothesis =>
      cases part with
      | none => simp at full
      | some part =>
        have later := inductionHypothesis (by simpa using full)
        exact congrArg (List.cons (some part)) later

theorem erase_insert (groups : Table Nat CarrierGroup) (message : Nat) (group : CarrierGroup) :
    (groups.insert message group).erase message = groups.erase message := by
  apply AList.ext
  exact List.kerase_cons_eq rfl

theorem finishChecked_eq (groups : Table Nat CarrierGroup) (message : Nat)
    (group : CarrierGroup) :
    finishChecked (groups.insert message group) message group.parts =
      some (finish groups message group) := by
  unfold finishChecked finish
  by_cases missing : group.parts.any Option.isNone = true
  · rw [if_pos missing, if_pos missing]
  · have full := eq_map_some missing
    have found : (groups.insert message group).lookup message = some group := by
      rw [Table.lookup_insert_eq, if_pos rfl]
    rw [if_neg missing, if_neg missing, found, Option.bind_some, full, mapM_id_map_some,
      erase_insert]
    simp only [Option.map_some, ← full]

/-- No push panics. -/
theorem pushChecked_eq (reassembly : CarrierReassembly) (frame : Bytes) (now : Nat) :
    reassembly.pushChecked frame now = some (reassembly.push frame now) := by
  unfold pushChecked push
  by_cases short : frame.length < carrierHeader
  · rw [if_pos short, if_pos short]
  · have long : 12 ≤ frame.length := Nat.not_lt.mp short
    rw [if_neg short, if_neg short, number?_of_le (by decide) (by omega),
      number?_of_le (by decide) (by omega), number?_of_le (by decide) (by omega)]
    simp only [Option.bind_some]
    by_cases invalid : number frame 10 12 = 0 ∨ maxCarrierFragments < number frame 10 12 ∨
        number frame 10 12 ≤ number frame 8 10
    · rw [if_pos invalid, if_pos invalid]
    · rw [if_neg invalid, if_neg invalid]
      split
      next => rfl
      next =>
        generalize ((reassembly.unexpired now).lookup (number frame 0 8)).getD
          ⟨now, List.replicate (number frame 10 12) none⟩ = group
        split
        next => rfl
        next isCount =>
          have within : number frame 8 10 < group.parts.length := by
            rw [not_not.mp isCount]
            omega
          have rest : slice? frame carrierHeader frame.length = some (frame.drop carrierHeader) := by
            rw [slice?_of_le (Nat.not_lt.mp short) (Nat.le_refl _), List.take_length]
          rw [List.getElem?_eq_getElem within, rest]
          simp only [Option.bind_some, Option.join_some]
          rw [← finishChecked_eq]

end CarrierReassembly

/-! ### Pushes and histories -/

/-- Any bytes at any time. -/
structure Push where
  frame : Bytes
  now : Nat
deriving DecidableEq, Repr

namespace Push

def message (push : Push) : Nat := number push.frame 0 8
def index (push : Push) : Nat := number push.frame 8 10
def count (push : Push) : Nat := number push.frame 10 12
def part (push : Push) : Bytes := push.frame.drop carrierHeader

/-- The frame has a header with possible dimensions. -/
structure WellFormed (push : Push) : Prop where
  long : carrierHeader ≤ push.frame.length
  few : push.count ≤ maxCarrierFragments
  within : push.index < push.count

instance (push : Push) : Decidable push.WellFormed :=
  decidable_of_iff
    (carrierHeader ≤ push.frame.length ∧ push.count ≤ maxCarrierFragments ∧
      push.index < push.count)
    ⟨fun all => ⟨all.1, all.2.1, all.2.2⟩, fun all => ⟨all.long, all.few, all.within⟩⟩

/-- The fragment of a message of `count` parts at `index`. -/
def IsPart (message count index : Nat) (push : Push) : Prop :=
  push.WellFormed ∧ push.message = message ∧ push.count = count ∧ push.index = index

instance (message count index : Nat) (push : Push) : Decidable (push.IsPart message count index) :=
  inferInstanceAs (Decidable (_ ∧ _ ∧ _ ∧ _))

end Push

/-- The receiver after the pushes. -/
def after (pushes : List Push) : CarrierReassembly :=
  pushes.foldl (fun reassembly push => (reassembly.push push.frame push.now).1)
    CarrierReassembly.default

theorem after_snoc (pushes : List Push) (push : Push) :
    after (pushes ++ [push]) = ((after pushes).push push.frame push.now).1 := by
  simp [after]

/-- The first fragment received for an index of the message. -/
def firstPart (since : List Push) (message count index : Nat) : Option Bytes :=
  (since.find? fun push => push.IsPart message count index).map Push.part

/-- The first fragments received for the indices of the message, in order. -/
def firstParts (since : List Push) (message count : Nat) : List (Option Bytes) :=
  (List.range count).map (firstPart since message count)

/-- `since` is the part of the history that began when the group of the message was
opened: its first push found no unexpired group, and every later one that purged the
table left it there. -/
structure SinceOpened (past : List Push) (message : Nat) (before since : List Push) : Prop where
  split : past = before ++ since
  opened : ∃ opening rest, since = opening :: rest ∧ opening.WellFormed ∧
    opening.message = message ∧ message ∉ (after before).unexpired opening.now
  kept : ∀ front push, front ≠ [] → front ++ [push] <+: since → push.WellFormed →
    message ∈ (after (before ++ front)).unexpired push.now

/-! ### First parts -/

theorem length_firstParts (since : List Push) (message count : Nat) :
    (firstParts since message count).length = count := by
  simp [firstParts]

theorem firstParts_nil (message count : Nat) :
    firstParts [] message count = List.replicate count none := by
  apply List.ext_getElem
  · simp [firstParts]
  · intro index _ _
    simp [firstParts, firstPart]

/-- A push that is no fragment of the message changes none of its parts. -/
theorem firstParts_snoc_of_other {message count : Nat} (since : List Push) {push : Push}
    (other : push.WellFormed → push.message = message → push.count ≠ count) :
    firstParts (since ++ [push]) message count = firstParts since message count := by
  have notPart : ∀ index, ¬ push.IsPart message count index :=
    fun index isPart => other isPart.1 isPart.2.1 isPart.2.2.1
  simp [firstParts, firstPart, notPart]

/-- A fragment of the message fills its part if that is empty. -/
theorem firstParts_snoc {push : Push} (since : List Push) (wellFormed : push.WellFormed) :
    firstParts (since ++ [push]) push.message push.count =
      (firstParts since push.message push.count).set push.index
        (some (((firstParts since push.message push.count)[push.index]?.join).getD push.part)) := by
  apply List.ext_getElem
  · simp [firstParts]
  · intro index within _
    rw [length_firstParts] at within
    have isPart : push.IsPart push.message push.count index ↔ push.index = index := by
      simp [Push.IsPart, wellFormed]
    by_cases same : push.index = index
    · subst same
      cases held : since.find? fun other => other.IsPart push.message push.count push.index with
      | none => simp [firstParts, firstPart, isPart, held, wellFormed.within]
      | some first => simp [firstParts, firstPart, held, wellFormed.within]
    · simp [firstParts, firstPart, isPart, same]

/-! ### One push -/

/-- The group the push finds or opens. -/
def found (reassembly : CarrierReassembly) (push : Push) : CarrierGroup :=
  ((reassembly.unexpired push.now).lookup push.message).getD
    ⟨push.now, List.replicate push.count none⟩

/-- The group once the fragment is in it. -/
def stored (reassembly : CarrierReassembly) (push : Push) : CarrierGroup :=
  let group := found reassembly push
  let part := (group.parts[push.index]?.join).getD push.part
  { group with parts := group.parts.set push.index (some part) }

/-- The fragment gets into a group. -/
structure Admits (reassembly : CarrierReassembly) (push : Push) : Prop where
  wellFormed : push.WellFormed
  room : push.message ∈ reassembly.unexpired push.now ∨
    (reassembly.unexpired push.now).size < maxCarrierGroups
  count : (found reassembly push).parts.length = push.count

/-- What a push can do to the table, with its result. -/
inductive Effect (reassembly : CarrierReassembly) (push : Push) (next : CarrierReassembly) :
    Except CarrierError (Option Bytes) → Prop
  | malformed {error : CarrierError} (notWellFormed : ¬ push.WellFormed)
      (isError : error ≠ .datagramTooLarge) (same : next = reassembly) :
      Effect reassembly push next (.error error)
  | full (wellFormed : push.WellFormed) (fresh : push.message ∉ reassembly.unexpired push.now)
      (purged : next.groups = reassembly.unexpired push.now) :
      Effect reassembly push next (.error .limitReached)
  | inconsistent (wellFormed : push.WellFormed)
      (member : push.message ∈ reassembly.unexpired push.now)
      (otherCount : (found reassembly push).parts.length ≠ push.count)
      (isNext : next.groups = (reassembly.unexpired push.now).insert push.message
        (found reassembly push)) :
      Effect reassembly push next (.error .inconsistentCount)
  | waiting (admits : Admits reassembly push) (missing : none ∈ (stored reassembly push).parts)
      (isNext : next.groups = ((reassembly.unexpired push.now).insert push.message
        (found reassembly push)).insert push.message (stored reassembly push)) :
      Effect reassembly push next (.ok none)
  | tooLarge {parts : List Bytes} (admits : Admits reassembly push)
      (complete : (stored reassembly push).parts = parts.map some)
      (large : maxDatagram < parts.flatten.length)
      (isNext : next.groups = ((reassembly.unexpired push.now).insert push.message
        (found reassembly push)).erase push.message) :
      Effect reassembly push next (.error .datagramTooLarge)
  | complete {parts : List Bytes} (admits : Admits reassembly push)
      (complete : (stored reassembly push).parts = parts.map some)
      (small : parts.flatten.length ≤ maxDatagram)
      (isNext : next.groups = ((reassembly.unexpired push.now).insert push.message
        (found reassembly push)).erase push.message) :
      Effect reassembly push next (.ok (some parts.flatten))

/-- A group that a push opens has as many parts as the push says. -/
theorem found_of_not_mem {reassembly : CarrierReassembly} {push : Push}
    (fresh : push.message ∉ reassembly.unexpired push.now) :
    found reassembly push = ⟨push.now, List.replicate push.count none⟩ := by
  unfold found
  rw [AList.lookup_eq_none.mpr fresh]
  rfl

theorem finish_effect {reassembly : CarrierReassembly} {push : Push}
    (admits : Admits reassembly push) :
    let result := CarrierReassembly.finish ((reassembly.unexpired push.now).insert push.message
      (found reassembly push)) push.message (stored reassembly push)
    Effect reassembly push result.1 result.2 := by
  unfold CarrierReassembly.finish
  by_cases missing : (stored reassembly push).parts.any Option.isNone = true
  · rw [if_pos missing]
    exact .waiting admits (by simpa using missing) rfl
  · have full := CarrierReassembly.eq_map_some missing
    rw [if_neg missing]
    dsimp only
    rw [← List.length_flatten]
    by_cases large : maxDatagram < (stored reassembly push).parts.reduceOption.flatten.length
    · rw [if_pos large]
      exact .tooLarge admits full large rfl
    · rw [if_neg large]
      exact .complete admits full (Nat.not_lt.mp large) rfl

theorem push_effect (reassembly : CarrierReassembly) (push : Push) :
    Effect reassembly push (reassembly.push push.frame push.now).1
      (reassembly.push push.frame push.now).2 := by
  unfold CarrierReassembly.push
  by_cases short : push.frame.length < carrierHeader
  · rw [if_pos short]
    exact .malformed (fun wellFormed => absurd short (Nat.not_lt.mpr wellFormed.long))
      (by decide) rfl
  rw [if_neg short]
  dsimp only
  by_cases invalid : number push.frame 10 12 = 0 ∨ maxCarrierFragments < number push.frame 10 12 ∨
      number push.frame 10 12 ≤ number push.frame 8 10
  · rw [if_pos invalid]
    refine .malformed ?_ (by decide) rfl
    intro wellFormed
    have few := wellFormed.few
    have within := wellFormed.within
    unfold Push.index Push.count at *
    omega
  rw [if_neg invalid]
  have wellFormed : push.WellFormed := by
    constructor
    · exact Nat.not_lt.mp short
    · unfold Push.count
      omega
    · unfold Push.index Push.count
      omega
  by_cases isFull : number push.frame 0 8 ∉ reassembly.unexpired push.now ∧
      maxCarrierGroups ≤ (reassembly.unexpired push.now).size
  · rw [if_pos isFull]
    exact .full wellFormed isFull.1 rfl
  rw [if_neg isFull]
  have room : push.message ∈ reassembly.unexpired push.now ∨
      (reassembly.unexpired push.now).size < maxCarrierGroups := by
    unfold Push.message
    rw [not_and_or, not_not, Nat.not_le] at isFull
    exact isFull
  by_cases otherCount : (found reassembly push).parts.length ≠ push.count
  · have known : push.message ∈ reassembly.unexpired push.now := by
      by_contra fresh
      rw [found_of_not_mem fresh] at otherCount
      simp at otherCount
    unfold found Push.message Push.count at otherCount
    rw [if_pos otherCount]
    exact .inconsistent wellFormed known otherCount rfl
  · have admits : Admits reassembly push := ⟨wellFormed, room, not_not.mp otherCount⟩
    unfold found Push.message Push.count at otherCount
    rw [if_neg otherCount]
    exact finish_effect admits

theorem lookup_found {reassembly : CarrierReassembly} {push : Push}
    (known : push.message ∈ reassembly.unexpired push.now) :
    (reassembly.unexpired push.now).lookup push.message = some (found reassembly push) := by
  obtain ⟨group, isGroup⟩ := Table.mem_iff_exists_lookup.mp known
  rw [found, isGroup]
  rfl

/-- A well-formed push leaves the unexpired groups of the other messages and drops the
rest. -/
theorem Effect.lookup_of_ne {reassembly next : CarrierReassembly} {push : Push}
    {result : Except CarrierError (Option Bytes)} (effect : Effect reassembly push next result)
    (wellFormed : push.WellFormed) {message : Nat} (other : message ≠ push.message) :
    next.groups.lookup message = (reassembly.unexpired push.now).lookup message := by
  cases effect with
  | malformed notWellFormed => exact absurd wellFormed notWellFormed
  | full _ _ purged => rw [purged]
  | inconsistent _ _ _ isNext => rw [isNext, Table.lookup_insert_eq, if_neg other]
  | waiting _ _ isNext =>
      rw [isNext, Table.lookup_insert_eq, if_neg other, Table.lookup_insert_eq, if_neg other]
  | tooLarge _ _ _ isNext =>
      rw [isNext, Table.lookup_erase_eq, if_neg other, Table.lookup_insert_eq, if_neg other]
  | complete _ _ _ isNext =>
      rw [isNext, Table.lookup_erase_eq, if_neg other, Table.lookup_insert_eq, if_neg other]

theorem Effect.same_of_malformed {reassembly next : CarrierReassembly} {push : Push}
    {result : Except CarrierError (Option Bytes)} (effect : Effect reassembly push next result)
    (notWellFormed : ¬ push.WellFormed) : next = reassembly := by
  cases effect with
  | malformed _ _ same => exact same
  | full wellFormed => exact absurd wellFormed notWellFormed
  | inconsistent wellFormed => exact absurd wellFormed notWellFormed
  | waiting admits => exact absurd admits.wellFormed notWellFormed
  | tooLarge admits => exact absurd admits.wellFormed notWellFormed
  | complete admits => exact absurd admits.wellFormed notWellFormed

/-! ### Bounds -/

/-- A group between two pushes: some part is there and some part is not. -/
structure CarrierGroup.Partial (group : CarrierGroup) : Prop where
  few : group.parts.length ≤ maxCarrierFragments
  present : ∃ part, some part ∈ group.parts
  missing : none ∈ group.parts

structure Bounded (reassembly : CarrierReassembly) : Prop where
  few : reassembly.groups.size ≤ maxCarrierGroups
  groups : ∀ message group, reassembly.groups.lookup message = some group → group.Partial

theorem Bounded.size_unexpired {reassembly : CarrierReassembly} (bounded : Bounded reassembly)
    (now : Nat) : (reassembly.unexpired now).size ≤ maxCarrierGroups :=
  (Table.size_retain_le _ _).trans bounded.few

theorem Bounded.unexpired {reassembly : CarrierReassembly} (bounded : Bounded reassembly)
    {now message : Nat} {group : CarrierGroup}
    (isGroup : (reassembly.unexpired now).lookup message = some group) : group.Partial :=
  bounded.groups message group (Table.lookup_of_lookup_retain isGroup)

/-- The fragment is in its group. -/
theorem Admits.present {reassembly : CarrierReassembly} {push : Push}
    (admits : Admits reassembly push) : ∃ part, some part ∈ (stored reassembly push).parts := by
  have within : push.index < (found reassembly push).parts.length := by
    rw [admits.count]
    exact admits.wellFormed.within
  exact ⟨_, List.mem_set within _⟩

theorem Admits.length_stored {reassembly : CarrierReassembly} {push : Push}
    (admits : Admits reassembly push) : (stored reassembly push).parts.length = push.count := by
  rw [stored, List.length_set, admits.count]

theorem Bounded.size_next {reassembly next : CarrierReassembly} {push : Push}
    {result : Except CarrierError (Option Bytes)} (bounded : Bounded reassembly)
    (effect : Effect reassembly push next result) : next.groups.size ≤ maxCarrierGroups := by
  have purged := bounded.size_unexpired push.now
  have erased : ((((reassembly.unexpired push.now).insert push.message
      (found reassembly push)).erase push.message).size ≤ maxCarrierGroups) := by
    rw [CarrierReassembly.erase_insert]
    exact (Table.size_erase_le _ _).trans purged
  cases effect with
  | malformed _ _ same =>
      rw [same]
      exact bounded.few
  | full _ _ isNext =>
      rw [isNext]
      exact purged
  | inconsistent _ member _ isNext =>
      rw [isNext, Table.size_insert_of_mem _ member]
      exact purged
  | waiting admits _ isNext =>
      rw [isNext, Table.size_insert_of_mem _ (Table.mem_insert.mpr (Or.inl rfl))]
      by_cases known : push.message ∈ reassembly.unexpired push.now
      · rw [Table.size_insert_of_mem _ known]
        exact purged
      · rw [Table.size_insert_of_notMem _ known]
        exact admits.room.resolve_left known
  | tooLarge _ _ _ isNext =>
      rw [isNext]
      exact erased
  | complete _ _ _ isNext =>
      rw [isNext]
      exact erased

theorem Bounded.next {reassembly next : CarrierReassembly} {push : Push}
    {result : Except CarrierError (Option Bytes)} (bounded : Bounded reassembly)
    (effect : Effect reassembly push next result) : Bounded next := by
  refine ⟨bounded.size_next effect, ?_⟩
  intro message group isGroup
  by_cases wellFormed : push.WellFormed
  · by_cases other : message ≠ push.message
    · rw [effect.lookup_of_ne wellFormed other] at isGroup
      exact bounded.unexpired isGroup
    · rw [not_not.mp other] at isGroup
      cases effect with
      | malformed notWellFormed => exact absurd wellFormed notWellFormed
      | full _ _ purged =>
          rw [purged] at isGroup
          exact bounded.unexpired isGroup
      | inconsistent _ member _ isNext =>
          rw [isNext, Table.lookup_insert_eq, if_pos rfl, ← lookup_found member] at isGroup
          exact bounded.unexpired isGroup
      | waiting admits missing isNext =>
          rw [isNext, Table.lookup_insert_eq, if_pos rfl] at isGroup
          cases isGroup
          exact ⟨admits.length_stored.trans_le admits.wellFormed.few, admits.present, missing⟩
      | tooLarge _ _ _ isNext => simp [isNext, Table.lookup_erase_eq] at isGroup
      | complete _ _ _ isNext => simp [isNext, Table.lookup_erase_eq] at isGroup
  · rw [effect.same_of_malformed wellFormed] at isGroup
    exact bounded.groups message group isGroup

theorem bounded_after (pushes : List Push) : Bounded (after pushes) := by
  induction pushes using List.reverseRecOn with
  | nil => exact ⟨Nat.zero_le _, fun message group isGroup => by cases isGroup⟩
  | append_singleton past push inductionHypothesis =>
      rw [after_snoc]
      exact inductionHypothesis.next (push_effect (after past) push)

/-! ### Contents -/

theorem SinceOpened.snoc {past before since : List Push} {message : Nat} {push : Push}
    (opened : SinceOpened past message before since)
    (kept : push.WellFormed → message ∈ (after past).unexpired push.now) :
    SinceOpened (past ++ [push]) message before (since ++ [push]) := by
  constructor
  · rw [opened.split, List.append_assoc]
  · obtain ⟨opening, rest, isSince, first⟩ := opened.opened
    exact ⟨opening, rest ++ [push], by rw [isSince, List.cons_append], first⟩
  · intro front other nonempty isPrefix wellFormed
    rcases List.prefix_concat_iff.mp isPrefix with whole | shorter
    · obtain ⟨rfl, same⟩ := List.append_inj' whole rfl
      cases same
      rw [← opened.split]
      exact kept wellFormed
    · exact opened.kept front other nonempty shorter wellFormed

theorem sinceOpened_new (past : List Push) {push : Push} (wellFormed : push.WellFormed)
    (fresh : push.message ∉ (after past).unexpired push.now) :
    SinceOpened (past ++ [push]) push.message past [push] := by
  refine ⟨rfl, ⟨push, [], rfl, wellFormed, rfl, fresh⟩, ?_⟩
  intro front other nonempty isPrefix
  have short := isPrefix.length_le
  rw [List.length_append] at short
  exact absurd (List.eq_nil_of_length_eq_zero (Nat.le_zero.mp (Nat.le_of_succ_le_succ short)))
    nonempty

/-- Every stored group holds the first fragments received since it was opened. -/
def Explained (past : List Push) : Prop :=
  ∀ message group, (after past).groups.lookup message = some group →
    ∃ before since, SinceOpened past message before since ∧
      group.parts = firstParts since message group.parts.length

/-- So does the group a fragment gets into. -/
theorem Explained.stored {past : List Push} (explained : Explained past) {push : Push}
    (admits : Admits (after past) push) :
    ∃ before since, SinceOpened (past ++ [push]) push.message before since ∧
      (stored (after past) push).parts = firstParts since push.message push.count := by
  have wellFormed := admits.wellFormed
  by_cases known : push.message ∈ (after past).unexpired push.now
  · have isGroup := lookup_found known
    obtain ⟨before, since, opened, isParts⟩ :=
      explained _ _ (Table.lookup_of_lookup_retain isGroup)
    refine ⟨before, since ++ [push], opened.snoc fun _ => known, ?_⟩
    rw [admits.count] at isParts
    rw [firstParts_snoc since wellFormed, ← isParts]
    rfl
  · refine ⟨past, [push], sinceOpened_new past wellFormed known, ?_⟩
    have snoc := firstParts_snoc [] wellFormed
    rw [firstParts_nil, List.nil_append] at snoc
    rw [snoc, Relay.stored, found_of_not_mem known]

theorem Explained.snoc {past : List Push} (explained : Explained past) (push : Push) :
    Explained (past ++ [push]) := by
  intro message group isGroup
  have effect := push_effect (after past) push
  generalize ((after past).push push.frame push.now).2 = result at effect
  rw [after_snoc] at isGroup
  -- A push that is no fragment of the group leaves what explains it.
  have unchanged : ∀ old, (after past).groups.lookup message = some old →
      (push.WellFormed → message ∈ (after past).unexpired push.now) →
      (push.WellFormed → push.message = message → push.count ≠ old.parts.length) →
      ∃ before since, SinceOpened (past ++ [push]) message before since ∧
        old.parts = firstParts since message old.parts.length := by
    intro old isOld kept other
    obtain ⟨before, since, opened, isParts⟩ := explained message old isOld
    refine ⟨before, since ++ [push], opened.snoc kept, ?_⟩
    rw [firstParts_snoc_of_other since other]
    exact isParts
  by_cases wellFormed : push.WellFormed
  · by_cases other : message ≠ push.message
    · rw [effect.lookup_of_ne wellFormed other] at isGroup
      exact unchanged group (Table.lookup_of_lookup_retain isGroup)
        (fun _ => Table.mem_iff_exists_lookup.mpr ⟨group, isGroup⟩)
        (fun _ same => absurd same.symm other)
    · rw [not_not.mp other] at isGroup unchanged ⊢
      cases effect with
      | malformed notWellFormed => exact absurd wellFormed notWellFormed
      | full _ fresh purged =>
          rw [purged] at isGroup
          exact absurd (Table.mem_iff_exists_lookup.mpr ⟨group, isGroup⟩) fresh
      | inconsistent _ member otherCount isNext =>
          rw [isNext, Table.lookup_insert_eq, if_pos rfl] at isGroup
          cases isGroup
          exact unchanged _ (Table.lookup_of_lookup_retain (lookup_found member))
            (fun _ => member) (fun _ _ => Ne.symm otherCount)
      | waiting admits _ isNext =>
          rw [isNext, Table.lookup_insert_eq, if_pos rfl] at isGroup
          cases isGroup
          rw [admits.length_stored]
          exact explained.stored admits
      | tooLarge _ _ _ isNext => simp [isNext, Table.lookup_erase_eq] at isGroup
      | complete _ _ _ isNext => simp [isNext, Table.lookup_erase_eq] at isGroup
  · rw [effect.same_of_malformed wellFormed] at isGroup
    exact unchanged group isGroup (fun isWellFormed => absurd isWellFormed wellFormed)
      (fun isWellFormed => absurd isWellFormed wellFormed)

theorem explained_after (pushes : List Push) : Explained pushes := by
  induction pushes using List.reverseRecOn with
  | nil => exact fun message group isGroup => by cases isGroup
  | append_singleton past push inductionHypothesis => exact inductionHypothesis.snoc push

/-! ### Failures -/

/-- The group was dropped because it had expired. -/
def Expired (reassembly : CarrierReassembly) (now message : Nat) : Prop :=
  message ∈ reassembly.groups ∧ message ∉ reassembly.unexpired now

/-- What a failed push may do: drop expired groups, and the group of a datagram that is
too large. -/
structure OnlyDrops (reassembly : CarrierReassembly) (push : Push) (error : CarrierError)
    (next : CarrierReassembly) : Prop where
  others : ∀ message, next.groups.lookup message = reassembly.groups.lookup message ∨
    next.groups.lookup message = none ∧ (Expired reassembly push.now message ∨
      error = .datagramTooLarge ∧ message = push.message)

/-- A group stays or has expired. -/
theorem lookup_unexpired_cases (reassembly : CarrierReassembly) (now message : Nat) :
    (reassembly.unexpired now).lookup message = reassembly.groups.lookup message ∨
      (reassembly.unexpired now).lookup message = none ∧ Expired reassembly now message := by
  cases isGroup : (reassembly.unexpired now).lookup message with
  | some group => exact Or.inl (Table.lookup_of_lookup_retain isGroup).symm
  | none =>
      cases wasGroup : reassembly.groups.lookup message with
      | none => exact Or.inl rfl
      | some group =>
          exact Or.inr ⟨rfl, Table.mem_iff_exists_lookup.mpr ⟨group, wasGroup⟩,
            AList.lookup_eq_none.mp isGroup⟩

theorem Effect.onlyDrops {reassembly next : CarrierReassembly} {push : Push}
    {error : CarrierError} (effect : Effect reassembly push next (.error error)) :
    OnlyDrops reassembly push error next := by
  constructor
  intro message
  have purged := lookup_unexpired_cases reassembly push.now message
  by_cases wellFormed : push.WellFormed
  · by_cases other : message ≠ push.message
    · rw [effect.lookup_of_ne wellFormed other]
      exact purged.imp_right fun dropped => ⟨dropped.1, Or.inl dropped.2⟩
    · rw [not_not.mp other] at purged ⊢
      cases effect with
      | malformed notWellFormed => exact absurd wellFormed notWellFormed
      | full _ _ isNext =>
          rw [isNext]
          exact purged.imp_right fun dropped => ⟨dropped.1, Or.inl dropped.2⟩
      | inconsistent _ member _ isNext =>
          left
          rw [isNext, Table.lookup_insert_eq, if_pos rfl]
          exact (Table.lookup_of_lookup_retain (lookup_found member)).symm
      | tooLarge _ _ _ isNext =>
          right
          rw [isNext, Table.lookup_erase_eq, if_pos rfl]
          exact ⟨rfl, Or.inr ⟨rfl, rfl⟩⟩
  · left
    rw [effect.same_of_malformed wellFormed]

/-! ### Any input -/

/-- What holds of one more push after any others. -/
structure Sound (past : List Push) (push : Push) : Prop where
  noPanic : ((after past).pushChecked push.frame push.now).isSome = true
  few : (after past).groups.size ≤ maxCarrierGroups
  groups : ∀ message group, (after past).groups.lookup message = some group → group.Partial
  payload : ∀ payload, ((after past).push push.frame push.now).2 = .ok (some payload) →
    payload.length ≤ maxDatagram ∧
      ∃ before since, ∃ parts : List Bytes, SinceOpened (past ++ [push]) push.message before since ∧
        firstParts since push.message push.count = parts.map some ∧ payload = parts.flatten
  failed : ∀ error, ((after past).push push.frame push.now).2 = .error error →
    OnlyDrops (after past) push error (after (past ++ [push]))

/-- Whatever byte strings arrive at whatever times: no push panics, the table and its
groups stay within their bounds, a payload is made of the first fragments received since
its group was opened, and a failed push only drops groups. -/
theorem any_input (past : List Push) (push : Push) : Sound past push := by
  have effect := push_effect (after past) push
  have bounded := bounded_after past
  refine ⟨?_, bounded.few, bounded.groups, ?_, ?_⟩
  · rw [CarrierReassembly.pushChecked_eq]
    rfl
  · intro payload isPayload
    rw [isPayload] at effect
    cases effect with
    | complete admits complete small _ =>
        obtain ⟨before, since, opened, isParts⟩ := (explained_after past).stored admits
        exact ⟨small, before, since, _, opened, isParts.symm.trans complete, rfl⟩
  · intro error failed
    rw [failed] at effect
    rw [after_snoc]
    exact effect.onlyDrops

end SmartFecTunnel.Relay
