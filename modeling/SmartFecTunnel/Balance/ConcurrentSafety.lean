import Mathlib.Data.List.Induction
import SmartFecTunnel.Balance.Concurrent
import SmartFecTunnel.Balance.Failover

/-!
Contract: what the balancer does in any run, whatever the order of the events of its clients
and of the health checker.

`Story` says, for each place a task can be at, which upstreams it has dialled and what it has
told its client.

Owns:
- a client dials each upstream at most twice, is refused only after every upstream has refused
  it in turn, and is served by the one that accepted;
- clients start at the upstreams in turn;
- the number of active clients of an upstream counts the tasks that copy through it, and its
  health mark is the last result found out about it.

Does not own: which upstreams accept.
-/

namespace SmartFecTunnel.Balance

open SmartFecTunnel.Library

variable {ε σ : Type}

/-! ### The dials of one client -/

/-- The upstreams are dialled in rotation from `start`, first some of them and then all. -/
def TwoPasses (count start : Nat) (order : List Nat) : Prop :=
  ∃ first second, first.Sublist (rotation start count) ∧ second <+: rotation start count ∧
    order = first ++ second

/-- Dials that were all refused. -/
def allRefused (order : List Nat) : List (Nat × Bool) := order.map fun index => (index, false)

theorem allRefused_append (front back : List Nat) :
    allRefused (front ++ back) = allRefused front ++ allRefused back :=
  List.map_append

theorem map_fst_allRefused (order : List Nat) : (allRefused order).map Prod.fst = order := by
  rw [allRefused, List.map_map]
  exact List.map_id' order

/-- The upstreams that have refused when `offset` of a pass are behind. -/
def Searched (count start : Nat) (healthyOnly : Bool) (offset : Nat) (refused : List Nat) : Prop :=
  if healthyOnly then refused.Sublist ((rotation start count).take offset)
  else ∃ first, first.Sublist (rotation start count) ∧
    refused = first ++ (rotation start count).take offset

/-- Between two dials, from the place that the client has taken. -/
def Searching (count : Nat) (round : Round ε) (starts : List Nat) (dials : List (Nat × Bool)) :
    Prop :=
  starts = [round.start] ∧ round.offset < count ∧
    ∃ refused, Searched count round.start round.healthyOnly round.offset refused ∧
      dials = allRefused refused

/-- An upstream has accepted. -/
def Found (count index : Nat) (starts : List Nat) (dials : List (Nat × Bool)) : Prop :=
  ∃ start refused, starts = [start] ∧ TwoPasses count start (refused ++ [index]) ∧
    dials = allRefused refused ++ [(index, true)]

/-- All upstreams have refused, in turn. -/
def Exhausted (count : Nat) (starts : List Nat) (dials : List (Nat × Bool)) : Prop :=
  ∃ start first, starts = [start] ∧ first.Sublist (rotation start count) ∧
    dials = allRefused (first ++ rotation start count)

/-- What a client was told: that an upstream has accepted, or that none has. -/
def BalanceObservation.verdict? (client : Nat) : BalanceObservation → Option (Option Nat)
  | .responded other index _ => if other = client then some (some index) else none
  | .refused other => if other = client then some none else none
  | _ => none

/-- What a task at its place has done. -/
def Story (count : Nat) (starts : List Nat) (dials : List (Nat × Bool))
    (verdicts : List (Option Nat)) : Task ε σ → Prop
  | .reading => (starts = [] ∧ dials = []) ∧ verdicts = []
  | .choosing round => Searching count round starts dials ∧ verdicts = []
  | .dialling round => Searching count round starts dials ∧ verdicts = []
  | .answering index _ _ => Found count index starts dials ∧ verdicts = []
  | .refusing _ => Exhausted count starts dials ∧ verdicts = []
  | .copying index => Found count index starts dials ∧ verdicts = [some index]
  | .ended _ => (starts = [] ∧ dials = []) ∧ verdicts = [] ∨
      (∃ index, Found count index starts dials ∧ (verdicts = [] ∨ verdicts = [some index])) ∨
      Exhausted count starts dials ∧ (verdicts = [] ∨ verdicts = [none])

/-! ### A pass -/

theorem take_rotation {start count offset : Nat} (within : offset < count) :
    (rotation start count).take (offset + 1) =
      (rotation start count).take offset ++ [(start + offset) % count] := by
  rw [List.take_add_one]
  simp [rotation, within]

theorem length_rotation (start count : Nat) : (rotation start count).length = count := by
  simp [rotation]

/-- The next upstream refuses. -/
theorem Searched.refused {count start offset : Nat} {healthyOnly : Bool} {refused : List Nat}
    (searched : Searched count start healthyOnly offset refused) (within : offset < count) :
    Searched count start healthyOnly (offset + 1) (refused ++ [(start + offset) % count]) := by
  unfold Searched at searched ⊢
  rw [take_rotation within]
  split
  next isFirst =>
    rw [if_pos isFirst] at searched
    exact searched.append (.refl _)
  next isSecond =>
    rw [if_neg isSecond] at searched
    obtain ⟨first, isFirst, rfl⟩ := searched
    exact ⟨first, isFirst, List.append_assoc _ _ _⟩

/-- The first pass skips the next upstream. -/
theorem Searched.skipped {count start offset : Nat} {refused : List Nat}
    (searched : Searched count start true offset refused) :
    Searched count start true (offset + 1) refused :=
  List.Sublist.trans searched (List.take_sublist_take_left (Nat.le_succ offset))

/-- The upstreams dialled so far and the next one. -/
theorem Searched.twoPasses {count start offset : Nat} {healthyOnly : Bool} {refused : List Nat}
    (searched : Searched count start healthyOnly offset refused) :
    TwoPasses count start refused := by
  unfold Searched at searched
  split at searched
  next =>
    exact ⟨refused, [], searched.trans (List.take_sublist _ _), List.nil_prefix,
      (List.append_nil _).symm⟩
  next =>
    obtain ⟨first, isFirst, rfl⟩ := searched
    exact ⟨first, _, isFirst, List.take_prefix _ _, rfl⟩

/-- Where the loops go after an upstream. -/
theorem story_advance {count : Nat} {round : Round ε} {refused : List Nat}
    (within : round.offset < count)
    (searched : Searched count round.start round.healthyOnly (round.offset + 1) refused) :
    Story count [round.start] (allRefused refused) [] (round.advance count : Task ε σ) := by
  unfold Round.advance
  split
  next more => exact ⟨⟨rfl, more, refused, searched, rfl⟩, rfl⟩
  next last =>
    have whole : (rotation round.start count).take (round.offset + 1) =
        rotation round.start count := by
      apply List.take_of_length_le
      rw [length_rotation]
      exact Nat.le_of_not_lt last
    unfold Searched at searched
    split
    next isFirst =>
      rw [if_pos isFirst, whole] at searched
      refine ⟨⟨rfl, Nat.zero_lt_of_lt within, refused, ?_, rfl⟩, rfl⟩
      rw [Searched, if_neg Bool.false_ne_true]
      exact ⟨refused, searched, (List.append_nil _).symm⟩
    next isSecond =>
      rw [if_neg isSecond, whole] at searched
      obtain ⟨first, isFirst, rfl⟩ := searched
      exact ⟨⟨round.start, first, rfl, isFirst, rfl⟩, rfl⟩

/-- The dial of the next upstream is accepted. -/
theorem Searching.found {count : Nat} {round : Round ε} {starts : List Nat}
    {dials : List (Nat × Bool)} (searching : Searching count round starts dials) :
    Found count (round.index count) starts (dials ++ [(round.index count, true)]) := by
  obtain ⟨isStart, within, refused, searched, rfl⟩ := searching
  exact ⟨round.start, refused, isStart, (searched.refused within).twoPasses, rfl⟩

/-! ### What the dials say -/

theorem TwoPasses.count_le {count start : Nat} {order : List Nat}
    (passes : TwoPasses count start order) (index : Nat) : order.count index ≤ 2 := by
  obtain ⟨first, second, isFirst, isSecond, rfl⟩ := passes
  have distinct := nodup_rotation start count
  have once : first.count index ≤ 1 :=
    List.nodup_iff_count_le_one.mp (distinct.sublist isFirst) index
  have twice : second.count index ≤ 1 :=
    List.nodup_iff_count_le_one.mp (distinct.sublist isSecond.sublist) index
  rw [List.count_append]
  exact Nat.add_le_add once twice

/-- A client that has taken no place has dialled nothing; else the dials are two passes from
the place it took. -/
def FromPlace (count : Nat) (starts : List Nat) (dials : List (Nat × Bool)) : Prop :=
  (starts = [] ∧ dials = []) ∨
    ∃ start, starts = [start] ∧ TwoPasses count start (dials.map Prod.fst)

theorem Searching.fromPlace {count : Nat} {round : Round ε} {starts : List Nat}
    {dials : List (Nat × Bool)} (searching : Searching count round starts dials) :
    FromPlace count starts dials := by
  obtain ⟨isStart, _, refused, searched, rfl⟩ := searching
  refine Or.inr ⟨round.start, isStart, ?_⟩
  rw [map_fst_allRefused]
  exact searched.twoPasses

theorem Found.fromPlace {count index : Nat} {starts : List Nat} {dials : List (Nat × Bool)}
    (found : Found count index starts dials) : FromPlace count starts dials := by
  obtain ⟨start, refused, isStart, passes, rfl⟩ := found
  refine Or.inr ⟨start, isStart, ?_⟩
  rw [List.map_append, map_fst_allRefused]
  exact passes

theorem Exhausted.fromPlace {count : Nat} {starts : List Nat} {dials : List (Nat × Bool)}
    (exhausted : Exhausted count starts dials) : FromPlace count starts dials := by
  obtain ⟨start, first, isStart, isFirst, rfl⟩ := exhausted
  refine Or.inr ⟨start, isStart, ?_⟩
  rw [map_fst_allRefused]
  exact ⟨first, _, isFirst, List.prefix_rfl, rfl⟩

theorem FromPlace.count_le {count : Nat} {starts : List Nat} {dials : List (Nat × Bool)}
    (fromPlace : FromPlace count starts dials) (index : Nat) :
    (dials.map Prod.fst).count index ≤ 2 := by
  rcases fromPlace with ⟨_, rfl⟩ | ⟨start, _, passes⟩
  · exact Nat.zero_le 2
  · exact passes.count_le index

theorem Story.fromPlace {count : Nat} {starts : List Nat} {dials : List (Nat × Bool)}
    {verdicts : List (Option Nat)} {task : Task ε σ}
    (story : Story count starts dials verdicts task) : FromPlace count starts dials := by
  cases task with
  | reading => exact Or.inl story.1
  | choosing round => exact story.1.fromPlace
  | dialling round => exact story.1.fromPlace
  | answering other remote response => exact story.1.fromPlace
  | refusing lastError => exact story.1.fromPlace
  | copying other => exact story.1.fromPlace
  | ended result =>
      rcases story with ⟨nothing, _⟩ | ⟨other, found, _⟩ | ⟨exhausted, _⟩
      · exact Or.inl nothing
      · exact found.fromPlace
      · exact exhausted.fromPlace

/-- A client is told one thing, and that is so. -/
theorem Story.verdict {count : Nat} {starts : List Nat} {dials : List (Nat × Bool)}
    {verdicts : List (Option Nat)} {task : Task ε σ}
    (story : Story count starts dials verdicts task) :
    verdicts = [] ∨ (∃ index, verdicts = [some index] ∧ Found count index starts dials) ∨
      verdicts = [none] ∧ Exhausted count starts dials := by
  cases task with
  | reading => exact Or.inl story.2
  | choosing round => exact Or.inl story.2
  | dialling round => exact Or.inl story.2
  | answering index remote response => exact Or.inl story.2
  | refusing lastError => exact Or.inl story.2
  | copying index => exact Or.inr (Or.inl ⟨index, story.2, story.1⟩)
  | ended result =>
      rcases story with ⟨_, nothing⟩ | ⟨index, found, nothing | served⟩ |
        ⟨exhausted, nothing | refused⟩
      · exact Or.inl nothing
      · exact Or.inl nothing
      · exact Or.inr (Or.inl ⟨index, served, found⟩)
      · exact Or.inl nothing
      · exact Or.inr (Or.inr ⟨refused, exhausted⟩)

/-! ### All clients -/

def Task.copiesTo (index : Nat) : Task ε σ → Bool
  | .copying other => other == index
  | _ => false

/-- The last result about an upstream; every one is taken for healthy before. -/
def lastResult (index : Nat) (observed : List BalanceObservation) : Bool :=
  (observed.filterMap (BalanceObservation.result? index)).getLast?.getD true

/-- The clients start in turn, by a cursor of 64 bits. -/
def InTurn (count : Nat) (starts : List Nat) : Prop :=
  starts = (List.range starts.length).map fun turn => turn % 2 ^ 64 % count

/-- Nothing that concerns the client has been seen. -/
def Unseen (client : Nat) (observed : List BalanceObservation) : Prop :=
  (observed.filterMap (BalanceObservation.startOf? client) = [] ∧
    observed.filterMap (BalanceObservation.dial? client) = []) ∧
    observed.filterMap (BalanceObservation.verdict? client) = []

section Unseen

variable {client : Nat} {emitted : List BalanceObservation} (unseen : Unseen client emitted)
  (observed : List BalanceObservation)
include unseen

theorem Unseen.startOf_append :
    (observed ++ emitted).filterMap (BalanceObservation.startOf? client) =
      observed.filterMap (BalanceObservation.startOf? client) := by
  rw [List.filterMap_append, unseen.1.1, List.append_nil]

theorem Unseen.dial_append :
    (observed ++ emitted).filterMap (BalanceObservation.dial? client) =
      observed.filterMap (BalanceObservation.dial? client) := by
  rw [List.filterMap_append, unseen.1.2, List.append_nil]

theorem Unseen.verdict_append :
    (observed ++ emitted).filterMap (BalanceObservation.verdict? client) =
      observed.filterMap (BalanceObservation.verdict? client) := by
  rw [List.filterMap_append, unseen.2, List.append_nil]

end Unseen

theorem Unseen.append {client : Nat} {front back : List BalanceObservation}
    (before : Unseen client front) (after : Unseen client back) :
    Unseen client (front ++ back) :=
  ⟨⟨(after.startOf_append front).trans before.1.1, (after.dial_append front).trans before.1.2⟩,
    (after.verdict_append front).trans before.2⟩

structure Balanced (count : Nat) (balancer : Balancer ε σ) (observed : List BalanceObservation) :
    Prop where
  positive : 0 < count
  width : balancer.upstreams.length = count
  probe : ∀ index, balancer.probe = some index → index < count
  active : ∀ index upstream, balancer.upstreams[index]? = some upstream →
    upstream.active = balancer.tasks.countP (Task.copiesTo index) % 2 ^ 64
  marks : ∀ index < count, healthyAt balancer.upstreams index = lastResult index observed
  cursor : balancer.cursor = (observed.filterMap BalanceObservation.start?).length % 2 ^ 64
  turns : InTurn count (observed.filterMap BalanceObservation.start?)
  stories : ∀ client task, balancer.tasks[client]? = some task →
    Story count (observed.filterMap (BalanceObservation.startOf? client))
      (observed.filterMap (BalanceObservation.dial? client))
      (observed.filterMap (BalanceObservation.verdict? client)) task
  fresh : ∀ client, balancer.tasks.length ≤ client → Unseen client observed

/-- How the number of active clients changes with a task. -/
def Counted (before now : Nat) : (was is : Bool) → Prop
  | false, true => now = (before + 1) % 2 ^ 64
  | true, false => now = (before + (2 ^ 64 - 1)) % 2 ^ 64
  | _, _ => now = before

theorem Counted.set {tasks : List (Task ε σ)} {client : Nat} {task after : Task ε σ}
    (isTask : tasks[client]? = some task) {property : Task ε σ → Bool} {before now : Nat}
    (counted : Counted before now (property task) (property after))
    (isBefore : before = tasks.countP property % 2 ^ 64) :
    now = (tasks.set client after).countP property % 2 ^ 64 := by
  obtain ⟨within, isAt⟩ := List.getElem?_eq_some_iff.mp isTask
  rw [List.countP_set within, isAt]
  have some : property task = true → 0 < tasks.countP property := fun holds =>
    List.countP_pos_iff.mpr ⟨task, List.mem_of_getElem? isTask, holds⟩
  cases was : property task <;> cases is : property after <;> rw [was, is] at counted <;>
    simp only [Counted] at counted <;> simp only [was, forall_const, Bool.false_eq_true,
      if_true, if_false, false_implies] at some ⊢ <;> omega

theorem InTurn.next {count : Nat} {starts : List Nat} (inTurn : InTurn count starts) :
    InTurn count (starts ++ [starts.length % 2 ^ 64 % count]) := by
  unfold InTurn at inTurn ⊢
  rw [List.length_append, List.length_singleton, List.range_succ, List.map_append, ← inTurn]
  rfl

theorem lastResult_append (index : Nat) (front back : List BalanceObservation) :
    lastResult index (front ++ back) =
      (back.filterMap (BalanceObservation.result? index)).getLast?.getD
        (lastResult index front) := by
  unfold lastResult
  rw [List.filterMap_append, List.getLast?_append]
  cases (back.filterMap (BalanceObservation.result? index)).getLast? <;> rfl

/-- What an event of one task does, and what its client sees. -/
structure Moves (count : Nat) (balancer next : Balancer ε σ) (observed : List BalanceObservation)
    (emitted : List BalanceObservation) (client : Nat) (task after : Task ε σ) : Prop where
  tasks : next.tasks = balancer.tasks.set client after
  probe : next.probe = balancer.probe
  active : ∀ index upstream, next.upstreams[index]? = some upstream →
    ∃ before, balancer.upstreams[index]? = some before ∧
      Counted before.active upstream.active (task.copiesTo index) (after.copiesTo index)
  width : next.upstreams.length = balancer.upstreams.length
  marks : ∀ index < count, healthyAt next.upstreams index =
    (emitted.filterMap (BalanceObservation.result? index)).getLast?.getD
      (healthyAt balancer.upstreams index)
  turn : emitted.filterMap BalanceObservation.start? = [] ∧ next.cursor = balancer.cursor ∨
    emitted.filterMap BalanceObservation.start? = [balancer.cursor % count] ∧
      next.cursor = (balancer.cursor + 1) % 2 ^ 64
  others : ∀ other, other ≠ client → Unseen other emitted
  story : Story count
    (observed.filterMap (BalanceObservation.startOf? client) ++
      emitted.filterMap (BalanceObservation.startOf? client))
    (observed.filterMap (BalanceObservation.dial? client) ++
      emitted.filterMap (BalanceObservation.dial? client))
    (observed.filterMap (BalanceObservation.verdict? client) ++
      emitted.filterMap (BalanceObservation.verdict? client)) after

theorem Balanced.moves {count : Nat} {balancer next : Balancer ε σ}
    {observed emitted : List BalanceObservation} (balanced : Balanced count balancer observed)
    {client : Nat} {task after : Task ε σ} (isTask : balancer.tasks[client]? = some task)
    (moves : Moves count balancer next observed emitted client task after) :
    Balanced count next (observed ++ emitted) := by
  have within := (List.getElem?_eq_some_iff.mp isTask).1
  constructor
  · exact balanced.positive
  · exact moves.width.trans balanced.width
  · rw [moves.probe]
    exact balanced.probe
  · intro index upstream isUpstream
    obtain ⟨before, isBefore, counted⟩ := moves.active index upstream isUpstream
    rw [moves.tasks]
    exact counted.set isTask (balanced.active index before isBefore)
  · intro index inRange
    rw [lastResult_append, moves.marks index inRange, balanced.marks index inRange]
  · rw [List.filterMap_append, List.length_append]
    rcases moves.turn with ⟨noStart, sameCursor⟩ | ⟨isStart, isNext⟩
    · rw [noStart, sameCursor]
      exact balanced.cursor
    · rw [isStart, isNext, balanced.cursor, Nat.mod_add_mod, List.length_singleton]
  · rw [List.filterMap_append]
    rcases moves.turn with ⟨noStart, _⟩ | ⟨isStart, _⟩
    · rw [noStart, List.append_nil]
      exact balanced.turns
    · rw [isStart, balanced.cursor]
      exact balanced.turns.next
  · intro other others isOther
    rw [moves.tasks] at isOther
    by_cases same : other = client
    · rw [same, List.getElem?_set_self within] at isOther
      cases isOther
      rw [same, List.filterMap_append, List.filterMap_append, List.filterMap_append]
      exact moves.story
    · rw [List.getElem?_set_ne (Ne.symm same)] at isOther
      have story := balanced.stories other others isOther
      rw [← (moves.others other same).startOf_append observed,
        ← (moves.others other same).dial_append observed,
        ← (moves.others other same).verdict_append observed] at story
      exact story
  · intro other beyond
    rw [moves.tasks, List.length_set] at beyond
    have different : other ≠ client := by omega
    exact (balanced.fresh other beyond).append (moves.others other different)

/-! ### One event -/

section Step

variable {count : Nat} {balancer next : Balancer ε σ} {observed emitted : List BalanceObservation}
  {client : Nat} {task : Task ε σ}

/-- The upstreams are left alone. -/
theorem counted_same {upstreams : List BalanceUpstream} {was is : Nat → Bool}
    (same : ∀ index, was index = is index) (index : Nat) (upstream : BalanceUpstream)
    (isUpstream : upstreams[index]? = some upstream) :
    ∃ before, upstreams[index]? = some before ∧
      Counted before.active upstream.active (was index) (is index) := by
  refine ⟨upstream, isUpstream, ?_⟩
  rw [same index]
  cases is index <;> rfl

/-- A mark is set. -/
theorem counted_mark {index : Nat} {healthy : Bool} {was is : Nat → Bool}
    (same : ∀ other, was other = is other) (other : Nat) (upstream : BalanceUpstream)
    (isUpstream : (balancer.mark index healthy).upstreams[other]? = some upstream) :
    ∃ before, balancer.upstreams[other]? = some before ∧
      Counted before.active upstream.active (was other) (is other) := by
  rw [Balancer.mark, List.getElem?_modify] at isUpstream
  obtain ⟨before, isBefore, rfl⟩ := Option.map_eq_some_iff.mp isUpstream
  refine ⟨before, isBefore, ?_⟩
  rw [same other]
  split <;> cases is other <;> rfl

theorem healthyAt_mark (inRange : index < balancer.upstreams.length) (healthy : Bool)
    (other : Nat) :
    healthyAt (balancer.mark index healthy).upstreams other =
      if index = other then healthy else healthyAt balancer.upstreams other := by
  unfold healthyAt Balancer.mark
  by_cases same : index = other
  · subst same
    simp [inRange]
  · simp [same]

theorem mark_length (balancer : Balancer ε σ) (index : Nat) (healthy : Bool) :
    (balancer.mark index healthy).upstreams.length = balancer.upstreams.length :=
  List.length_modify ..

theorem copiesTo_advance (round : Round ε) (count index : Nat) :
    (round.advance count : Task ε σ).copiesTo index = false := by
  unfold Round.advance
  split
  · rfl
  · split <;> rfl

/-- The client's request is read. -/
theorem Balanced.request (balanced : Balanced count balancer observed)
    (isTask : balancer.tasks[client]? = some .reading) {stream : Bytes}
    (stepped : balancer.taskStep client .reading (.request stream) = some (next, emitted)) :
    Balanced count next (observed ++ emitted) := by
  obtain ⟨⟨noStart, noDial⟩, noVerdict⟩ := balanced.stories client _ isTask
  unfold Balancer.taskStep at stepped
  dsimp only at stepped
  split at stepped
  next replies error isRequest =>
    cases stepped
    refine balanced.moves isTask ⟨rfl, rfl, counted_same fun _ => rfl, rfl, fun _ _ => rfl,
      Or.inl ⟨rfl, rfl⟩, fun _ _ => ⟨⟨rfl, rfl⟩, rfl⟩, ?_⟩
    refine Or.inl ⟨⟨?_, ?_⟩, ?_⟩
    · rw [noStart]
      rfl
    · rw [noDial]
      rfl
    · rw [noVerdict]
      rfl
  next replies request isRequest =>
    cases stepped
    refine balanced.moves isTask ⟨rfl, rfl, counted_same fun _ => rfl, rfl, fun _ _ => rfl,
      Or.inr ⟨?_, rfl⟩, ?_, ?_⟩
    · rw [← balanced.width]
      rfl
    · intro other different
      simp [Unseen, BalanceObservation.startOf?, BalanceObservation.dial?,
        BalanceObservation.verdict?, Ne.symm different]
    · rw [noStart, noDial, noVerdict]
      simp only [BalanceObservation.startOf?, BalanceObservation.dial?,
        BalanceObservation.verdict?, List.filterMap_cons, List.filterMap_nil, if_true,
        List.nil_append]
      exact ⟨⟨rfl, balanced.positive, [], List.nil_sublist _, rfl⟩, rfl⟩

/-- The mark of the next upstream is read. -/
theorem Balanced.look (balanced : Balanced count balancer observed) {round : Round ε}
    (isTask : balancer.tasks[client]? = some (.choosing round))
    (stepped : balancer.taskStep client (.choosing round) .look = some (next, emitted)) :
    Balanced count next (observed ++ emitted) := by
  obtain ⟨searching, noVerdict⟩ := balanced.stories client _ isTask
  unfold Balancer.taskStep at stepped
  dsimp only at stepped
  rw [balanced.width] at stepped
  split at stepped
  next skips =>
    cases stepped
    have isFirst := (Bool.and_eq_true_iff.mp skips).1
    obtain ⟨isStart, within, refused, searched, isDials⟩ := searching
    rw [isFirst] at searched
    refine balanced.moves isTask ⟨rfl, rfl, counted_same fun _ => ?_, rfl, fun _ _ => rfl,
      Or.inl ⟨rfl, rfl⟩, fun _ _ => ⟨⟨rfl, rfl⟩, rfl⟩, ?_⟩
    · rw [copiesTo_advance]
      rfl
    · rw [isStart, isDials, noVerdict]
      simp only [List.filterMap_nil, List.append_nil]
      apply story_advance within
      rw [isFirst]
      exact searched.skipped
  next =>
    cases stepped
    refine balanced.moves isTask ⟨rfl, rfl, counted_same fun _ => rfl, rfl, fun _ _ => rfl,
      Or.inl ⟨rfl, rfl⟩, fun _ _ => ⟨⟨rfl, rfl⟩, rfl⟩, ?_⟩
    simp only [List.filterMap_nil, List.append_nil]
    exact ⟨searching, noVerdict⟩

/-- An upstream has answered the dial. -/
theorem Balanced.connect (balanced : Balanced count balancer observed) {round : Round ε}
    (isTask : balancer.tasks[client]? = some (.dialling round))
    {outcome : Except ε (σ × Bytes)}
    (stepped : balancer.taskStep client (.dialling round) (.connect outcome) =
      some (next, emitted)) :
    Balanced count next (observed ++ emitted) := by
  obtain ⟨searching, noVerdict⟩ := balanced.stories client _ isTask
  have inRange : round.index count < balancer.upstreams.length := by
    rw [balanced.width]
    exact Nat.mod_lt _ balanced.positive
  have marks : ∀ healthy index, index < count →
      healthyAt (balancer.mark (round.index count) healthy).upstreams index =
        ([BalanceObservation.dialled client (round.index count) round.request healthy].filterMap
          (BalanceObservation.result? index)).getLast?.getD
            (healthyAt balancer.upstreams index) := by
    intro healthy index _
    rw [healthyAt_mark inRange]
    by_cases same : round.index count = index <;> simp [BalanceObservation.result?, same]
  have others : ∀ accepted other, other ≠ client → Unseen other
      [BalanceObservation.dialled client (round.index count) round.request accepted] := by
    intro accepted other different
    simp [Unseen, BalanceObservation.startOf?, BalanceObservation.dial?,
      BalanceObservation.verdict?, Ne.symm different]
  have own : ∀ accepted,
      [BalanceObservation.dialled client (round.index count) round.request accepted].filterMap
        (BalanceObservation.dial? client) = [(round.index count, accepted)] := by
    intro accepted
    simp [BalanceObservation.dial?]
  unfold Balancer.taskStep at stepped
  dsimp only at stepped
  rw [balanced.width] at stepped
  cases outcome with
  | ok answer =>
      cases stepped
      refine balanced.moves isTask ⟨rfl, rfl, counted_mark fun _ => rfl, mark_length _ _ _,
        marks true, Or.inl ⟨rfl, rfl⟩, others true, ?_⟩
      rw [own, noVerdict]
      simp only [BalanceObservation.startOf?, List.filterMap_cons, List.filterMap_nil,
        List.append_nil]
      exact ⟨searching.found, rfl⟩
  | error error =>
      cases stepped
      obtain ⟨isStart, within, refused, searched, isDials⟩ := searching
      refine balanced.moves isTask ⟨rfl, rfl, counted_mark fun _ => ?_, mark_length _ _ _,
        marks false, Or.inl ⟨rfl, rfl⟩, others false, ?_⟩
      · rw [copiesTo_advance]
        rfl
      · rw [own, noVerdict, isDials, isStart]
        have isRefused : allRefused refused ++ [(round.index count, false)] =
            allRefused (refused ++ [round.index count]) :=
          (allRefused_append refused [round.index count]).symm
        rw [isRefused]
        refine story_advance ?_ ?_
        · exact within
        · exact searched.refused within

/-- The client is answered. -/
theorem Balanced.answer (balanced : Balanced count balancer observed) {written : Bool}
    (isTask : balancer.tasks[client]? = some task)
    (stepped : balancer.taskStep client task (.answer written) = some (next, emitted)) :
    Balanced count next (observed ++ emitted) := by
  have story := balanced.stories client _ isTask
  unfold Balancer.taskStep at stepped
  dsimp only at stepped
  split at stepped
  next index remote response =>
    obtain ⟨found, noVerdict⟩ := story
    split at stepped
    next =>
      cases stepped
      refine balanced.moves isTask ⟨rfl, rfl, ?_, List.length_modify .., ?_, Or.inl ⟨rfl, rfl⟩,
        ?_, ?_⟩
      · intro other upstream isUpstream
        rw [Balancer.setTask, addActive, List.getElem?_modify] at isUpstream
        obtain ⟨before, isBefore, rfl⟩ := Option.map_eq_some_iff.mp isUpstream
        refine ⟨before, isBefore, ?_⟩
        by_cases same : index = other <;> simp [Task.copiesTo, Counted, same]
      · intro other _
        exact healthyAt_addActive index balancer.upstreams other
      · intro other different
        simp [Unseen, BalanceObservation.startOf?, BalanceObservation.dial?,
          BalanceObservation.verdict?, Ne.symm different]
      · rw [noVerdict]
        simp only [BalanceObservation.startOf?, BalanceObservation.dial?,
          BalanceObservation.verdict?, List.filterMap_cons, List.filterMap_nil, List.append_nil,
          if_true, List.nil_append]
        exact ⟨found, rfl⟩
    next =>
      cases stepped
      refine balanced.moves isTask ⟨rfl, rfl, counted_same fun _ => rfl, rfl, fun _ _ => rfl,
        Or.inl ⟨rfl, rfl⟩, fun _ _ => ⟨⟨rfl, rfl⟩, rfl⟩, ?_⟩
      simp only [List.filterMap_nil, List.append_nil]
      exact Or.inr (Or.inl ⟨index, found, Or.inl noVerdict⟩)
  next lastError =>
    obtain ⟨exhausted, noVerdict⟩ := story
    split at stepped
    next =>
      cases stepped
      refine balanced.moves isTask ⟨rfl, rfl, counted_same fun _ => rfl, rfl, fun _ _ => rfl,
        Or.inl ⟨rfl, rfl⟩, ?_, ?_⟩
      · intro other different
        simp [Unseen, BalanceObservation.startOf?, BalanceObservation.dial?,
          BalanceObservation.verdict?, Ne.symm different]
      · rw [noVerdict]
        simp only [BalanceObservation.startOf?, BalanceObservation.dial?,
          BalanceObservation.verdict?, List.filterMap_cons, List.filterMap_nil, List.append_nil,
          if_true, List.nil_append]
        exact Or.inr (Or.inr ⟨exhausted, Or.inr rfl⟩)
    next =>
      cases stepped
      refine balanced.moves isTask ⟨rfl, rfl, counted_same fun _ => rfl, rfl, fun _ _ => rfl,
        Or.inl ⟨rfl, rfl⟩, fun _ _ => ⟨⟨rfl, rfl⟩, rfl⟩, ?_⟩
      simp only [List.filterMap_nil, List.append_nil]
      exact Or.inr (Or.inr ⟨exhausted, Or.inl noVerdict⟩)
  next => cases stepped

/-- The copying of a client ends. -/
theorem Balanced.copied (balanced : Balanced count balancer observed) {index : Nat}
    (isTask : balancer.tasks[client]? = some (.copying index))
    {result : Except (BalanceError ε) Unit}
    (stepped : balancer.taskStep client (.copying index) (.copied result) =
      some (next, emitted)) :
    Balanced count next (observed ++ emitted) := by
  obtain ⟨found, verdict⟩ := balanced.stories client _ isTask
  cases stepped
  refine balanced.moves isTask ⟨rfl, rfl, ?_, List.length_modify .., ?_, Or.inl ⟨rfl, rfl⟩,
    fun _ _ => ⟨⟨rfl, rfl⟩, rfl⟩, ?_⟩
  · intro other upstream isUpstream
    rw [Balancer.setTask, subActive, List.getElem?_modify] at isUpstream
    obtain ⟨before, isBefore, rfl⟩ := Option.map_eq_some_iff.mp isUpstream
    refine ⟨before, isBefore, ?_⟩
    by_cases same : index = other <;> simp [Task.copiesTo, Counted, same]
  · intro other _
    exact healthyAt_subActive index balancer.upstreams other
  · simp only [List.filterMap_nil, List.append_nil]
    exact Or.inr (Or.inl ⟨index, found, Or.inr verdict⟩)

theorem Balanced.taskStep (balanced : Balanced count balancer observed) {event : TaskEvent ε σ}
    (isTask : balancer.tasks[client]? = some task)
    (stepped : balancer.taskStep client task event = some (next, emitted)) :
    Balanced count next (observed ++ emitted) := by
  cases event with
  | request stream =>
      cases task with
      | reading => exact balanced.request isTask stepped
      | _ => cases stepped
  | look =>
      cases task with
      | choosing round => exact balanced.look isTask stepped
      | _ => cases stepped
  | connect outcome =>
      cases task with
      | dialling round => exact balanced.connect isTask stepped
      | _ => cases stepped
  | answer written => exact balanced.answer isTask stepped
  | copied result =>
      cases task with
      | copying index => exact balanced.copied isTask stepped
      | _ => cases stepped

/-- The health checker sets a mark. -/
theorem Balanced.probed (balanced : Balanced count balancer observed) {index : Nat}
    (isProbe : balancer.probe = some index) (healthy : Bool) :
    Balanced count { balancer.mark index healthy with
        probe := if index + 1 < balancer.upstreams.length then some (index + 1) else none }
      (observed ++ [.probed index healthy]) := by
  have inRange := balanced.probe index isProbe
  have silent : ∀ {β : Type} (observe : BalanceObservation → Option β),
      observe (BalanceObservation.probed index healthy) = none →
      (observed ++ [BalanceObservation.probed index healthy]).filterMap observe =
        observed.filterMap observe := by
    intro β observe unseen
    simp [List.filterMap_append, unseen]
  constructor
  · exact balanced.positive
  · exact (mark_length _ _ _).trans balanced.width
  · intro other isOther
    rw [balanced.width] at isOther
    dsimp only at isOther
    split at isOther
    next more =>
      cases isOther
      exact more
    next => cases isOther
  · intro other upstream isUpstream
    obtain ⟨before, isBefore, counted⟩ :=
      counted_mark (fun number => rfl : ∀ number, false = false) other upstream isUpstream
    rw [show upstream.active = before.active from counted]
    exact balanced.active other before isBefore
  · intro other within
    have isMark := healthyAt_mark (balanced.width.symm ▸ inRange) healthy other
    rw [lastResult_append, ← balanced.marks other within]
    refine isMark.trans ?_
    by_cases same : index = other <;> simp [BalanceObservation.result?, same]
  · rw [silent _ rfl]
    exact balanced.cursor
  · rw [silent _ rfl]
    exact balanced.turns
  · intro client task isTask
    rw [silent _ rfl, silent _ rfl, silent _ rfl]
    exact balanced.stories client task isTask
  · intro client beyond
    exact (balanced.fresh client beyond).append ⟨⟨rfl, rfl⟩, rfl⟩

/-- A client is accepted. -/
theorem Balanced.accept (balanced : Balanced count balancer observed) :
    Balanced count { balancer with tasks := balancer.tasks ++ [.reading] } observed where
  positive := balanced.positive
  width := balanced.width
  probe := balanced.probe
  active := by
    intro index upstream isUpstream
    rw [List.countP_append]
    exact balanced.active index upstream isUpstream
  marks := balanced.marks
  cursor := balanced.cursor
  turns := balanced.turns
  stories := by
    intro client task isTask
    rcases getElem?_snoc isTask with old | ⟨rfl, rfl⟩
    · exact balanced.stories client task old
    · exact balanced.fresh _ (Nat.le_refl _)
  fresh := by
    intro client beyond
    rw [List.length_append, List.length_singleton] at beyond
    exact balanced.fresh client (Nat.le_of_succ_le beyond)

/-- Every event keeps it. -/
theorem Balanced.step (balanced : Balanced count balancer observed) {event : BalanceEvent ε σ}
    (stepped : balancer.step event = some (next, emitted)) :
    Balanced count next (observed ++ emitted) := by
  cases event with
  | accept =>
      cases stepped
      rw [List.append_nil]
      exact balanced.accept
  | task client event =>
      obtain ⟨task, isTask, stepped⟩ := Option.bind_eq_some_iff.mp stepped
      exact balanced.taskStep isTask stepped
  | tick =>
      unfold Balancer.step at stepped
      dsimp only at stepped
      split at stepped
      next =>
        cases stepped
        rw [List.append_nil]
        refine ⟨balanced.positive, balanced.width, ?_, balanced.active, balanced.marks,
          balanced.cursor, balanced.turns, balanced.stories, balanced.fresh⟩
        intro index isIndex
        cases isIndex
        exact balanced.positive
      next => cases stepped
  | probed healthy =>
      obtain ⟨index, isProbe, isNext⟩ := Option.map_eq_some_iff.mp stepped
      cases isNext
      exact balanced.probed isProbe healthy

theorem Balanced.start {addresses : Nat} {start : Balancer ε σ}
    (started : balance addresses = .ok start) : Balanced addresses start [] := by
  unfold balance at started
  split at started
  next => cases started
  next enough =>
    cases started
    refine ⟨by omega, List.length_replicate, ?_, ?_, ?_, rfl, rfl, ?_,
      fun _ _ => ⟨⟨rfl, rfl⟩, rfl⟩⟩
    · intro index isIndex
      cases isIndex
    · intro index upstream isUpstream
      rw [List.eq_of_mem_replicate (List.mem_of_getElem? isUpstream)]
      rfl
    · intro index inRange
      simp [healthyAt, lastResult, inRange]
    · intro client task isTask
      cases isTask

end Step

/-! ### The runs -/

/-- What the place that a client took, its dials and what it was told have to do with each
other. -/
structure Orderly (count : Nat) (starts : List Nat) (dials : List (Nat × Bool))
    (verdicts : List (Option Nat)) : Prop where
  fromPlace : FromPlace count starts dials
  twice : ∀ index, (dials.map Prod.fst).count index ≤ 2
  once : verdicts.length ≤ 1
  served : ∀ index, some index ∈ verdicts → Found count index starts dials
  refused : none ∈ verdicts → Exhausted count starts dials

theorem Story.orderly {count : Nat} {starts : List Nat} {dials : List (Nat × Bool)}
    {verdicts : List (Option Nat)} {task : Task ε σ}
    (story : Story count starts dials verdicts task) : Orderly count starts dials verdicts := by
  have fromPlace := story.fromPlace
  have twice := fromPlace.count_le
  rcases story.verdict with rfl | ⟨index, rfl, found⟩ | ⟨rfl, exhausted⟩
  · exact ⟨fromPlace, twice, Nat.zero_le 1, by simp, by simp⟩
  · refine ⟨fromPlace, twice, Nat.le_refl 1, ?_, by simp⟩
    intro other isServed
    cases List.mem_singleton.mp isServed
    exact found
  · refine ⟨fromPlace, twice, Nat.le_refl 1, by simp, ?_⟩
    exact fun _ => exhausted

theorem Orderly.nothing (count : Nat) : Orderly count [] [] [] :=
  ⟨Or.inl ⟨rfl, rfl⟩, by simp, Nat.zero_le 1, by simp, by simp⟩

theorem balanced_of_run {addresses : Nat} {start balancer : Balancer ε σ}
    (started : balance addresses = .ok start) {events : List (BalanceEvent ε σ)}
    {observed : List BalanceObservation}
    (ran : run Balancer.step start events = some (balancer, observed)) :
    Balanced addresses balancer observed := by
  refine run_invariant ran (fun _ observed balancer => Balanced addresses balancer observed)
    (Balanced.start started) ?_
  intro past event observed balancer next emitted _ _ stepped balanced
  exact balanced.step stepped

/-- Whatever the order of the events of all clients and of the health checker: a client dials
from the place that it was seen to take, each upstream at most twice, is told one thing, is
refused only after all upstreams refused it in turn and served only by the one that accepted it
last; clients start at the upstreams in turn; the numbers of active clients are the tasks that
copy, and a mark is the last result. -/
theorem balancer_orderly {addresses : Nat} {start : Balancer ε σ}
    (started : balance addresses = .ok start) (events : List (BalanceEvent ε σ))
    (balancer : Balancer ε σ) (observed : List BalanceObservation)
    (ran : run Balancer.step start events = some (balancer, observed)) :
    (∀ client, Orderly addresses (observed.filterMap (BalanceObservation.startOf? client))
      (observed.filterMap (BalanceObservation.dial? client))
      (observed.filterMap (BalanceObservation.verdict? client))) ∧
    InTurn addresses (observed.filterMap BalanceObservation.start?) ∧
    ∀ index upstream, balancer.upstreams[index]? = some upstream →
      upstream.active = balancer.tasks.countP (Task.copiesTo index) % 2 ^ 64 ∧
      upstream.healthy = lastResult index observed := by
  have balanced := balanced_of_run started ran
  refine ⟨?_, balanced.turns, ?_⟩
  · intro client
    cases isTask : balancer.tasks[client]? with
    | none =>
        obtain ⟨⟨noStart, noDial⟩, noVerdict⟩ :=
          balanced.fresh client (List.getElem?_eq_none_iff.mp isTask)
        rw [noStart, noDial, noVerdict]
        exact .nothing addresses
    | some task => exact (balanced.stories client task isTask).orderly
  · intro index upstream isUpstream
    refine ⟨balanced.active index upstream isUpstream, ?_⟩
    have within := (List.getElem?_eq_some_iff.mp isUpstream).1
    rw [balanced.width] at within
    rw [← balanced.marks index within, healthyAt, isUpstream]
    rfl

/-- A greeting, and a CONNECT to an address. -/
def connectRequest : Bytes := [5, 1, 0, 5, 1, 0, 1, 10, 0, 0, 1, 1, 187]

/-- Two clients at a time, of two upstreams that both fail at first: one client is refused, the
other is served by the upstream that the health checker found up again. -/
def rushHour : List (BalanceEvent Unit Unit) :=
  [.accept, .task 0 (.request connectRequest), .accept, .task 1 (.request connectRequest),
    .task 0 .look, .task 0 (.connect (.error ())), .task 1 .look, .task 0 .look,
    .task 0 (.connect (.error ())), .task 0 .look, .tick, .task 1 (.connect (.error ())),
    .task 0 (.connect (.error ())), .probed true, .task 1 .look, .task 0 .look,
    .task 0 (.connect (.error ())), .task 0 (.answer true),
    .task 1 (.connect (.ok ((), [5, 0]))), .task 1 (.answer true), .probed false]

theorem balancer_orderly_rush_hour :
    ∃ start balancer observed, balance 2 = .ok start ∧
      run Balancer.step start rushHour = some (balancer, observed) ∧
      balancer.upstreams = [⟨true, 1⟩, ⟨false, 0⟩] ∧
      Orderly 2 [0] [(0, false), (1, false), (0, false), (1, false)] [none] ∧
      Orderly 2 [1] [(1, false), (0, true)] [some 0] ∧ InTurn 2 [0, 1] := by
  refine ⟨_, _, _, rfl, rfl, rfl, ?_⟩
  have started : balance 2 = .ok (⟨[⟨true, 0⟩, ⟨true, 0⟩], 0, [], none⟩ : Balancer Unit Unit) := rfl
  have orderly := balancer_orderly started rushHour _ _ rfl
  exact ⟨orderly.1 0, orderly.1 1, orderly.2.1⟩

end SmartFecTunnel.Balance
