import Mathlib.Data.List.Nodup
import Mathlib.Data.Nat.ModEq
import SmartFecTunnel.Balance.Balancer

/-!
Contract: which upstream serves a client of the balancer, and what a call does to
the health marks.

A pass dials the eligible upstreams in order up to the first that accepts, and
leaves every one of them marked by whether it accepts.  The second pass starts
from the marks of the first.

Owns: the choice as a function of the marks before the call and of who accepts,
and the marks after the call.

Does not own: marks that change during the call.
-/

namespace SmartFecTunnel.Balance

open SmartFecTunnel.Library

variable {ε σ : Type}

def accepts (outcomes : Outcomes ε σ) (index : Nat) : Bool := (outcomes index).isOk

/-! ### The upstreams that are dialled -/

/-- The elements up to the first that is accepted. -/
def upToFirst (accepted : Nat → Bool) : List Nat → List Nat
  | [] => []
  | index :: rest => if accepted index then [index] else index :: upToFirst accepted rest

theorem upToFirst_initial (accepted : Nat → Bool) (order : List Nat) :
    upToFirst accepted order <+: order := by
  induction order with
  | nil => exact List.prefix_rfl
  | cons index rest inductionHypothesis =>
      rw [upToFirst]
      split
      · exact ⟨rest, rfl⟩
      · exact List.cons_prefix_cons.mpr ⟨rfl, inductionHypothesis⟩

/-- Only the last of them can be accepted, and it is the first of all. -/
theorem find?_of_mem_upToFirst {accepted : Nat → Bool} {order : List Nat} {index : Nat}
    (member : index ∈ upToFirst accepted order) (isAccepted : accepted index = true) :
    order.find? accepted = some index := by
  induction order with
  | nil => cases member
  | cons first rest inductionHypothesis =>
      rw [upToFirst] at member
      split at member
      next firstAccepted =>
        rw [List.mem_singleton] at member
        rw [List.find?_cons_of_pos firstAccepted, member]
      next firstRefused =>
        rw [List.find?_cons_of_neg firstRefused]
        rcases List.mem_cons.mp member with rfl | later
        · exact absurd isAccepted firstRefused
        · exact inductionHypothesis later

theorem mem_upToFirst_of_find? {accepted : Nat → Bool} {order : List Nat} {index : Nat}
    (found : order.find? accepted = some index) : index ∈ upToFirst accepted order := by
  induction order with
  | nil => cases found
  | cons first rest inductionHypothesis =>
      rw [upToFirst]
      split
      next firstAccepted =>
        rw [List.find?_cons_of_pos firstAccepted] at found
        cases found
        exact List.mem_singleton_self _
      next firstRefused =>
        rw [List.find?_cons_of_neg firstRefused] at found
        exact List.mem_cons_of_mem _ (inductionHypothesis found)

theorem count_upToFirst_le (accepted : Nat → Bool) {order : List Nat} (distinct : order.Nodup)
    (index : Nat) : (upToFirst accepted order).count index ≤ 1 :=
  List.nodup_iff_count_le_one.mp
    (distinct.sublist (upToFirst_initial accepted order).sublist) index

/-! ### One pass -/

namespace Selection

@[simp]
theorem upstreams_mark_length (selection : Selection ε) (index : Nat) (healthy : Bool) :
    (selection.mark index healthy).upstreams.length = selection.upstreams.length :=
  List.length_modify ..

theorem isHealthy_mark (selection : Selection ε) {index : Nat}
    (inRange : index < selection.upstreams.length) (healthy : Bool) (other : Nat) :
    (selection.mark index healthy).isHealthy other =
      if other = index then healthy else selection.isHealthy other := by
  unfold isHealthy healthyAt mark
  by_cases same : other = index
  · subst same
    simp [inRange]
  · simp [same, Ne.symm same]

/-- The upstreams that a pass may dial, by the marks before it. -/
def eligible (healthyOnly : Bool) (selection : Selection ε) (order : List Nat) : List Nat :=
  order.filter fun index => !healthyOnly || selection.isHealthy index

theorem eligible_cons (healthyOnly : Bool) (selection : Selection ε) (index : Nat)
    (rest : List Nat) :
    selection.eligible healthyOnly (index :: rest) =
      if healthyOnly && !selection.isHealthy index then selection.eligible healthyOnly rest
      else index :: selection.eligible healthyOnly rest := by
  cases healthyOnly <;> cases h : selection.isHealthy index <;> simp [eligible, h]

@[simp]
theorem eligible_all (selection : Selection ε) (order : List Nat) :
    selection.eligible false order = order :=
  List.filter_eq_self.mpr fun _ _ => rfl

/-- A mark that has been set does not change what the rest of the pass may dial. -/
theorem eligible_mark (healthyOnly : Bool) (selection : Selection ε) {index : Nat}
    (inRange : index < selection.upstreams.length) (healthy : Bool) (lastError : Option ε)
    {rest : List Nat} (absent : index ∉ rest) :
    ({ selection.mark index healthy with lastError } : Selection ε).eligible healthyOnly rest =
      selection.eligible healthyOnly rest := by
  refine List.filter_congr fun other member => ?_
  have different : other ≠ index := fun same => absent (same ▸ member)
  change (!healthyOnly || (selection.mark index healthy).isHealthy other) = _
  rw [isHealthy_mark selection inRange, if_neg different]

/-- What a pass over the eligible upstreams leaves. -/
structure Passed (outcomes : Outcomes ε σ) (eligible : List Nat) (before : Selection ε)
    (result : Selection ε × Option (Nat × σ × Bytes)) : Prop where
  chosen : result.2.map Prod.fst = eligible.find? (accepts outcomes)
  answer : ∀ index remote response, result.2 = some (index, remote, response) →
    outcomes index = .ok (remote, response)
  dialled : result.1.dialled = before.dialled ++ upToFirst (accepts outcomes) eligible
  count : result.1.upstreams.length = before.upstreams.length
  marks : ∀ index, result.1.isHealthy index =
    if index ∈ upToFirst (accepts outcomes) eligible then accepts outcomes index
    else before.isHealthy index

theorem passed_nil (outcomes : Outcomes ε σ) (selection : Selection ε) :
    Passed outcomes [] selection (selection, none) where
  chosen := rfl
  answer := fun _ _ _ impossible => nomatch impossible
  dialled := (List.append_nil _).symm
  count := rfl
  marks := fun _ => (if_neg List.not_mem_nil).symm

/-- The first eligible upstream accepts. -/
theorem passed_accepted {outcomes : Outcomes ε σ} {selection : Selection ε} {index : Nat}
    (inRange : index < selection.upstreams.length) {remote : σ} {response : Bytes}
    (outcome : outcomes index = .ok (remote, response)) (rest : List Nat) :
    Passed outcomes (index :: rest) selection
      (selection.mark index true, some (index, remote, response)) := by
  have accepted : accepts outcomes index = true := by rw [accepts, outcome]; rfl
  have tried : upToFirst (accepts outcomes) (index :: rest) = [index] := by
    rw [upToFirst, if_pos accepted]
  constructor
  case chosen => rw [List.find?_cons_of_pos accepted]; rfl
  case answer =>
    intro _ _ _ found
    cases found
    exact outcome
  case dialled => rw [tried]; rfl
  case count => exact upstreams_mark_length ..
  case marks =>
    intro other
    rw [isHealthy_mark selection inRange]
    by_cases same : other = index
    · rw [if_pos same, if_pos (by rw [tried, same]; exact List.mem_singleton_self _), same, accepted]
    · rw [if_neg same, if_neg (by rw [tried, List.mem_singleton]; exact same)]

/-- The first eligible upstream refuses, and the rest of the pass is done. -/
theorem passed_refused {outcomes : Outcomes ε σ} {selection : Selection ε} {index : Nat}
    (inRange : index < selection.upstreams.length) {error : ε}
    (outcome : outcomes index = .error error) {rest : List Nat} (absent : index ∉ rest)
    {result : Selection ε × Option (Nat × σ × Bytes)}
    (later : Passed outcomes rest { selection.mark index false with lastError := some error }
      result) :
    Passed outcomes (index :: rest) selection result := by
  have refused : ¬ accepts outcomes index = true := by
    rw [accepts, outcome]
    exact Bool.false_ne_true
  have tried : upToFirst (accepts outcomes) (index :: rest) =
      index :: upToFirst (accepts outcomes) rest := by
    rw [upToFirst, if_neg refused]
  constructor
  case chosen => rw [later.chosen, List.find?_cons_of_neg refused]
  case answer => exact later.answer
  case dialled =>
    rw [later.dialled, tried]
    exact List.append_assoc ..
  case count => exact later.count.trans (upstreams_mark_length ..)
  case marks =>
    intro other
    rw [later.marks, tried]
    change (if _ then _ else (selection.mark index false).isHealthy other) = _
    rw [isHealthy_mark selection inRange]
    by_cases same : other = index
    · subst same
      have untried : other ∉ upToFirst (accepts outcomes) rest :=
        fun member => absent ((upToFirst_initial _ rest).subset member)
      rw [if_neg untried, if_pos rfl, if_pos List.mem_cons_self, Bool.eq_false_iff.mpr refused]
    · simp only [List.mem_cons, same, false_or, if_false]

theorem pass_passed (outcomes : Outcomes ε σ) (healthyOnly : Bool) {order : List Nat}
    (distinct : order.Nodup) (selection : Selection ε)
    (inRange : ∀ index ∈ order, index < selection.upstreams.length) :
    Passed outcomes (selection.eligible healthyOnly order) selection
      (pass outcomes healthyOnly order selection) := by
  induction order generalizing selection with
  | nil => exact passed_nil outcomes selection
  | cons index rest inductionHypothesis =>
      have ⟨absent, distinct⟩ := List.nodup_cons.mp distinct
      have first : index < selection.upstreams.length := inRange index List.mem_cons_self
      have later : ∀ other ∈ rest, other < selection.upstreams.length :=
        fun other member => inRange other (List.mem_cons_of_mem _ member)
      rw [pass, eligible_cons]
      split
      next => exact inductionHypothesis distinct selection later
      next =>
        cases outcome : outcomes index with
        | ok answer => exact passed_accepted first outcome _
        | error error =>
            have rest_passed := inductionHypothesis distinct
              { selection.mark index false with lastError := some error }
              (fun other member => by
                change other < (selection.mark index false).upstreams.length
                rw [upstreams_mark_length]
                exact later other member)
            rw [eligible_mark healthyOnly selection first false _ absent] at rest_passed
            have unvisited : index ∉ selection.eligible healthyOnly rest :=
              fun member => absent (List.mem_of_mem_filter member)
            exact passed_refused first outcome unvisited rest_passed

end Selection

/-! ### Both passes -/

theorem nodup_rotation (start count : Nat) : (rotation start count).Nodup := by
  refine List.Nodup.map_on ?_ List.nodup_range
  intro first firstInRange second secondInRange same
  rw [List.mem_range] at firstInRange secondInRange
  have congruent : Nat.ModEq count first second := Nat.ModEq.add_left_cancel' start same
  exact congruent.eq_of_lt_of_lt firstInRange secondInRange

theorem mem_rotation {start count index : Nat} :
    index ∈ rotation start count ↔ index < count := by
  refine ⟨fun member => ?_, fun inRange => ?_⟩
  · obtain ⟨offset, offsetInRange, rfl⟩ := List.mem_map.mp member
    exact Nat.mod_lt _ (Nat.zero_lt_of_lt (List.mem_range.mp offsetInRange))
  · have positive : 0 < count := Nat.zero_lt_of_lt inRange
    have everyIndex : rotation start count ⊆ List.range count := fun other member => by
      obtain ⟨offset, _, rfl⟩ := List.mem_map.mp member
      exact List.mem_range.mpr (Nat.mod_lt _ positive)
    have sameLength : (List.range count).length ≤ (rotation start count).length := by
      simp [rotation]
    have permutation := List.Subperm.perm_of_length_le
      ((nodup_rotation start count).subperm everyIndex) sameLength
    exact permutation.mem_iff.mpr (List.mem_range.mpr inRange)

/-- The upstream that should serve: in rotation the first healthy one that accepts, and
without one the first that accepts at all. -/
def choice (outcomes : Outcomes ε σ) (start : Nat) (upstreams : List BalanceUpstream) :
    Option Nat :=
  let order := rotation start upstreams.length
  (order.find? fun index => healthyAt upstreams index && accepts outcomes index).or
    (order.find? (accepts outcomes))

/-- What both passes leave. -/
structure Selected (outcomes : Outcomes ε σ) (start : Nat) (upstreams : List BalanceUpstream)
    (result : Selection ε × Option (Nat × σ × Bytes)) : Prop where
  chosen : result.2.map Prod.fst = choice outcomes start upstreams
  answer : ∀ index remote response, result.2 = some (index, remote, response) →
    outcomes index = .ok (remote, response)
  twice : ∀ index, result.1.dialled.count index ≤ 2
  inRange : ∀ index ∈ result.1.dialled, index < upstreams.length
  served : ∀ index, choice outcomes start upstreams = some index → index ∈ result.1.dialled
  failed : ∀ index ∈ result.1.dialled, choice outcomes start upstreams ≠ some index →
    accepts outcomes index = false
  count : result.1.upstreams.length = upstreams.length
  marks : ∀ index, healthyAt result.1.upstreams index =
    if index ∈ result.1.dialled then accepts outcomes index else healthyAt upstreams index

/-- The upstreams of the first pass. -/
def healthyOrder (start : Nat) (upstreams : List BalanceUpstream) : List Nat :=
  (rotation start upstreams.length).filter (healthyAt upstreams)

theorem eligible_initial (start : Nat) (upstreams : List BalanceUpstream) :
    (Selection.initial upstreams : Selection ε).eligible true
      (rotation start upstreams.length) = healthyOrder start upstreams :=
  List.filter_congr fun _ _ => Bool.false_or _

theorem choice_eq (outcomes : Outcomes ε σ) (start : Nat) (upstreams : List BalanceUpstream) :
    choice outcomes start upstreams =
      ((healthyOrder start upstreams).find? (accepts outcomes)).or
        ((rotation start upstreams.length).find? (accepts outcomes)) := by
  rw [healthyOrder, List.find?_filter, choice]
  simp

/-- Every upstream of a pass that chose none has refused. -/
theorem refused_of_find?_none {accepted : Nat → Bool} {order : List Nat}
    (none : order.find? accepted = none) {index : Nat}
    (member : index ∈ upToFirst accepted order) : accepted index = false := by
  have visited := (upToFirst_initial accepted order).subset member
  exact Bool.eq_false_iff.mpr (List.find?_eq_none.mp none index visited)

/-- The first pass chose an upstream. -/
theorem selected_healthy {outcomes : Outcomes ε σ} {start : Nat}
    {upstreams : List BalanceUpstream} {selection : Selection ε} {answer : Nat × σ × Bytes}
    (passed : Selection.Passed outcomes
      (healthyOrder start upstreams)
      (Selection.initial upstreams) (selection, some answer)) :
    Selected outcomes start upstreams (selection, some answer) := by
  have distinct := nodup_rotation start upstreams.length
  have dialled := passed.dialled.trans (List.nil_append _)
  have healthy := passed.chosen
  have chosen : choice outcomes start upstreams = some answer.1 := by
    rw [choice_eq, ← healthy]
    rfl
  constructor
  case chosen => exact chosen.symm
  case answer => exact passed.answer
  case twice =>
    intro index
    have once := count_upToFirst_le (accepts outcomes)
      (distinct.filter (healthyAt upstreams)) index
    rw [dialled]
    exact once.trans one_le_two
  case inRange =>
    intro index member
    rw [dialled] at member
    exact mem_rotation.mp (List.mem_of_mem_filter ((upToFirst_initial _ _).subset member))
  case served =>
    intro index served
    rw [chosen] at served
    rw [dialled]
    exact mem_upToFirst_of_find? (healthy.symm.trans served)
  case failed =>
    intro index member other
    rw [dialled] at member
    refine Bool.eq_false_iff.mpr fun accepted => other ?_
    exact chosen.trans (healthy.trans (find?_of_mem_upToFirst member accepted))
  case count => exact passed.count
  case marks =>
    intro index
    rw [show (selection, some answer).1.dialled = _ from dialled]
    exact passed.marks index

/-- The first pass chose none, so that every healthy upstream has refused. -/
theorem selected_any {outcomes : Outcomes ε σ} {start : Nat}
    {upstreams : List BalanceUpstream} {selection : Selection ε}
    {result : Selection ε × Option (Nat × σ × Bytes)}
    (first : Selection.Passed outcomes
      (healthyOrder start upstreams)
      (Selection.initial upstreams) (selection, none))
    (second : Selection.Passed outcomes (rotation start upstreams.length) selection result) :
    Selected outcomes start upstreams result := by
  have distinct := nodup_rotation start upstreams.length
  have dialled_first := first.dialled.trans (List.nil_append _)
  have dialled := second.dialled
  rw [dialled_first] at dialled
  have unhealthy := first.chosen.symm
  have chosen : choice outcomes start upstreams =
      (rotation start upstreams.length).find? (accepts outcomes) := by
    rw [choice_eq, unhealthy]
    rfl
  constructor
  case chosen => exact second.chosen.trans chosen.symm
  case answer => exact second.answer
  case twice =>
    intro index
    have once := count_upToFirst_le (accepts outcomes)
      (distinct.filter (healthyAt upstreams)) index
    have again := count_upToFirst_le (accepts outcomes) distinct index
    rw [dialled, List.count_append]
    exact Nat.add_le_add once again
  case inRange =>
    intro index member
    rw [dialled] at member
    rcases List.mem_append.mp member with earlier | later
    · exact mem_rotation.mp (List.mem_of_mem_filter ((upToFirst_initial _ _).subset earlier))
    · exact mem_rotation.mp ((upToFirst_initial _ _).subset later)
  case served =>
    intro index served
    rw [chosen] at served
    rw [dialled]
    exact List.mem_append_right _ (mem_upToFirst_of_find? served)
  case failed =>
    intro index member other
    rw [dialled] at member
    rcases List.mem_append.mp member with earlier | later
    · exact refused_of_find?_none unhealthy earlier
    · refine Bool.eq_false_iff.mpr fun accepted => other ?_
      exact chosen.trans (find?_of_mem_upToFirst later accepted)
  case count => exact second.count.trans first.count
  case marks =>
    intro index
    have final := second.marks index
    rw [Selection.isHealthy] at final
    rw [final, first.marks index]
    simp only [dialled, List.mem_append]
    by_cases later : index ∈ upToFirst (accepts outcomes) (rotation start upstreams.length)
    · rw [if_pos later, if_pos (.inr later)]
    · simp only [later, or_false, if_false]
      rfl

theorem selectUpstream_selected (outcomes : Outcomes ε σ) (start : Nat)
    (upstreams : List BalanceUpstream) :
    Selected outcomes start upstreams (selectUpstream outcomes start upstreams) := by
  have distinct := nodup_rotation start upstreams.length
  have inRange : ∀ index ∈ rotation start upstreams.length, index < upstreams.length :=
    fun index member => mem_rotation.mp member
  have first := Selection.pass_passed outcomes true distinct (Selection.initial upstreams) inRange
  rw [eligible_initial] at first
  rw [selectUpstream]
  split
  next selection answer pass_eq =>
    rw [pass_eq] at first
    exact selected_healthy first
  next selection pass_eq =>
    rw [pass_eq] at first
    have still_inRange : ∀ index ∈ rotation start upstreams.length,
        index < selection.upstreams.length := by
      rw [first.count]
      exact inRange
    have second := Selection.pass_passed outcomes false distinct selection still_inRange
    rw [Selection.eligible_all] at second
    exact selected_any first second

/-! ### One client -/

@[simp]
theorem healthyAt_addActive (index : Nat) (upstreams : List BalanceUpstream) (other : Nat) :
    healthyAt (addActive index upstreams) other = healthyAt upstreams other := by
  unfold healthyAt addActive
  by_cases same : index = other <;> cases h : upstreams[other]? <;> simp [same, h]

@[simp]
theorem healthyAt_subActive (index : Nat) (upstreams : List BalanceUpstream) (other : Nat) :
    healthyAt (subActive index upstreams) other = healthyAt upstreams other := by
  unfold healthyAt subActive
  by_cases same : index = other <;> cases h : upstreams[other]? <;> simp [same, h]

/-- An accepted request has been answered with the method, and with nothing else. -/
theorem replies_of_readRequest {stream : Bytes} {replies : List Bytes} {read : Bytes × Bytes}
    (accepted : (readRequest stream : List Bytes × Except (BalanceError ε) (Bytes × Bytes)) =
      (replies, .ok read)) :
    replies = [methodReply] := by
  unfold readRequest at accepted
  grind

/-- What a call does for an accepted request. -/
structure Failover (outcomes : Outcomes ε σ) (copyBidirectional : σ → Except (BalanceError ε) Unit)
    (upstreams : List BalanceUpstream) (cursor : Nat) (call : BalancedCall ε) : Prop where
  served : ∀ index, choice outcomes (cursor % upstreams.length) upstreams = some index →
    ∃ remote response, outcomes index = .ok (remote, response) ∧
      call.replies = [methodReply, response] ∧ call.result = copyBidirectional remote ∧
      index ∈ call.dialled ∧ healthyAt call.upstreams index = true
  refused : choice outcomes (cursor % upstreams.length) upstreams = none →
    (∀ index < upstreams.length, accepts outcomes index = false) ∧
      call.replies = [methodReply, failureReply] ∧ ∃ error, call.result = .error error
  twice : ∀ index, call.dialled.count index ≤ 2
  inRange : ∀ index ∈ call.dialled, index < upstreams.length
  failed : ∀ index ∈ call.dialled,
    choice outcomes (cursor % upstreams.length) upstreams ≠ some index →
      accepts outcomes index = false ∧ healthyAt call.upstreams index = false
  untouched : ∀ index, index ∉ call.dialled →
    healthyAt call.upstreams index = healthyAt upstreams index
  count : call.upstreams.length = upstreams.length
  next : call.cursor = (cursor + 1) % 2 ^ 64

theorem choice_none {outcomes : Outcomes ε σ} {start : Nat} {upstreams : List BalanceUpstream}
    (none : choice outcomes start upstreams = none) {index : Nat}
    (inRange : index < upstreams.length) : accepts outcomes index = false := by
  rw [choice, Option.or_eq_none_iff, List.find?_eq_none] at none
  exact Bool.eq_false_iff.mpr (List.find?_eq_none.mp none.2 index (mem_rotation.mpr inRange))

/-- An upstream that was tried and not chosen is marked down. -/
theorem Selected.failed_mark {outcomes : Outcomes ε σ} {start : Nat}
    {upstreams : List BalanceUpstream} {result : Selection ε × Option (Nat × σ × Bytes)}
    (selected : Selected outcomes start upstreams result) {index : Nat}
    (dialled : index ∈ result.1.dialled) (other : choice outcomes start upstreams ≠ some index) :
    accepts outcomes index = false ∧ healthyAt result.1.upstreams index = false := by
  have refused := selected.failed index dialled other
  have mark := selected.marks index
  rw [if_pos dialled, refused] at mark
  exact ⟨refused, mark⟩

theorem failover_of_refused {outcomes : Outcomes ε σ}
    (copyBidirectional : σ → Except (BalanceError ε) Unit) {upstreams : List BalanceUpstream}
    {cursor : Nat} {selection : Selection ε} (error : BalanceError ε)
    (selected : Selected outcomes (cursor % upstreams.length) upstreams (selection, none)) :
    Failover outcomes copyBidirectional upstreams cursor
      ⟨selection.upstreams, (cursor + 1) % 2 ^ 64, selection.dialled,
        [methodReply, failureReply], .error error⟩ := by
  have none_chosen := selected.chosen.symm
  constructor
  case served =>
    intro index chosen
    rw [none_chosen] at chosen
    cases chosen
  case refused => exact fun _ => ⟨fun _ => choice_none none_chosen, rfl, error, rfl⟩
  case twice => exact selected.twice
  case inRange => exact selected.inRange
  case failed => exact fun _ => selected.failed_mark
  case untouched => exact fun index untried => (selected.marks index).trans (if_neg untried)
  case count => exact selected.count
  case next => rfl

theorem failover_of_served {outcomes : Outcomes ε σ}
    (copyBidirectional : σ → Except (BalanceError ε) Unit) {upstreams : List BalanceUpstream}
    {cursor : Nat} {selection : Selection ε} {index : Nat} {remote : σ} {response : Bytes}
    (selected : Selected outcomes (cursor % upstreams.length) upstreams
      (selection, some (index, remote, response))) :
    Failover outcomes copyBidirectional upstreams cursor
      ⟨subActive index (addActive index selection.upstreams), (cursor + 1) % 2 ^ 64,
        selection.dialled, [methodReply, response], copyBidirectional remote⟩ := by
  have chosen := selected.chosen.symm
  have outcome := selected.answer index remote response rfl
  have tried := selected.served index chosen
  constructor
  case served =>
    intro other other_chosen
    obtain rfl : index = other := Option.some.inj (chosen.symm.trans other_chosen)
    refine ⟨remote, response, outcome, rfl, rfl, tried, ?_⟩
    rw [healthyAt_subActive, healthyAt_addActive]
    refine (selected.marks index).trans ((if_pos tried).trans ?_)
    rw [accepts, outcome]
    rfl
  case refused =>
    intro none_chosen
    rw [chosen] at none_chosen
    cases none_chosen
  case twice => exact selected.twice
  case inRange => exact selected.inRange
  case failed =>
    intro other member not_chosen
    rw [healthyAt_subActive, healthyAt_addActive]
    exact selected.failed_mark member not_chosen
  case untouched =>
    intro other untried
    rw [healthyAt_subActive, healthyAt_addActive]
    exact (selected.marks other).trans (if_neg untried)
  case count =>
    simp only [subActive, addActive, List.length_modify]
    exact selected.count
  case next => rfl

/-- Over every stream of a client, every cursor, all marks and whoever accepts. -/
theorem failover_complete (outcomes : Bytes → Outcomes ε σ)
    (copyBidirectional : Bytes → σ → Except (BalanceError ε) Unit)
    {upstreams : List BalanceUpstream} (several : 2 ≤ upstreams.length) (cursor : Nat) (stream : Bytes) :
    ∃ call, handleBalancedClient outcomes copyBidirectional upstreams cursor stream = some call ∧
      match readRequest stream with
      | (replies, .error error) => call = ⟨upstreams, cursor, [], replies, .error error⟩
      | (_, .ok (request, client)) =>
        Failover (outcomes request) (copyBidirectional client) upstreams cursor call := by
  unfold handleBalancedClient
  rcases request_eq : (readRequest stream : List Bytes × Except (BalanceError ε) (Bytes × Bytes))
    with ⟨replies, error | ⟨request, client⟩⟩
  · exact ⟨_, rfl, rfl⟩
  · obtain rfl : replies = [methodReply] := replies_of_readRequest request_eq
    have selected := selectUpstream_selected (outcomes request) (cursor % upstreams.length)
      upstreams
    have some_upstream : upstreams.length ≠ 0 := by omega
    dsimp only
    rw [if_neg some_upstream]
    split
    next selection selection_eq =>
      rw [selection_eq] at selected
      exact ⟨_, rfl, failover_of_refused (copyBidirectional client) _ selected⟩
    next selection index remote response selection_eq =>
      rw [selection_eq] at selected
      exact ⟨_, rfl, failover_of_served (copyBidirectional client) selected⟩

/-- A CONNECT to port 80 of 127.0.0.1 behind a greeting that offers no authentication. -/
def connectStream : Bytes := [5, 1, 0, 5, 1, 0, 1, 127, 0, 0, 1, 0, 80]

def onlyFirstAccepts : Outcomes Unit Unit :=
  fun index => if index = 0 then .ok ((), [5, 0, 0, 1, 0, 0, 0, 0, 0, 0]) else .error ()

/-- The only upstream that is marked healthy refuses, and one that is marked down accepts. -/
theorem failover_complete_second_pass :
    ∃ call, handleBalancedClient (fun _ => onlyFirstAccepts) (fun _ _ => .ok ())
        [⟨false, 0⟩, ⟨true, 0⟩] 1 connectStream = some call ∧
      call.dialled = [1, 1, 0] ∧
      Failover onlyFirstAccepts (fun _ => .ok ()) [⟨false, 0⟩, ⟨true, 0⟩] 1 call := by
  obtain ⟨call, call_eq, failover⟩ := failover_complete (fun _ => onlyFirstAccepts)
    (fun _ _ => .ok ()) (by decide : 2 ≤ [BalanceUpstream.mk false 0, ⟨true, 0⟩].length) 1
    connectStream
  refine ⟨call, call_eq, ?_, failover⟩
  have computed : handleBalancedClient (fun _ => onlyFirstAccepts) (fun _ _ => .ok ())
      [⟨false, 0⟩, ⟨true, 0⟩] 1 connectStream =
      some ⟨[⟨true, 0⟩, ⟨false, 0⟩], 2, [1, 1, 0],
        [methodReply, [5, 0, 0, 1, 0, 0, 0, 0, 0, 0]], .ok ()⟩ := rfl
  rw [computed] at call_eq
  cases call_eq
  rfl

end SmartFecTunnel.Balance
