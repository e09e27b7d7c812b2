import SmartFecTunnel.Balance.ConcurrentSafety

/-!
Contract: a client that no other event disturbs is served as `handleBalancedClient` says.

The events of one task alone, with what the upstreams answer and how the copying ends given
beforehand, run the two passes of `selectUpstream` one upstream at a time.

Owns: that the tasks of the balancer and the call of one client are the same program.

Does not own: what other tasks do in between.
-/

namespace SmartFecTunnel.Balance

open SmartFecTunnel.Library

variable {ε σ : Type}

/-- What an observation writes to a client. -/
def BalanceObservation.written (client : Nat) : BalanceObservation → List Bytes
  | .replied other replies => if other = client then replies else []
  | .responded other _ response => if other = client then [response] else []
  | .refused other => if other = client then [failureReply] else []
  | _ => []

/-- Events of this client alone lead from one state to the other, dial the given upstreams and
write the given replies. -/
def Undisturbed (client : Nat) (before after : Balancer ε σ) (dialled : List Nat)
    (replies : List Bytes) : Prop :=
  ∃ (events : List (TaskEvent ε σ)) (observed : List BalanceObservation),
    run Balancer.step before (events.map (.task client)) = some (after, observed) ∧
      (observed.filterMap (BalanceObservation.dial? client)).map Prod.fst = dialled ∧
      observed.flatMap (BalanceObservation.written client) = replies

namespace Undisturbed

variable {client : Nat} {before middle after : Balancer ε σ} {first second : List Nat}
  {early late : List Bytes}

theorem refl (client : Nat) (balancer : Balancer ε σ) :
    Undisturbed client balancer balancer [] [] :=
  ⟨[], [], rfl, rfl, rfl⟩

theorem event {task : Task ε σ} {event : TaskEvent ε σ} {emitted : List BalanceObservation}
    (isTask : before.tasks[client]? = some task)
    (stepped : before.taskStep client task event = some (middle, emitted))
    (isDialled : (emitted.filterMap (BalanceObservation.dial? client)).map Prod.fst = first)
    (isReplies : emitted.flatMap (BalanceObservation.written client) = early) :
    Undisturbed client before middle first early := by
  refine ⟨[event], emitted, ?_, isDialled, isReplies⟩
  have one : before.step (.task client event) = some (middle, emitted) := by
    rw [Balancer.step, isTask]
    exact stepped
  rw [List.map_singleton, run_cons, one, Option.bind_some, run_nil, Option.map_some,
    List.append_nil]

theorem trans (front : Undisturbed client before middle first early)
    (back : Undisturbed client middle after second late) :
    Undisturbed client before after (first ++ second) (early ++ late) := by
  obtain ⟨start, seen, ranStart, isFirst, isEarly⟩ := front
  obtain ⟨more, shown, ranMore, isSecond, isLate⟩ := back
  refine ⟨start ++ more, seen ++ shown, ?_, ?_, ?_⟩
  · rw [List.map_append, run_append, ranStart, Option.bind_some, ranMore]
    rfl
  · rw [List.filterMap_append, List.map_append, isFirst, isSecond]
  · rw [List.flatMap_append, isEarly, isLate]

end Undisturbed

/-! ### One pass -/

/-- The balancer with a client's task and the marks of a selection. -/
def Balancer.selected (balancer : Balancer ε σ) (client : Nat) (selection : Selection ε)
    (task : Task ε σ) : Balancer ε σ :=
  { balancer with upstreams := selection.upstreams }.setTask client task

/-- Where a pass leaves the task. -/
def afterPass (round : Round ε) (result : Selection ε × Option (Nat × σ × Bytes)) : Task ε σ :=
  match result.2 with
  | some (index, remote, response) => .answering index remote response
  | none =>
    if round.healthyOnly then
      .choosing { round with healthyOnly := false, offset := 0, lastError := result.1.lastError }
    else .refusing result.1.lastError

section Pass

variable {client count : Nat} {balancer : Balancer ε σ} {round : Round ε}
  {selection : Selection ε} {task : Task ε σ}

theorem getElem?_selected (selection : Selection ε)
    (isTask : balancer.tasks[client]? = some task) (after : Task ε σ) :
    (balancer.selected client selection after).tasks[client]? = some after :=
  List.getElem?_set_self (List.getElem?_eq_some_iff.mp isTask).1

theorem selected_selected (first second : Selection ε) (one other : Task ε σ) :
    (balancer.selected client first one).selected client second other =
      balancer.selected client second other := by
  simp [Balancer.selected, Balancer.setTask]

/-- The events of a dial, with what comes after it. -/
theorem dial_undisturbed {passed : Selection ε} {after : Task ε σ} {last : Balancer ε σ}
    {dialled : List Nat} (outcome : Except ε (σ × Bytes))
    (isTask : balancer.tasks[client]? = some (.choosing round))
    (isCount : balancer.upstreams.length = count)
    (eligible : (round.healthyOnly && !healthyAt balancer.upstreams (round.index count)) = false)
    (isMark : passed.upstreams = (balancer.mark (round.index count) outcome.isOk).upstreams)
    (isAfter : after = match outcome with
      | .ok (remote, response) => .answering (round.index count) remote response
      | .error error => { round with lastError := some error }.advance count)
    (rest : Undisturbed client (balancer.selected client passed after) last dialled []) :
    Undisturbed client balancer last (round.index count :: dialled) [] := by
  have dialling : (balancer.setTask client (.dialling round)).tasks[client]? =
      some (.dialling round) :=
    List.getElem?_set_self (List.getElem?_eq_some_iff.mp isTask).1
  have looked : balancer.taskStep client (.choosing round) .look =
      some (balancer.setTask client (.dialling round), []) := by
    simp only [Balancer.taskStep, isCount, eligible, Bool.false_eq_true, if_false]
  have isNext : balancer.selected client passed after =
      ((balancer.setTask client (.dialling round)).mark (round.index count) outcome.isOk).setTask
        client after := by
    simp [Balancer.selected, Balancer.setTask, Balancer.mark, isMark]
  have connected : (balancer.setTask client (.dialling round)).taskStep client (.dialling round)
      (.connect outcome) = some (balancer.selected client passed after,
        [.dialled client (round.index count) round.request outcome.isOk]) := by
    rw [isNext, isAfter]
    simp only [Balancer.taskStep, Balancer.setTask, isCount]
    cases outcome <;> rfl
  have isDial : Undisturbed client (balancer.setTask client (.dialling round))
      (balancer.selected client passed after) [round.index count] [] :=
    .event dialling connected (by simp [BalanceObservation.dial?]) rfl
  exact (Undisturbed.event isTask looked rfl rfl).trans (isDial.trans rest)

/-- The rest of a pass starts with the upstream of the round. -/
theorem drop_rotation {order : List Nat} (within : round.offset < count)
    (isOrder : order = (rotation round.start count).drop round.offset) :
    order = round.index count :: (rotation round.start count).drop (round.offset + 1) := by
  have inRange : round.offset < (rotation round.start count).length := by
    rwa [length_rotation]
  rw [isOrder, List.drop_eq_getElem_cons inRange]
  simp [rotation, Round.index]

/-- A pass of the task does what `Selection.pass` does. -/
theorem pass_undisturbed (outcomes : Outcomes ε σ) {order : List Nat}
    (isTask : balancer.tasks[client]? = some (.choosing round))
    (isCount : balancer.upstreams.length = count) (within : round.offset < count)
    (isOrder : order = (rotation round.start count).drop round.offset)
    (sameMarks : selection.upstreams = balancer.upstreams)
    (sameError : selection.lastError = round.lastError) :
    ∃ dialled, (Selection.pass outcomes round.healthyOnly order selection).1.dialled =
        selection.dialled ++ dialled ∧
      Undisturbed client balancer
        (balancer.selected client (Selection.pass outcomes round.healthyOnly order selection).1
          (afterPass round (Selection.pass outcomes round.healthyOnly order selection)))
        dialled [] := by
  induction order generalizing balancer round selection with
  | nil =>
      have nothing := drop_rotation within isOrder
      cases nothing
  | cons index rest inductionHypothesis =>
      have isNext := drop_rotation within isOrder
      rw [List.cons.injEq] at isNext
      obtain ⟨rfl, isRest⟩ := isNext
      -- Behind an upstream, the pass is over or goes on with the rest.
      have behind : ∀ (passed : Selection ε) (lastError : Option ε) (middle : Balancer ε σ),
          passed.upstreams.length = count → passed.lastError = lastError →
          middle = balancer.selected client passed ({ round with lastError }.advance count) →
          ∃ dialled, (Selection.pass outcomes round.healthyOnly rest passed).1.dialled =
              passed.dialled ++ dialled ∧
            Undisturbed client middle
              (balancer.selected client
                (Selection.pass outcomes round.healthyOnly rest passed).1
                (afterPass round (Selection.pass outcomes round.healthyOnly rest passed)))
              dialled [] := by
        rintro passed lastError middle sameCount rfl rfl
        by_cases more : round.offset + 1 < count
        · have goesOn : ({ round with lastError := passed.lastError }.advance count : Task ε σ) =
              .choosing { round with
                offset := round.offset + 1, lastError := passed.lastError } := if_pos more
          rw [goesOn]
          have continued := inductionHypothesis (getElem?_selected passed isTask (.choosing
            { round with offset := round.offset + 1, lastError := passed.lastError }))
            sameCount more isRest rfl rfl
          rw [selected_selected] at continued
          exact continued
        · have noRest : rest = [] := by
            rw [isRest]
            apply List.drop_of_length_le
            rw [length_rotation]
            exact Nat.le_of_not_lt more
          rw [noRest]
          refine ⟨[], (List.append_nil _).symm, ?_⟩
          have isOver : ({ round with lastError := passed.lastError }.advance count : Task ε σ) =
              afterPass round (Selection.pass outcomes round.healthyOnly [] passed) := if_neg more
          rw [isOver]
          exact .refl client _
      unfold Selection.pass
      rw [show selection.isHealthy (round.index count) =
        healthyAt balancer.upstreams (round.index count) by rw [← sameMarks]; rfl]
      cases eligible : round.healthyOnly && !healthyAt balancer.upstreams (round.index count) with
      | true =>
          rw [if_pos rfl]
          obtain ⟨dialled, isDialled, rest⟩ := behind selection round.lastError _
            (sameMarks ▸ isCount) sameError rfl
          have looked : balancer.taskStep client (.choosing round) .look =
              some (balancer.selected client selection (round.advance count), []) := by
            simp only [Balancer.taskStep, isCount, eligible, if_true, Balancer.selected, sameMarks]
          exact ⟨dialled, isDialled, (Undisturbed.event isTask looked rfl rfl).trans rest⟩
      | false =>
          rw [if_neg Bool.false_ne_true]
          have isMark : ∀ healthy, (selection.mark (round.index count) healthy).upstreams =
              (balancer.mark (round.index count) healthy).upstreams := by
            intro healthy
            rw [Selection.mark, Balancer.mark, sameMarks]
          cases isOutcome : outcomes (round.index count) with
          | ok answer =>
              obtain ⟨remote, response⟩ := answer
              refine ⟨[round.index count], rfl, ?_⟩
              exact dial_undisturbed (.ok (remote, response)) isTask isCount eligible
                (isMark true) rfl (.refl client _)
          | error error =>
              obtain ⟨dialled, isDialled, rest⟩ := behind
                { selection.mark (round.index count) false with lastError := some error }
                (some error) _
                ((congrArg List.length (isMark false)).trans
                  ((mark_length balancer _ _).trans isCount)) rfl rfl
              refine ⟨round.index count :: dialled, ?_, ?_⟩
              · rw [isDialled]
                exact List.append_assoc _ [round.index count] dialled
              · exact dial_undisturbed (.error error) isTask isCount eligible (isMark false) rfl
                  rest

end Pass

/-! ### One client -/

/-- A whole pass. -/
theorem whole_pass {client : Nat} {balancer : Balancer ε σ} (outcomes : Outcomes ε σ)
    (positive : 0 < balancer.upstreams.length) {request : Bytes} {start : Nat}
    {healthyOnly : Bool} {selection : Selection ε}
    (isTask : balancer.tasks[client]? =
      some (.choosing ⟨request, start, healthyOnly, 0, selection.lastError⟩))
    (sameMarks : selection.upstreams = balancer.upstreams)
    {result : Selection ε × Option (Nat × σ × Bytes)}
    (isPass : Selection.pass outcomes healthyOnly (rotation start balancer.upstreams.length)
      selection = result) :
    ∃ dialled, result.1.dialled = selection.dialled ++ dialled ∧
      Undisturbed client balancer (balancer.selected client result.1
        (afterPass ⟨request, start, healthyOnly, 0, selection.lastError⟩ result)) dialled [] := by
  have isOrder : rotation start balancer.upstreams.length =
      (rotation start balancer.upstreams.length).drop 0 := rfl
  have passed := pass_undisturbed outcomes isTask rfl positive isOrder sameMarks rfl
  rw [isPass] at passed
  exact passed

/-- Where both passes leave the task. -/
def afterSelection (result : Selection ε × Option (Nat × σ × Bytes)) : Task ε σ :=
  match result.2 with
  | some (index, remote, response) => .answering index remote response
  | none => .refusing result.1.lastError

/-- Both passes of the task do what `selectUpstream` does. -/
theorem select_undisturbed {client : Nat} {balancer : Balancer ε σ} (outcomes : Outcomes ε σ)
    (positive : 0 < balancer.upstreams.length) {request : Bytes} {start : Nat}
    (isTask : balancer.tasks[client]? = some (.choosing ⟨request, start, true, 0, none⟩))
    {result : Selection ε × Option (Nat × σ × Bytes)}
    (isResult : selectUpstream outcomes start balancer.upstreams = result) :
    Undisturbed client balancer (balancer.selected client result.1 (afterSelection result))
      result.1.dialled [] := by
  unfold selectUpstream at isResult
  dsimp only at isResult
  have initialTask : balancer.tasks[client]? = some (.choosing ⟨request, start, true, 0,
      (Selection.initial balancer.upstreams : Selection ε).lastError⟩) := isTask
  cases isPass : Selection.pass outcomes true (rotation start balancer.upstreams.length)
    (Selection.initial balancer.upstreams) with
  | mk selection chosen =>
      obtain ⟨first, isFirst, firstPass⟩ :=
        whole_pass outcomes positive initialTask rfl isPass
      have isDialled : selection.dialled = first := isFirst
      rw [isPass] at isResult
      cases chosen with
      | some chosen =>
          have isSelected : (selection, some chosen) = result := isResult
          rw [← isSelected, isDialled]
          exact firstPass
      | none =>
          have isSelected : Selection.pass outcomes false (rotation start balancer.upstreams.length)
            selection = result := isResult
          have passed := Selection.pass_passed outcomes true (nodup_rotation start _)
            (Selection.initial balancer.upstreams : Selection ε) fun index member =>
              mem_rotation.mp member
          have sameCount : selection.upstreams.length = balancer.upstreams.length :=
            (congrArg (fun passed => passed.1.upstreams.length) isPass).symm.trans passed.count
          have secondTask := getElem?_selected selection isTask
            (.choosing ⟨request, start, false, 0, selection.lastError⟩)
          have secondCount : (balancer.selected client selection (.choosing
              ⟨request, start, false, 0, selection.lastError⟩)).upstreams.length =
                balancer.upstreams.length := sameCount
          obtain ⟨second, isSecond, secondPass⟩ := whole_pass outcomes (secondCount ▸ positive)
            secondTask rfl (secondCount.symm ▸ isSelected)
          rw [isSecond, isDialled]
          rw [selected_selected] at secondPass
          exact firstPass.trans secondPass

/-- The answer to the client, and the copying. -/
theorem answer_undisturbed {client : Nat} {balancer : Balancer ε σ} {index : Nat} {remote : σ}
    {response : Bytes} (isTask : balancer.tasks[client]? = some (.answering index remote response))
    (result : Except (BalanceError ε) Unit) :
    Undisturbed client balancer
      ({ balancer with
        upstreams := subActive index (addActive index balancer.upstreams) }.setTask client
          (.ended result)) [] [response] := by
  have within := (List.getElem?_eq_some_iff.mp isTask).1
  have answered : balancer.taskStep client (.answering index remote response) (.answer true) =
      some ({ balancer with upstreams := addActive index balancer.upstreams }.setTask client
        (.copying index), [.responded client index response]) := rfl
  have isCopying : (Balancer.setTask { balancer with
      upstreams := addActive index balancer.upstreams } client (.copying index)).tasks[client]? =
        some (.copying index) :=
    List.getElem?_set_self within
  have copied : (Balancer.setTask { balancer with
      upstreams := addActive index balancer.upstreams } client (.copying index)).taskStep client
        (.copying index) (.copied result) =
      some ({ balancer with
        upstreams := subActive index (addActive index balancer.upstreams) }.setTask client
          (.ended result), []) := by
    simp [Balancer.taskStep, Balancer.setTask]
  have isAnswer : Undisturbed client balancer (Balancer.setTask { balancer with
      upstreams := addActive index balancer.upstreams } client (.copying index)) [] [response] :=
    .event isTask answered rfl (by simp [BalanceObservation.written])
  exact isAnswer.trans (.event isCopying copied rfl rfl)

/-- The refusal. -/
theorem refuse_undisturbed {client : Nat} {balancer : Balancer ε σ} {lastError : Option ε}
    (isTask : balancer.tasks[client]? = some (.refusing lastError)) :
    Undisturbed client balancer
      (balancer.setTask client (.ended (.error
        ((lastError.map BalanceError.upstream).getD .noHealthyUpstream)))) [] [failureReply] := by
  have refused : balancer.taskStep client (.refusing lastError) (.answer true) =
      some (balancer.setTask client (.ended (.error
        ((lastError.map BalanceError.upstream).getD .noHealthyUpstream))),
          [.refused client]) := rfl
  exact .event isTask refused rfl (by simp [BalanceObservation.written])

/-- A client whose events nothing disturbs: its task is the call of the balancer. -/
theorem undisturbed_call (outcomes : Bytes → Outcomes ε σ)
    (copyBidirectional : Bytes → σ → Except (BalanceError ε) Unit) (balancer : Balancer ε σ)
    (client : Nat) (isTask : balancer.tasks[client]? = some .reading) (stream : Bytes)
    (call : BalancedCall ε)
    (isCall : handleBalancedClient outcomes copyBidirectional balancer.upstreams balancer.cursor
      stream = some call) :
    Undisturbed client balancer
      ({ balancer with upstreams := call.upstreams, cursor := call.cursor }.setTask client
        (.ended call.result)) call.dialled call.replies := by
  unfold handleBalancedClient at isCall
  cases isRequest : (readRequest stream : List Bytes × Except (BalanceError ε) (Bytes × Bytes)) with
  | mk replies read =>
      rw [isRequest] at isCall
      cases read with
      | error error =>
          cases isCall
          have stepped : balancer.taskStep client .reading (.request stream) =
              some (balancer.setTask client (.ended (.error error)),
                [.replied client replies]) := by
            simp only [Balancer.taskStep, isRequest]
          exact .event isTask stepped rfl (by simp [BalanceObservation.written])
      | ok read =>
          obtain ⟨request, behind⟩ := read
          dsimp only at isCall
          split at isCall
          next => cases isCall
          next some =>
            have positive : 0 < balancer.upstreams.length := Nat.pos_of_ne_zero some
            obtain ⟨middle, isMiddle⟩ : ∃ middle, Balancer.setTask { balancer with
                cursor := (balancer.cursor + 1) % 2 ^ 64 } client (.choosing
                  ⟨request, balancer.cursor % balancer.upstreams.length, true, 0, none⟩) = middle :=
              ⟨_, rfl⟩
            have stepped : balancer.taskStep client .reading (.request stream) =
                Option.some (middle, [.replied client replies,
                  .started client (balancer.cursor % balancer.upstreams.length)]) := by
              simp only [Balancer.taskStep, isRequest, isMiddle]
            have requested : Undisturbed client balancer middle [] replies :=
              .event isTask stepped rfl (by simp [BalanceObservation.written])
            have isChoosing : middle.tasks[client]? = Option.some (.choosing
                ⟨request, balancer.cursor % balancer.upstreams.length, true, 0, none⟩) := by
              rw [← isMiddle]
              exact List.getElem?_set_self (List.getElem?_eq_some_iff.mp isTask).1
            have sameMarks : middle.upstreams = balancer.upstreams := by
              rw [← isMiddle]
              rfl
            cases isSelected : selectUpstream (outcomes request)
              (balancer.cursor % balancer.upstreams.length) balancer.upstreams with
            | mk selection chosen =>
                rw [isSelected] at isCall
                have isSelection : selectUpstream (outcomes request)
                    (balancer.cursor % balancer.upstreams.length) middle.upstreams =
                      (selection, chosen) := sameMarks.symm ▸ isSelected
                have selected := select_undisturbed (outcomes request) (sameMarks ▸ positive)
                  isChoosing isSelection
                have isNext := getElem?_selected selection isChoosing
                  (afterSelection (selection, chosen))
                have whole := requested.trans selected
                rw [List.nil_append, List.append_nil] at whole
                cases chosen with
                | none =>
                    cases isCall
                    have refused := whole.trans (refuse_undisturbed isNext)
                    rw [List.append_nil, ← isMiddle] at refused
                    cases isError : selection.lastError <;>
                      simpa [Balancer.selected, Balancer.setTask, isError] using refused
                | some chosen =>
                    obtain ⟨index, remote, response⟩ := chosen
                    cases isCall
                    have served :=
                      whole.trans (answer_undisturbed isNext (copyBidirectional behind remote))
                    rw [List.append_nil, ← isMiddle] at served
                    simpa [Balancer.selected, Balancer.setTask] using served

/-- The first upstream is marked down, the second refuses twice, and the first accepts after all. -/
theorem undisturbed_call_second_pass :
    ∃ call : BalancedCall Unit,
      handleBalancedClient (fun _ index => if index = 0 then .ok ((), [5, 0]) else .error ())
        (fun _ _ => .ok ()) [⟨false, 3⟩, ⟨true, 0⟩] 7 connectRequest = some call ∧
      call.dialled = [1, 1, 0] ∧ call.replies = [methodReply, [5, 0]] ∧
      Undisturbed 0
        (⟨[⟨false, 3⟩, ⟨true, 0⟩], 7, [.reading], some 1⟩ : Balancer Unit Unit)
        ⟨[⟨true, 3⟩, ⟨false, 0⟩], 8, [.ended (.ok ())], some 1⟩ [1, 1, 0]
        [methodReply, [5, 0]] := by
  refine ⟨_, rfl, rfl, rfl, ?_⟩
  exact undisturbed_call (fun _ index => if index = 0 then .ok ((), [5, 0]) else .error ())
    (fun _ _ => .ok ()) (⟨[⟨false, 3⟩, ⟨true, 0⟩], 7, [.reading], some 1⟩ : Balancer Unit Unit) 0 rfl
    connectRequest _ rfl

end SmartFecTunnel.Balance
