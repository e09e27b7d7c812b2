import SmartFecTunnel.Library.Run

/-!
Contract: one party of a machine that many share.

A party takes some of the inputs, and some of the outputs are its own.  Where an
input that it does not take leaves its part of the state alone, it is served as
if it had the machine for itself.

Owns: the inputs that are taken in a run, and the rule that leads from one step
to a whole run.
-/

namespace SmartFecTunnel.Library

universe u v w

variable {σ : Type u} {ι : Type v} {ω : Type w}

/-- The inputs of a run that are taken in the states they meet. -/
def taken (step : σ → ι → Option (σ × List ω)) (takes : σ → ι → Bool) : σ → List ι → List ι
  | _, [] => []
  | state, input :: rest =>
    match step state input with
    | none => []
    | some (next, _) =>
      if takes state input then input :: taken step takes next rest
      else taken step takes next rest

/-- What is taken is a part of the inputs that could be. -/
theorem taken_sublist {step : σ → ι → Option (σ × List ω)} {takes : σ → ι → Bool}
    {could : ι → Bool} (only : ∀ state input, takes state input = true → could input = true)
    (state : σ) (inputs : List ι) : (taken step takes state inputs).Sublist (inputs.filter could) := by
  induction inputs generalizing state with
  | nil => exact List.Sublist.slnil
  | cons input rest inductionHypothesis =>
      rw [taken]
      split
      next => exact List.nil_sublist _
      next next outputs stepped =>
        split
        next takesIt =>
          rw [List.filter_cons_of_pos (only state input takesIt)]
          exact (inductionHypothesis next).cons_cons input
        next =>
          refine (inductionHypothesis next).trans ?_
          exact (List.sublist_cons_self input rest).filter could

/-- Where every input that could be taken is, nothing is lost. -/
theorem taken_eq_filter {step : σ → ι → Option (σ × List ω)} {takes : σ → ι → Bool}
    {could : ι → Bool} {start last : σ} {inputs : List ι} {outputs : List ω}
    (ran : run step start inputs = some (last, outputs))
    (all : ∀ front input state before, front ++ [input] <+: inputs →
      run step start front = some (state, before) → takes state input = could input) :
    taken step takes start inputs = inputs.filter could := by
  induction inputs generalizing start outputs with
  | nil => rfl
  | cons input rest inductionHypothesis =>
      obtain ⟨next, emitted, later, stepped, ranRest, rfl⟩ := run_cons_inv ran
      have first := all [] input start [] (List.prefix_append [input] rest) rfl
      have others := inductionHypothesis ranRest fun front other state before isPrefix ranFront => by
        apply all (input :: front) other state (emitted ++ before)
        · exact (List.prefix_cons_inj input).mpr isPrefix
        · rw [run_cons, stepped, Option.bind_some, ranFront]
          rfl
      rw [taken, stepped]
      dsimp only
      rw [first, others, List.filter_cons]

/-- How the shared machine and one that the party has for itself go together. -/
structure Unwinds (step : σ → ι → Option (σ × List ω)) (takes : σ → ι → Bool) (own : ω → Bool)
    (Agree : σ → σ → Prop) : Prop where
  taken : ∀ shared alone input next outputs, Agree shared alone →
    step shared input = some (next, outputs) → takes shared input = true →
    ∃ after, step alone input = some (after, outputs.filter own) ∧ Agree next after
  ignored : ∀ shared alone input next outputs, Agree shared alone →
    step shared input = some (next, outputs) → takes shared input = false →
    Agree next alone ∧ outputs.filter own = []

/-- The party's own run has the inputs that it takes, and puts out its own outputs. -/
theorem Unwinds.run {step : σ → ι → Option (σ × List ω)} {takes : σ → ι → Bool} {own : ω → Bool}
    {Agree : σ → σ → Prop} (unwinds : Unwinds step takes own Agree) {shared alone last : σ}
    {inputs : List ι} {outputs : List ω} (agree : Agree shared alone)
    (ran : Library.run step shared inputs = some (last, outputs)) :
    ∃ after, Library.run step alone (Library.taken step takes shared inputs) =
      some (after, outputs.filter own) ∧ Agree last after := by
  induction inputs generalizing shared alone outputs with
  | nil =>
      cases ran
      exact ⟨alone, rfl, agree⟩
  | cons input rest inductionHypothesis =>
      obtain ⟨next, emitted, later, stepped, ranRest, rfl⟩ := run_cons_inv ran
      rw [Library.taken, stepped, List.filter_append]
      dsimp only
      cases takesIt : takes shared input with
      | true =>
          obtain ⟨middle, ownStep, agreeNext⟩ :=
            unwinds.taken shared alone input next emitted agree stepped takesIt
          obtain ⟨after, ownRun, agreeLast⟩ := inductionHypothesis agreeNext ranRest
          refine ⟨after, ?_, agreeLast⟩
          rw [if_pos rfl, run_cons, ownStep, Option.bind_some, ownRun]
          rfl
      | false =>
          have ⟨agreeNext, noOutput⟩ :=
            unwinds.ignored shared alone input next emitted agree stepped takesIt
          obtain ⟨after, ownRun, agreeLast⟩ := inductionHypothesis agreeNext ranRest
          refine ⟨after, ?_, agreeLast⟩
          rw [if_neg Bool.false_ne_true, ownRun, noOutput, List.nil_append]

end SmartFecTunnel.Library
