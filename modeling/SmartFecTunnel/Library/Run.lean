import Mathlib.Data.List.Induction

/-!
Contract: runs of deterministic machines that read inputs and emit outputs.

A step is partial: `none` stands for a step without a result (an abort).
`run` threads the state and concatenates the outputs.

Owns:
- `run` and how it splits at a point of the input list;
- `run_induction`, the invariant rule: the invariant may speak about the inputs
  consumed and the outputs emitted so far, and the step case may use that the
  consumed inputs are a prefix of the whole input list;
- `run_invariant`, the same rule for a run that is known to have a result;
- `Along`, what holds before each step of a run, decided by running.
-/

namespace SmartFecTunnel.Library

universe u v w

variable {σ : Type u} {ι : Type v} {ω : Type w}

/-- Feed the inputs in order, starting from `state`. -/
def run (step : σ → ι → Option (σ × List ω)) : σ → List ι → Option (σ × List ω)
  | state, [] => some (state, [])
  | state, input :: rest =>
      (step state input).bind fun first =>
        (run step first.1 rest).map fun last => (last.1, first.2 ++ last.2)

@[simp] theorem run_nil (step : σ → ι → Option (σ × List ω)) (state : σ) :
    run step state [] = some (state, []) := rfl

theorem run_cons (step : σ → ι → Option (σ × List ω)) (state : σ) (input : ι) (rest : List ι) :
    run step state (input :: rest) =
      (step state input).bind fun first =>
        (run step first.1 rest).map fun last => (last.1, first.2 ++ last.2) := rfl

theorem run_append (step : σ → ι → Option (σ × List ω)) (state : σ) (front back : List ι) :
    run step state (front ++ back) =
      (run step state front).bind fun first =>
        (run step first.1 back).map fun last => (last.1, first.2 ++ last.2) := by
  induction front generalizing state with
  | nil => simp
  | cons input rest inductionHypothesis =>
      simp only [List.cons_append, run_cons]
      cases step state input with
      | none => rfl
      | some first =>
          simp only [Option.bind_some, inductionHypothesis]
          cases run step first.1 rest with
          | none => rfl
          | some middle =>
              simp only [Option.bind_some, Option.map_some]
              cases run step middle.1 back with
              | none => rfl
              | some last => simp

/-- One more input after a run that has a result. -/
theorem run_snoc {step : σ → ι → Option (σ × List ω)} {start state next : σ} {past : List ι}
    {outputs emitted : List ω} {input : ι} (ran : run step start past = some (state, outputs))
    (stepped : step state input = some (next, emitted)) :
    run step start (past ++ [input]) = some (next, outputs ++ emitted) := by
  rw [run_append, ran]
  simp [run_cons, stepped]

/-- The invariant rule.  `Inv past outputs state` holds at the start and is
carried over every step whose input extends `past` inside `inputs`; then the
run over `inputs` has a result and the result satisfies the invariant. -/
theorem run_induction (step : σ → ι → Option (σ × List ω)) (start : σ) (inputs : List ι)
    (Inv : List ι → List ω → σ → Prop) (initial : Inv [] [] start)
    (preserved : ∀ past input outputs state, past ++ [input] <+: inputs →
      run step start past = some (state, outputs) → Inv past outputs state →
      ∃ next emitted, step state input = some (next, emitted) ∧
        Inv (past ++ [input]) (outputs ++ emitted) next) :
    ∃ state outputs, run step start inputs = some (state, outputs) ∧ Inv inputs outputs state := by
  suffices reach : ∀ past, past <+: inputs →
      ∃ state outputs, run step start past = some (state, outputs) ∧ Inv past outputs state from
    reach inputs List.prefix_rfl
  intro past
  induction past using List.reverseRecOn with
  | nil => exact fun _ => ⟨start, [], rfl, initial⟩
  | append_singleton past input inductionHypothesis =>
      intro isPrefix
      have shorter : past <+: inputs := (List.prefix_append past [input]).trans isPrefix
      obtain ⟨state, outputs, ran, holds⟩ := inductionHypothesis shorter
      obtain ⟨next, emitted, stepped, nextHolds⟩ :=
        preserved past input outputs state isPrefix ran holds
      exact ⟨next, outputs ++ emitted, run_snoc ran stepped, nextHolds⟩

/-- A run over a first input and more is one step and a run over the others. -/
theorem run_cons_inv {step : σ → ι → Option (σ × List ω)} {start last : σ} {input : ι}
    {rest : List ι} {outputs : List ω} (ran : run step start (input :: rest) = some (last, outputs)) :
    ∃ next emitted later, step start input = some (next, emitted) ∧
      run step next rest = some (last, later) ∧ outputs = emitted ++ later := by
  rw [run_cons] at ran
  obtain ⟨⟨next, emitted⟩, stepped, isRest⟩ := Option.bind_eq_some_iff.mp ran
  obtain ⟨⟨final, later⟩, ranRest, isLast⟩ := Option.map_eq_some_iff.mp isRest
  cases isLast
  exact ⟨next, emitted, later, stepped, ranRest, rfl⟩

/-- A run over one more input is a run over the others and one step. -/
theorem run_snoc_inv {step : σ → ι → Option (σ × List ω)} {start last : σ} {past : List ι}
    {input : ι} {outputs : List ω} (ran : run step start (past ++ [input]) = some (last, outputs)) :
    ∃ state before emitted, run step start past = some (state, before) ∧
      step state input = some (last, emitted) ∧ outputs = before ++ emitted := by
  rw [run_append] at ran
  obtain ⟨⟨state, before⟩, ranPast, isRest⟩ := Option.bind_eq_some_iff.mp ran
  obtain ⟨⟨final, emitted⟩, ranLast, isLast⟩ := Option.map_eq_some_iff.mp isRest
  obtain ⟨⟨next, first⟩, stepped, isNil⟩ := Option.bind_eq_some_iff.mp ranLast
  cases isNil
  cases isLast
  refine ⟨state, before, first, ranPast, stepped, ?_⟩
  rw [List.append_nil]

/-- The input after a front part is one of the inputs. -/
theorem mem_of_front {front inputs : List ι} {input : ι} (isPrefix : front ++ [input] <+: inputs) :
    input ∈ inputs :=
  isPrefix.subset List.mem_concat_self

/-- What holds of any two inputs in order holds of those of a front part and the next one. -/
theorem earlier_of_front {relation : ι → ι → Prop} {front inputs : List ι} {input : ι}
    (pairs : inputs.Pairwise relation) (isPrefix : front ++ [input] <+: inputs) :
    ∀ earlier ∈ front, relation earlier input := by
  have both := List.pairwise_append.mp (pairs.sublist isPrefix.sublist)
  intro earlier member
  exact both.2.2 earlier member input (List.mem_singleton_self _)

/-- An item of a list with one more is one of the list or the last. -/
theorem getElem?_snoc {items : List ι} {last item : ι} {position : Nat}
    (found : (items ++ [last])[position]? = some item) :
    items[position]? = some item ∨ (position = items.length ∧ item = last) := by
  rcases Nat.lt_trichotomy position items.length with below | same | above
  · rw [List.getElem?_append_left below] at found
    exact Or.inl found
  · rw [same, List.getElem?_concat_length] at found
    exact Or.inr ⟨same, (Option.some.inj found).symm⟩
  · have within := (List.getElem?_eq_some_iff.mp found).1
    rw [List.length_append, List.length_singleton] at within
    omega

/-- The one item of a list has nothing in front of it. -/
theorem front_singleton {front : List ι} {item only : ι} (isPrefix : front ++ [item] <+: [only]) :
    front = [] ∧ item = only := by
  have short := isPrefix.length_le
  rw [List.length_append, List.length_singleton, List.length_singleton] at short
  have noFront : front = [] := List.eq_nil_of_length_eq_zero (by omega)
  rw [noFront, List.nil_append] at isPrefix
  exact ⟨noFront, (List.singleton_inj.mp (isPrefix.eq_of_length rfl))⟩

/-- What holds of every item behind its front, when more items follow. -/
theorem front_append {property : List ι → ι → Prop} {past more : List ι}
    (old : ∀ front item, front ++ [item] <+: past → property front item)
    (new : ∀ front item, front ++ [item] <+: more → property (past ++ front) item) :
    ∀ front item, front ++ [item] <+: past ++ more → property front item := by
  induction more using List.reverseRecOn with
  | nil => rwa [List.append_nil]
  | append_singleton more last inductionHypothesis =>
      intro front item isPrefix
      rw [← List.append_assoc] at isPrefix
      rcases List.prefix_concat_iff.mp isPrefix with whole | shorter
      · obtain ⟨rfl, same⟩ := List.append_inj' whole rfl
        cases same
        exact new _ _ List.prefix_rfl
      · apply inductionHypothesis _ front item shorter
        intro earlier other inMore
        exact new earlier other (inMore.trans (List.prefix_append _ _))

/-- A run with a result has one after every part of its inputs. -/
theorem run_of_prefix {step : σ → ι → Option (σ × List ω)} {start last : σ}
    {front inputs : List ι} {outputs : List ω} (isPrefix : front <+: inputs)
    (ran : run step start inputs = some (last, outputs)) :
    ∃ state before, run step start front = some (state, before) := by
  obtain ⟨back, rfl⟩ := isPrefix
  rw [run_append] at ran
  obtain ⟨⟨state, before⟩, ranFront, _⟩ := Option.bind_eq_some_iff.mp ran
  exact ⟨state, before, ranFront⟩

/-- The invariant rule for a run with a result. -/
theorem run_invariant {step : σ → ι → Option (σ × List ω)} {start state : σ} {inputs : List ι}
    {outputs : List ω} (ran : run step start inputs = some (state, outputs))
    (Inv : List ι → List ω → σ → Prop) (initial : Inv [] [] start)
    (preserved : ∀ past input outputs state next emitted, past ++ [input] <+: inputs →
      run step start past = some (state, outputs) → step state input = some (next, emitted) →
      Inv past outputs state → Inv (past ++ [input]) (outputs ++ emitted) next) :
    Inv inputs outputs state := by
  suffices reach : ∀ past state outputs, past <+: inputs →
      run step start past = some (state, outputs) → Inv past outputs state from
    reach inputs state outputs List.prefix_rfl ran
  intro past
  induction past using List.reverseRecOn with
  | nil =>
      intro state outputs _ ranNil
      cases ranNil
      exact initial
  | append_singleton past input inductionHypothesis =>
      intro last outputs isPrefix ranLast
      obtain ⟨state, before, emitted, ranPast, stepped, rfl⟩ := run_snoc_inv ranLast
      have shorter : past <+: inputs := (List.prefix_append past [input]).trans isPrefix
      exact preserved past input before state last emitted isPrefix ranPast stepped
        (inductionHypothesis state before shorter ranPast)

/-! ### What holds before each step -/

/-- Each input has the property, with the state and the outputs before it. -/
def Along (step : σ → ι → Option (σ × List ω)) (start : σ) (property : σ → List ω → ι → Prop)
    (inputs : List ι) : Prop :=
  ∀ front input state outputs, front ++ [input] <+: inputs →
    run step start front = some (state, outputs) → property state outputs input

theorem along_nil (step : σ → ι → Option (σ × List ω)) (start : σ)
    (property : σ → List ω → ι → Prop) : Along step start property [] := by
  intro front input state outputs isPrefix
  exact absurd (List.prefix_nil.mp isPrefix) (by simp)

theorem along_cons {step : σ → ι → Option (σ × List ω)} {start : σ}
    {property : σ → List ω → ι → Prop} {input : ι} {rest : List ι} :
    Along step start property (input :: rest) ↔ property start [] input ∧
      ∀ first, step start input = some first →
        Along step first.1 (fun state outputs => property state (first.2 ++ outputs)) rest := by
  constructor
  · intro along
    refine ⟨along [] input start [] (List.prefix_append _ _) rfl, ?_⟩
    intro first stepped front next state outputs isPrefix ran
    apply along (input :: front) next state (first.2 ++ outputs)
    · exact (List.prefix_cons_inj input).mpr isPrefix
    · rw [run_cons, stepped, Option.bind_some, ran]
      rfl
  · rintro ⟨first, later⟩ front next state outputs isPrefix ran
    cases front with
    | nil =>
        cases ran
        obtain ⟨_, same⟩ := isPrefix
        cases same
        exact first
    | cons head front =>
        rw [List.cons_append, List.cons_prefix_cons] at isPrefix
        obtain ⟨rfl, isPrefix⟩ := isPrefix
        obtain ⟨middle, emitted, more, stepped, ranRest, rfl⟩ := run_cons_inv ran
        exact later (middle, emitted) stepped front next state more isPrefix ranRest

instance decidableAlong (step : σ → ι → Option (σ × List ω)) :
    (start : σ) → (property : σ → List ω → ι → Prop) →
      [∀ state outputs input, Decidable (property state outputs input)] →
      (inputs : List ι) → Decidable (Along step start property inputs)
  | start, property, _, [] => isTrue (along_nil step start property)
  | start, property, _, input :: rest =>
    match isStep : step start input with
    | none => decidable_of_iff (property start [] input) (by simp [along_cons, isStep])
    | some first =>
      have : Decidable (Along step first.1
          (fun state outputs => property state (first.2 ++ outputs)) rest) :=
        decidableAlong step first.1 (fun state outputs => property state (first.2 ++ outputs)) rest
      decidable_of_iff (property start [] input ∧ Along step first.1
        (fun state outputs => property state (first.2 ++ outputs)) rest)
        (by simp [along_cons, isStep])

end SmartFecTunnel.Library
