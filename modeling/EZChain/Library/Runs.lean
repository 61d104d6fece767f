import Mathlib.Tactic.Common

/-!
# Runs of a state machine

A total step function reads its inputs one after another.  A property that every step keeps, as
long as its input meets a condition on the state before it, holds after every such run.
-/

namespace Runs

variable {σ ι : Type*} (step : σ → ι → σ) (condition : σ → ι → Prop)

/-- Every input of a run meets the condition on the state before it. -/
def Along : σ → List ι → Prop
  | _, [] => True
  | state, input :: rest => condition state input ∧ Along (step state input) rest

@[simp]
theorem along_nil (state : σ) : Along step condition state [] := trivial

@[simp]
theorem along_cons {state : σ} {input : ι} {rest : List ι} :
    Along step condition state (input :: rest) ↔
      condition state input ∧ Along step condition (step state input) rest := Iff.rfl

instance instDecidableAlong [∀ state input, Decidable (condition state input)] :
    ∀ (state : σ) (inputs : List ι), Decidable (Along step condition state inputs)
  | _, [] => isTrue trivial
  | state, input :: rest =>
      have := instDecidableAlong (step state input) rest
      inferInstanceAs (Decidable (condition state input ∧ Along step condition _ rest))

variable {step condition}

theorem along_append {state : σ} {inputs others : List ι} :
    Along step condition state (inputs ++ others) ↔
      Along step condition state inputs ∧
        Along step condition (inputs.foldl step state) others := by
  induction inputs generalizing state with
  | nil => simp
  | cons input rest induction => simp [induction, and_assoc]

/-- A condition that always holds is met along every run. -/
theorem along_of_forall (holds : ∀ state input, condition state input) (state : σ)
    (inputs : List ι) : Along step condition state inputs := by
  induction inputs generalizing state with
  | nil => trivial
  | cons input rest induction => exact ⟨holds state input, induction _⟩

/-- Two conditions that are met along a run are met together. -/
theorem Along.and {other : σ → ι → Prop} {state : σ} {inputs : List ι}
    (along : Along step condition state inputs) (along_other : Along step other state inputs) :
    Along step (fun state input => condition state input ∧ other state input) state inputs := by
  induction inputs generalizing state with
  | nil => trivial
  | cons input rest induction =>
      exact ⟨⟨along.1, along_other.1⟩, induction along.2 along_other.2⟩

/-- A condition that an invariant and the allowed inputs imply is met along every allowed run. -/
theorem Along.imp {allowed : σ → ι → Prop} {invariant : σ → Prop}
    (kept : ∀ state input, invariant state → allowed state input → invariant (step state input))
    (implies : ∀ state input, invariant state → allowed state input → condition state input)
    {state : σ} {inputs : List ι} (along : Along step allowed state inputs)
    (initially : invariant state) : Along step condition state inputs := by
  induction inputs generalizing state with
  | nil => trivial
  | cons input rest induction =>
      obtain ⟨input_allowed, rest_allowed⟩ := along
      have later := kept state input initially input_allowed
      exact ⟨implies state input initially input_allowed, induction rest_allowed later⟩

/-- What every step of a run keeps holds at its end. -/
theorem Along.invariant {invariant : σ → Prop}
    (kept : ∀ state input, invariant state → condition state input → invariant (step state input))
    {state : σ} {inputs : List ι} (along : Along step condition state inputs)
    (initially : invariant state) : invariant (inputs.foldl step state) := by
  induction inputs generalizing state with
  | nil => exact initially
  | cons input rest induction =>
      obtain ⟨met, rest_along⟩ := along
      exact induction rest_along (kept state input initially met)

/-- When a state is good exactly if the step into it met the condition, all states of a run are good
exactly if all its steps meet the condition. -/
theorem along_iff_always {allowed : σ → ι → Prop} {invariant good : σ → Prop}
    (kept : ∀ state input, invariant state → allowed state input → condition state input →
      invariant (step state input))
    (good_of_invariant : ∀ state, invariant state → good state)
    (condition_of_good : ∀ state input, invariant state → allowed state input →
      good (step state input) → condition state input)
    {state : σ} {inputs : List ι} (along : Along step allowed state inputs)
    (initially : invariant state) :
    Along step condition state inputs ↔
      ∀ earlier, earlier <+: inputs → good (earlier.foldl step state) := by
  induction inputs generalizing state with
  | nil =>
      refine ⟨fun _ earlier is_nil => ?_, fun _ => trivial⟩
      rw [List.prefix_nil.mp is_nil]
      exact good_of_invariant state initially
  | cons input rest induction =>
      obtain ⟨input_allowed, rest_allowed⟩ := along
      constructor
      · rintro ⟨met, rest_met⟩ earlier begins
        have later := kept state input initially input_allowed met
        cases earlier with
        | nil => exact good_of_invariant state initially
        | cons head earlier =>
            obtain ⟨rfl, rest_begins⟩ := List.cons_prefix_cons.mp begins
            exact (induction rest_allowed later).mp rest_met earlier rest_begins
      · intro all_good
        have met := condition_of_good state input initially input_allowed
          (all_good [input] (List.cons_prefix_cons.mpr ⟨rfl, List.nil_prefix⟩))
        have later := kept state input initially input_allowed met
        refine ⟨met, (induction rest_allowed later).mpr fun earlier rest_begins => ?_⟩
        exact all_good (input :: earlier) (List.cons_prefix_cons.mpr ⟨rfl, rest_begins⟩)

end Runs
