import Mathlib

/-!
# Runs, invariants and simulation

A run is guarded when every input meets a condition on the state it arrives in.
-/

namespace Simulation

section
variable {ι σ ρ : Type}

def finalState (next : ι → σ → σ) : List ι → σ → σ
  | [], state => state
  | input :: rest, state => finalState next rest (next input state)

def replies (step : ι → σ → ρ × σ) : List ι → σ → List ρ
  | [], _ => []
  | input :: rest, state => (step input state).1 :: replies step rest (step input state).2

def Guarded (next : ι → σ → σ) (guard : ι → σ → Prop) : List ι → σ → Prop
  | [], _ => True
  | input :: rest, state => guard input state ∧ Guarded next guard rest (next input state)

instance decidableGuarded (next : ι → σ → σ) (guard : ι → σ → Prop)
    [∀ input state, Decidable (guard input state)] :
    ∀ inputs state, Decidable (Guarded next guard inputs state)
  | [], _ => inferInstanceAs (Decidable True)
  | input :: rest, state =>
    have := decidableGuarded next guard rest (next input state)
    inferInstanceAs (Decidable (guard input state ∧ _))

theorem finalState_append (next : ι → σ → σ) (first second : List ι) (state : σ) :
    finalState next (first ++ second) state =
      finalState next second (finalState next first state) := by
  induction first generalizing state with
  | nil => rfl
  | cons input first ih => exact ih (next input state)

variable {inputs : List ι} {next : ι → σ → σ} {guard : ι → σ → Prop}

variable {state : σ} {invariant : σ → Prop}

/-- What every guarded step preserves holds at the end of every guarded run. -/
theorem invariant_finalState
    (hstep : ∀ input state, invariant state → guard input state → invariant (next input state))
    (hstart : invariant state) (hguarded : Guarded next guard inputs state) :
    invariant (finalState next inputs state) := by
  induction inputs generalizing state with
  | nil => exact hstart
  | cons input rest ih => exact ih (hstep input state hstart hguarded.1) hguarded.2

theorem Guarded.of_invariant {guard goal : ι → σ → Prop}
    (hstep : ∀ input state, invariant state → guard input state →
      goal input state ∧ invariant (next input state)) (hstart : invariant state)
    (hguarded : Guarded next guard inputs state) : Guarded next goal inputs state := by
  induction inputs generalizing state with
  | nil => exact trivial
  | cons input rest ih =>
    obtain ⟨hgoal, hnext⟩ := hstep input state hstart hguarded.1
    exact ⟨hgoal, ih hnext hguarded.2⟩

theorem Guarded.of_forall (hguard : ∀ input state, guard input state) (inputs : List ι)
    (state : σ) : Guarded next guard inputs state := by
  induction inputs generalizing state with
  | nil => exact trivial
  | cons input rest ih => exact ⟨hguard input state, ih _⟩

/-- A run of at most `limit` allowed inputs is guarded when what holds after a
number of steps implies the guard and holds one step later. -/
theorem Guarded.of_budget {allowed : ι → Prop} (invariant : Nat → σ → Prop) {limit : Nat}
    (hstep : ∀ input state used, used < limit → invariant used state → allowed input →
      guard input state ∧ invariant (used + 1) (next input state)) (used : Nat)
    (hallowed : ∀ input ∈ inputs, allowed input) (hlimit : used + inputs.length ≤ limit)
    (hstart : invariant used state) : Guarded next guard inputs state := by
  induction inputs generalizing state used with
  | nil => exact trivial
  | cons input rest ih =>
    rw [List.length_cons] at hlimit
    obtain ⟨hguard, hnext⟩ := hstep input state used (by omega) hstart (hallowed input (by simp))
    exact ⟨hguard, ih (used + 1) (fun other hmem => hallowed other (by simp [hmem])) (by omega) hnext⟩

end

variable {ι σ α ρ : Type}

/-- Every answer of the machine is one that the abstract machine allows in the
abstract state reached so far. -/
def Conforms (step : ι → σ → ρ × σ) (next : ι → α → α) (allows : ι → α → ρ → Prop) :
    List ι → σ → α → Prop
  | [], _, _ => True
  | input :: rest, state, model =>
    allows input model (step input state).1 ∧
      Conforms step next allows rest (step input state).2 (next input model)

def Simulates (step : ι → σ → ρ × σ) (next : ι → α → α) (allows : ι → α → ρ → Prop)
    (guard : ι → α → Prop) (related : σ → α → Prop) : Prop :=
  ∀ input state model, related state model → guard input model →
    allows input model (step input state).1 ∧ related (step input state).2 (next input model)

variable {step : ι → σ → ρ × σ} {next : ι → α → α} {allows : ι → α → ρ → Prop}
  {guard : ι → α → Prop} {related : σ → α → Prop}

variable {inputs : List ι}

variable {model : α}

theorem Simulates.conforms (hsimulates : Simulates step next allows guard related) {state : σ}
    (hrelated : related state model) (hguarded : Guarded next guard inputs model) :
    Conforms step next allows inputs state model := by
  induction inputs generalizing state model with
  | nil => exact trivial
  | cons input rest ih =>
    obtain ⟨hallows, hnext⟩ := hsimulates input state model hrelated hguarded.1
    exact ⟨hallows, ih hnext hguarded.2⟩

theorem Conforms.map {next' : ι → β → β} {allows' : ι → β → ρ → Prop} (forget : α → β)
    (hnext : ∀ input model, forget (next input model) = next' input (forget model))
    (hallows : ∀ input model reply, allows input model reply → allows' input (forget model) reply)
    {state : σ} (hconforms : Conforms step next allows inputs state model) :
    Conforms step next' allows' inputs state (forget model) := by
  induction inputs generalizing state model with
  | nil => exact trivial
  | cons input rest ih =>
    refine ⟨hallows _ _ _ hconforms.1, ?_⟩
    rw [← hnext]
    exact ih hconforms.2

theorem Simulates.finalState (hsimulates : Simulates step next allows guard related) {state : σ}
    (hrelated : related state model) (hguarded : Guarded next guard inputs model) :
    related (Simulation.finalState (fun input state => (step input state).2) inputs state)
      (Simulation.finalState next inputs model) := by
  induction inputs generalizing state model with
  | nil => exact hrelated
  | cons input rest ih =>
    exact ih (hsimulates input state model hrelated hguarded.1).2 hguarded.2

end Simulation
