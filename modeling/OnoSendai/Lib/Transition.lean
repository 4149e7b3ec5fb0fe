import Mathlib.Data.List.Basic

/-!
# Transition systems

A system is given by what one step does: a partial function from a state and a label to the next
state. A state is reached by a run whose steps all meet a condition on the state before them; what
every such step keeps holds in every state reached.

## Main definitions

* `Transition`, `Transition.run` — a system, and what a list of labels does to a state;
* `Transition.Reached` — the states of the runs whose steps all meet a condition;
* `Along` — a condition on each of a list of total steps, in the state before it.

## Main results

* `Transition.Reached.invariant` — invariance along every run;
* `Along.invariant` — invariance along a list of steps.
-/

namespace Interaction

/-- A system: what a step does, where it can be taken. -/
structure Transition (σ ε : Type*) where
  next : σ → ε → Option σ

namespace Transition

variable {σ ε : Type*} (T : Transition σ ε)

/-- The state after a list of steps, where all of them can be taken. -/
def run : σ → List ε → Option σ
  | state, [] => some state
  | state, label :: labels => (T.next state label).bind fun next => run next labels

/-- The states of the runs from an initial state whose steps all meet `allowed` in the state
before them. -/
inductive Reached (initial : σ → Prop) (allowed : σ → ε → Prop) : σ → Prop
  | start {state : σ} (h : initial state) : Reached initial allowed state
  | step {state next : σ} (label : ε) (before : Reached initial allowed state)
      (meets : allowed state label) (taken : T.next state label = some next) :
      Reached initial allowed next

variable {T} {initial : σ → Prop} {allowed : σ → ε → Prop} {state : σ}

/-- **Invariance.** What holds initially and is kept by every step that meets the condition holds
in every state reached. -/
theorem Reached.invariant {inv : σ → Prop} (h : T.Reached initial allowed state)
    (hinitial : ∀ state, initial state → inv state)
    (hstep : ∀ state next label, inv state → allowed state label →
      T.next state label = some next → inv next) : inv state := by
  induction h with
  | start hstart => exact hinitial _ hstart
  | step label _ hmeets htaken ih => exact hstep _ _ _ ih hmeets htaken

/-- A run whose labels are all permitted in every state reaches its last state. -/
theorem Reached.of_run (labels : List ε) {final : σ} (h : T.Reached initial allowed state)
    (hallowed : ∀ state, ∀ label ∈ labels, allowed state label)
    (hrun : T.run state labels = some final) : T.Reached initial allowed final := by
  induction labels generalizing state with
  | nil => exact Option.some.inj hrun ▸ h
  | cons label labels ih =>
    rw [run, Option.bind_eq_some_iff] at hrun
    obtain ⟨next, htaken, hrun⟩ := hrun
    exact ih (.step label h (hallowed state label List.mem_cons_self) htaken)
      (fun state label hmem => hallowed state label (List.mem_cons_of_mem _ hmem)) hrun

end Transition

/-! ### Total steps -/

section Along

variable {σ ε : Type*} {step : σ → ε → σ} {meets : σ → ε → Prop}

/-- Every step of a list meets a condition in the state before it. -/
def Along (step : σ → ε → σ) (meets : σ → ε → Prop) : List ε → σ → Prop
  | [], _ => True
  | first :: rest, state => meets state first ∧ Along step meets rest (step state first)

/-- What every step that meets the condition keeps is kept by a list of such steps. -/
theorem Along.invariant {inv : σ → Prop} {labels : List ε} {state : σ}
    (h : Along step meets labels state) (hstart : inv state)
    (hstep : ∀ state, ∀ label ∈ labels, inv state → meets state label → inv (step state label)) :
    inv (labels.foldl step state) := by
  induction labels generalizing state with
  | nil => exact hstart
  | cons first rest ih =>
    exact ih h.2 (hstep state first List.mem_cons_self hstart h.1) fun state label hmem =>
      hstep state label (List.mem_cons_of_mem _ hmem)

theorem Along.of_append_cons {before after : List ε} {label : ε} {state : σ}
    (h : Along step meets (before ++ label :: after) state) :
    meets (before.foldl step state) label := by
  induction before generalizing state with
  | nil => exact h.1
  | cons first rest ih => exact ih h.2

end Along

end Interaction
