import Mathlib.Data.List.Basic

/-!
# Runs of deterministic step functions

A component is a step function on a state type; an execution is the left fold of the
events that reach it.  This module packages the two inductions every execution argument
needs: an invariant of one step is an invariant of every run, and a step-by-step simulation
of one component by another lifts to whole runs.  `AllSteps` states a side condition on each
step in the state that step starts from, and is transported along a simulation as well.
-/

namespace PqMqtt.Run

variable {σ τ ε δ : Type*}

/-- State reached after a finite sequence of events. -/
def run (step : σ → ε → σ) (start : σ) (events : List ε) : σ :=
  events.foldl step start

/-- A condition met by every step of a run, in the state from which that step is taken. -/
def AllSteps (step : σ → ε → σ) (condition : σ → ε → Prop) : σ → List ε → Prop
  | _, [] => True
  | state, event :: events =>
      condition state event ∧ AllSteps step condition (step state event) events

instance decidableAllSteps (step : σ → ε → σ) (condition : σ → ε → Prop)
    [∀ state event, Decidable (condition state event)] :
    ∀ start events, Decidable (AllSteps step condition start events)
  | _, [] => instDecidableTrue
  | state, event :: events =>
    @instDecidableAnd _ _ inferInstance (decidableAllSteps step condition (step state event) events)

/-- Abstract events performed by a concrete run, in order. -/
def trace (step : σ → ε → σ) (perform : σ → ε → List δ) : σ → List ε → List δ
  | _, [] => []
  | state, event :: events =>
      perform state event ++ trace step perform (step state event) events

@[simp]
theorem run_nil (step : σ → ε → σ) (start : σ) : run step start [] = start := rfl

@[simp]
theorem run_cons (step : σ → ε → σ) (start : σ) (event : ε) (events : List ε) :
    run step start (event :: events) = run step (step start event) events := rfl

theorem run_append (step : σ → ε → σ) (start : σ) (first second : List ε) :
    run step start (first ++ second) = run step (run step start first) second :=
  List.foldl_append

theorem trace_append (step : σ → ε → σ) (perform : σ → ε → List δ) (start : σ)
    (first second : List ε) :
    trace step perform start (first ++ second) =
      trace step perform start first ++ trace step perform (run step start first) second := by
  induction first generalizing start with
  | nil => rfl
  | cons event events ih => rw [List.cons_append, trace, ih, trace, List.append_assoc, run_cons]

@[simp]
theorem allSteps_nil (step : σ → ε → σ) (condition : σ → ε → Prop) (state : σ) :
    AllSteps step condition state [] := trivial

@[simp]
theorem allSteps_cons (step : σ → ε → σ) (condition : σ → ε → Prop) (state : σ)
    (event : ε) (events : List ε) :
    AllSteps step condition state (event :: events) ↔
      condition state event ∧ AllSteps step condition (step state event) events := Iff.rfl

theorem allSteps_append (step : σ → ε → σ) (condition : σ → ε → Prop) (state : σ)
    (first second : List ε) :
    AllSteps step condition state (first ++ second) ↔
      AllSteps step condition state first ∧
        AllSteps step condition (run step state first) second := by
  induction first generalizing state with
  | nil => simp
  | cons event events ih => simp only [List.cons_append, allSteps_cons, run_cons, ih, and_assoc]

/-- An event that changes nothing may be repeated. -/
theorem allSteps_replicate {step : σ → ε → σ} {condition : σ → ε → Prop} {state : σ} {event : ε}
    (hfixed : step state event = state) (hcondition : condition state event) (count : ℕ) :
    AllSteps step condition state (List.replicate count event) := by
  induction count with
  | zero => trivial
  | succ count ih =>
    rw [List.replicate_succ, allSteps_cons, hfixed]
    exact ⟨hcondition, ih⟩

/-- A property that every step keeps holds of every state a run reaches. -/
theorem run_invariant {step : σ → ε → σ} {invariant : σ → Prop} {start : σ}
    (hstart : invariant start)
    (hstep : ∀ state event, invariant state → invariant (step state event))
    (events : List ε) : invariant (run step start events) := by
  induction events generalizing start with
  | nil => exact hstart
  | cons event events ih => exact ih (hstep start event hstart)

/-- A property kept by every step that meets a condition holds at the end of a run whose steps all
meet it. -/
theorem run_of_allSteps {step : σ → ε → σ} {condition : σ → ε → Prop} {property : σ → Prop}
    (hstep : ∀ state event, property state → condition state event → property (step state event))
    {start : σ} (hstart : property start) {events : List ε}
    (h : AllSteps step condition start events) : property (run step start events) := by
  induction events generalizing start with
  | nil => exact hstart
  | cons event events ih => exact ih (hstep start event hstart h.1) h.2

/-- A measure that every step lowers is used up after as many steps. -/
theorem measure_run_le {step : σ → ε → σ} {condition : σ → ε → Prop} {invariant : σ → Prop}
    (measure : σ → ℕ)
    (hstep : ∀ state event, invariant state → condition state event →
      invariant (step state event) ∧ measure (step state event) ≤ measure state - 1)
    {start : σ} (hstart : invariant start) {events : List ε}
    (h : AllSteps step condition start events) :
    measure (run step start events) ≤ measure start - events.length := by
  induction events generalizing start with
  | nil => exact Nat.le_refl _
  | cons event events ih =>
    obtain ⟨hinvariant, hlower⟩ := hstep start event hstart h.1
    have hrest := ih hinvariant h.2
    rw [run_cons, List.length_cons]
    omega

/-- On states that satisfy an invariant, a property that each step keeps exactly when it meets a
condition holds at the end of a run exactly when it held at the start and every step met the
condition. -/
theorem run_iff_allSteps_of_invariant {step : σ → ε → σ} {invariant property : σ → Prop}
    {condition : σ → ε → Prop}
    (hinvariant : ∀ state event, invariant state → invariant (step state event))
    (hstep : ∀ state event, invariant state →
      (property (step state event) ↔ property state ∧ condition state event))
    {start : σ} (hstart : invariant start) (events : List ε) :
    property (run step start events) ↔ property start ∧ AllSteps step condition start events := by
  induction events generalizing start with
  | nil => simp
  | cons event events ih =>
    calc property (run step start (event :: events))
        ↔ property (step start event) ∧
            AllSteps step condition (step start event) events := ih (hinvariant start event hstart)
      _ ↔ property start ∧ AllSteps step condition start (event :: events) := by
        rw [hstep start event hstart, and_assoc, allSteps_cons]

/-- A property that each step keeps exactly when it meets a condition holds at the end of a run
exactly when it held at the start and every step met the condition. -/
theorem run_iff_allSteps {step : σ → ε → σ} {condition : σ → ε → Prop} {property : σ → Prop}
    (hstep : ∀ state event, property (step state event) ↔
      property state ∧ condition state event)
    (start : σ) (events : List ε) :
    property (run step start events) ↔ property start ∧ AllSteps step condition start events :=
  have hinvariant : ∀ (_ : σ) (_ : ε), True → True := fun _ _ _ ↦ trivial
  run_iff_allSteps_of_invariant hinvariant (fun state event _ ↦ hstep state event) trivial events

/-- A relation to what was performed so far that every step keeps holds at the end of a run. -/
theorem run_trace_invariant {step : σ → ε → σ} {perform : σ → ε → List δ}
    {related : σ → List δ → Prop}
    (hstep : ∀ state performed event, related state performed →
      related (step state event) (performed ++ perform state event))
    {start : σ} (hstart : related start []) (events : List ε) :
    related (run step start events) (trace step perform start events) := by
  have hrun : ∀ (events : List ε) {state : σ} {performed : List δ}, related state performed →
      related (run step state events) (performed ++ trace step perform state events) := by
    intro events
    induction events with
    | nil =>
      intro state performed h
      rwa [trace, List.append_nil]
    | cons event events ih =>
      intro state performed h
      rw [trace, ← List.append_assoc]
      exact ih (hstep state performed event h)
  exact hrun events hstart

/-- What a repeated event leaves alone in every step, it leaves alone in the run. -/
theorem run_replicate_eq {step : σ → ε → σ} {event : ε} (view : σ → δ)
    (h : ∀ state, view (step state event) = view state) (start : σ) (count : ℕ) :
    view (run step start (List.replicate count event)) = view start := by
  induction count generalizing start with
  | zero => rfl
  | succ count ih => rw [List.replicate_succ, run_cons, ih, h]

/-- What a repeated event adds in every step, it adds in the run once for each step. -/
theorem run_replicate_add {step : σ → ε → σ} {event : ε} (measure : σ → ℕ) {amount : ℕ}
    (h : ∀ state, measure (step state event) = measure state + amount) (start : σ) (count : ℕ) :
    measure (run step start (List.replicate count event)) = measure start + count * amount := by
  induction count generalizing start with
  | zero => rw [List.replicate_zero, run_nil, Nat.zero_mul, Nat.add_zero]
  | succ count ih =>
    rw [List.replicate_succ, run_cons, ih, h, Nat.succ_mul]
    omega

section Simulation

variable {step : σ → ε → σ} {abstractStep : τ → δ → τ} {perform : σ → ε → List δ}
  {related : σ → τ → Prop}

/-- Step-by-step simulation lifts to runs: the abstract component follows the trace. -/
theorem run_simulation
    (hstep : ∀ state abstract event, related state abstract →
      related (step state event) (run abstractStep abstract (perform state event)))
    {start : σ} {abstract : τ} (hstart : related start abstract) (events : List ε) :
    related (run step start events)
      (run abstractStep abstract (trace step perform start events)) := by
  induction events generalizing start abstract with
  | nil => exact hstart
  | cons event events ih =>
    rw [run_cons, trace, run_append]
    exact ih (hstep start abstract event hstart)

/-- A step condition that agrees with the abstract one on related states agrees along runs. -/
theorem allSteps_trace_iff {condition : σ → ε → Prop} {abstractCondition : τ → δ → Prop}
    (hstep : ∀ state abstract event, related state abstract →
      related (step state event) (run abstractStep abstract (perform state event)))
    (hcondition : ∀ state abstract event, related state abstract →
      (condition state event ↔
        AllSteps abstractStep abstractCondition abstract (perform state event)))
    {start : σ} {abstract : τ} (hstart : related start abstract) (events : List ε) :
    AllSteps step condition start events ↔
      AllSteps abstractStep abstractCondition abstract
        (trace step perform start events) := by
  induction events generalizing start abstract with
  | nil => simp [trace]
  | cons event events ih =>
    rw [allSteps_cons, trace, allSteps_append, hcondition start abstract event hstart,
      ih (hstep start abstract event hstart)]

end Simulation

end PqMqtt.Run
