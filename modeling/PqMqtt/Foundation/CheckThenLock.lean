import Mathlib.Data.Int.Notation
import Mathlib.Tactic.Common
import PqMqtt.Foundation.Run

/-!
# Testing a resource before taking its lock

A program uses a resource that an interrupt may take away.  The interrupt waits while the program
holds the lock, and runs between any two other steps.  Programs that test for the resource, take
the lock and use the resource without a second test are described by a discipline; such a program
uses a missing resource exactly when an interrupt falls between its last test and the lock.
-/

namespace PqMqtt.CheckThenLock

open Run

/-- A resource in a shared state, with a second flag that is set when the resource is lost. -/
structure Resource (σ : Type*) where
  present : σ → Bool
  lost : σ → Bool
  interrupt : ℤ → σ → σ
  present_interrupt : ∀ code state, present (interrupt code state) = false
  lost_interrupt : ∀ code state, lost (interrupt code state) = true

/-- A change of the shared state that leaves the resource alone. -/
structure Resource.Update {σ : Type*} (resource : Resource σ) where
  apply : σ → σ
  present_apply : ∀ state, resource.present (apply state) = resource.present state
  lost_apply : ∀ state, resource.lost (apply state) = resource.lost state

/-- A program as a tree of the steps it takes on the shared state.  A call uses the resource and
continues with its result. -/
inductive Program {σ : Type*} (resource : Resource σ) (κ ρ : Type*) where
  | done (result : ρ)
  | ifPresent (yes no : Program resource κ ρ)
  | ifLost (yes no : Program resource κ ρ)
  | branch (test : σ → Bool) (yes no : Program resource κ ρ)
  | update (change : resource.Update) (next : Program resource κ ρ)
  | acquire (next : Program resource κ ρ)
  | release (next : Program resource κ ρ)
  | call (name : κ) (next : ℤ → Program resource κ ρ)

/-- The next step of the program, with the result of its call if it is one, or an interrupt. -/
inductive Event where
  | foreground (result : ℤ)
  | interrupt (code : ℤ)

/-- A running program.  The calls made so far are kept with whether the resource was there. -/
structure Machine {σ : Type*} (resource : Resource σ) (κ ρ : Type*) where
  state : σ
  program : Program resource κ ρ
  locked : Bool
  calls : List (κ × Bool)

variable {σ κ ρ : Type*} {resource : Resource σ}

def Machine.step (machine : Machine resource κ ρ) : Event → Machine resource κ ρ
  | .foreground result =>
      match machine.program with
      | .done _ => machine
      | .ifPresent yes no =>
          { machine with program := if resource.present machine.state then yes else no }
      | .ifLost yes no =>
          { machine with program := if resource.lost machine.state then yes else no }
      | .branch test yes no => { machine with program := if test machine.state then yes else no }
      | .update change next =>
          { machine with state := change.apply machine.state, program := next }
      | .acquire next => { machine with locked := true, program := next }
      | .release next => { machine with locked := false, program := next }
      | .call name next =>
          { machine with
            program := next result
            calls := machine.calls ++ [(name, resource.present machine.state)] }
  | .interrupt code =>
      if machine.locked then machine
      else { machine with state := resource.interrupt code machine.state }

def Machine.start (state : σ) (program : Program resource κ ρ) : Machine resource κ ρ :=
  ⟨state, program, false, []⟩

/-! ## The discipline -/

/-- The next step takes the lock. -/
def Program.AtAcquire : Program resource κ ρ → Prop
  | .acquire _ => True
  | _ => False

variable (required : κ → Prop)

/-- The next step takes the lock or is a call that requires the resource. -/
def Program.Uses : Program resource κ ρ → Prop
  | .acquire _ => True
  | .call name _ => required name
  | _ => False

/-- What a program has done about the resource: nothing, a test that found it, or a test and then
the lock. -/
inductive Stage where
  | untested
  | tested
  | held

/-- The lock is taken right after a test, the resource is used only under the lock, and after a
call that does not require the resource none follows that does. -/
def Program.Disciplined : Stage → Program resource κ ρ → Prop
  | _, .done _ => True
  | .untested, .ifPresent yes no => yes.Disciplined .tested ∧ no.Disciplined .untested
  | .untested, .ifLost yes no => yes.Disciplined .untested ∧ no.Disciplined .untested
  | .untested, .branch _ yes no => yes.Disciplined .untested ∧ no.Disciplined .untested
  | .untested, .update _ next => next.Disciplined .untested
  | .tested, .ifLost yes no => yes.Disciplined .untested ∧ no.Disciplined .tested
  | .tested, .acquire next => next.Disciplined .held ∧ next.Uses required
  | .held, .call name next =>
      ∀ result, (next result).Disciplined .held ∧
        (¬required name → ¬(next result).Uses required)
  | .held, .release next => next.Disciplined .untested
  | _, _ => False

/-- The lock is held in the last stage only, and after a successful test the resource is there or
the loss is visible. -/
def Machine.Coherent (machine : Machine resource κ ρ) : Prop :=
  ∃ stage, machine.program.Disciplined required stage ∧
    (machine.locked = true ↔ stage = .held) ∧
    (stage = .tested → resource.present machine.state = true ∨ resource.lost machine.state = true)

/-- Every call that requires the resource had it. -/
def Machine.NeverMissing (machine : Machine resource κ ρ) : Prop :=
  ∀ call ∈ machine.calls, required call.1 → call.2 = true

/-- No call has missed the resource, and none is about to. -/
def Machine.Intact (machine : Machine resource κ ρ) : Prop :=
  machine.NeverMissing required ∧
    (machine.program.Uses required → resource.present machine.state = true)

/-- The event is no interrupt between the last test of the resource and the lock. -/
def Machine.Timely (machine : Machine resource κ ρ) : Event → Prop
  | .foreground _ => True
  | .interrupt _ => ¬machine.program.AtAcquire

def Machine.Finished (machine : Machine resource κ ρ) : Prop :=
  ∃ result, machine.program = .done result

/-! ## One step -/

variable {required}

namespace Program

variable {program yes no next : Program resource κ ρ}

theorem Disciplined.not_uses (h : program.Disciplined required .untested) :
    ¬program.Uses required := by
  cases program with
  | acquire next => exact absurd h id
  | call name next => exact absurd h id
  | _ => exact id

theorem Disciplined.not_atAcquire_of_held (h : program.Disciplined required .held) :
    ¬program.AtAcquire := by
  cases program with
  | acquire next => exact absurd h id
  | _ => exact id

/-- Without the lock only the acquisition of the lock counts as a use. -/
theorem Disciplined.uses_iff {stage : Stage} (h : program.Disciplined required stage)
    (hstage : stage ≠ .held) : program.Uses required ↔ program.AtAcquire := by
  cases program with
  | call name next =>
    cases stage with
    | held => exact absurd rfl hstage
    | untested => exact absurd h id
    | tested => exact absurd h id
  | _ => exact Iff.rfl

end Program

theorem Machine.coherent_start (state : σ) {program : Program resource κ ρ}
    (h : program.Disciplined required .untested) :
    (Machine.start state program).Coherent required :=
  ⟨.untested, h, by simp [Machine.start], fun hstage ↦ nomatch hstage⟩

/-- A step keeps the discipline.  A test that finds the resource moves to the second stage, the
lock to the third. -/
theorem Machine.coherent_step (machine : Machine resource κ ρ) (event : Event)
    (h : machine.Coherent required) : (machine.step event).Coherent required := by
  obtain ⟨state, program, locked, calls⟩ := machine
  obtain ⟨stage, hprogram, hlocked, htested⟩ := h
  cases event with
  | foreground result =>
    cases program with
    | done result => exact ⟨stage, hprogram, hlocked, htested⟩
    | ifPresent yes no =>
      cases stage with
      | untested =>
        cases hpresent : resource.present state with
        | true => exact ⟨.tested, by simpa [step, hpresent] using hprogram.1,
            by simpa [step] using hlocked, fun _ ↦ Or.inl hpresent⟩
        | false => exact ⟨.untested, by simpa [step, hpresent] using hprogram.2,
            by simpa [step] using hlocked, fun hstage ↦ nomatch hstage⟩
      | _ => exact absurd hprogram id
    | ifLost yes no =>
      cases hlost : resource.lost state with
      | true =>
        cases stage with
        | untested => exact ⟨.untested, by simpa [step, hlost] using hprogram.1,
            by simpa [step] using hlocked, fun hstage ↦ nomatch hstage⟩
        | tested => exact ⟨.untested, by simpa [step, hlost] using hprogram.1,
            by simpa [step] using hlocked, fun hstage ↦ nomatch hstage⟩
        | held => exact absurd hprogram id
      | false =>
        cases stage with
        | untested => exact ⟨.untested, by simpa [step, hlost] using hprogram.2,
            by simpa [step] using hlocked, fun hstage ↦ nomatch hstage⟩
        | tested => exact ⟨.tested, by simpa [step, hlost] using hprogram.2,
            by simpa [step] using hlocked, htested⟩
        | held => exact absurd hprogram id
    | branch test yes no =>
      cases stage with
      | untested =>
        refine ⟨.untested, ?_, by simpa [step] using hlocked, fun hstage ↦ nomatch hstage⟩
        cases htest : test state with
        | true => simpa [step, htest] using hprogram.1
        | false => simpa [step, htest] using hprogram.2
      | _ => exact absurd hprogram id
    | update change next =>
      cases stage with
      | untested => exact ⟨.untested, hprogram, hlocked, fun hstage ↦ nomatch hstage⟩
      | _ => exact absurd hprogram id
    | acquire next =>
      cases stage with
      | tested => exact ⟨.held, hprogram.1, by simp [step], fun hstage ↦ nomatch hstage⟩
      | _ => exact absurd hprogram id
    | release next =>
      cases stage with
      | held => exact ⟨.untested, hprogram, by simp [step], fun hstage ↦ nomatch hstage⟩
      | _ => exact absurd hprogram id
    | call name next =>
      cases stage with
      | held => exact ⟨.held, (hprogram result).1, hlocked, fun hstage ↦ nomatch hstage⟩
      | _ => exact absurd hprogram id
  | interrupt code =>
    cases locked with
    | true => exact ⟨stage, hprogram, hlocked, htested⟩
    | false => exact ⟨stage, hprogram, hlocked,
        fun _ ↦ Or.inr (resource.lost_interrupt code state)⟩

theorem Machine.neverMissing_call_iff (required : κ → Prop) (machine : Machine resource κ ρ)
    (name : κ) (found : Bool) (next : Program resource κ ρ) :
    Machine.NeverMissing required
        { machine with program := next, calls := machine.calls ++ [(name, found)] } ↔
      machine.NeverMissing required ∧ (required name → found = true) := by
  simp only [NeverMissing, List.forall_mem_append, List.forall_mem_singleton]

theorem Machine.intact_of_not_uses (machine : Machine resource κ ρ)
    (h : ¬machine.program.Uses required) :
    machine.Intact required ↔ machine.NeverMissing required :=
  and_iff_left fun huses ↦ absurd huses h

theorem Machine.intact_of_present {machine : Machine resource κ ρ}
    (h : resource.present machine.state = true) :
    machine.Intact required ↔ machine.NeverMissing required :=
  and_iff_left fun _ ↦ h

section Steps

variable {state : σ} {locked : Bool} {calls : List (κ × Bool)} {stage : Stage}
  {yes no next : Program resource κ ρ} {result : ℤ}

theorem Machine.intact_ifPresent_iff
    (h : (Program.ifPresent yes no).Disciplined required stage) :
    (Machine.step ⟨state, .ifPresent yes no, locked, calls⟩ (.foreground result)).Intact required ↔
      Machine.Intact required ⟨state, .ifPresent yes no, locked, calls⟩ := by
  cases stage with
  | untested =>
    rw [intact_of_not_uses ⟨state, .ifPresent yes no, locked, calls⟩ id]
    cases hpresent : resource.present state with
    | true => exact intact_of_present (by exact hpresent)
    | false =>
      apply intact_of_not_uses
      simpa [step, hpresent] using h.2.not_uses
  | _ => exact absurd h id

/-- Between a test that found the resource and the lock a second test sees every loss. -/
theorem Machine.intact_ifLost_iff (h : (Program.ifLost yes no).Disciplined required stage)
    (htested : stage = .tested → resource.present state = true ∨ resource.lost state = true) :
    (Machine.step ⟨state, .ifLost yes no, locked, calls⟩ (.foreground result)).Intact required ↔
      Machine.Intact required ⟨state, .ifLost yes no, locked, calls⟩ := by
  rw [intact_of_not_uses ⟨state, .ifLost yes no, locked, calls⟩ id]
  cases hlost : resource.lost state with
  | true =>
    apply intact_of_not_uses
    cases stage with
    | held => exact absurd h id
    | _ => simpa [step, hlost] using h.1.not_uses
  | false =>
    cases stage with
    | untested =>
      apply intact_of_not_uses
      simpa [step, hlost] using h.2.not_uses
    | tested =>
      -- The last test found the resource, and nothing has been lost since.
      exact intact_of_present ((htested rfl).resolve_right (by simp [hlost]))
    | held => exact absurd h id

theorem Machine.intact_branch_iff {test : σ → Bool}
    (h : (Program.branch test yes no).Disciplined required stage) :
    (Machine.step ⟨state, .branch test yes no, locked, calls⟩ (.foreground result)).Intact
        required ↔
      Machine.Intact required ⟨state, .branch test yes no, locked, calls⟩ := by
  cases stage with
  | untested =>
    rw [intact_of_not_uses ⟨state, .branch test yes no, locked, calls⟩ id]
    apply intact_of_not_uses
    cases htest : test state with
    | true => simpa [step, htest] using h.1.not_uses
    | false => simpa [step, htest] using h.2.not_uses
  | _ => exact absurd h id

theorem Machine.intact_update_iff {change : resource.Update}
    (h : (Program.update change next).Disciplined required stage) :
    (Machine.step ⟨state, .update change next, locked, calls⟩ (.foreground result)).Intact
        required ↔
      Machine.Intact required ⟨state, .update change next, locked, calls⟩ := by
  cases stage with
  | untested =>
    rw [intact_of_not_uses ⟨state, .update change next, locked, calls⟩ id]
    exact intact_of_not_uses _ (Program.Disciplined.not_uses h)
  | _ => exact absurd h id

/-- Taking the lock needs the resource, as the use under the lock does. -/
theorem Machine.intact_acquire_iff (h : (Program.acquire next).Disciplined required stage) :
    (Machine.step ⟨state, .acquire next, locked, calls⟩ (.foreground result)).Intact required ↔
      Machine.Intact required ⟨state, .acquire next, locked, calls⟩ := by
  cases stage with
  | tested =>
    refine and_congr_right fun _ ↦ imp_congr_left ?_
    exact iff_of_true h.2 trivial
  | _ => exact absurd h id

theorem Machine.intact_release_iff (h : (Program.release next).Disciplined required stage) :
    (Machine.step ⟨state, .release next, locked, calls⟩ (.foreground result)).Intact required ↔
      Machine.Intact required ⟨state, .release next, locked, calls⟩ := by
  cases stage with
  | held =>
    rw [intact_of_not_uses ⟨state, .release next, locked, calls⟩ id]
    exact intact_of_not_uses _ (Program.Disciplined.not_uses h)
  | _ => exact absurd h id

theorem Machine.intact_call_iff {name : κ} {following : ℤ → Program resource κ ρ}
    (h : (Program.call name following).Disciplined required stage) :
    (Machine.step ⟨state, .call name following, locked, calls⟩ (.foreground result)).Intact
        required ↔
      Machine.Intact required ⟨state, .call name following, locked, calls⟩ := by
  cases stage with
  | held =>
    have hcall := neverMissing_call_iff required ⟨state, .call name following, locked, calls⟩ name
      (resource.present state) (following result)
    constructor
    · exact fun hintact ↦ hcall.mp hintact.1
    · intro hintact
      refine ⟨hcall.mpr hintact, fun huses ↦ hintact.2 ?_⟩
      exact by_contra fun hoptional ↦ (h result).2 hoptional huses
  | _ => exact absurd h id

/-- Without the lock an interrupt takes the resource away. -/
theorem Machine.intact_interrupt_iff {program : Program resource κ ρ}
    (h : program.Disciplined required stage) (hstage : stage ≠ .held) (code : ℤ) :
    Machine.Intact required ⟨resource.interrupt code state, program, locked, calls⟩ ↔
      Machine.Intact required ⟨state, program, locked, calls⟩ ∧ ¬program.AtAcquire := by
  have huses := h.uses_iff hstage
  have hmissing : ¬resource.present (resource.interrupt code state) = true := by
    rw [resource.present_interrupt]
    exact Bool.false_ne_true
  constructor
  · intro hintact
    have hquiet := fun hat ↦ hmissing (hintact.2 (huses.mpr hat))
    exact ⟨⟨hintact.1, fun hused ↦ absurd (huses.mp hused) hquiet⟩, hquiet⟩
  · intro htimely
    exact ⟨htimely.1.1, fun hused ↦ absurd (huses.mp hused) htimely.2⟩

end Steps

/-- A step of a coherent machine keeps it intact exactly when it is timely. -/
theorem Machine.intact_step_iff (machine : Machine resource κ ρ) (event : Event)
    (h : machine.Coherent required) :
    (machine.step event).Intact required ↔ machine.Intact required ∧ machine.Timely event := by
  obtain ⟨state, program, locked, calls⟩ := machine
  obtain ⟨stage, hprogram, hlocked, htested⟩ := h
  cases event with
  | foreground result =>
    rw [Timely, and_true]
    cases program with
    | done result => exact Iff.rfl
    | ifPresent yes no => exact intact_ifPresent_iff hprogram
    | ifLost yes no => exact intact_ifLost_iff hprogram htested
    | branch test yes no => exact intact_branch_iff hprogram
    | update change next => exact intact_update_iff hprogram
    | acquire next => exact intact_acquire_iff hprogram
    | release next => exact intact_release_iff hprogram
    | call name next => exact intact_call_iff hprogram
  | interrupt code =>
    cases locked with
    | true =>
      obtain rfl := hlocked.mp rfl
      exact (and_iff_left (Program.Disciplined.not_atAcquire_of_held hprogram)).symm
    | false => exact intact_interrupt_iff hprogram (fun hheld ↦ nomatch hlocked.mpr hheld) code

/-! ## Runs -/

theorem Machine.intact_start (state : σ) {program : Program resource κ ρ}
    (h : program.Disciplined required .untested) :
    (Machine.start state program).Intact required :=
  ⟨fun _ hcall ↦ absurd hcall List.not_mem_nil, fun huses ↦ absurd huses h.not_uses⟩

/-- A run of a disciplined program stays intact exactly when every event is timely. -/
theorem Machine.intact_run_iff (state : σ) {program : Program resource κ ρ}
    (h : program.Disciplined required .untested) (events : List Event) :
    (run Machine.step (Machine.start state program) events).Intact required ↔
      AllSteps Machine.step Machine.Timely (Machine.start state program) events := by
  rw [run_iff_allSteps_of_invariant Machine.coherent_step Machine.intact_step_iff
    (Machine.coherent_start state h)]
  exact and_iff_right (Machine.intact_start state h)

theorem Machine.neverMissing_of_timely (state : σ) {program : Program resource κ ρ}
    (h : program.Disciplined required .untested) {events : List Event}
    (htimely : AllSteps Machine.step Machine.Timely (Machine.start state program) events) :
    (run Machine.step (Machine.start state program) events).NeverMissing required :=
  ((Machine.intact_run_iff state h events).mpr htimely).1

/-- A finished program missed the resource if some interrupt was not timely. -/
theorem Machine.neverMissing_iff_of_finished (state : σ) {program : Program resource κ ρ}
    (h : program.Disciplined required .untested) {events : List Event}
    (hfinished : (run Machine.step (Machine.start state program) events).Finished) :
    (run Machine.step (Machine.start state program) events).NeverMissing required ↔
      AllSteps Machine.step Machine.Timely (Machine.start state program) events := by
  rw [← Machine.intact_run_iff state h, Machine.intact_of_not_uses]
  obtain ⟨result, hresult⟩ := hfinished
  rw [hresult]
  exact id

end PqMqtt.CheckThenLock
