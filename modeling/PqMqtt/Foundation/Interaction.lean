import Mathlib.Data.List.Basic

/-!
# Adaptive interactions

A computation that asks one question after the other, each chosen with the answers so far, and
then finishes with a result.  A handler with a state answers; the calls of a run are the questions
with the states in which they were asked.
-/

namespace PqMqtt

variable {ι ω β σ : Type*}

inductive Interaction (ι ω β : Type*) where
  | finish (result : β)
  | ask (question : ι) (next : ω → Interaction ι ω β)

namespace Interaction

/-- The result of a run and the state of the handler after it. -/
def run (handle : σ → ι → ω × σ) : Interaction ι ω β → σ → β × σ
  | finish result, state => (result, state)
  | ask question next, state =>
      (next (handle state question).1).run handle (handle state question).2

/-- The calls of a run. -/
def calls (handle : σ → ι → ω × σ) : Interaction ι ω β → σ → List (σ × ι)
  | finish _, _ => []
  | ask question next, state =>
      (state, question) :: (next (handle state question).1).calls handle (handle state question).2

/-- The state of a handler after it has answered some questions. -/
def stateAfter (handle : σ → ι → ω × σ) (state : σ) (questions : List ι) : σ :=
  questions.foldl (fun state question ↦ (handle state question).2) state

/-- Every call of a run is made in a state that answering questions leads to. -/
theorem exists_stateAfter_of_mem_calls (handle : σ → ι → ω × σ) (interaction : Interaction ι ω β)
    {state : σ} {call : σ × ι} (h : call ∈ interaction.calls handle state) :
    ∃ questions, call.1 = stateAfter handle state questions := by
  induction interaction generalizing state with
  | finish result => simp [calls] at h
  | ask question next ih =>
    rcases List.mem_cons.mp h with rfl | hlater
    · exact ⟨[], rfl⟩
    · obtain ⟨questions, hcall⟩ := ih _ hlater
      exact ⟨question :: questions, hcall⟩

/-- Asks a fixed list of questions. -/
def script (result : β) : List ι → Interaction ι ω β
  | [] => finish result
  | question :: questions => ask question fun _ ↦ script result questions

theorem run_script (handle : σ → ι → ω × σ) (result : β) (questions : List ι) (state : σ) :
    (script result questions : Interaction ι ω β).run handle state
      = (result, stateAfter handle state questions) := by
  induction questions generalizing state with
  | nil => rfl
  | cons question questions ih => exact ih _

/-- Each question of a script is asked in the state that the questions before it lead to. -/
theorem mem_calls_script (handle : σ → ι → ω × σ) (result : β) (earlier : List ι) (question : ι)
    (state : σ) :
    (stateAfter handle state earlier, question)
      ∈ (script result (earlier ++ [question]) : Interaction ι ω β).calls handle state := by
  induction earlier generalizing state with
  | nil => exact List.mem_cons_self ..
  | cons first earlier ih => exact List.mem_cons_of_mem _ (ih _)

end Interaction

end PqMqtt
