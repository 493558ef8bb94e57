import Mathlib.Data.List.Induction
import PqMqtt.Foundation.Run

/-!
# Lifetimes of objects

An object is acquired once, used, and released once.  The log of the operations on it is read by
an automaton with an absorbing state for everything else: a second acquisition, a use before the
first or after the release, a second release.
-/

namespace PqMqtt.Lifecycle

open Run

/-- What an operation does to the object. -/
inductive Effect where
  | acquire
  | use
  | release
deriving DecidableEq

inductive Lifetime where
  | unborn
  | live
  | gone
  | misused
deriving DecidableEq

namespace Lifetime

def step : Lifetime → Effect → Lifetime
  | unborn, .acquire => live
  | live, .use => live
  | live, .release => gone
  | _, _ => misused

theorem step_ne_unborn (stage : Lifetime) (effect : Effect) : stage.step effect ≠ unborn := by
  cases stage <;> cases effect <;> decide

theorem step_eq_live_iff {stage : Lifetime} {effect : Effect} :
    stage.step effect = live ↔
      stage = unborn ∧ effect = .acquire ∨ stage = live ∧ effect = .use := by
  cases stage <;> cases effect <;> decide

theorem step_eq_gone_iff {stage : Lifetime} {effect : Effect} :
    stage.step effect = gone ↔ stage = live ∧ effect = .release := by
  cases stage <;> cases effect <;> decide

end Lifetime

/-- The state of an object after the operations of a log. -/
def lifetime {ε : Type*} (effect : ε → Effect) (ops : List ε) : Lifetime :=
  run (fun stage op ↦ stage.step (effect op)) .unborn ops

variable {ε : Type*} {effect : ε → Effect} {ops : List ε} {op : ε}

theorem lifetime_append_singleton :
    lifetime effect (ops ++ [op]) = (lifetime effect ops).step (effect op) :=
  run_append _ _ ops [op]

theorem lifetime_eq_unborn_iff : lifetime effect ops = .unborn ↔ ops = [] := by
  constructor
  · intro h
    cases ops using List.reverseRecOn with
    | nil => rfl
    | append_singleton before last =>
      rw [lifetime_append_singleton] at h
      exact absurd h (Lifetime.step_ne_unborn _ _)
  · intro h
    rw [h]
    rfl

theorem live_singleton (h : effect op = .acquire) : lifetime effect [op] = .live :=
  Lifetime.step_eq_live_iff.mpr (Or.inl ⟨rfl, h⟩)

theorem live_use (hlive : lifetime effect ops = .live) (h : effect op = .use) :
    lifetime effect (ops ++ [op]) = .live := by
  rw [lifetime_append_singleton]
  exact Lifetime.step_eq_live_iff.mpr (Or.inr ⟨hlive, h⟩)

theorem live_append (hlive : lifetime effect ops = .live) {uses : List ε}
    (h : ∀ other ∈ uses, effect other = .use) : lifetime effect (ops ++ uses) = .live := by
  induction uses generalizing ops with
  | nil => rwa [List.append_nil]
  | cons first rest ih =>
    rw [List.forall_mem_cons] at h
    rw [List.append_cons]
    exact ih (live_use hlive h.1) h.2

theorem gone_release (hlive : lifetime effect ops = .live) (h : effect op = .release) :
    lifetime effect (ops ++ [op]) = .gone := by
  rw [lifetime_append_singleton]
  exact Lifetime.step_eq_gone_iff.mpr ⟨hlive, h⟩

/-- A live object has been acquired and since then only used. -/
theorem live_iff : lifetime effect ops = .live ↔
    ∃ first uses, ops = first :: uses ∧ effect first = .acquire ∧
      ∀ other ∈ uses, effect other = .use := by
  constructor
  · intro h
    induction ops using List.reverseRecOn with
    | nil => exact nomatch h
    | append_singleton before last ih =>
      rw [lifetime_append_singleton, Lifetime.step_eq_live_iff] at h
      rcases h with hfirst | hlater
      · rw [lifetime_eq_unborn_iff.mp hfirst.1]
        exact ⟨last, [], rfl, hfirst.2, List.forall_mem_nil _⟩
      · obtain ⟨first, uses, hbefore, hfirst, huses⟩ := ih hlater.1
        refine ⟨first, uses ++ [last], by rw [hbefore, List.cons_append], hfirst, ?_⟩
        exact List.forall_mem_append.mpr ⟨huses, List.forall_mem_singleton.mpr hlater.2⟩
  · intro h
    obtain ⟨first, uses, hops, hfirst, huses⟩ := h
    rw [hops, ← List.singleton_append]
    exact live_append (live_singleton hfirst) huses

/-- An object that is gone has been acquired, used and released, in this order, and nothing was
done to it afterwards. -/
theorem gone_iff : lifetime effect ops = .gone ↔
    ∃ first uses last, ops = first :: uses ++ [last] ∧ effect first = .acquire ∧
      (∀ other ∈ uses, effect other = .use) ∧ effect last = .release := by
  constructor
  · intro h
    cases ops using List.reverseRecOn with
    | nil => exact nomatch h
    | append_singleton before last =>
      rw [lifetime_append_singleton, Lifetime.step_eq_gone_iff] at h
      obtain ⟨first, uses, hbefore, hfirst, huses⟩ := live_iff.mp h.1
      exact ⟨first, uses, last, by rw [hbefore], hfirst, huses, h.2⟩
  · intro h
    obtain ⟨first, uses, last, hops, hfirst, huses, hlast⟩ := h
    rw [hops]
    exact gone_release (live_iff.mpr ⟨first, uses, rfl, hfirst, huses⟩) hlast

end PqMqtt.Lifecycle
