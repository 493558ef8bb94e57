import Mathlib.Data.List.Basic

/-!
# Calls that poll

A call that waits by polling a state which its environment changes between two polls.  The run
of a call keeps what the last poll found, so a statement about the moment at which the call ended is
a statement about its run.  What every poll keeps of a call that goes on, and what a poll that ends
the call establishes, hold of every run.
-/

namespace PqMqtt

/-- What the environment does before a poll, and the poll, which ends the call or goes on. -/
structure PolledCall (κ γ ρ ε : Type*) where
  meet : κ → ε → κ
  poll : κ → γ → ε → (ρ ⊕ γ) × κ

namespace PolledCall

variable {κ γ ρ ε : Type*}

/-- A call after its first polls, `seen`: the last of them found `found` and ended it, or it is
still polling. -/
inductive Status (κ γ ρ ε : Type*) where
  | ended (result : ρ) (found after : κ) (seen : List ε) (last : ε) (rest : List ε)
  | polling (state : κ) (call : γ) (seen : List ε)

/-- The polls of a call up to now. -/
def Status.seen : Status κ γ ρ ε → List ε
  | ended _ _ _ seen _ _ => seen
  | polling _ _ seen => seen

/-- A call polls until it ends or no poll is left. -/
def run (calls : PolledCall κ γ ρ ε) (state : κ) (call : γ) (seen : List ε) :
    List ε → Status κ γ ρ ε
  | [] => .polling state call seen
  | event :: rest =>
    let found := calls.meet state event
    match calls.poll found call event with
    | (.inl result, after) => .ended result found after (seen ++ [event]) event rest
    | (.inr call, after) => run calls after call (seen ++ [event]) rest

variable {calls : PolledCall κ γ ρ ε} {state after : κ} {call next : γ} {result : ρ} {event : ε}

theorem run_of_ends (h : calls.poll (calls.meet state event) call event = (.inl result, after))
    (seen rest : List ε) :
    calls.run state call seen (event :: rest) =
      .ended result (calls.meet state event) after (seen ++ [event]) event rest := by
  rw [run, h]

theorem run_of_goes_on (h : calls.poll (calls.meet state event) call event = (.inr next, after))
    (seen rest : List ε) :
    calls.run state call seen (event :: rest) =
      calls.run after next (seen ++ [event]) rest := by
  rw [run, h]

/-- A run keeps the polls that it has seen. -/
theorem seen_prefix_run (state : κ) (call : γ) (seen events : List ε) :
    seen <+: (calls.run state call seen events).seen := by
  induction events generalizing state call seen with
  | nil => exact List.prefix_rfl
  | cons event events ih =>
    have hfirst : seen <+: seen ++ [event] := List.prefix_append seen [event]
    match hpoll : calls.poll (calls.meet state event) call event with
    | (.inl result, after) =>
      rw [run_of_ends hpoll]
      exact hfirst
    | (.inr next, after) =>
      rw [run_of_goes_on hpoll]
      exact hfirst.trans (ih after next (seen ++ [event]))

/-- A condition that is met before every poll of a call. -/
def Along (calls : PolledCall κ γ ρ ε) (condition : κ → ε → Prop) (state : κ) (call : γ) :
    List ε → Prop
  | [] => True
  | event :: rest =>
    condition state event ∧
      match calls.poll (calls.meet state event) call event with
      | (.inl _, _) => True
      | (.inr next, after) => Along calls condition after next rest

theorem along_of_ends (h : calls.poll (calls.meet state event) call event = (.inl result, after))
    (condition : κ → ε → Prop) (rest : List ε) :
    calls.Along condition state call (event :: rest) ↔ condition state event := by
  rw [Along, h]
  exact and_iff_left trivial

theorem along_of_goes_on
    (h : calls.poll (calls.meet state event) call event = (.inr next, after))
    (condition : κ → ε → Prop) (rest : List ε) :
    calls.Along condition state call (event :: rest) ↔
      condition state event ∧ calls.Along condition after next rest := by
  rw [Along, h]

/-- One property of calls that have ended and one of calls that are still polling. -/
def Status.Satisfies (ends : ρ → κ → κ → List ε → ε → Prop) (goesOn : κ → γ → List ε → Prop) :
    Status κ γ ρ ε → Prop
  | ended result found after seen last _ => ends result found after seen last
  | polling state call seen => goesOn state call seen

/-- The rule of the loop. -/
theorem run_satisfies {ends : ρ → κ → κ → List ε → ε → Prop} {goesOn : κ → γ → List ε → Prop}
    (hends : ∀ {state call seen event result after}, goesOn state call seen →
      calls.poll (calls.meet state event) call event = (.inl result, after) →
      ends result (calls.meet state event) after (seen ++ [event]) event)
    (hgoesOn : ∀ {state call seen event next after}, goesOn state call seen →
      calls.poll (calls.meet state event) call event = (.inr next, after) →
      goesOn after next (seen ++ [event]))
    {seen : List ε} (h : goesOn state call seen) (events : List ε) :
    (calls.run state call seen events).Satisfies ends goesOn := by
  induction events generalizing state call seen with
  | nil => exact h
  | cons event events ih =>
    match hpoll : calls.poll (calls.meet state event) call event with
    | (.inl result, after) =>
      rw [run_of_ends hpoll]
      exact hends h hpoll
    | (.inr next, after) =>
      rw [run_of_goes_on hpoll]
      exact ih (hgoesOn h hpoll)

end PolledCall

end PqMqtt
