import Mathlib.Tactic
import PqMqtt.Foundation.Run

/-!
# A bounded channel between a producer and a consumer

The producer offers blocks of elements, the consumer takes from the front.  The channel keeps
at most `capacity` elements and drops what does not fit.  The ghost fields remember everything
that was ever offered and everything that was ever taken, so losing an element is a statement
about one state.  Loss is permanent: a run is lossless exactly when every offered block fitted
into the free space it met.
-/

namespace PqMqtt.BoundedChannel

open Run

variable {α : Type*}

structure Channel (α : Type*) where
  taken : List α
  queue : List α
  offered : List α

inductive Event (α : Type*) where
  | offer (block : List α)
  | take (count : ℕ)

def empty : Channel α := ⟨[], [], []⟩

def step (capacity : ℕ) (channel : Channel α) : Event α → Channel α
  | .offer block =>
      { channel with
        queue := channel.queue ++ block.take (capacity - channel.queue.length)
        offered := channel.offered ++ block }
  | .take count =>
      { channel with
        taken := channel.taken ++ channel.queue.take count
        queue := channel.queue.drop count }

/-- What was taken, followed by what is queued, is everything that was offered. -/
def Lossless (channel : Channel α) : Prop :=
  channel.taken ++ channel.queue = channel.offered

/-- An offered block fits into the free space of the state it arrives in. -/
def Fits (capacity : ℕ) (channel : Channel α) : Event α → Prop
  | .offer block => block.length ≤ capacity - channel.queue.length
  | .take _ => True

/-- Some offered element is neither taken nor queued. -/
def Short (channel : Channel α) : Prop :=
  channel.taken.length + channel.queue.length < channel.offered.length

theorem lossless_empty : Lossless (empty : Channel α) := rfl

theorem Short.not_lossless {channel : Channel α} (h : Short channel) : ¬ Lossless channel := by
  intro hlossless
  have hlength := congrArg List.length hlossless
  rw [List.length_append] at hlength
  exact absurd hlength (Nat.ne_of_lt h)

theorem lossless_step (capacity : ℕ) (channel : Channel α) (event : Event α)
    (h : Lossless channel) (hfits : Fits capacity channel event) :
    Lossless (step capacity channel event) := by
  unfold Lossless at h ⊢
  cases event with
  | offer block =>
    have hall : block.take (capacity - channel.queue.length) = block :=
      List.take_of_length_le hfits
    simp only [step, hall, ← List.append_assoc, h]
  | take count =>
    simp only [step, List.append_assoc, List.take_append_drop, h]

/-- A dropped element never comes back. -/
theorem Short.step {channel : Channel α} (h : Short channel) (capacity : ℕ) (event : Event α) :
    Short (step capacity channel event) := by
  unfold Short at h ⊢
  cases event with
  | offer block =>
    simp only [BoundedChannel.step, List.length_append, List.length_take]
    omega
  | take count =>
    simp only [BoundedChannel.step, List.length_append, List.length_take, List.length_drop]
    omega

theorem short_step_of_not_fits (capacity : ℕ) (channel : Channel α) (event : Event α)
    (h : Lossless channel) (hfits : ¬ Fits capacity channel event) :
    Short (step capacity channel event) := by
  have hlength := congrArg List.length h
  rw [List.length_append] at hlength
  cases event with
  | offer block =>
    simp only [Fits, not_le] at hfits
    simp only [Short, step, List.length_append, List.length_take]
    omega
  | take count => exact absurd trivial hfits

theorem lossless_run_iff_of_lossless (capacity : ℕ) (channel : Channel α)
    (h : Lossless channel) (events : List (Event α)) :
    Lossless (run (step capacity) channel events) ↔
      AllSteps (step capacity) (Fits capacity) channel events := by
  induction events generalizing channel with
  | nil => simpa using h
  | cons event events ih =>
    rw [run_cons, allSteps_cons]
    by_cases hfits : Fits capacity channel event
    · rw [ih _ (lossless_step capacity channel event h hfits)]
      exact (and_iff_right hfits).symm
    · have hshort : Short (run (step capacity) (step capacity channel event) events) :=
        run_invariant (short_step_of_not_fits capacity channel event h hfits)
          (fun _ later hshort ↦ hshort.step capacity later) events
      exact iff_of_false hshort.not_lossless (fun hall ↦ hfits hall.1)

/-- A run of the channel loses nothing exactly when every block fitted on arrival. -/
theorem lossless_run_iff (capacity : ℕ) (events : List (Event α)) :
    Lossless (run (step capacity) empty events) ↔
      AllSteps (step capacity) (Fits capacity) empty events :=
  lossless_run_iff_of_lossless capacity empty lossless_empty events

end PqMqtt.BoundedChannel
