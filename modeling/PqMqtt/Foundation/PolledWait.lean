import Mathlib.Data.List.Basic
import Mathlib.Data.UInt
import Mathlib.Tactic.Common

/-!
# Waits with a deadline on a 32-bit clock

A wait reads a clock of milliseconds, adds its duration for a deadline and polls until something
happens or a later reading is greater than the deadline.  Time is counted in microseconds and does
not wrap, while the readings and the sum are taken modulo `2 ^ 32`.  So a wait lasts for its full
duration before it times out exactly when the sum does not wrap.
-/

namespace PqMqtt

/-- The reading of the millisecond clock at a time in microseconds. -/
def millis (time : ℕ) : UInt32 := UInt32.ofNat (time / 1000)

theorem millis_toNat (time : ℕ) : (millis time).toNat = time / 1000 % 2 ^ 32 :=
  UInt32.toNat_ofNat'

inductive PollOutcome (σ : Type*) where
  | again (state : σ)
  | done
  | timeout

/-- A wait that is entered with some arguments, if it does not end at once, and polls with what
its environment does between two polls.  The wait of the arguments `idle` ends by its deadline
only, as long as the environment is `quiet`. -/
structure PolledWait (α ε σ : Type*) where
  duration : ℕ
  arm : α → ℕ → Option σ
  poll : σ → ε → ℕ → PollOutcome σ
  deadline : σ → UInt32
  valid : σ → Prop
  idle : α
  quiet : ε
  duration_pos : 0 < duration
  duration_lt : duration < 2 ^ 32
  arm_spec : ∀ {arguments time state}, arm arguments time = some state →
    valid state ∧ deadline state = millis time + UInt32.ofNat duration
  again_spec : ∀ {state event time next}, valid state → poll state event time = .again next →
    valid next ∧ deadline next = deadline state
  expired_of_timeout : ∀ {state event time}, valid state → poll state event time = .timeout →
    deadline state < millis time
  idle_spec : ∀ time, ∃ state, arm idle time = some state ∧
    ∀ later, deadline state < millis later → poll state quiet later = .timeout

namespace PolledWait

variable {α ε σ : Type*} (wait : PolledWait α ε σ)

/-- The time of the poll that times out. -/
def timeoutAt : σ → List (ε × ℕ) → Option ℕ
  | _, [] => none
  | state, (event, time) :: polls =>
      match wait.poll state event time with
      | .again next => timeoutAt next polls
      | .done => none
      | .timeout => some time

/-- A timeout is reported at a poll whose reading is greater than the deadline. -/
theorem expired_of_timeoutAt {state : σ} {polls : List (ε × ℕ)} {time : ℕ}
    (hvalid : wait.valid state) (h : wait.timeoutAt state polls = some time) :
    time ∈ polls.map Prod.snd ∧ wait.deadline state < millis time := by
  induction polls generalizing state with
  | nil => simp [timeoutAt] at h
  | cons poll polls ih =>
    obtain ⟨event, now⟩ := poll
    rw [timeoutAt] at h
    rw [List.map_cons, List.mem_cons]
    split at h
    · next next hagain =>
      obtain ⟨hnext, hdeadline⟩ := wait.again_spec hvalid hagain
      obtain ⟨hmem, hexpired⟩ := ih hnext h
      exact ⟨Or.inr hmem, hdeadline ▸ hexpired⟩
    · simp at h
    · next htimeout =>
      obtain rfl := Option.some.inj h
      exact ⟨Or.inl rfl, wait.expired_of_timeout hvalid htimeout⟩

/-- Every wait that starts at this time and times out has lasted for its full duration, whatever
happens and whenever it polls. -/
def TimesOutInFull (start : ℕ) : Prop :=
  ∀ (arguments : α) (state : σ) (polls : List (ε × ℕ)) (time : ℕ),
    wait.arm arguments start = some state →
    (start :: polls.map Prod.snd).Pairwise (· ≤ ·) →
    wait.timeoutAt state polls = some time → start + wait.duration * 1000 ≤ time

theorem deadline_toNat (start duration : ℕ) :
    (millis start + UInt32.ofNat duration).toNat
      = (start / 1000 % 2 ^ 32 + duration % 2 ^ 32) % 2 ^ 32 := by
  rw [UInt32.toNat_add, millis_toNat, UInt32.toNat_ofNat']

theorem timesOutInFull_iff (start : ℕ) :
    wait.TimesOutInFull start ↔ start / 1000 % 2 ^ 32 + wait.duration < 2 ^ 32 := by
  have hpos := wait.duration_pos
  have hlt := wait.duration_lt
  have hsum := deadline_toNat start wait.duration
  have hreading := millis_toNat start
  constructor
  · intro hfull
    by_contra hwraps
    obtain ⟨state, harm, hquiet⟩ := wait.idle_spec start
    obtain ⟨-, hdeadline⟩ := wait.arm_spec harm
    -- The deadline is before the reading that it was computed from.
    have hexpired : wait.deadline state < millis start := by
      rw [hdeadline, UInt32.lt_iff_toNat_lt, hsum, hreading]
      omega
    have htimeout : wait.timeoutAt state [(wait.quiet, start)] = some start := by
      rw [timeoutAt, hquiet start hexpired]
    have hlasted := hfull wait.idle state [(wait.quiet, start)] start harm (by simp) htimeout
    omega
  · intro hfits arguments state polls time harm hmonotone htimeout
    obtain ⟨hvalid, hdeadline⟩ := wait.arm_spec harm
    obtain ⟨hmem, hexpired⟩ := wait.expired_of_timeoutAt hvalid htimeout
    have hlater : start ≤ time := List.rel_of_pairwise_cons hmonotone hmem
    have hnow := millis_toNat time
    rw [hdeadline, UInt32.lt_iff_toNat_lt, hsum, hnow] at hexpired
    omega

end PolledWait

end PqMqtt
