import PqMqtt.Foundation.Run
import Mathlib.Data.UInt

/-!
# Senders that count

A sender hands bytes from the front of a buffer to a layer below, returns how many these are, and
adds them up in a 64-bit counter.  Other functions may change its state between two calls, the
counter excepted.  When each call is truthful exactly under a condition, and is then counted, a
whole run is truthful exactly when each of its calls meets the condition.
-/

namespace PqMqtt.Accounting

open Run

/-- The memory from a pointer on. -/
abbrev Memory := ℕ → UInt8

def firstBytes (buf : Memory) (n : ℕ) : List UInt8 := (List.range n).map buf

@[simp]
theorem length_firstBytes (buf : Memory) (n : ℕ) : (firstBytes buf n).length = n := by
  rw [firstBytes, List.length_map, List.length_range]

/-- The buffer of a call, its return value and the bytes that it handed over. -/
structure Sent where
  buf : Memory
  ret : ℤ
  handed : List UInt8

/-- A positive value is the number of bytes that were handed over; a call that fails hands over
none. -/
structure Sent.Truthful (sent : Sent) : Prop where
  positive : 0 < sent.ret → sent.handed = firstBytes sent.buf sent.ret.toNat
  failing : sent.ret < 0 → sent.handed = []

structure Sender (σ κ : Type) where
  send : σ → κ → σ × Sent
  counter : σ → UInt64

variable {σ κ : Type}

/-- A change of the state by another function. -/
structure Sender.Change (sender : Sender σ κ) where
  apply : σ → σ
  counter_apply : ∀ state, sender.counter (apply state) = sender.counter state

inductive Event (sender : Sender σ κ) where
  | send (call : κ)
  | change (change : sender.Change)

/-- The state of a sender after the calls so far. -/
structure Account (σ : Type) where
  state : σ
  calls : List Sent

section Run

variable (sender : Sender σ κ)

def step (account : Account σ) : Event sender → Account σ
  | .send call =>
    ⟨(sender.send account.state call).1, account.calls ++ [(sender.send account.state call).2]⟩
  | .change change => { account with state := change.apply account.state }

/-- The bytes that were handed over. -/
def total (calls : List Sent) : ℕ := (calls.map fun sent ↦ sent.handed.length).sum

structure Account.Truthful (account : Account σ) : Prop where
  calls : ∀ sent ∈ account.calls, sent.Truthful
  counter : sender.counter account.state = UInt64.ofNat (total account.calls)

variable {sender}

/-- The call of an event meets a condition. -/
def Event.Meets (condition : σ → κ → Prop) (account : Account σ) : Event sender → Prop
  | .send call => condition account.state call
  | .change _ => True

variable (sender)

/-- Calls are truthful exactly under a condition, and are then counted. -/
structure Sender.CountsWhen (condition : σ → κ → Prop) : Prop where
  truthful : ∀ state call, (sender.send state call).2.Truthful ↔ condition state call
  counts : ∀ state call, condition state call → sender.counter (sender.send state call).1
    = sender.counter state + UInt64.ofNat (sender.send state call).2.handed.length

variable {sender} {condition : σ → κ → Prop}

theorem total_append (calls : List Sent) (sent : Sent) :
    total (calls ++ [sent]) = total calls + sent.handed.length := by
  simp [total]

theorem truthful_step_iff (h : sender.CountsWhen condition) (account : Account σ)
    (event : Event sender) :
    (step sender account event).Truthful sender
      ↔ account.Truthful sender ∧ event.Meets condition account := by
  cases event with
  | change change =>
    constructor
    · intro htruthful
      exact ⟨⟨htruthful.calls, (change.counter_apply _).symm.trans htruthful.counter⟩, trivial⟩
    · intro htruthful
      exact ⟨htruthful.1.calls, (change.counter_apply _).trans htruthful.1.counter⟩
  | send call =>
    have htotal := total_append account.calls (sender.send account.state call).2
    constructor
    · intro htruthful
      have hcalls := List.forall_mem_append.mp htruthful.calls
      have hmeets := (h.truthful account.state call).mp (hcalls.2 _ (List.mem_singleton_self _))
      have hcounter : sender.counter (sender.send account.state call).1
          = UInt64.ofNat (total (account.calls ++ [(sender.send account.state call).2])) :=
        htruthful.counter
      rw [h.counts _ _ hmeets, htotal, UInt64.ofNat_add] at hcounter
      exact ⟨⟨hcalls.1, (UInt64.add_left_inj _).mp hcounter⟩, hmeets⟩
    · rintro ⟨htruthful, hmeets⟩
      constructor
      · have hsent := (h.truthful account.state call).mpr hmeets
        exact List.forall_mem_append.mpr ⟨htruthful.calls, List.forall_mem_singleton.mpr hsent⟩
      · change sender.counter (sender.send account.state call).1 = _
        rw [h.counts _ _ hmeets, htruthful.counter, ← UInt64.ofNat_add, ← htotal]
        rfl

/-- A run is truthful exactly when each of its calls meets the condition. -/
theorem truthful_run_iff (h : sender.CountsWhen condition) (start : Account σ)
    (events : List (Event sender)) :
    (run (step sender) start events).Truthful sender
      ↔ start.Truthful sender ∧
        AllSteps (step sender) (fun account event ↦ event.Meets condition account) start events :=
  run_iff_allSteps (truthful_step_iff h) start events

theorem truthful_start {state : σ} (h : sender.counter state = 0) :
    Account.Truthful sender ⟨state, []⟩ :=
  ⟨List.forall_mem_nil _, h⟩

end Run

end PqMqtt.Accounting
