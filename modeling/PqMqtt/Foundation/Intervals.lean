import Mathlib.Algebra.BigOperators.Group.List.Basic
import Mathlib.Algebra.GroupWithZero.Nat
import Mathlib.Algebra.Order.Group.Nat

/-!
# Intervals on a time line

Disjoint intervals that follow one another between two times.  Their total length is at most the
time between, so an account of some of them never exceeds the account of the whole.
-/

namespace PqMqtt.Intervals

/-- An interval between two readings of a clock. -/
structure Interval where
  enter : ℕ
  leave : ℕ

def Interval.duration (interval : Interval) : ℕ := interval.leave - interval.enter

/-- The intervals lie between `lo` and `hi`, one after the other. -/
def Chained : ℕ → List Interval → ℕ → Prop
  | lo, [], hi => lo ≤ hi
  | lo, interval :: rest, hi =>
      lo ≤ interval.enter ∧ interval.enter ≤ interval.leave ∧ Chained interval.leave rest hi

def total (intervals : List Interval) : ℕ := (intervals.map Interval.duration).sum

@[simp]
theorem total_nil : total [] = 0 := rfl

@[simp]
theorem total_cons (interval : Interval) (rest : List Interval) :
    total (interval :: rest) = interval.duration + total rest := List.sum_cons

@[simp]
theorem total_append (first second : List Interval) :
    total (first ++ second) = total first + total second := by
  rw [total, List.map_append, List.sum_append]
  rfl

theorem Chained.mono {lo hi hi' : ℕ} {intervals : List Interval} (h : Chained lo intervals hi)
    (hle : hi ≤ hi') : Chained lo intervals hi' := by
  induction intervals generalizing lo with
  | nil => exact Nat.le_trans h hle
  | cons interval rest ih => exact ⟨h.1, h.2.1, ih h.2.2⟩

theorem Chained.le {lo hi : ℕ} {intervals : List Interval} (h : Chained lo intervals hi) :
    lo ≤ hi := by
  induction intervals generalizing lo with
  | nil => exact h
  | cons interval rest ih => exact (h.1.trans h.2.1).trans (ih h.2.2)

theorem Chained.enter_le_leave {lo hi : ℕ} {intervals : List Interval}
    (h : Chained lo intervals hi) : ∀ interval ∈ intervals, interval.enter ≤ interval.leave := by
  induction intervals generalizing lo with
  | nil => simp
  | cons interval rest ih => exact List.forall_mem_cons.mpr ⟨h.2.1, ih h.2.2⟩

/-- One more interval at the end. -/
theorem Chained.concat {lo hi : ℕ} {intervals : List Interval} {interval : Interval}
    (h : Chained lo intervals interval.enter) (horder : interval.enter ≤ interval.leave)
    (hle : interval.leave ≤ hi) : Chained lo (intervals ++ [interval]) hi := by
  induction intervals generalizing lo with
  | nil => exact ⟨h, horder, hle⟩
  | cons first rest ih => exact ⟨h.1, h.2.1, ih h.2.2⟩

/-- The intervals are no longer than the time between. -/
theorem Chained.total_le {lo hi : ℕ} {intervals : List Interval} (h : Chained lo intervals hi) :
    lo + total intervals ≤ hi := by
  induction intervals generalizing lo with
  | nil => exact h
  | cons interval rest ih =>
    have hrest := ih h.2.2
    have henter := h.1
    have hleave := h.2.1
    rw [total_cons, Interval.duration]
    omega

section Selection

variable {α : Type*} (span : α → Interval) (p : α → Bool)

theorem total_map_filter_le (entries : List α) :
    total ((entries.filter p).map span) ≤ total (entries.map span) := by
  induction entries with
  | nil => exact Nat.le_refl _
  | cons entry rest ih =>
    rw [List.filter_cons, List.map_cons, total_cons]
    split
    · rw [List.map_cons, total_cons]
      exact Nat.add_le_add_left ih _
    · exact ih.trans (Nat.le_add_left _ _)

/-- Some of the intervals account for all of the time exactly when the others are empty. -/
theorem total_map_filter_eq_iff (entries : List α) :
    total ((entries.filter p).map span) = total (entries.map span) ↔
      ∀ entry ∈ entries, p entry = false → (span entry).duration = 0 := by
  induction entries with
  | nil => simp
  | cons entry rest ih =>
    have hrest := total_map_filter_le span p rest
    rw [List.forall_mem_cons, ← ih, List.filter_cons, List.map_cons, total_cons]
    cases hp : p entry with
    | true =>
      rw [if_pos rfl, List.map_cons, total_cons, Nat.add_left_cancel_iff]
      simp
    | false =>
      rw [if_neg Bool.false_ne_true]
      constructor
      · intro htotal
        exact ⟨fun _ ↦ by omega, by omega⟩
      · intro hzero
        have hempty := hzero.1 rfl
        omega

end Selection

end PqMqtt.Intervals
