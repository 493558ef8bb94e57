import Mathlib.Tactic

/-!
# Circular windows over an array

A ring buffer keeps its elements in the cells `start, start + 1, …` of an array, with indices
taken modulo the capacity.  `window` reads those cells in queue order.  The two lemmas a ring
buffer needs are that removing the first element moves the start, and that writing the cell
after the last element appends it as long as the window does not yet fill the array.
-/

namespace PqMqtt.CircularWindow

variable {α : Type*}

/-- The `count` cells that start at `start`, in order and modulo the capacity. -/
def window (capacity : ℕ) (cells : ℕ → α) (start count : ℕ) : List α :=
  (List.range count).map fun offset ↦ cells ((start + offset) % capacity)

@[simp]
theorem window_length (capacity : ℕ) (cells : ℕ → α) (start count : ℕ) :
    (window capacity cells start count).length = count := by
  simp [window]

@[simp]
theorem window_mod_start (capacity : ℕ) (cells : ℕ → α) (start count : ℕ) :
    window capacity cells (start % capacity) count = window capacity cells start count := by
  simp [window]

theorem window_succ_front (capacity : ℕ) (cells : ℕ → α) (start count : ℕ) :
    window capacity cells start (count + 1) =
      cells (start % capacity) :: window capacity cells (start + 1) count := by
  simp only [window, List.range_succ_eq_map, List.map_cons, List.map_map, Nat.add_zero]
  congr 1
  apply List.map_congr_left
  intro offset _
  simp only [Function.comp_apply, Nat.succ_eq_add_one]
  congr 2
  omega

/-- Different offsets below the capacity address different cells. -/
theorem cell_ne_of_lt {capacity start first second : ℕ} (h : first < second)
    (hsecond : second < capacity) :
    (start + first) % capacity ≠ (start + second) % capacity := by
  intro heq
  have hmod : first ≡ second [MOD capacity] := Nat.ModEq.add_left_cancel' start heq
  exact absurd (hmod.eq_of_lt_of_lt (h.trans hsecond) hsecond) (Nat.ne_of_lt h)

/-- Writing the first free cell appends the written element to the window. -/
theorem window_write (capacity : ℕ) (cells : ℕ → α) (start count : ℕ) (element : α)
    (h : count < capacity) :
    window capacity (Function.update cells ((start + count) % capacity) element)
        start (count + 1) =
      window capacity cells start count ++ [element] := by
  simp only [window, List.range_succ, List.map_append, List.map_cons, List.map_nil,
    Function.update_self]
  congr 1
  apply List.map_congr_left
  intro offset hoffset
  rw [List.mem_range] at hoffset
  rw [Function.update_of_ne (cell_ne_of_lt hoffset h)]

end PqMqtt.CircularWindow
