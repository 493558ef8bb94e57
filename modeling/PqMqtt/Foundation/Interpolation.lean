import Mathlib.Algebra.Order.Floor.Semifield
import Mathlib.Tactic

/-!
# Piecewise linear interpolation

A sequence is extended from the natural numbers to the positions between them along straight
lines.  The interpolant of a monotone sequence is monotone, and it lies between the two members
around a position.
-/

namespace PqMqtt.Interpolation

variable {K : Type*} [Field K] [LinearOrder K] [FloorRing K]

/-- The value at a position, on the line from the member at or below it to the next one. -/
def interpolate (f : ℕ → K) (position : K) : K :=
  f ⌊position⌋₊ + (position - ⌊position⌋₊) * (f (⌊position⌋₊ + 1) - f ⌊position⌋₊)

variable [IsStrictOrderedRing K] (f : ℕ → K)

@[simp]
theorem interpolate_natCast (index : ℕ) : interpolate f (index : K) = f index := by
  rw [interpolate, Nat.floor_natCast, sub_self, zero_mul, add_zero]

theorem interpolate_add_half (index : ℕ) :
    interpolate f (index + 1 / 2 : K) = 1 / 2 * (f index + f (index + 1)) := by
  have hfloor : ⌊(index + 1 / 2 : K)⌋₊ = index := by
    have hnonneg : (0 : K) ≤ index := Nat.cast_nonneg index
    rw [Nat.floor_eq_iff (by positivity)]
    constructor
    · linarith
    · linarith
  rw [interpolate, hfloor]
  ring

section Monotone

variable {f} (hf : Monotone f) {position next : K}

include hf

theorem le_interpolate (hposition : 0 ≤ position) :
    f ⌊position⌋₊ ≤ interpolate f position := by
  have hfraction : 0 ≤ position - ⌊position⌋₊ := sub_nonneg.mpr (Nat.floor_le hposition)
  have hgap : 0 ≤ f (⌊position⌋₊ + 1) - f ⌊position⌋₊ := sub_nonneg.mpr (hf (Nat.le_succ _))
  exact le_add_of_nonneg_right (mul_nonneg hfraction hgap)

theorem interpolate_le (position : K) : interpolate f position ≤ f (⌊position⌋₊ + 1) := by
  have hfraction : position - ⌊position⌋₊ ≤ 1 := by
    have hlt := Nat.lt_floor_add_one position
    linarith
  have hgap : 0 ≤ f (⌊position⌋₊ + 1) - f ⌊position⌋₊ := sub_nonneg.mpr (hf (Nat.le_succ _))
  calc interpolate f position
      ≤ f ⌊position⌋₊ + 1 * (f (⌊position⌋₊ + 1) - f ⌊position⌋₊) :=
        add_le_add_right (mul_le_mul_of_nonneg_right hfraction hgap) _
    _ = f (⌊position⌋₊ + 1) := by ring

/-- On one line the interpolant grows with the fraction, across members with the members. -/
theorem interpolate_mono (hposition : 0 ≤ position) (hle : position ≤ next) :
    interpolate f position ≤ interpolate f next := by
  rcases (Nat.floor_le_floor hle).eq_or_lt with hsame | hlt
  · have hgap : 0 ≤ f (⌊next⌋₊ + 1) - f ⌊next⌋₊ := sub_nonneg.mpr (hf (Nat.le_succ _))
    rw [interpolate, interpolate, hsame]
    exact add_le_add_right (mul_le_mul_of_nonneg_right (sub_le_sub_right hle _) hgap) _
  · calc interpolate f position ≤ f (⌊position⌋₊ + 1) := interpolate_le hf position
      _ ≤ f ⌊next⌋₊ := hf hlt
      _ ≤ interpolate f next := le_interpolate hf (hposition.trans hle)

/-- Members at or below a position bound its value from below, those at or above from above. -/
theorem le_interpolate_of_le {index : ℕ} (hle : (index : K) ≤ position) :
    f index ≤ interpolate f position := by
  have hmono := interpolate_mono hf (Nat.cast_nonneg index) hle
  rwa [interpolate_natCast] at hmono

theorem interpolate_le_of_le {index : ℕ} (hposition : 0 ≤ position) (hle : position ≤ index) :
    interpolate f position ≤ f index := by
  have hmono := interpolate_mono hf hposition hle
  rwa [interpolate_natCast] at hmono

end Monotone

end PqMqtt.Interpolation
