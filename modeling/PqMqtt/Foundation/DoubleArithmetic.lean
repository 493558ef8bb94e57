import Mathlib.Data.Prod.Lex
import PqMqtt.Foundation.Binary64

/-!
# Arithmetic and order of doubles

Sums, products and quotients are rounded results of the rational operation, with the rules of
binary64 for infinities and for what is not a number.  A comparison with what is not a number is
false; the other doubles are linearly ordered.
-/

namespace PqMqtt.Binary64.Double

/-! ## Arithmetic -/

def neg : Double → Double
  | nan => nan
  | inf negative => inf !negative
  | fin x => fin (-x)

def add : Double → Double → Double
  | nan, _ => nan
  | _, nan => nan
  | inf first, inf second => if first = second then inf first else nan
  | inf negative, fin _ => inf negative
  | fin _, inf negative => inf negative
  | fin x, fin y => ofRat (x + y)

def sub (x y : Double) : Double := x.add y.neg

def abs : Double → Double
  | nan => nan
  | inf _ => inf false
  | fin x => fin |x|

def mul : Double → Double → Double
  | nan, _ => nan
  | _, nan => nan
  | inf first, inf second => inf (first != second)
  | inf negative, fin y => if y = 0 then nan else inf (negative != decide (y < 0))
  | fin x, inf negative => if x = 0 then nan else inf (negative != decide (x < 0))
  | fin x, fin y => ofRat (x * y)

/-- The quotient by a number that is not zero. -/
def div : Double → Double → Double
  | nan, _ => nan
  | _, nan => nan
  | inf _, inf _ => nan
  | inf negative, fin y => inf (negative != decide (y < 0))
  | fin _, inf _ => fin 0
  | fin x, fin y => ofRat (x / y)

/-! ## Order -/

def lt : Double → Double → Bool
  | nan, _ => false
  | _, nan => false
  | inf first, inf second => first && !second
  | inf negative, fin _ => negative
  | fin _, inf negative => !negative
  | fin x, fin y => x < y

def le (x y : Double) : Bool := x.lt y || (x = y && x ≠ nan)

/-- The place of a double in a linear order that agrees with the comparison of numbers. -/
def rank : Double → ℕ ×ₗ ℚ
  | nan => toLex (0, 0)
  | inf true => toLex (1, 0)
  | fin x => toLex (2, x)
  | inf false => toLex (3, 0)

theorem rank_injective : Function.Injective rank := by
  intro x y h
  match x, y with
  | nan, nan => rfl
  | inf true, inf true => rfl
  | inf false, inf false => rfl
  | fin p, fin q => simpa [rank] using h
  | nan, inf true | nan, inf false | nan, fin _ | inf true, nan | inf false, nan | fin _, nan
  | inf true, inf false | inf false, inf true | inf true, fin _ | fin _, inf true
  | inf false, fin _ | fin _, inf false => simp [rank] at h

/-- Numbers are compared by their ranks. -/
theorem lt_iff_rank_lt {x y : Double} (hx : x ≠ nan) (hy : y ≠ nan) :
    x.lt y = true ↔ x.rank < y.rank := by
  match x, y with
  | nan, _ => exact absurd rfl hx
  | _, nan => exact absurd rfl hy
  | inf true, inf true | inf false, inf false | fin _, fin _ | inf true, inf false
  | inf false, inf true | inf true, fin _ | fin _, inf true | inf false, fin _ | fin _, inf false =>
    simp [lt, rank, Prod.Lex.toLex_lt_toLex]

/-- What compares as smaller is a number, and so is what it is compared with. -/
theorem lt_eq_true_iff {x y : Double} :
    x.lt y = true ↔ x ≠ nan ∧ y ≠ nan ∧ x.rank < y.rank := by
  by_cases hx : x = nan
  · simp [hx, lt]
  by_cases hy : y = nan
  · cases x <;> simp [hy, lt]
  · rw [lt_iff_rank_lt hx hy]
    simp [hx, hy]

theorem le_eq_true_iff {x y : Double} :
    x.le y = true ↔ x ≠ nan ∧ y ≠ nan ∧ x.rank ≤ y.rank := by
  rw [le, Bool.or_eq_true, lt_eq_true_iff, le_iff_lt_or_eq, rank_injective.eq_iff]
  by_cases hx : x = nan
  · simp [hx]
  · by_cases heq : x = y
    · subst heq
      simp [hx]
    · simp [heq]

end PqMqtt.Binary64.Double
