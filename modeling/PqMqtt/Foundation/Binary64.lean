import Mathlib.Data.Int.Log
import Mathlib.Data.Rat.Floor
import Mathlib.Algebra.Order.Field.Power
import Mathlib.Tactic.Linarith
import Mathlib.Tactic.NormNum
import Mathlib.Tactic.Positivity
import Mathlib.Tactic.FieldSimp
import Mathlib.Tactic.Ring

/-!
# Rounding to binary64

The value of a double is a rational number, an infinity or not a number.  A rational number
becomes a double by rounding its quotient by the unit in the last place to the nearest integer,
ties to even; the sign of a zero is not kept.  Two facts carry the developments that use this:
integers below `2 ^ 53` are kept exactly, and rounding at most doubles a magnitude, up to one.
-/

namespace PqMqtt.Binary64

/-- The nearest integer; a tie goes to the even neighbour. -/
def roundHalfEven (q : ℚ) : ℤ :=
  if q - ⌊q⌋ < 1 / 2 then ⌊q⌋
  else if 1 / 2 < q - ⌊q⌋ then ⌊q⌋ + 1
  else if ⌊q⌋ % 2 = 0 then ⌊q⌋ else ⌊q⌋ + 1

@[simp]
theorem roundHalfEven_intCast (n : ℤ) : roundHalfEven n = n := by
  simp [roundHalfEven]

theorem floor_le_roundHalfEven (q : ℚ) : ⌊q⌋ ≤ roundHalfEven q := by
  unfold roundHalfEven
  split_ifs <;> omega

/-- Rounding moves a number by at most a half. -/
theorem abs_roundHalfEven_sub_le_half (q : ℚ) : |(roundHalfEven q : ℚ) - q| ≤ 1 / 2 := by
  have hfloor : (⌊q⌋ : ℚ) ≤ q := Int.floor_le q
  have hnext : q < ⌊q⌋ + 1 := Int.lt_floor_add_one q
  unfold roundHalfEven
  split_ifs with hlow hhigh heven
  · exact abs_le.mpr ⟨by linarith, by linarith⟩
  · push_cast
    exact abs_le.mpr ⟨by linarith, by linarith⟩
  · exact abs_le.mpr ⟨by linarith, by linarith⟩
  · push_cast
    exact abs_le.mpr ⟨by linarith, by linarith⟩

/-- The nearest integer is the only one within a half. -/
theorem roundHalfEven_eq {q : ℚ} {n : ℤ} (h : |q - n| < 1 / 2) : roundHalfEven q = n := by
  have hnear := abs_le.mp (abs_roundHalfEven_sub_le_half q)
  have hclose := abs_lt.mp h
  have hlower : (-1 : ℚ) < (roundHalfEven q - n : ℤ) := by
    push_cast
    linarith
  have hupper : ((roundHalfEven q - n : ℤ) : ℚ) < 1 := by
    push_cast
    linarith
  have hlower' : -1 < roundHalfEven q - n := by exact_mod_cast hlower
  have hupper' : roundHalfEven q - n < 1 := by exact_mod_cast hupper
  omega

/-- Rounding moves a number by at most one. -/
theorem abs_roundHalfEven_sub_le (q : ℚ) : |(roundHalfEven q : ℚ) - q| ≤ 1 :=
  (abs_roundHalfEven_sub_le_half q).trans (by norm_num)

theorem roundHalfEven_nonneg {q : ℚ} (h : 0 ≤ q) : 0 ≤ roundHalfEven q :=
  (Int.floor_nonneg.mpr h).trans (floor_le_roundHalfEven q)

/-- Rounding does not pass an integer. -/
theorem roundHalfEven_le {q : ℚ} {n : ℤ} (h : q ≤ n) : roundHalfEven q ≤ n := by
  have hfloor : ⌊q⌋ ≤ n := Int.floor_le_iff.mpr (h.trans_lt (by exact_mod_cast Int.lt_succ n))
  have hbelow (hfraction : 1 / 2 ≤ q - ⌊q⌋) : ⌊q⌋ + 1 ≤ n := by
    have hlt : (⌊q⌋ : ℚ) < n := by linarith
    exact_mod_cast hlt
  unfold roundHalfEven
  split_ifs with hlow hhigh heven
  · exact hfloor
  · exact hbelow hhigh.le
  · exact hfloor
  · exact hbelow (not_lt.mp hlow)

/-- The exponent of the unit in the last place of a double of this magnitude. -/
def ulpExponent (q : ℚ) : ℤ := max (Int.log 2 |q| - 52) (-1074)

/-- The nearest number with a 53-bit significand, before the check for overflow. -/
def round (q : ℚ) : ℚ := roundHalfEven (q / 2 ^ ulpExponent q) * 2 ^ ulpExponent q

/-- The unit in the last place is at most the magnitude, up to one. -/
theorem ulp_le (q : ℚ) : (2 : ℚ) ^ ulpExponent q ≤ |q| + 1 := by
  have hnonneg : 0 ≤ |q| := abs_nonneg q
  unfold ulpExponent
  rcases max_choice (Int.log 2 |q| - 52) (-1074) with hmax | hmax
  · rw [hmax]
    rcases eq_or_ne q 0 with hzero | hzero
    · rw [hzero, abs_zero, Int.log_zero_right]
      norm_num
    · have hlog : (2 : ℚ) ^ Int.log 2 |q| ≤ |q| := by
        exact_mod_cast Int.zpow_log_le_self (R := ℚ) one_lt_two (abs_pos.mpr hzero)
      have hstep : (2 : ℚ) ^ (Int.log 2 |q| - 52) ≤ 2 ^ Int.log 2 |q| :=
        zpow_le_zpow_right₀ (by norm_num) (by omega)
      linarith
  · rw [hmax]
    have hsmall : (2 : ℚ) ^ (-1074 : ℤ) ≤ 2 ^ (0 : ℤ) :=
      zpow_le_zpow_right₀ (by norm_num) (by norm_num)
    rw [zpow_zero] at hsmall
    linarith

/-- Rounding moves a number by at most half a unit in the last place. -/
theorem abs_round_sub_le_half (q : ℚ) : |round q - q| ≤ 1 / 2 * 2 ^ ulpExponent q := by
  have hpos : (0 : ℚ) < 2 ^ ulpExponent q := by positivity
  have hfactor : round q - q
      = ((roundHalfEven (q / 2 ^ ulpExponent q) : ℚ) - q / 2 ^ ulpExponent q)
        * 2 ^ ulpExponent q := by
    unfold round
    field_simp
  rw [hfactor, abs_mul, abs_of_pos hpos]
  exact mul_le_mul_of_nonneg_right (abs_roundHalfEven_sub_le_half _) hpos.le

/-- Rounding moves a number by at most one unit in the last place. -/
theorem abs_round_sub_le (q : ℚ) : |round q - q| ≤ 2 ^ ulpExponent q := by
  have hpos : (0 : ℚ) < 2 ^ ulpExponent q := by positivity
  have hhalf := abs_round_sub_le_half q
  linarith

/-- The unit in the last place of a magnitude below a power of two. -/
theorem ulpExponent_le {q : ℚ} {k : ℤ} (hk : -1021 ≤ k) (hq : 0 < q) (h : q < 2 ^ k) :
    ulpExponent q ≤ k - 53 := by
  have hlog : Int.log 2 |q| < k := by
    rw [abs_of_pos hq]
    exact (Int.lt_zpow_iff_log_lt one_lt_two hq).mp (by exact_mod_cast h)
  unfold ulpExponent
  omega

theorem abs_round_le (q : ℚ) : |round q| ≤ 2 * |q| + 1 := by
  have hround := abs_round_sub_le q
  have hulp := ulp_le q
  calc |round q| = |(round q - q) + q| := by rw [sub_add_cancel]
    _ ≤ |round q - q| + |q| := abs_add_le _ _
    _ ≤ 2 * |q| + 1 := by linarith

theorem round_nonneg {q : ℚ} (h : 0 ≤ q) : 0 ≤ round q := by
  have hquotient : (0 : ℤ) ≤ roundHalfEven (q / 2 ^ ulpExponent q) :=
    roundHalfEven_nonneg (by positivity)
  have hcast : (0 : ℚ) ≤ roundHalfEven (q / 2 ^ ulpExponent q) := by exact_mod_cast hquotient
  exact mul_nonneg hcast (by positivity)

/-- Integers below `2 ^ 53` are doubles. -/
theorem round_intCast {n : ℤ} (h : |n| < 2 ^ 53) : round n = n := by
  have hexponent : ulpExponent n ≤ 0 := by
    have hcast : |(n : ℚ)| = (n.natAbs : ℚ) := by
      rw [← Int.cast_abs, Int.abs_eq_natAbs, Int.cast_natCast]
    have hlog : Nat.log 2 n.natAbs < 53 := by
      rcases eq_or_ne n 0 with hzero | hzero
      · simp [hzero]
      · have hnat : n.natAbs < 2 ^ 53 := by
          rw [Int.abs_eq_natAbs] at h
          exact_mod_cast h
        exact Nat.log_lt_of_lt_pow (Int.natAbs_ne_zero.mpr hzero) hnat
    unfold ulpExponent
    rw [hcast, Int.log_natCast]
    omega
  -- The quotient by the unit is the integer `n * 2 ^ k`.
  obtain ⟨k, hk⟩ : ∃ k : ℕ, ulpExponent n = -(k : ℤ) := ⟨(-ulpExponent n).toNat, by omega⟩
  have hquotient : (n : ℚ) / 2 ^ ulpExponent n = ((n * 2 ^ k : ℤ) : ℚ) := by
    rw [hk, zpow_neg, zpow_natCast, div_inv_eq_mul]
    push_cast
    rfl
  unfold round
  rw [hquotient, roundHalfEven_intCast, ← hquotient]
  field_simp

/-- Rounding does not pass an integer below `2 ^ 53`. -/
theorem round_le_intCast {q : ℚ} {n : ℤ} (hq : 0 ≤ q) (h : q ≤ n) (hn : n < 2 ^ 53) :
    round q ≤ n := by
  rcases hq.eq_or_lt with rfl | hpos
  · have hzero : round ((0 : ℤ) : ℚ) = ((0 : ℤ) : ℚ) := round_intCast (by norm_num)
    rw [Int.cast_zero] at hzero
    rw [hzero]
    exact h
  have hbound : q < 2 ^ (53 : ℤ) := h.trans_lt (by exact_mod_cast hn)
  have hexponent : ulpExponent q ≤ 0 := ulpExponent_le (by norm_num) hpos hbound
  obtain ⟨k, hk⟩ : ∃ k : ℕ, ulpExponent q = -(k : ℤ) := ⟨(-ulpExponent q).toNat, by omega⟩
  have hscale : (0 : ℚ) < 2 ^ k := by positivity
  have hquotient : q / 2 ^ ulpExponent q ≤ ((n * 2 ^ k : ℤ) : ℚ) := by
    rw [hk, zpow_neg, zpow_natCast, div_inv_eq_mul]
    push_cast
    exact mul_le_mul_of_nonneg_right h hscale.le
  have hround : (roundHalfEven (q / 2 ^ ulpExponent q) : ℚ) ≤ (n * 2 ^ k : ℤ) := by
    exact_mod_cast roundHalfEven_le hquotient
  push_cast at hround
  unfold round
  calc (roundHalfEven (q / 2 ^ ulpExponent q) : ℚ) * 2 ^ ulpExponent q
      ≤ n * 2 ^ k * 2 ^ ulpExponent q :=
        mul_le_mul_of_nonneg_right hround (zpow_nonneg (by norm_num) _)
    _ = n := by
      rw [hk, zpow_neg, zpow_natCast]
      field_simp

/-- The value of a double. -/
inductive Double where
  | nan
  | inf (negative : Bool)
  | fin (value : ℚ)
deriving DecidableEq

/-- The double nearest to a rational number. -/
def ofRat (q : ℚ) : Double :=
  if |round q| < 2 ^ 1024 then .fin (round q) else .inf (decide (q < 0))

theorem ofRat_eq_fin {q : ℚ} (h : |q| < 2 ^ 1022) : ofRat q = .fin (round q) := by
  apply if_pos
  have hone : (1 : ℚ) ≤ 2 ^ 1022 := one_le_pow₀ (by norm_num)
  have hpow : (2 : ℚ) ^ 1024 = 2 ^ 2 * 2 ^ 1022 := by rw [← pow_add]
  rw [hpow]
  generalize (2 : ℚ) ^ 1022 = bound at h hone ⊢
  calc |round q| ≤ 2 * |q| + 1 := abs_round_le q
    _ < 2 ^ 2 * bound := by linarith

/-- Integers below `2 ^ 53` are converted exactly. -/
theorem ofRat_intCast {n : ℤ} (h : |n| < 2 ^ 53) : ofRat n = .fin n := by
  have hsmall : |(n : ℚ)| < 2 ^ 1022 := by
    have hcast : |(n : ℚ)| < 2 ^ 53 := by exact_mod_cast h
    exact hcast.trans_le (pow_le_pow_right₀ (by norm_num) (by norm_num))
  rw [ofRat_eq_fin hsmall, round_intCast h]

end PqMqtt.Binary64
