import Mathlib.Algebra.BigOperators.Group.Finset.Basic
import Mathlib.Data.Nat.Choose.Basic
import PqMqtt.Foundation.Interpolation

/-!
# Quantiles in exact arithmetic

The repository computes quantiles in three places: `quantile` of `analyze_hs_csv.py`,
`quantile_sorted` of `main.c` and the median in `bench_run` of `bench.c`.  Here their floats, and
those of `median_confidence_interval`, are the members of an ordered field and nothing is rounded.
All three are the interpolant of the order statistics, so they agree.
-/

namespace PqMqtt.Statistics

open Interpolation

/-! ## Order statistics -/

section OrderStatistics

variable {α : Type*} [Zero α] {values : List α} {index : ℕ}

/-- The members of the list by their positions, the last one from there on. -/
def orderStatistic (values : List α) (index : ℕ) : α :=
  values.getD (min index (values.length - 1)) 0

theorem orderStatistic_eq_getElem (h : index < values.length) :
    orderStatistic values index = values[index] := by
  rw [orderStatistic, Nat.min_eq_left (Nat.le_sub_one_of_lt h), List.getD_eq_getElem?_getD,
    List.getElem?_eq_getElem h, Option.getD_some]

theorem getElem?_eq_orderStatistic (h : index < values.length) :
    values[index]? = some (orderStatistic values index) := by
  rw [orderStatistic_eq_getElem h, List.getElem?_eq_getElem h]

theorem orderStatistic_min (values : List α) (index : ℕ) :
    orderStatistic values (min index (values.length - 1)) = orderStatistic values index := by
  rw [orderStatistic, orderStatistic, Nat.min_assoc, Nat.min_self]

theorem orderStatistic_of_le (h : values.length - 1 ≤ index) :
    orderStatistic values index = orderStatistic values (values.length - 1) := by
  rw [← orderStatistic_min values index, Nat.min_eq_right h]

/-- The order statistics of an ascending list ascend. -/
theorem monotone_orderStatistic [Preorder α] (hsorted : values.Pairwise (· ≤ ·)) :
    Monotone (orderStatistic values) := by
  intro first second hle
  rcases Nat.eq_zero_or_pos values.length with hempty | hpos
  · rw [List.length_eq_zero_iff.mp hempty]
    rfl
  have hlt (index : ℕ) : min index (values.length - 1) < values.length := by omega
  have hmin : min first (values.length - 1) ≤ min second (values.length - 1) :=
    min_le_min_right _ hle
  rw [← orderStatistic_min values first, ← orderStatistic_min values second,
    orderStatistic_eq_getElem (hlt first), orderStatistic_eq_getElem (hlt second)]
  rcases hmin.eq_or_lt with hsame | hbefore
  · exact le_of_eq (getElem_congr_idx hsame)
  · exact List.pairwise_iff_getElem.mp hsorted _ _ _ _ hbefore

end OrderStatistics

/-! ## The implementations -/

/-- `values[index]` of Python: an index below zero counts from the end. -/
def pyItem {α : Type*} (values : List α) (index : ℤ) : Option α :=
  if 0 ≤ index then values[index.toNat]?
  else if 0 ≤ values.length + index then values[(values.length + index).toNat]?
  else none

@[simp]
theorem pyItem_natCast {α : Type*} (values : List α) (index : ℕ) :
    pyItem values index = values[index]? := by
  rw [pyItem, if_pos (Int.natCast_nonneg index), Int.toNat_natCast]

variable {K : Type*} [Field K] [LinearOrder K] [FloorRing K]

/-- `quantile` -/
def quantile (sortedValues : List K) (p : K) : Option K :=
  if sortedValues.length = 1 then pyItem sortedValues 0
  else do
    let position := p * (sortedValues.length - 1)
    let lo := ⌊position⌋
    let hi := ⌈position⌉
    let fraction := position - lo
    let low ← pyItem sortedValues lo
    let high ← pyItem sortedValues hi
    some (low + fraction * (high - low))

/-- `quantile_sorted`; `pos` is not negative, and its conversion to `unsigned` drops the
fraction. -/
def quantileSorted (v : List K) (n : ℕ) (p : K) : Option K :=
  if n = 1 then v[0]?
  else do
    let pos := p * ((n - 1 : ℕ) : K)
    let lo := ⌊pos⌋₊
    let hi := if lo + 1 < n then lo + 1 else lo
    let frac := pos - lo
    let low ← v[lo]?
    let high ← v[hi]?
    some (low + frac * (high - low))

/-- The median of `bench_run`, of `iters` sorted samples. -/
def benchMedian (ms : List K) (iters : ℕ) : Option K :=
  if iters % 2 = 1 then ms[iters / 2]?
  else do
    let low ← ms[iters / 2 - 1]?
    let high ← ms[iters / 2]?
    some (1 / 2 * (low + high))

/-- The probability that the median lies between the `k`-th values from below and from above. -/
def coverage (n k : ℕ) : K := 1 - 2 * ((∑ i ∈ Finset.range k, (n.choose i : K)) / 2 ^ n)

/-- The interval reaches the level of confidence, with the tolerance of the code. -/
def Reaches (n : ℕ) (confidence : K) (k : ℕ) : Prop :=
  confidence ≤ coverage n k + 1 / 10 ^ 12

instance (n : ℕ) (confidence : K) : DecidablePred (Reaches n confidence) :=
  fun k ↦ inferInstanceAs (Decidable (confidence ≤ coverage n k + 1 / 10 ^ 12))

/-- The loop over `k`, with `best_k` and `best_coverage`. -/
def coverageLoop (n : ℕ) (confidence : K) : List ℕ → ℕ × K → ℕ × K
  | [], best => best
  | k :: candidates, best =>
    let below : ℕ := ((List.range k).map n.choose).sum
    let tail := (below : K) / 2 ^ n
    let coverage := 1 - 2 * tail
    if confidence ≤ coverage + 1 / 10 ^ 12 then coverageLoop n confidence candidates (k, coverage)
    else best

/-- `median_confidence_interval` -/
def medianConfidenceInterval (sortedValues : List K) (confidence : K) : Option (K × K × K) := do
  let n := sortedValues.length
  let bestCoverage := 1 - 2 * (1 / 2) ^ n
  let best := coverageLoop n confidence (List.range' 1 (n / 2)) (1, bestCoverage)
  let low ← pyItem sortedValues (best.1 - 1)
  let high ← pyItem sortedValues (n - best.1)
  some (low, high, best.2)

/-! ## Agreement with the interpolant -/

section Agreement

variable [IsStrictOrderedRing K] {values : List K}

/-- The quantile of type 7: the interpolant of the order statistics. -/
def typeSeven (values : List K) (p : K) : K :=
  interpolate (orderStatistic values) (p * ((values.length - 1 : ℕ) : K))

theorem typeSeven_of_length_eq_one (h : values.length = 1) (p : K) :
    values[0]? = some (typeSeven values p) := by
  have hzero : p * ((values.length - 1 : ℕ) : K) = ((0 : ℕ) : K) := by
    rw [h, Nat.sub_self, Nat.cast_zero, mul_zero]
  rw [typeSeven, hzero, interpolate_natCast]
  exact getElem?_eq_orderStatistic (by omega)

/-- The clamped increment: past the end the next order statistic is the last one. -/
theorem quantileSorted_eq (hne : values ≠ []) {p : K} (hp' : p ≤ 1) :
    quantileSorted values values.length p = some (typeSeven values p) := by
  have hpos : 0 < values.length := List.length_pos_iff.mpr hne
  unfold quantileSorted
  split_ifs with hone
  · exact typeSeven_of_length_eq_one hone p
  have hle : p * ((values.length - 1 : ℕ) : K) ≤ ((values.length - 1 : ℕ) : K) :=
    mul_le_of_le_one_left (Nat.cast_nonneg _) hp'
  rw [typeSeven, interpolate]
  generalize p * ((values.length - 1 : ℕ) : K) = position at hle ⊢
  have hlo : ⌊position⌋₊ ≤ values.length - 1 := Nat.floor_le_of_le hle
  have hlow := getElem?_eq_orderStatistic (Nat.lt_of_le_of_lt hlo (Nat.sub_one_lt hpos.ne'))
  have hhigh : values[if ⌊position⌋₊ + 1 < values.length then ⌊position⌋₊ + 1 else ⌊position⌋₊]?
      = some (orderStatistic values (⌊position⌋₊ + 1)) := by
    split_ifs with hnext
    · exact getElem?_eq_orderStatistic hnext
    · have hlast : values.length - 1 ≤ ⌊position⌋₊ := by omega
      rw [hlow, orderStatistic_of_le hlast, orderStatistic_of_le (hlast.trans (Nat.le_succ _))]
  dsimp only
  rw [hlow, hhigh]
  rfl

/-- The ceiling: at a whole position the fraction is zero. -/
theorem quantile_eq (hne : values ≠ []) {p : K} (hp : 0 ≤ p) (hp' : p ≤ 1) :
    quantile values p = some (typeSeven values p) := by
  have hpos : 1 ≤ values.length := List.length_pos_iff.mpr hne
  unfold quantile
  split_ifs with hone
  · exact (pyItem_natCast values 0).trans (typeSeven_of_length_eq_one hone p)
  have hnonneg : 0 ≤ p * ((values.length - 1 : ℕ) : K) := mul_nonneg hp (Nat.cast_nonneg _)
  have hle : p * ((values.length - 1 : ℕ) : K) ≤ ((values.length - 1 : ℕ) : K) :=
    mul_le_of_le_one_left (Nat.cast_nonneg _) hp'
  have hcast : (values.length : K) - 1 = ((values.length - 1 : ℕ) : K) := by
    rw [Nat.cast_sub hpos, Nat.cast_one]
  rw [typeSeven, interpolate, hcast]
  generalize p * ((values.length - 1 : ℕ) : K) = position at hnonneg hle ⊢
  have hhi : ⌈position⌉₊ ≤ values.length - 1 := Nat.ceil_le.mpr hle
  have hlo : ⌊position⌋₊ ≤ ⌈position⌉₊ := Nat.floor_le_ceil position
  have hlow : pyItem values ⌊position⌋ = some (orderStatistic values ⌊position⌋₊) := by
    rw [← Int.natCast_floor_eq_floor hnonneg, pyItem_natCast]
    exact getElem?_eq_orderStatistic (by omega)
  have hhigh : pyItem values ⌈position⌉ = some (orderStatistic values ⌈position⌉₊) := by
    rw [← Int.natCast_ceil_eq_ceil hnonneg, pyItem_natCast]
    exact getElem?_eq_orderStatistic (by omega)
  have hfloor : (⌊position⌋ : K) = (⌊position⌋₊ : K) := by
    rw [← Int.natCast_floor_eq_floor hnonneg, Int.cast_natCast]
  dsimp only
  rw [hlow, hhigh, hfloor]
  rcases hlo.eq_or_lt with hwhole | hbetween
  · have hposition : position = (⌊position⌋₊ : K) :=
      le_antisymm (hwhole ▸ Nat.le_ceil position) (Nat.floor_le hnonneg)
    have hfraction : position - (⌊position⌋₊ : K) = 0 := sub_eq_zero.mpr hposition
    simp only [hfraction, Option.bind_eq_bind, Option.bind_some, zero_mul]
  · have hnext : ⌈position⌉₊ = ⌊position⌋₊ + 1 :=
      le_antisymm (Nat.ceil_le_floor_add_one position) hbetween
    rw [hnext]
    rfl

/-- The parity split: the middle of an odd number of samples is a member, that of an even number
lies halfway between two. -/
theorem benchMedian_eq (hne : values ≠ []) :
    benchMedian values values.length = some (typeSeven values (1 / 2)) := by
  have hpos : 1 ≤ values.length := List.length_pos_iff.mpr hne
  unfold benchMedian
  rw [typeSeven]
  split_ifs with hodd
  · have hposition : (1 / 2 : K) * ((values.length - 1 : ℕ) : K)
        = ((values.length / 2 : ℕ) : K) := by
      have hlength : values.length - 1 = 2 * (values.length / 2) := by omega
      rw [hlength, Nat.cast_mul, Nat.cast_two]
      ring
    rw [hposition, interpolate_natCast]
    exact getElem?_eq_orderStatistic (by omega)
  · have hposition : (1 / 2 : K) * ((values.length - 1 : ℕ) : K)
        = ((values.length / 2 - 1 : ℕ) : K) + 1 / 2 := by
      have hlength : values.length - 1 = 2 * (values.length / 2 - 1) + 1 := by omega
      rw [hlength, Nat.cast_add, Nat.cast_mul, Nat.cast_two, Nat.cast_one]
      ring
    have hnext : values.length / 2 - 1 + 1 = values.length / 2 := by omega
    rw [hposition, interpolate_add_half, hnext]
    have hlow := getElem?_eq_orderStatistic
      (show values.length / 2 - 1 < values.length by omega)
    have hhigh := getElem?_eq_orderStatistic (show values.length / 2 < values.length by omega)
    rw [hlow, hhigh]
    rfl

end Agreement

/-! ## Device and host -/

/-- The three implementations on one ascending list: where they index, and what they return. -/
structure QuantilesAgree (v : List K) : Prop where
  host_indices : ∀ p : K, 0 ≤ p → p ≤ 1 →
    0 ≤ ⌊p * (v.length - 1 : K)⌋ ∧ ⌊p * (v.length - 1 : K)⌋ ≤ ⌈p * (v.length - 1 : K)⌉ ∧
      ⌈p * (v.length - 1 : K)⌉ < v.length
  device_indices : ∀ p : K, 0 ≤ p → p ≤ 1 → ⌊p * ((v.length - 1 : ℕ) : K)⌋₊ < v.length
  agree : ∀ p : K, 0 ≤ p → p ≤ 1 → ∃ first last x, v[0]? = some first ∧
    v[v.length - 1]? = some last ∧ quantileSorted v v.length p = some x ∧
    quantile v p = some x ∧ first ≤ x ∧ x ≤ last
  monotone : ∀ p q x y : K, 0 ≤ p → p ≤ q → q ≤ 1 → quantile v p = some x →
    quantile v q = some y → x ≤ y
  median : quantileSorted v v.length (1 / 2) = benchMedian v v.length ∧
    quantile v (1 / 2) = benchMedian v v.length

section Quantiles

variable [IsStrictOrderedRing K] {v : List K}

theorem typeSeven_mono (hv : v.Pairwise (· ≤ ·)) {p q : K} (hp : 0 ≤ p) (hpq : p ≤ q) :
    typeSeven v p ≤ typeSeven v q :=
  interpolate_mono (monotone_orderStatistic hv) (mul_nonneg hp (Nat.cast_nonneg _))
    (mul_le_mul_of_nonneg_right hpq (Nat.cast_nonneg _))

/-- A quantile lies between the least and the greatest value. -/
theorem typeSeven_mem (hv : v.Pairwise (· ≤ ·)) {p : K} (hp : 0 ≤ p) (hp' : p ≤ 1) :
    orderStatistic v 0 ≤ typeSeven v p ∧
      typeSeven v p ≤ orderStatistic v (v.length - 1) := by
  have hmono := monotone_orderStatistic hv
  have hnonneg : 0 ≤ p * ((v.length - 1 : ℕ) : K) := mul_nonneg hp (Nat.cast_nonneg _)
  constructor
  · apply le_interpolate_of_le hmono
    rwa [Nat.cast_zero]
  · exact interpolate_le_of_le hmono hnonneg (mul_le_of_le_one_left (Nat.cast_nonneg _) hp')

/-- On every ascending list that is not empty the device and the host agree. -/
theorem quantiles_agree (hne : v ≠ []) (hv : v.Pairwise (· ≤ ·)) : QuantilesAgree v where
  host_indices p hp hp' := by
    have hpos : 0 < v.length := List.length_pos_iff.mpr hne
    have hone : (1 : K) ≤ v.length := Nat.one_le_cast.mpr hpos
    have hlast : 0 ≤ (v.length - 1 : K) := sub_nonneg.mpr hone
    refine ⟨Int.floor_nonneg.mpr (mul_nonneg hp hlast), Int.floor_le_ceil _, ?_⟩
    apply Int.lt_of_le_sub_one
    apply Int.ceil_le.mpr
    rw [Int.cast_sub, Int.cast_natCast, Int.cast_one]
    exact mul_le_of_le_one_left hlast hp'
  device_indices p _ hp' := by
    have hpos : 0 < v.length := List.length_pos_iff.mpr hne
    have hle : p * ((v.length - 1 : ℕ) : K) ≤ ((v.length - 1 : ℕ) : K) :=
      mul_le_of_le_one_left (Nat.cast_nonneg _) hp'
    exact Nat.lt_of_le_of_lt (Nat.floor_le_of_le hle) (Nat.sub_one_lt hpos.ne')
  agree p hp hp' := by
    have hpos : 0 < v.length := List.length_pos_iff.mpr hne
    obtain ⟨hfirst, hlast⟩ := typeSeven_mem hv hp hp'
    exact ⟨_, _, _, getElem?_eq_orderStatistic hpos,
      getElem?_eq_orderStatistic (Nat.sub_one_lt hpos.ne'), quantileSorted_eq hne hp',
      quantile_eq hne hp hp', hfirst, hlast⟩
  monotone p q x y hp hpq hq hx hy := by
    rw [quantile_eq hne hp (hpq.trans hq)] at hx
    rw [quantile_eq hne (hp.trans hpq) hq] at hy
    rw [← Option.some.inj hx, ← Option.some.inj hy]
    exact typeSeven_mono hv hp hpq
  median := by
    have hhalf : (0 : K) ≤ 1 / 2 := by norm_num
    have hhalf' : (1 / 2 : K) ≤ 1 := by norm_num
    constructor
    · rw [quantileSorted_eq hne hhalf', benchMedian_eq hne]
    · rw [quantile_eq hne hhalf hhalf', benchMedian_eq hne]

end Quantiles

theorem quantiles_agree_four : QuantilesAgree ([1, 2, 4, 8] : List ℚ) :=
  quantiles_agree (by decide) (by decide)

end PqMqtt.Statistics
