import PqMqtt.Foundation.EarlyStop
import PqMqtt.Statistics.Quantile

/-!
# The confidence interval of the median

`median_confidence_interval` tries the symmetric intervals of order statistics from the widest
one on and stops at the first whose binomial coverage is too small.  Coverage falls from one
interval to the next, so the last one before that is the narrowest with enough coverage.
-/

namespace PqMqtt.Statistics

open Finset Interpolation

/-! ## Coverage -/

section Coverage

variable {K : Type*} [Field K] (n : ℕ)

theorem sum_map_choose (k : ℕ) :
    ((List.range k).map n.choose).sum = ∑ i ∈ range k, n.choose i := by
  induction k with
  | zero => rfl
  | succ k ih =>
    rw [List.range_succ, List.map_append, List.sum_append, ih, sum_range_succ, List.map_singleton,
      List.sum_singleton]

/-- The coverage that the loop computes. -/
theorem coverage_eq (k : ℕ) :
    1 - 2 * ((((List.range k).map n.choose).sum : ℕ) / 2 ^ n : K) = coverage n k := by
  rw [coverage, sum_map_choose, Nat.cast_sum]

/-- The coverage before the loop is that of the widest interval. -/
theorem coverage_one : (1 - 2 * (1 / 2) ^ n : K) = coverage n 1 := by
  calc
    (1 - 2 * (1 / 2) ^ n : K) = 1 - 2 * (1 / 2 ^ n) := by rw [div_pow, one_pow]
    _ = 1 - 2 * ((n.choose 0 : K) / 2 ^ n) := by rw [Nat.choose_zero_right, Nat.cast_one]
    _ = coverage n 1 := by rw [coverage, sum_range_one]

/-- A narrower interval leaves out more outcomes. -/
theorem coverage_antitone [LinearOrder K] [IsStrictOrderedRing K] :
    Antitone (coverage n : ℕ → K) := by
  intro k next hle
  have hpow : (0 : K) ≤ 2 ^ n := pow_nonneg zero_le_two n
  have hsum : ∑ i ∈ range k, (n.choose i : K) ≤ ∑ i ∈ range next, (n.choose i : K) :=
    sum_le_sum_of_subset_of_nonneg (range_subset_range.mpr hle) fun i _ _ ↦ Nat.cast_nonneg _
  exact sub_le_sub_left
    (mul_le_mul_of_nonneg_left (div_le_div_of_nonneg_right hsum hpow) zero_le_two) 1

end Coverage

/-! ## The scan -/

variable {K : Type*} [Field K] [LinearOrder K]

/-- The `k` of the interval that is chosen. -/
def bestK (n : ℕ) (confidence : K) : ℕ :=
  EarlyStop.lastAccepted (fun k ↦ decide (Reaches n confidence k)) 1 (List.range' 1 (n / 2))

section Scan

variable (n : ℕ) (confidence : K)

/-- The loop is a scan that stops at the first interval that does not reach the level. -/
theorem coverageLoop_eq (candidates : List ℕ) (k : ℕ) :
    coverageLoop n confidence candidates (k, coverage n k) =
      (EarlyStop.lastAccepted (fun k ↦ decide (Reaches n confidence k)) k candidates,
        coverage n
          (EarlyStop.lastAccepted (fun k ↦ decide (Reaches n confidence k)) k candidates)) := by
  induction candidates generalizing k with
  | nil => rfl
  | cons candidate candidates ih =>
    rw [coverageLoop, EarlyStop.lastAccepted, coverage_eq]
    by_cases hreaches : Reaches n confidence candidate
    · rw [if_pos (decide_eq_true hreaches)]
      exact (if_pos hreaches).trans (ih candidate)
    · rw [if_neg (mt of_decide_eq_true hreaches)]
      exact if_neg hreaches

theorem coverageLoop_range :
    coverageLoop n confidence (List.range' 1 (n / 2)) (1, 1 - 2 * (1 / 2) ^ n) =
      (bestK n confidence, coverage n (bestK n confidence)) := by
  rw [coverage_one]
  exact coverageLoop_eq n confidence _ 1

variable [IsStrictOrderedRing K]

/-- The scan finds the greatest `k` that reaches the level, or keeps 1 when there is none. -/
theorem bestK_spec :
    IsGreatest {k | 1 ≤ k ∧ k ≤ n / 2 ∧ Reaches n confidence k} (bestK n confidence) ∨
      (∀ k, 1 ≤ k → k ≤ n / 2 → ¬Reaches n confidence k) ∧ bestK n confidence = 1 := by
  have hmem {k : ℕ} : k ∈ List.range' 1 (n / 2) ↔ 1 ≤ k ∧ k ≤ n / 2 := by
    rw [List.mem_range'_1]
    omega
  have hset : {k | k ∈ List.range' 1 (n / 2) ∧ decide (Reaches n confidence k) = true}
      = {k | 1 ≤ k ∧ k ≤ n / 2 ∧ Reaches n confidence k} := by
    ext k
    simp only [Set.mem_ofPred_eq, hmem, decide_eq_true_iff, and_assoc]
  -- An interval inside one that falls short falls short as well.
  have hclosed : ∀ a b, a < b → decide (Reaches n confidence b) = true →
      decide (Reaches n confidence a) = true := by
    intro a b hlt hb
    have hle : coverage n b ≤ (coverage n a : K) := coverage_antitone n hlt.le
    exact decide_eq_true ((of_decide_eq_true hb).trans (add_le_add_left hle _))
  by_cases hsome : ∃ k ∈ List.range' 1 (n / 2), decide (Reaches n confidence k) = true
  · refine Or.inl ?_
    rw [← hset]
    exact EarlyStop.isGreatest_lastAccepted hclosed List.pairwise_lt_range' hsome
  · have hnone : ∀ k ∈ List.range' 1 (n / 2), decide (Reaches n confidence k) = false := by
      intro k hk
      exact Bool.eq_false_iff.mpr fun hreaches ↦ hsome ⟨k, hk, hreaches⟩
    refine Or.inr ⟨fun k hone hle ↦ ?_, EarlyStop.lastAccepted_eq_best hnone⟩
    exact of_decide_eq_false (hnone k (hmem.mpr ⟨hone, hle⟩))

theorem bestK_mem : 1 ≤ bestK n confidence ∧
    (bestK n confidence ≤ n / 2 ∨ bestK n confidence = 1) := by
  rcases bestK_spec n confidence with ⟨⟨hone, hle, -⟩, -⟩ | ⟨-, hone⟩
  · exact ⟨hone, Or.inl hle⟩
  · exact ⟨hone.ge, Or.inr hone⟩

end Scan

/-! ## The interval -/

/-- The interval from the `k`-th value to the `k`-th last one is the narrowest that reaches the
level, or the widest of all when none does, and it holds the median. -/
structure NarrowestInterval [FloorRing K] (v : List K) (confidence : K) (k : ℕ) (low high : K) :
    Prop where
  narrowest : IsGreatest {k | 1 ≤ k ∧ k ≤ v.length / 2 ∧ Reaches v.length confidence k} k ∨
    (∀ k, 1 ≤ k → k ≤ v.length / 2 → ¬Reaches v.length confidence k) ∧ k = 1
  low_index : 1 ≤ k ∧ k - 1 < v.length
  high_index : k ≤ v.length ∧ v.length - k < v.length
  low_eq : v[k - 1]? = some low
  high_eq : v[v.length - k]? = some high
  median : ∃ middle, quantile v (1 / 2) = some middle ∧ low ≤ middle ∧ middle ≤ high

section Interval

variable [FloorRing K] [IsStrictOrderedRing K] {v : List K}

/-- The median lies between the `k`-th value and the `k`-th last one. -/
theorem median_mem (hv : v.Pairwise (· ≤ ·)) {k : ℕ} (hone : 1 ≤ k) (hle : 2 * k ≤ v.length + 1) :
    orderStatistic v (k - 1) ≤ typeSeven v (1 / 2) ∧
      typeSeven v (1 / 2) ≤ orderStatistic v (v.length - k) := by
  have hmono := monotone_orderStatistic hv
  have hlow : ((2 * (k - 1) : ℕ) : K) ≤ ((v.length - 1 : ℕ) : K) := Nat.cast_le.mpr (by omega)
  have hhigh : ((v.length - 1 : ℕ) : K) ≤ ((2 * (v.length - k) : ℕ) : K) :=
    Nat.cast_le.mpr (by omega)
  rw [Nat.cast_mul, Nat.cast_two] at hlow hhigh
  constructor
  · apply le_interpolate_of_le hmono
    linarith
  · apply interpolate_le_of_le hmono
    · positivity
    · linarith

/-- For every ascending list that is not empty and every level of confidence, the interval is the
narrowest symmetric one with enough coverage. -/
theorem median_interval_narrowest (hne : v ≠ []) (hv : v.Pairwise (· ≤ ·)) (confidence : K) :
    ∃ k low high, medianConfidenceInterval v confidence = some (low, high, coverage v.length k) ∧
      NarrowestInterval v confidence k low high := by
  have hpos : 1 ≤ v.length := List.length_pos_iff.mpr hne
  have hspec := bestK_spec v.length confidence
  have hloop := coverageLoop_range v.length confidence
  obtain ⟨hone, hle⟩ := bestK_mem v.length confidence
  generalize bestK v.length confidence = k at hspec hloop hone hle
  have hlength : k ≤ v.length ∧ 2 * k ≤ v.length + 1 := by omega
  have hlowIndex : k - 1 < v.length := by omega
  have hhighIndex : v.length - k < v.length := by omega
  have hlow := getElem?_eq_orderStatistic hlowIndex
  have hhigh := getElem?_eq_orderStatistic hhighIndex
  obtain ⟨hbelow, habove⟩ := median_mem hv hone hlength.2
  have hhalf : (0 : K) ≤ 1 / 2 := by norm_num
  have hhalf' : (1 / 2 : K) ≤ 1 := by norm_num
  refine ⟨k, orderStatistic v (k - 1), orderStatistic v (v.length - k), ?_,
    ⟨hspec, ⟨hone, hlowIndex⟩, ⟨hlength.1, hhighIndex⟩, hlow, hhigh,
      ⟨_, quantile_eq hne hhalf hhalf', hbelow, habove⟩⟩⟩
  have hlowItem : pyItem v ((k : ℤ) - 1) = v[k - 1]? := by
    rw [← pyItem_natCast, Nat.cast_sub hone, Nat.cast_one]
  have hhighItem : pyItem v ((v.length : ℤ) - k) = v[v.length - k]? := by
    rw [← pyItem_natCast, Nat.cast_sub hlength.1]
  unfold medianConfidenceInterval
  dsimp only
  rw [hloop, hlowItem, hhighItem, hlow, hhigh]
  rfl

end Interval

/-- Of four values even the whole range misses 95 percent. -/
theorem median_interval_narrowest_four :
    ∃ k low high, medianConfidenceInterval ([1, 2, 4, 8] : List ℚ) (95 / 100)
        = some (low, high, coverage 4 k) ∧
      NarrowestInterval ([1, 2, 4, 8] : List ℚ) (95 / 100) k low high :=
  median_interval_narrowest (by decide) (by decide) (95 / 100)

example : medianConfidenceInterval ([1, 2, 4, 8] : List ℚ) (95 / 100) = some (1, 8, 7 / 8) := by
  decide +kernel

end PqMqtt.Statistics
