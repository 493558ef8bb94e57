import Mathlib.Analysis.Real.Sqrt
import Mathlib.Data.String.Basic
import PqMqtt.Foundation.Grouping
import PqMqtt.Foundation.SampleMoments
import PqMqtt.Statistics.Quantile

/-!
# Pooled standard deviations

`print_stat_row` of `main.c` prints mean and standard deviation of every run, and
`summarize_mtls_runs.py` pools the rows of runs of equal size.  The floats of both are the members
of an ordered field, of which `sqrt` is a parameter, and nothing is rounded.  The pooled variance
is the one that a single run with all values would have had.
-/

namespace PqMqtt.Statistics

open Grouping SampleMoments

/-! ## The firmware -/

/-- The values that `print_stat_row` prints; a compact build leaves out the quartiles. -/
structure StatRow (K : Type*) where
  n : ℕ
  mean : K
  stddev : K
  mn : K
  mx : K
  q1 : K
  median : K
  q3 : K
  p90 : K
  p99 : K

section Definitions

variable {K : Type*} [Field K] [LinearOrder K]

/-- The first loop of `print_stat_row`: the sum, the least and the greatest value. -/
def statLoop (v : List K) (first : K) : K × K × K :=
  v.foldl (fun acc x ↦
    (acc.1 + x, if x < acc.2.1 then x else acc.2.1, if acc.2.2 < x then x else acc.2.2))
    (0, first, first)

/-- The second loop. -/
def varianceLoop (v : List K) (mean : K) : K :=
  v.foldl (fun variance x ↦ variance + (x - mean) * (x - mean)) 0

/-- The constants `0.25` to `0.99`. -/
def hundredths (p : ℕ) : K := (p : K) / ((100 : ℕ) : K)

variable [FloorRing K] (sqrt : K → K)

/-- `print_stat_row`; `none` stands for a metric without observations. -/
def printStatRow (v : List K) : Option (StatRow K) := do
  let first ← v[0]?
  let n := v.length
  let (sum, mn, mx) := statLoop v first
  let mean := sum / n
  let variance := varianceLoop v mean
  let sorted := v.mergeSort
  let q1 ← quantileSorted sorted n (hundredths 25)
  let median ← quantileSorted sorted n (hundredths 50)
  let q3 ← quantileSorted sorted n (hundredths 75)
  let p90 ← quantileSorted sorted n (hundredths 90)
  let p99 ← quantileSorted sorted n (hundredths 99)
  some
    { n := n
      mean := mean
      stddev := sqrt (variance / if 1 < n then ((n - 1 : ℕ) : K) else 1)
      mn := mn
      mx := mx
      q1 := q1
      median := median
      q3 := q3
      p90 := p90
      p99 := p99 }

end Definitions

/-! ## The host -/

/-- The columns of a run that `summarize_mtls_runs.py` reads. -/
structure RunRow (K : Type*) where
  scheme : String
  category : String
  board : String
  metric : String
  meanMs : K
  stdMs : K
  medianMs : K
  minMs : K
  maxMs : K

abbrev RunKey := String × String × String × String

/-- `(row["Scheme"], row["Category"], row["Board"], row["Metric"])` -/
def RunRow.key {K : Type*} (row : RunRow K) : RunKey :=
  (row.scheme, row.category, row.board, row.metric)

/-- The order of `sorted(groups)`. -/
def runRank (key : RunKey) : String ×ₗ String ×ₗ String ×ₗ String :=
  toLex (key.1, toLex (key.2.1, toLex key.2.2))

structure PooledRow (K : Type*) where
  key : RunKey
  runs : ℕ
  attempts : ℤ
  meanMs : K
  pooledStdMs : K
  minMs : K
  maxMs : K
  lowestRunMedianMs : K
  highestRunMedianMs : K

section Definitions

variable {K : Type*} [Field K] [LinearOrder K] (sqrt : K → K)

/-- The row that is written for a group. -/
def pooledRow (attemptsPerRun : ℤ) (entry : RunKey × List (RunRow K)) : PooledRow K :=
  let rows := entry.2
  let n := attemptsPerRun
  let means := rows.map (·.meanMs)
  let stds := rows.map (·.stdMs)
  let medians := rows.map (·.medianMs)
  let grandMean := means.sum / means.length
  let totalN := n * rows.length
  let sumSquares := (List.zipWith (fun mean std ↦
    ((n - 1 : ℤ) : K) * std * std + n * (mean - grandMean) ^ 2) means stds).sum
  { key := entry.1
    runs := rows.length
    attempts := totalN
    meanMs := grandMean
    pooledStdMs := if 1 < totalN then sqrt (sumSquares / ((totalN - 1 : ℤ) : K)) else 0
    minMs := ((rows.map (·.minMs)).min?).getD 0
    maxMs := ((rows.map (·.maxMs)).max?).getD 0
    lowestRunMedianMs := (medians.min?).getD 0
    highestRunMedianMs := (medians.max?).getD 0 }

/-- `main` of `summarize_mtls_runs.py`, from the rows that it reads to the rows that it writes. -/
def summarizeRuns (attemptsPerRun : ℤ) (rows : List (RunRow K)) : List (PooledRow K) :=
  (sortByKey runRank (groupBy RunRow.key rows)).map (pooledRow sqrt attemptsPerRun)

end Definitions

/-! ## What the loops compute -/

section Loops

variable {K : Type*} [Field K] [LinearOrder K]

theorem statLoop_fst (v : List K) (first : K) : (statLoop v first).1 = v.sum := by
  have hfold (acc : K × K × K) : (v.foldl (fun acc x ↦
      (acc.1 + x, if x < acc.2.1 then x else acc.2.1, if acc.2.2 < x then x else acc.2.2))
      acc).1 = acc.1 + v.sum := by
    induction v generalizing acc with
    | nil => simp
    | cons x v ih => rw [List.foldl_cons, ih, List.sum_cons, add_assoc]
  rw [statLoop, hfold, zero_add]

omit [LinearOrder K] in
theorem varianceLoop_eq (v : List K) (centre : K) : varianceLoop v centre = squares v centre := by
  have hfold (acc : K) : v.foldl (fun variance x ↦ variance + (x - centre) * (x - centre)) acc
      = acc + squares v centre := by
    induction v generalizing acc with
    | nil => simp [squares]
    | cons x v ih =>
      rw [List.foldl_cons, ih, squares_cons, add_assoc, sq]
  rw [varianceLoop, hfold, zero_add]

variable [FloorRing K] {sqrt : K → K} {v : List K} {stat : StatRow K}

/-- Mean and deviation of a printed row. -/
theorem mean_and_stddev (h : printStatRow sqrt v = some stat) :
    stat.mean = mean v ∧ stat.stddev =
      sqrt (squares v (mean v) / if 1 < v.length then ((v.length - 1 : ℕ) : K) else 1) := by
  unfold printStatRow at h
  simp only [Option.bind_eq_bind, Option.bind_eq_some_iff, statLoop_fst, varianceLoop_eq] at h
  obtain ⟨first, -, q1, -, median, -, q3, -, p90, -, p99, -, h⟩ := h
  obtain rfl := Option.some.inj h
  exact ⟨rfl, rfl⟩

omit [FloorRing K] in
theorem hundredths_le_one [IsStrictOrderedRing K] {p : ℕ} (h : p ≤ 100) :
    (hundredths p : K) ≤ 1 :=
  div_le_one_of_le₀ (Nat.cast_le.mpr h) (Nat.cast_nonneg _)

/-- A row is printed for every metric with observations. -/
theorem exists_printStatRow [IsStrictOrderedRing K] (sqrt : K → K) (hne : v ≠ []) :
    ∃ stat, printStatRow sqrt v = some stat := by
  have hpos : 0 < v.length := List.length_pos_iff.mpr hne
  have hsorted : v.mergeSort ≠ [] := by
    rw [← List.length_pos_iff, List.length_mergeSort]
    exact hpos
  have hquantile {p : ℕ} (hp : p ≤ 100) :
      ∃ x, quantileSorted v.mergeSort v.length (hundredths p) = some x := by
    have heq := quantileSorted_eq hsorted (hundredths_le_one hp)
    rw [List.length_mergeSort] at heq
    exact ⟨_, heq⟩
  obtain ⟨q1, hq1⟩ := hquantile (show 25 ≤ 100 by norm_num)
  obtain ⟨median, hmedian⟩ := hquantile (show 50 ≤ 100 by norm_num)
  obtain ⟨q3, hq3⟩ := hquantile (show 75 ≤ 100 by norm_num)
  obtain ⟨p90, hp90⟩ := hquantile (show 90 ≤ 100 by norm_num)
  obtain ⟨p99, hp99⟩ := hquantile (show 99 ≤ 100 by norm_num)
  unfold printStatRow
  simp only [List.getElem?_eq_getElem hpos, hq1, hmedian, hq3, hp90, hp99, Option.bind_eq_bind,
    Option.bind_some]
  exact ⟨_, rfl⟩

end Loops

/-! ## Pooling -/

/-- The row has the mean and the deviation that were printed for the samples of a run. -/
def SummarizedAs (sample : List ℝ) (row : RunRow ℝ) : Prop :=
  ∃ stat, printStatRow Real.sqrt sample = some stat ∧
    row.meanMs = stat.mean ∧ row.stdMs = stat.stddev

/-- The row says about the runs what would have been printed for their samples together. -/
structure PooledExactly (samples : List (List ℝ)) (row : PooledRow ℝ) : Prop where
  runs : row.runs = samples.length
  attempts : row.attempts = samples.flatten.length
  mean : row.meanMs = mean samples.flatten
  variance : row.pooledStdMs ^ 2 = sampleVariance samples.flatten

theorem squares_nonneg (sample : List ℝ) (centre : ℝ) : 0 ≤ squares sample centre := by
  apply List.sum_nonneg
  intro term hterm
  obtain ⟨x, -, rfl⟩ := List.mem_map.mp hterm
  exact sq_nonneg _

/-- The squared deviations within a run are found again in its standard deviation. -/
theorem SummarizedAs.within {sample : List ℝ} {row : RunRow ℝ} (h : SummarizedAs sample row)
    (hn : 2 ≤ sample.length) :
    row.meanMs = mean sample ∧
      ((sample.length : ℝ) - 1) * row.stdMs * row.stdMs = squares sample (mean sample) := by
  obtain ⟨stat, hstat, hmean, hstd⟩ := h
  obtain ⟨hstatMean, hstatStd⟩ := mean_and_stddev hstat
  refine ⟨hmean.trans hstatMean, ?_⟩
  have hcast : ((sample.length - 1 : ℕ) : ℝ) = (sample.length : ℝ) - 1 := by
    rw [Nat.cast_sub (by omega), Nat.cast_one]
  have hpos : (0 : ℝ) < (sample.length : ℝ) - 1 := by
    rw [← hcast]
    exact_mod_cast (by omega : 0 < sample.length - 1)
  rw [if_pos (by omega), hcast] at hstatStd
  calc
    ((sample.length : ℝ) - 1) * row.stdMs * row.stdMs
        = ((sample.length : ℝ) - 1) * (row.stdMs * row.stdMs) := mul_assoc _ _ _
    _ = ((sample.length : ℝ) - 1) * (squares sample (mean sample) / (sample.length - 1)) := by
      rw [hstd, hstatStd, Real.mul_self_sqrt (div_nonneg (squares_nonneg _ _) hpos.le)]
    _ = squares sample (mean sample) := mul_div_cancel₀ _ hpos.ne'

section Pooled

variable {n : ℕ} {samples : List (List ℝ)} {group : List (RunRow ℝ)}

theorem map_eq_of_forall₂ {α β γ : Type*} {f : α → γ} {g : β → γ} {items : List α}
    {others : List β} (h : List.Forall₂ (fun item other ↦ f item = g other) items others) :
    items.map f = others.map g := by
  rw [← List.forall₂_eq_eq_eq, List.forall₂_map_left_iff, List.forall₂_map_right_iff]
  exact h

/-- The sums of the host over a group, in terms of the samples. -/
theorem sums_of_group (hn : 2 ≤ n) (hsize : ∀ sample ∈ samples, sample.length = n)
    (h : List.Forall₂ SummarizedAs samples group) (centre : ℝ) :
    group.map (·.meanMs) = samples.map mean ∧
      (group.map fun row ↦ ((n : ℝ) - 1) * row.stdMs * row.stdMs
          + n * (row.meanMs - centre) ^ 2).sum
        = squares samples.flatten centre := by
  have hwithin : List.Forall₂ (fun sample (row : RunRow ℝ) ↦ row.meanMs = mean sample ∧
      ((n : ℝ) - 1) * row.stdMs * row.stdMs = squares sample (mean sample)) samples group := by
    have hsized : List.Forall₂ (fun sample row ↦ sample ∈ samples ∧ SummarizedAs sample row)
        samples group := (List.forall₂_and_left samples group).mpr ⟨fun _ hmem ↦ hmem, h⟩
    apply hsized.imp
    rintro sample row ⟨hmem, hrow⟩
    have hlength := hsize sample hmem
    have hrun := hrow.within (hlength ▸ hn)
    rwa [hlength] at hrun
  constructor
  · exact (map_eq_of_forall₂ (hwithin.imp fun _ _ hrun ↦ hrun.1.symm)).symm
  · rw [squares_flatten_eq (by omega) hsize centre]
    congr 1
    apply Eq.symm
    apply map_eq_of_forall₂
    apply hwithin.imp
    rintro sample row ⟨hmean, hstd⟩
    rw [hstd, hmean]

theorem pooledExactly_of_group (hn : 2 ≤ n) (hne : samples ≠ [])
    (hsize : ∀ sample ∈ samples, sample.length = n)
    (h : List.Forall₂ SummarizedAs samples group) (key : RunKey) :
    PooledExactly samples (pooledRow Real.sqrt n (key, group)) := by
  have hlength : group.length = samples.length := h.length_eq.symm
  have htotal : samples.flatten.length = n * samples.length := length_flatten_of_forall hsize
  have hpos : 0 < samples.length := List.length_pos_iff.mpr hne
  have hmany : 1 < samples.flatten.length := by
    rw [htotal]
    nlinarith
  obtain ⟨hmeans, -⟩ := sums_of_group hn hsize h 0
  have hgrand : (pooledRow Real.sqrt n (key, group)).meanMs = mean samples.flatten := by
    rw [mean_flatten (by omega) hsize, ← hmeans]
    rfl
  refine ⟨hlength, ?_, hgrand, ?_⟩
  · rw [htotal]
    push_cast
    exact congrArg (fun count : ℕ ↦ (n : ℤ) * count) hlength
  · have hsquares := (sums_of_group hn hsize h (mean samples.flatten)).2
    have hcount : (((n : ℤ) * group.length - 1 : ℤ) : ℝ) = samples.flatten.length - 1 := by
      rw [htotal, hlength]
      push_cast
      rfl
    have hstd : (pooledRow Real.sqrt n (key, group)).pooledStdMs =
        Real.sqrt (squares samples.flatten (mean samples.flatten)
          / (samples.flatten.length - 1)) := by
      have hlarge : (1 : ℤ) < n * group.length := by
        rw [hlength]
        exact_mod_cast htotal ▸ hmany
      rw [← hsquares, ← hcount, ← hgrand]
      simp only [pooledRow, if_pos hlarge, List.zipWith_map, List.zipWith_self]
      push_cast
      rfl
    have hnonneg : (0 : ℝ) ≤ samples.flatten.length - 1 := by
      rw [sub_nonneg]
      exact_mod_cast hmany.le
    rw [hstd, Real.sq_sqrt (div_nonneg (squares_nonneg _ _) hnonneg), sampleVariance]

/-- In whatever order the rows stand, the runs of a metric are pooled as one sample. -/
theorem pooled_deviation {rows : List (RunRow ℝ)} {key : RunKey} (hn : 2 ≤ n) (hne : samples ≠ [])
    (hsize : ∀ sample ∈ samples, sample.length = n)
    (h : List.Forall₂ SummarizedAs samples (withKey RunRow.key rows key)) :
    (∃ pooled ∈ summarizeRuns Real.sqrt n rows, pooled.key = key) ∧
      ∀ pooled ∈ summarizeRuns Real.sqrt n rows, pooled.key = key →
        PooledExactly samples pooled := by
  constructor
  · have hgroup : withKey RunRow.key rows key ≠ [] := by
      intro hnone
      rw [hnone] at h
      exact hne (List.forall₂_nil_right_iff.mp h)
    obtain ⟨row, hrow⟩ := List.exists_mem_of_ne_nil _ hgroup
    obtain ⟨hmem, hkey⟩ := List.mem_filter.mp hrow
    obtain ⟨group, hentry, hfst⟩ := List.mem_map.mp
      ((mem_keys_groupBy RunRow.key).mpr ⟨row, hmem, of_decide_eq_true hkey⟩)
    refine ⟨pooledRow Real.sqrt n group, List.mem_map_of_mem ?_, hfst⟩
    exact (sortByKey_perm runRank _).mem_iff.mpr hentry
  · intro pooled hpooled hkey
    obtain ⟨group, hentry, rfl⟩ := List.mem_map.mp hpooled
    have hrows := eq_withKey_of_mem _ ((sortByKey_perm runRank _).mem_iff.mp hentry)
    have hfst : group.1 = key := hkey
    rw [hfst] at hrows
    rw [← hrows] at h
    exact pooledExactly_of_group hn hne hsize h group.1

end Pooled

/-- The row of a run whose printed line is filed under a key. -/
def StatRow.toRunRow {K : Type*} (stat : StatRow K) (key : RunKey) : RunRow K where
  scheme := key.1
  category := key.2.1
  board := key.2.2.1
  metric := key.2.2.2
  meanMs := stat.mean
  stdMs := stat.stddev
  medianMs := stat.median
  minMs := stat.mn
  maxMs := stat.mx

theorem pooled_deviation_two_runs :
    ∃ rows : List (RunRow ℝ),
      (∃ pooled ∈ summarizeRuns Real.sqrt (2 : ℕ) rows,
        pooled.key = ("HAWK-512", "mqtt", "pico2_w", "tls")) ∧
      ∀ pooled ∈ summarizeRuns Real.sqrt (2 : ℕ) rows,
        pooled.key = ("HAWK-512", "mqtt", "pico2_w", "tls") →
          PooledExactly [[1, 3], [2, 6]] pooled := by
  obtain ⟨first, hfirst⟩ := exists_printStatRow Real.sqrt (List.cons_ne_nil (1 : ℝ) [3])
  obtain ⟨second, hsecond⟩ := exists_printStatRow Real.sqrt (List.cons_ne_nil (2 : ℝ) [6])
  refine ⟨[first.toRunRow ("HAWK-512", "mqtt", "pico2_w", "tls"),
    second.toRunRow ("HAWK-512", "mqtt", "pico2_w", "tls")], ?_⟩
  apply pooled_deviation le_rfl (List.cons_ne_nil _ _)
  · intro sample hsample
    rcases List.mem_pair.mp hsample with rfl | rfl <;> rfl
  · exact .cons ⟨first, hfirst, rfl, rfl⟩ (.cons ⟨second, hsecond, rfl, rfl⟩ .nil)

end PqMqtt.Statistics
