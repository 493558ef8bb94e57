import PqMqtt.Analysis.SummaryOrder

/-!
# How many latencies the statistics take

`median_confidence_interval` divides by `2.0**n`, which no double holds from `n = 1024` on.  Below
that, `robust_stats` and `latency_summary` return for all latencies, numbers or not; from there on
they raise.
-/

namespace PqMqtt.Analysis

open Binary64 Grouping

namespace Number

/-- The number is a float. -/
def IsFloat (x : Number) : Prop := ∃ value, x = float value

theorem isFloat_arith (onInts : ℤ → ℤ → ℤ) (onFloats : Double → Double → Double) {x y : Number}
    (hx : x.IsFloat) (hy : y.IsFloat) :
    ∃ result : Number, arith onInts onFloats x y = .ok result ∧ result.IsFloat := by
  obtain ⟨a, rfl⟩ := hx
  obtain ⟨b, rfl⟩ := hy
  exact ⟨float (onFloats a b), rfl, onFloats a b, rfl⟩

theorem isFloat_getD {values : List Number} (h : ∀ x ∈ values, x.IsFloat) (index : ℕ) :
    (values.getD index nan).IsFloat := by
  rw [List.getD_eq_getElem?_getD]
  cases hitem : values[index]? with
  | none => exact ⟨.nan, rfl⟩
  | some x => exact h x (List.mem_of_getElem? hitem)

end Number

/-! ## Below the limit -/

section Below

variable {values : List Number} (hfloat : ∀ x ∈ values, x.IsFloat) (hlength : values.length < 1024)

include hlength in
/-- The position of a quantile is a finite double. -/
theorem exists_position {p : ℚ} (hp : |p| ≤ 4) :
    ∃ position, (Double.fin p).mul (ofRat (values.length - 1)) = .fin position := by
  have hlast : |(values.length - 1 : ℤ)| < 2 ^ 53 := by
    rw [abs_lt]
    omega
  have hcast : ((values.length : ℚ) - 1) = ((values.length - 1 : ℤ) : ℚ) := by push_cast; rfl
  have hbound : |p * ((values.length - 1 : ℤ) : ℚ)| < 2 ^ 1022 := by
    have hlt : |((values.length - 1 : ℤ) : ℚ)| < 1024 := by
      rw [abs_lt, ← hcast]
      have hnonneg : (0 : ℚ) ≤ values.length := Nat.cast_nonneg _
      have hle : (values.length : ℚ) < 1024 := by exact_mod_cast hlength
      constructor
      · linarith
      · linarith
    calc |p * ((values.length - 1 : ℤ) : ℚ)|
        = |p| * |((values.length - 1 : ℤ) : ℚ)| := abs_mul _ _
      _ ≤ 4 * 1024 := mul_le_mul hp hlt.le (abs_nonneg _) (by norm_num)
      _ = 2 ^ 12 := by norm_num
      _ < 2 ^ 1022 := pow_lt_pow_right₀ (by norm_num) (by norm_num)
  rw [hcast, ofRat_intCast hlast]
  exact ⟨_, ofRat_eq_fin hbound⟩

include hfloat hlength in
theorem exists_quantile {p : ℚ} (hp : |p| ≤ 4) :
    ∃ result, quantile values (.fin p) = .ok result ∧ result.IsFloat := by
  obtain ⟨position, hposition⟩ := exists_position hlength hp
  unfold quantile
  dsimp only
  split_ifs
  · exact ⟨_, rfl, Number.isFloat_getD hfloat 0⟩
  · rw [hposition]
    obtain ⟨gap, hgap, hgapFloat⟩ := Number.isFloat_arith (· - ·) Double.sub
      (Number.isFloat_getD hfloat ⌈position⌉.toNat) (Number.isFloat_getD hfloat ⌊position⌋.toNat)
    obtain ⟨moved, hmoved, hmovedFloat⟩ := Number.isFloat_arith (· * ·) Double.mul
      ⟨(Double.fin position).sub (.fin ⌊position⌋.toNat), rfl⟩ hgapFloat
    obtain ⟨result, hresult, hresultFloat⟩ := Number.isFloat_arith (· + ·) Double.add
      (Number.isFloat_getD hfloat ⌊position⌋.toNat) hmovedFloat
    refine ⟨result, ?_, hresultFloat⟩
    exact bind_eq_ok_iff.mpr ⟨gap, hgap, bind_eq_ok_iff.mpr ⟨moved, hmoved, hresult⟩⟩

end Below

/-! ## The loop -/

/-- The coverage of a candidate as the loop computes it. -/
def coverageAt (n k : ℕ) : Double :=
  (Double.fin 1).sub
    ((Double.fin 2).mul ((ofRat (((List.range k).map n.choose).sum : ℕ)).div (.fin (2 ^ n))))

theorem coverageLoop_succ {n : ℕ} (hn : n < 1024) (confidence : Double)
    (count k bestK : ℕ) (bestCoverage : Double) :
    coverageLoop n confidence (count + 1) k bestK bestCoverage =
      if confidence.le ((coverageAt n k).add (ofRat (1 / 10 ^ 12))) then
        coverageLoop n confidence count (k + 1) k (coverageAt n k)
      else .ok (bestK, bestCoverage) := by
  have hscale : powTwo n = .ok (.fin (2 ^ n)) := if_pos hn
  rw [coverageLoop, hscale]
  rfl

theorem exists_coverageLoop {n : ℕ} (hn : n < 1024) (confidence : Double) :
    ∀ count k bestK bestCoverage,
      ∃ best, coverageLoop n confidence count k bestK bestCoverage = .ok best := by
  intro count
  induction count with
  | zero => exact fun k bestK bestCoverage ↦ ⟨_, rfl⟩
  | succ count ih =>
    intro k bestK bestCoverage
    rw [coverageLoop_succ hn]
    split_ifs
    · exact ih _ _ _
    · exact ⟨_, rfl⟩

/-- The first candidate already raises. -/
theorem coverageLoop_overflow {n : ℕ} (hn : 1024 ≤ n) (confidence : Double)
    (count k bestK : ℕ) (bestCoverage : Double) :
    coverageLoop n confidence (count + 1) k bestK bestCoverage = .error .overflowError := by
  have hscale : powTwo n = .error .overflowError := if_neg (Nat.not_lt.mpr hn)
  rw [coverageLoop, hscale]
  rfl

theorem exists_medianConfidenceInterval {values : List Number} (h : values.length < 1024) :
    ∃ result, medianConfidenceInterval values = .ok result := by
  obtain ⟨best, hbest⟩ := exists_coverageLoop h (ofRat (95 / 100)) (values.length / 2) 1 1
    ((Double.fin 1).sub ((Double.fin 2).mul (ofRat ((1 / 2) ^ values.length))))
  exact ⟨_, bind_eq_ok_iff.mpr ⟨best, hbest, rfl⟩⟩

theorem medianConfidenceInterval_overflow {values : List Number} (h : 1024 ≤ values.length) :
    medianConfidenceInterval values = .error .overflowError := by
  obtain ⟨count, hcount⟩ : ∃ count, values.length / 2 = count + 1 :=
    ⟨values.length / 2 - 1, by omega⟩
  rw [medianConfidenceInterval, hcount, coverageLoop_overflow h]
  rfl

/-! ## robust_stats -/

theorem onlyOverflows_medianConfidenceInterval (values : List Number) :
    Number.OnlyOverflows (medianConfidenceInterval values) := by
  rcases Nat.lt_or_ge values.length 1024 with hlt | hge
  · obtain ⟨result, hresult⟩ := exists_medianConfidenceInterval hlt
    rw [hresult]
    exact .ok result
  · rw [medianConfidenceInterval_overflow hge]
    intro error h
    exact (Except.error.inj h).symm

theorem onlyOverflows_robustStats (values : List Number) :
    Number.OnlyOverflows (robustStats values) := by
  unfold robustStats
  exact (onlyOverflows_quantile _ _).bind fun q1 ↦ (onlyOverflows_quantile _ _).bind fun median ↦
    (onlyOverflows_quantile _ _).bind fun q3 ↦
      (onlyOverflows_medianConfidenceInterval _).bind fun interval ↦
        (Number.onlyOverflows_arith _ _ _ _).bind fun iqr ↦
          (onlyOverflows_quantile _ _).bind fun p90 ↦ .ok _

theorem length_sorted (values : List Number) : (sorted values).length = values.length :=
  List.length_insertionSort _ _

/-- Statistics that exist come with an interval of the median. -/
theorem length_lt_of_robustStats {values : List Number} {stats : RobustStats}
    (h : robustStats values = .ok stats) : values.length < 1024 := by
  by_contra hge
  have hoverflow := medianConfidenceInterval_overflow
    ((Nat.not_lt.mp hge).trans_eq (length_sorted values).symm)
  unfold robustStats at h
  obtain ⟨q1, -, h⟩ := bind_eq_ok_iff.mp h
  obtain ⟨median, -, h⟩ := bind_eq_ok_iff.mp h
  obtain ⟨q3, -, h⟩ := bind_eq_ok_iff.mp h
  obtain ⟨interval, hinterval, -⟩ := bind_eq_ok_iff.mp h
  rw [hoverflow] at hinterval
  cases hinterval

theorem robustStats_overflow {values : List Number} (h : 1024 ≤ values.length) :
    robustStats values = .error .overflowError := by
  cases hstats : robustStats values with
  | ok stats => exact absurd (length_lt_of_robustStats hstats) (Nat.not_lt.mpr h)
  | error error => rw [onlyOverflows_robustStats values error hstats]

theorem exists_robustStats {values : List Number} (hfloat : ∀ x ∈ values, x.IsFloat)
    (h : values.length < 1024) : ∃ stats, robustStats values = .ok stats := by
  have hsorted : ∀ x ∈ sorted values, x.IsFloat := fun x hx ↦
    hfloat x ((List.mem_insertionSort _).mp hx)
  have hlength : (sorted values).length < 1024 := (length_sorted values).trans_lt h
  have hquantile {p : ℚ} (hp : |p| ≤ 4) := exists_quantile hsorted hlength hp
  have hp90 : ofRat (9 / 10) = .fin (Binary64.round (9 / 10)) := by
    apply ofRat_eq_fin
    calc |(9 / 10 : ℚ)| ≤ 1 := by norm_num [abs_le]
      _ < 2 ^ 1022 := one_lt_pow₀ (by norm_num) (by norm_num)
  have hround : |Binary64.round (9 / 10)| ≤ 4 :=
    (abs_round_le (9 / 10)).trans (by norm_num [abs_of_pos])
  obtain ⟨q1, hq1, hq1Float⟩ := hquantile (p := 1 / 4) (by norm_num [abs_le])
  obtain ⟨median, hmedian, -⟩ := hquantile (p := 1 / 2) (by norm_num [abs_le])
  obtain ⟨q3, hq3, hq3Float⟩ := hquantile (p := 3 / 4) (by norm_num [abs_le])
  obtain ⟨⟨ciLow, ciHigh, coverage⟩, hinterval⟩ := exists_medianConfidenceInterval hlength
  obtain ⟨iqr, hiqr, -⟩ := Number.isFloat_arith (· - ·) Double.sub hq3Float hq1Float
  obtain ⟨p90, hquantile90, -⟩ := hquantile hround
  rw [← hp90] at hquantile90
  unfold robustStats
  refine ⟨_, bind_eq_ok_iff.mpr ⟨q1, hq1, bind_eq_ok_iff.mpr ⟨median, hmedian,
    bind_eq_ok_iff.mpr ⟨q3, hq3, bind_eq_ok_iff.mpr ⟨_, hinterval,
      bind_eq_ok_iff.mpr ⟨iqr, hiqr, bind_eq_ok_iff.mpr ⟨p90, hquantile90, rfl⟩⟩⟩⟩⟩⟩⟩

theorem exists_robustStats_iff (values : List Double) :
    (∃ stats, robustStats (values.map Number.float) = .ok stats) ↔ values.length < 1024 := by
  have hlength : (values.map Number.float).length = values.length := List.length_map _
  constructor
  · rintro ⟨stats, hstats⟩
    exact hlength ▸ length_lt_of_robustStats hstats
  · intro h
    refine exists_robustStats ?_ (hlength.trans_lt h)
    intro x hx
    obtain ⟨value, -, rfl⟩ := List.mem_map.mp hx
    exact ⟨value, rfl⟩

/-! ## latency_summary -/

/-- The rows of a group exist when the group is small enough. -/
theorem exists_latencyRows_iff (entry : GroupKey × List NormalizedRow) :
    (∃ output, latencyRows entry = .ok output) ↔ entry.2.length < 1024 := by
  have hrow (metric : String) :
      (∃ row : LatencyRow, (do
        let stats ← robustStats (latencies metric entry.2)
        .ok ⟨entry.1.1, entry.1.2, metric, stats⟩ : Except PyError LatencyRow) = .ok row) ↔
        entry.2.length < 1024 := by
    have hstats := exists_robustStats_iff (entry.2.map (·.latency metric))
    rw [List.length_map] at hstats
    rw [← hstats]
    constructor
    · rintro ⟨row, hrow⟩
      obtain ⟨stats, hok, -⟩ := bind_eq_ok_iff.mp hrow
      exact ⟨stats, hok⟩
    · rintro ⟨stats, hok⟩
      exact ⟨_, bind_eq_ok_iff.mpr ⟨stats, hok, rfl⟩⟩
  rw [latencyRows, exists_mapM_eq_ok_iff]
  constructor
  · intro h
    exact (hrow "total_ms").mp (h "total_ms" (by decide))
  · intro h metric _
    exact (hrow metric).mpr h

theorem exists_latencySummary_iff (rows : List NormalizedRow) :
    (∃ output, latencySummary rows = .ok output) ↔
      ∀ key, (withKey NormalizedRow.key (successful rows) key).length < 1024 := by
  have hoks : (∃ output, latencySummary rows = .ok output) ↔
      ∃ tables, (sortGroups (groupBy NormalizedRow.key (successful rows))).mapM latencyRows
        = .ok tables := by
    constructor
    · rintro ⟨output, houtput⟩
      obtain ⟨tables, htables, -⟩ := bind_eq_ok_iff.mp houtput
      exact ⟨tables, htables⟩
    · rintro ⟨tables, htables⟩
      exact ⟨_, bind_eq_ok_iff.mpr ⟨tables, htables, rfl⟩⟩
  rw [hoks, exists_mapM_eq_ok_iff]
  constructor
  · intro h key
    by_cases hkey : ∃ row ∈ successful rows, row.key = key
    · obtain ⟨group, hgroup, rfl⟩ := List.mem_map.mp ((mem_keys_groupBy _).mpr hkey)
      rw [← eq_withKey_of_mem _ hgroup]
      exact (exists_latencyRows_iff group).mp (h group ((sortByKey_perm _ _).mem_iff.mpr hgroup))
    · have hempty : withKey NormalizedRow.key (successful rows) key = [] := by
        rw [withKey, List.filter_eq_nil_iff]
        intro row hrow heq
        exact hkey ⟨row, hrow, of_decide_eq_true heq⟩
      rw [hempty]
      exact Nat.succ_pos 1023
  · intro h group hgroup
    have hmem := (sortByKey_perm _ _).mem_iff.mp hgroup
    rw [exists_latencyRows_iff, eq_withKey_of_mem _ hmem]
    exact h group.1

/-- Equal successful attempts form one group. -/
theorem withKey_successful_replicate {row : NormalizedRow} (h : row.success = true) (count : ℕ) :
    withKey NormalizedRow.key (successful (List.replicate count row)) row.key
      = List.replicate count row := by
  rw [successful, List.filter_replicate_of_pos h, withKey]
  exact List.filter_replicate_of_pos (decide_eq_true rfl)

/-- The statistics of one or more latencies exist exactly below 1024 of them, the summary exactly
when no scheme and board has 1024 successful attempts. -/
theorem statistics_exist_iff (first : Double) (others : List Double) (rows : List NormalizedRow) :
    ((∃ stats, robustStats ((first :: others).map Number.float) = .ok stats) ↔
        (first :: others).length < 1024) ∧
      ((∃ output, latencySummary rows = .ok output) ↔
        ∀ key, (withKey NormalizedRow.key (successful rows) key).length < 1024) :=
  ⟨exists_robustStats_iff (first :: others), exists_latencySummary_iff rows⟩

/-- With 1024 equal latencies, and with 1024 successful attempts, an exception leaves the two
functions. -/
theorem statistics_of_1024_overflow :
    robustStats ((List.replicate 1024 (Double.fin 1)).map Number.float) = .error .overflowError ∧
      ¬∃ output, latencySummary (List.replicate 1024 (attemptWithTotal (.fin 1))) = .ok output := by
  constructor
  · apply robustStats_overflow
    rw [List.length_map, List.length_replicate]
  · rw [exists_latencySummary_iff]
    intro h
    have hlt := h (attemptWithTotal (.fin 1)).key
    rw [withKey_successful_replicate rfl, List.length_replicate] at hlt
    exact absurd hlt (Nat.lt_irrefl 1024)

end PqMqtt.Analysis
