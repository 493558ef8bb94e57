import PqMqtt.Analysis.StatisticsRange
import PqMqtt.Firmware.Campaign

/-!
# What the host reads back of a campaign

The loop over the attempts fills the first places of its arrays, one for each success.  The records
of the output are the lines of a complete benchmark, so the host finds a row for every attempt and
misses none.  In its rows stand the doubles of the arrays, and the order statistics of both sides
are the same.
-/

namespace PqMqtt.Firmware

open Analysis (Attempt Benchmark Boot Field MeasuredRun NormalizedRow OnOneLine OtherWord OutputLine
  ParsedRow PassedOver RobustStats Start Text Value columnNames formatD formatU latencySummary
  robustStats successful)
open Binary64 (Double ofRat roundHalfEven)
open Statistics (SameStatistics StatRow boardStatRow)
open Transport (ConnectCall Timer)

/-! ## The arrays -/

/-- The durations of the attempts that succeeded, in their order. -/
def durations (endings : List AttemptEnd) (metric : Metric) : List Double :=
  (endings.filter (·.success)).map metric.ms

/-- The variables account for some attempts. -/
structure Tally.Accounts {iters : ℕ} (tally : Tally iters) (endings : List AttemptEnd) : Prop where
  successes : tally.successes = endings.countP (·.success)
  failures : tally.successes + tally.failures = endings.length
  observed : ∀ metric, tally.observed metric = durations endings metric

namespace Tally

variable {iters : ℕ} {tally : Tally iters} {endings : List AttemptEnd}

theorem accounts_start (iters : ℕ) : (Tally.start iters).Accounts [] where
  successes := rfl
  failures := rfl
  observed _ := List.take_zero

/-- A stored double stands behind the doubles before it. -/
theorem take_set {j : ℕ} (values : Vector Double iters) (hj : j < iters) (x : Double) :
    (values.set j x).toList.take (j + 1) = values.toList.take j ++ [x] := by
  have hlength : j < values.toList.length := by rwa [Vector.length_toList]
  rw [Vector.toList_set, List.take_add_one, List.take_set_of_le (Nat.le_refl j),
    List.getElem?_set_self hlength]
  rfl

/-- While there are fewer attempts than places, the next one finds its place. -/
theorem Accounts.add (h : tally.Accounts endings) (hlength : endings.length < iters)
    (ending : AttemptEnd) :
    ∃ next, tally.add ending = some next ∧ next.Accounts (endings ++ [ending]) := by
  cases hsuccess : ending.success with
  | true =>
    have hj : tally.successes < iters := by
      rw [h.successes]
      exact List.countP_le_length.trans_lt hlength
    refine ⟨_, by rw [Tally.add, if_pos hsuccess]; exact dif_pos hj, ?_⟩
    constructor
    · rw [List.countP_append, List.countP_singleton, if_pos hsuccess, ← h.successes]
    · have hcount := h.failures
      rw [List.length_append, List.length_singleton]
      dsimp only
      omega
    · intro metric
      have hobserved := h.observed metric
      unfold Tally.observed durations at *
      rw [take_set, hobserved, List.filter_append, List.filter_singleton, hsuccess,
        List.map_append]
      rfl
  | false =>
    refine ⟨_, by rw [Tally.add, if_neg (ne_true_of_eq_false hsuccess)], ?_⟩
    constructor
    · rw [List.countP_append, List.countP_singleton, if_neg (ne_true_of_eq_false hsuccess),
        Nat.add_zero]
      exact h.successes
    · have hcount := h.failures
      rw [List.length_append, List.length_singleton]
      dsimp only
      omega
    · intro metric
      have hobserved := h.observed metric
      unfold Tally.observed durations at *
      rw [hobserved, List.filter_append, List.filter_singleton, hsuccess, cond_false,
        List.append_nil]

end Tally

section Run

variable {timer : Timer} {γ : Type} {ω : Type*} (build : CampaignBuild γ)

/-- The loop never stores behind the end of an array. -/
theorem exists_measure (done rest : List (AttemptInput timer γ ω × ℕ))
    (hlength : done.length + rest.length ≤ build.iterations) {tally : Tally build.iterations}
    (h : tally.Accounts (done.map (·.1.ending))) (lines : List OutputLine) :
    ∃ last, last.Accounts ((done ++ rest).map (·.1.ending)) ∧
      rest.foldlM (measure build) (tally, lines)
        = some (last, lines ++ rest.flatMap fun numbered ↦
            attemptOutput build numbered.1 numbered.2 false) := by
  induction rest generalizing done tally lines with
  | nil =>
    refine ⟨tally, ?_, ?_⟩
    · rwa [List.append_nil]
    · rw [List.flatMap_nil, List.append_nil]
      rfl
  | cons numbered rest ih =>
    rw [List.length_cons] at hlength
    have hplace : (done.map (·.1.ending)).length < build.iterations := by
      rw [List.length_map]
      omega
    obtain ⟨next, hnext, haccounts⟩ := h.add hplace numbered.1.ending
    have hdone : (done ++ [numbered]).map (·.1.ending)
        = done.map (·.1.ending) ++ [numbered.1.ending] := List.map_append
    obtain ⟨last, hlast, hrun⟩ := ih (done ++ [numbered])
      (by rw [List.length_append, List.length_singleton]; omega) (hdone ▸ haccounts)
      (lines ++ attemptOutput build numbered.1 numbered.2 false)
    refine ⟨last, by rwa [List.append_assoc] at hlast, ?_⟩
    have hstep : measure build (tally, lines) numbered
        = some (next, lines ++ attemptOutput build numbered.1 numbered.2 false) := by
      rw [measure, hnext]
      rfl
    rw [List.foldlM_cons, hstep, List.flatMap_cons, ← List.append_assoc]
    exact hrun

/-! ## The records -/

/-- The attempt that a call has made. -/
def AttemptInput.measured (input : AttemptInput timer γ ω) (run : ℕ) : MeasuredRun :=
  input.ending.measured input.setting run

/-- The campaign with its attempts. -/
def CampaignBuild.benchmark (inputs : Vector (AttemptInput timer γ ω) build.iterations) :
    Benchmark where
  scheme := build.scheme
  board := build.board
  campaign := build.campaign
  attempts := inputs.toList.map fun input ↦ (input.measured 0).attempt
  length_lt := by
    rw [List.length_map, Vector.length_toList]
    exact build.iterations_lt

theorem runs_benchmark (inputs : Vector (AttemptInput timer γ ω) build.iterations) :
    (build.benchmark inputs).runs
      = inputs.toList.zipIdx.map fun numbered ↦ numbered.1.measured numbered.2 := by
  unfold CampaignBuild.benchmark Benchmark.runs
  rw [List.zipIdx_map, List.map_map]
  rfl

theorem fields_notes (texts : List Text) :
    (texts.map OutputLine.note).filterMap OutputLine.fields? = [] := by
  induction texts with
  | nil => rfl
  | cons text texts ih => exact ih

theorem fields_attemptOutput (input : AttemptInput timer γ ω) (run : ℕ) (warmup : Bool) :
    (attemptOutput build input run warmup).filterMap OutputLine.fields?
      = if warmup then [] else build.printer.attemptLines (input.measured run) := by
  have hchatter : (input.chatter.map fun chatter ↦ OutputLine.note chatter.text).filterMap
      OutputLine.fields? = [] := by
    have hnotes := fields_notes (input.chatter.map Chatter.text)
    rwa [List.map_map] at hnotes
  unfold attemptOutput
  dsimp only
  rw [List.filterMap_append, List.filterMap_append, hchatter, List.append_nil]
  cases warmup with
  | false => rfl
  | true => cases build.compact <;> rfl

/-- Before the attempts the header is the only record. -/
theorem fields_openingLines (warmups : Vector (AttemptInput timer γ ω) build.warmup) :
    (openingLines build warmups).filterMap OutputLine.fields? = [Benchmark.headerLine] := by
  have htitle : (titleLines build).filterMap OutputLine.fields? = [] := by
    unfold titleLines
    cases build.compact <;> cases build.transport <;> rfl
  have hplain : (plainLines build).filterMap OutputLine.fields? = [] := by
    unfold plainLines
    cases build.compact <;> cases build.transport <;> rfl
  have hwarm : (warmUp build warmups).filterMap OutputLine.fields? = [] := by
    unfold warmUp
    dsimp only
    rw [List.filterMap_append, List.filterMap_flatMap, List.append_eq_nil_iff]
    refine ⟨List.flatMap_eq_nil_iff.mpr fun numbered _ ↦ ?_, rfl⟩
    exact fields_attemptOutput build numbered.1 numbered.2 true
  unfold openingLines
  rw [List.filterMap_append, List.filterMap_append, List.filterMap_append, htitle, hplain, hwarm]
  rfl

theorem fields_statLines (sqrt : Double → Double) (metric : Metric) (v : List Double) :
    (statLines build sqrt metric v).filterMap OutputLine.fields? = [] := by
  unfold statLines
  dsimp only
  split
  · rfl
  · cases build.compact <;> rfl

theorem fields_summaryLines (sqrt : Double → Double) (tally : Tally build.iterations) :
    (summaryLines build sqrt tally).filterMap OutputLine.fields? = [] := by
  have htraffic : (if 0 < tally.successes then trafficLines build tally.lastBandwidth
      else []).filterMap OutputLine.fields? = [] := by
    split
    · unfold trafficLines
      cases build.compact <;> rfl
    · rfl
  have hstats : (Metric.all.flatMap fun metric ↦
      statLines build sqrt metric (tally.observed metric)).filterMap OutputLine.fields? = [] := by
    rw [List.filterMap_flatMap]
    simp only [fields_statLines]
    rfl
  unfold summaryLines
  dsimp only
  rw [List.filterMap_append, List.filterMap_append, List.filterMap_append, hstats, htraffic]
  rfl

theorem fields_attempts (inputs : Vector (AttemptInput timer γ ω) build.iterations) :
    (inputs.toList.zipIdx.flatMap fun numbered ↦
        attemptOutput build numbered.1 numbered.2 false).filterMap OutputLine.fields?
      = (build.benchmark inputs).runs.flatMap (build.benchmark inputs).attemptLines := by
  rw [List.filterMap_flatMap, runs_benchmark, List.flatMap_map]
  apply List.flatMap_congr
  intro numbered _
  exact fields_attemptOutput build numbered.1 numbered.2 false

/-- The run ends, and its records are the lines of a complete campaign. -/
theorem exists_run (sqrt : Double → Double)
    (warmups : Vector (AttemptInput timer γ ω) build.warmup)
    (inputs : Vector (AttemptInput timer γ ω) build.iterations) :
    ∃ tally lines, runHandshakeBenchmark build sqrt warmups inputs = some (tally, lines) ∧
      tally.Accounts (inputs.toList.zipIdx.map (·.1.ending)) ∧
      (∀ line ∈ lines, line.WellFormed) ∧
      lines.filterMap OutputLine.fields? = (build.benchmark inputs).lines := by
  have hlength : ([] : List (AttemptInput timer γ ω × ℕ)).length + inputs.toList.zipIdx.length
      ≤ build.iterations := by
    rw [List.length_nil, Nat.zero_add, List.length_zipIdx, Vector.length_toList]
  obtain ⟨tally, haccounts, hrun⟩ := exists_measure build [] inputs.toList.zipIdx hlength
    (Tally.accounts_start build.iterations) (openingLines build warmups)
  have hreturns : runHandshakeBenchmark build sqrt warmups inputs
      = some (tally, openingLines build warmups ++
          (inputs.toList.zipIdx.flatMap fun numbered ↦
            attemptOutput build numbered.1 numbered.2 false) ++
          summaryLines build sqrt tally) := by
    rw [runHandshakeBenchmark, hrun]
    rfl
  refine ⟨tally, _, hreturns, ?_, ?_, ?_⟩
  · rwa [List.nil_append] at haccounts
  · rw [List.forall_mem_append, List.forall_mem_append]
    refine ⟨⟨wellFormed_openingLines build warmups, ?_⟩,
      wellFormed_summaryLines build sqrt tally⟩
    intro line hline
    obtain ⟨numbered, -, hmem⟩ := List.mem_flatMap.mp hline
    exact wellFormed_attemptOutput build numbered.1 numbered.2 false line hmem
  · rw [List.filterMap_append, List.filterMap_append, fields_openingLines, fields_attempts,
      fields_summaryLines, List.append_nil]
    rfl

end Run

/-! ## The rows -/

section Rows

variable (benchmark : Benchmark) (measured : MeasuredRun) (path : Text)

/-- The row of an attempt as it is parsed. -/
def parsedRow : ParsedRow where
  raw := benchmark.rawRow measured
  path := path
  legacy := false
  row := benchmark.readRow measured path
  normalized := benchmark.normalize_rawRow measured path
  scheme := benchmark.scheme.name.toList
  scheme_eq := by
    have hscheme : ("scheme", Field.name benchmark.scheme.name.toList)
        ∈ columnNames.zip (benchmark.fields measured) := List.mem_of_getElem? (i := 0) rfl
    exact benchmark.rowWith_of_mem measured _ path hscheme (by decide) (by decide)
  board := benchmark.board.name
  board_eq := by
    have hboard : ("board", Field.name benchmark.board.name)
        ∈ columnNames.zip (benchmark.fields measured) := List.mem_of_getElem? (i := 1) rfl
    exact benchmark.rowWith_of_mem measured _ path hboard (by decide) (by decide)

/-- A row has the values that the firmware stored. -/
theorem row_parsedRow (hrun : measured.run < 2 ^ 31) (h : measured.PrintedExactly)
    {column : String} {value : Value} (hmem : (column, value) ∈ benchmark.stored measured) :
    (parsedRow benchmark measured path).row column = some value := by
  have hread : benchmark.readRow measured path = benchmark.rowOf measured path :=
    (benchmark.rowWith_read_eq_rowOf_iff measured path).mpr h.timesExact
  have hrow : (parsedRow benchmark measured path).row = benchmark.rowOf measured path := hread
  rw [hrow]
  exact benchmark.rowOf_stored hrun h path hmem

theorem success_parsedRow (hrun : measured.run < 2 ^ 31) (h : measured.PrintedExactly) :
    (parsedRow benchmark measured path).toNormalizedRow.success = measured.attempt.success := by
  have hmem : ("success", Analysis.flagValue measured.attempt.success)
      ∈ benchmark.stored measured := List.mem_of_getElem? (i := 13) rfl
  have hint : (parsedRow benchmark measured path).int "success"
      = if measured.attempt.success then 1 else 0 := by
    rw [ParsedRow.int, row_parsedRow benchmark measured path hrun h hmem]
    rfl
  change decide ((parsedRow benchmark measured path).int "success" ≠ 0) = _
  rw [hint]
  cases measured.attempt.success <;> rfl

end Rows

/-! ## Durations -/

section Durations

variable {timer : Timer} {γ : Type} {ω : Type*}

/-- The durations of an attempt that are stored are among those that its row prints. -/
theorem us_mem_durations (metric : Metric) (ending : AttemptEnd) (setting : AttemptSetting γ ω)
    (run : ℕ) : metric.us ending ∈ (ending.measured setting run).durations := by
  cases metric
  · exact List.mem_of_getElem? (i := 1) rfl
  · exact List.mem_of_getElem? (i := 2) rfl
  · exact List.mem_of_getElem? (i := 3) rfl
  · exact List.mem_of_getElem? (i := 4) rfl
  · exact List.mem_of_getElem? (i := 5) rfl
  · exact List.mem_of_getElem? (i := 6) rfl

theorem mem_stored (benchmark : Benchmark) (metric : Metric) (ending : AttemptEnd)
    (setting : AttemptSetting γ ω) (run : ℕ) :
    (metric.column, Analysis.milliseconds (metric.us ending))
      ∈ benchmark.stored (ending.measured setting run) := by
  cases metric
  · exact List.mem_of_getElem? (i := 7) rfl
  · exact List.mem_of_getElem? (i := 8) rfl
  · exact List.mem_of_getElem? (i := 9) rfl
  · exact List.mem_of_getElem? (i := 10) rfl
  · exact List.mem_of_getElem? (i := 11) rfl
  · exact List.mem_of_getElem? (i := 12) rfl

/-- A duration that is not too long is divided without an intermediate rounding. -/
theorem ms_eq {metric : Metric} {ending : AttemptEnd}
    (h : (metric.us ending).toNat < 1000 * 2 ^ 43) :
    metric.ms ending = ofRat ((metric.us ending).toNat / 1000) := by
  have hint : |((metric.us ending).toNat : ℤ)| < 2 ^ 53 := by
    rw [abs_of_nonneg (Int.natCast_nonneg _)]
    norm_num
    omega
  have hcast : ofRat ((metric.us ending).toNat : ℚ) = .fin (metric.us ending).toNat := by
    exact_mod_cast Binary64.ofRat_intCast hint
  rw [Metric.ms, hcast]
  rfl

theorem moderate_ms {metric : Metric} {ending : AttemptEnd}
    (h : (metric.us ending).toNat < 1000 * 2 ^ 43) : Statistics.Moderate (metric.ms ending) := by
  have hnonneg : (0 : ℚ) ≤ (metric.us ending).toNat / 1000 := by positivity
  have hbound : ((metric.us ending).toNat / 1000 : ℚ) ≤ ((2 ^ 43 : ℤ) : ℚ) := by
    rw [div_le_iff₀ (by norm_num)]
    have hle : (metric.us ending).toNat ≤ 2 ^ 43 * 1000 := by omega
    exact_mod_cast hle
  have hround := Binary64.round_le_intCast hnonneg hbound (by norm_num)
  have hround' : 0 ≤ Binary64.round ((metric.us ending).toNat / 1000) :=
    Binary64.round_nonneg hnonneg
  have hpow {k : ℕ} (hk : 43 < k) : ((2 ^ 43 : ℤ) : ℚ) < 2 ^ k := by
    have hone : (1 : ℚ) < 2 := by norm_num
    have hlt : (2 : ℚ) ^ 43 < 2 ^ k := pow_lt_pow_right₀ hone hk
    exact_mod_cast hlt
  have hfinite : |((metric.us ending).toNat / 1000 : ℚ)| < 2 ^ 1022 := by
    rw [abs_of_nonneg hnonneg]
    exact hbound.trans_lt (hpow (by norm_num))
  rw [ms_eq h, Binary64.ofRat_eq_fin hfinite]
  refine ⟨_, rfl, ?_⟩
  rw [abs_of_nonneg hround']
  exact hround.trans_lt (hpow (by norm_num))

/-- The host reads the double that the board has stored. -/
theorem latency_parsedRow (benchmark : Benchmark) (path : Text) (metric : Metric)
    (ending : AttemptEnd) (setting : AttemptSetting γ ω) {run : ℕ} (hrun : run < 2 ^ 31)
    (h : (ending.measured setting run).PrintedExactly) :
    (parsedRow benchmark (ending.measured setting run) path).toNormalizedRow.latency metric.column
      = metric.ms ending := by
  have hrow := row_parsedRow benchmark (ending.measured setting run) path hrun h
    (mem_stored benchmark metric ending setting run)
  have hduration := h.duration_lt _ (us_mem_durations metric ending setting run)
  change (parsedRow benchmark (ending.measured setting run) path).float metric.column = _
  rw [ParsedRow.float, hrow, ms_eq hduration]
  rfl

end Durations

/-! ## Device and host -/

/-- What the host has read agrees with what the board has counted and stored: no attempt is
missing, the successes are the same, and so are their durations and the statistics of them, which
the host has unless there are too many successes for its confidence interval. -/
structure ReadBack (sqrt : Double → Double) {γ : Type} {build : CampaignBuild γ}
    (tally : Tally build.iterations) (rows : List NormalizedRow) (report : List Start) : Prop where
  report : report = []
  attempted : rows.length = build.iterations
  counted : tally.successes + tally.failures = build.iterations
  successes : (successful rows).length = tally.successes
  samples : ∀ metric, (successful rows).map (·.latency metric.column) = tally.observed metric
  returns : (∃ output, latencySummary rows = .ok output) ↔ tally.successes < 1024
  summary : ∀ output, latencySummary rows = .ok output → 0 < tally.successes → ∀ metric,
    ∃ entry ∈ output, entry.scheme = build.scheme.name.toList ∧ entry.board = build.board.name ∧
      entry.metric = metric.column ∧ ∃ row, boardStatRow sqrt (tally.observed metric) = some row ∧
        SameStatistics row entry.stats

section OneGroup

variable {rows : List NormalizedRow} {key : Analysis.GroupKey}

theorem withKey_successful (hkey : ∀ row ∈ rows, row.key = key) :
    Grouping.withKey NormalizedRow.key (successful rows) key = successful rows := by
  rw [Grouping.withKey, List.filter_eq_self]
  exact fun row hrow ↦ decide_eq_true (hkey row (List.mem_of_mem_filter hrow))

/-- Rows of one scheme and board have a summary when fewer than 1024 of them are successes. -/
theorem exists_latencySummary_of_key (hkey : ∀ row ∈ rows, row.key = key) :
    (∃ output, latencySummary rows = .ok output) ↔ (successful rows).length < 1024 := by
  rw [Analysis.exists_latencySummary_iff]
  constructor
  · intro h
    have hlt := h key
    rwa [withKey_successful hkey] at hlt
  · exact fun h other ↦ (List.length_filter_le _ _).trans_lt h

/-- Rows of one scheme and board are summarized together. -/
theorem exists_entry (hkey : ∀ row ∈ rows, row.key = key) (hne : successful rows ≠ [])
    {output : List Analysis.LatencyRow} (h : latencySummary rows = .ok output) {column : String}
    (hcolumn : column ∈ Analysis.latencyFields) :
    ∃ entry ∈ output, entry.scheme = key.1 ∧ entry.board = key.2 ∧ entry.metric = column ∧
      robustStats (Analysis.latencies column (successful rows)) = .ok entry.stats := by
  have hsuccess : ∀ row ∈ successful rows, row.key = key :=
    fun row hrow ↦ hkey row (List.mem_of_mem_filter hrow)
  obtain ⟨first, hfirst⟩ := List.exists_mem_of_ne_nil _ hne
  obtain ⟨group, hgroup, hname⟩ := List.mem_map.mp ((Grouping.mem_keys_groupBy _).mpr
    ⟨first, hfirst, hsuccess first hfirst⟩)
  have hmembers : group.2 = successful rows := by
    rw [Grouping.eq_withKey_of_mem _ hgroup, hname, withKey_successful hkey]
  obtain ⟨tables, htables, houtput⟩ := Analysis.bind_eq_ok_iff.mp h
  have hsorted := (Grouping.sortByKey_perm toLex _).mem_iff.mpr hgroup
  obtain ⟨table, htable⟩ := Analysis.exists_mapM_eq_ok_iff.mp ⟨tables, htables⟩ group hsorted
  have hmem := (Analysis.mem_mapM_iff htables table).mpr ⟨group, hsorted, htable⟩
  obtain ⟨entry, hentry⟩ := Analysis.exists_mapM_eq_ok_iff.mp ⟨table, htable⟩ column hcolumn
  have hin := (Analysis.mem_mapM_iff htable entry).mpr ⟨column, hcolumn, hentry⟩
  obtain ⟨stats, hstats, hresult⟩ := Analysis.bind_eq_ok_iff.mp hentry
  rw [← Except.ok.inj houtput]
  refine ⟨entry, List.mem_flatten.mpr ⟨table, hmem, hin⟩, ?_⟩
  rw [← Except.ok.inj hresult, ← hname, ← hmembers]
  exact ⟨rfl, rfl, rfl, hstats⟩

end OneGroup

section ReadBack

variable {timer : Timer} {γ : Type} {ω : Type*} (build : CampaignBuild γ)

/-- The attempts are read in order, each as its end says. -/
theorem readBack_of_accounts (sqrt : Double → Double) (benchmark : Benchmark)
    (hscheme : benchmark.scheme = build.scheme) (hboard : benchmark.board = build.board)
    {numbered : List (AttemptInput timer γ ω × ℕ)} (hlength : numbered.length = build.iterations)
    (hrun : ∀ one ∈ numbered, one.2 < 2 ^ 31)
    (hexact : ∀ one ∈ numbered, (one.1.measured one.2).PrintedExactly) (path : Text)
    {tally : Tally build.iterations} (haccounts : tally.Accounts (numbered.map (·.1.ending))) :
    ReadBack sqrt tally
      (numbered.map fun one ↦ (parsedRow benchmark (one.1.measured one.2) path).toNormalizedRow)
      [] := by
  have hsuccessful : successful (numbered.map fun one ↦
        (parsedRow benchmark (one.1.measured one.2) path).toNormalizedRow)
      = (numbered.filter (·.1.ending.success)).map fun one ↦
          (parsedRow benchmark (one.1.measured one.2) path).toNormalizedRow := by
    rw [successful, List.filter_map]
    congr 1
    apply List.filter_congr
    intro one hone
    exact success_parsedRow benchmark _ path (hrun one hone) (hexact one hone)
  have hcount : (numbered.filter (·.1.ending.success)).length = tally.successes := by
    rw [haccounts.successes, List.countP_map, List.countP_eq_length_filter]
    rfl
  have hsamples : ∀ metric, (successful (numbered.map fun one ↦
        (parsedRow benchmark (one.1.measured one.2) path).toNormalizedRow)).map
          (·.latency metric.column) = tally.observed metric := by
    intro metric
    rw [hsuccessful, haccounts.observed, durations, List.filter_map, List.map_map, List.map_map]
    apply List.map_congr_left
    intro one hone
    have hmem := List.mem_of_mem_filter hone
    exact latency_parsedRow benchmark path metric _ _ (hrun one hmem) (hexact one hmem)
  have hkey : ∀ row ∈ numbered.map fun one ↦
      (parsedRow benchmark (one.1.measured one.2) path).toNormalizedRow,
      row.key = (build.scheme.name.toList, build.board.name) := by
    rw [List.forall_mem_map, ← hscheme, ← hboard]
    exact fun one _ ↦ rfl
  have hsuccesses : (successful (numbered.map fun one ↦
      (parsedRow benchmark (one.1.measured one.2) path).toNormalizedRow)).length
        = tally.successes := by
    rw [hsuccessful, List.length_map, hcount]
  refine ⟨rfl, ?_, ?_, hsuccesses, hsamples, ?_, ?_⟩
  · rw [List.length_map, hlength]
  · rw [haccounts.failures, List.length_map, hlength]
  · rw [exists_latencySummary_of_key hkey, hsuccesses]
  · intro output houtput hpos metric
    have hne : successful (numbered.map fun one ↦
        (parsedRow benchmark (one.1.measured one.2) path).toNormalizedRow) ≠ [] := by
      rw [← List.length_pos_iff, hsuccesses]
      exact hpos
    have hcolumn : metric.column ∈ Analysis.latencyFields := by cases metric <;> decide
    obtain ⟨entry, hentry, hname, hplace, hmetric, hstats⟩ :=
      exists_entry hkey hne houtput hcolumn
    have hmoderate : ∀ x ∈ tally.observed metric, Statistics.Moderate x := by
      rw [haccounts.observed, durations, List.filter_map, List.map_map, List.forall_mem_map]
      intro one hone
      have hmem := List.mem_of_mem_filter hone
      exact moderate_ms ((hexact one hmem).duration_lt _
        (us_mem_durations metric _ one.1.setting one.2))
    have hobserved : tally.observed metric ≠ [] := by
      rw [← hsamples]
      exact fun hnil ↦ hne (List.map_eq_nil_iff.mp hnil)
    rw [Analysis.latencies, hsamples] at hstats
    exact ⟨entry, hentry, hname, hplace, hmetric,
      Statistics.sameStatistics sqrt hobserved hmoderate hstats⟩

/-- Every run of the benchmark stores in bounds and returns.  From its output, with its notes and
whatever the transport prints, the host reads one row for each attempt, and its statistics of the
successful rows are those of the board. -/
theorem campaign_read_back (sqrt : Double → Double)
    (warmups : Vector (AttemptInput timer γ ω) build.warmup)
    (inputs : Vector (AttemptInput timer γ ω) build.iterations)
    (hexact : ∀ input ∈ inputs.toList, (input.measured 0).PrintedExactly)
    (path : Analysis.LogPath) :
    ∃ tally lines, ∃ parsed : List ParsedRow, ∃ report,
      runHandshakeBenchmark build sqrt warmups inputs = some (tally, lines) ∧
      Analysis.analyze [⟨path, Delimited.unlines '\n' (lines.map OutputLine.text)⟩]
        = .ok (parsed.map ParsedRow.row, report) ∧
      ReadBack sqrt tally (parsed.map ParsedRow.toNormalizedRow) report := by
  obtain ⟨tally, lines, hrun, haccounts, hformed, hrecords⟩ := exists_run build sqrt warmups inputs
  have hne : (build.benchmark inputs).attempts ≠ [] := by
    have hpos := build.iterations_pos
    rw [← List.length_pos_iff]
    change 0 < (inputs.toList.map _).length
    rwa [List.length_map, Vector.length_toList]
  have hanalyze := (Analysis.analyze_output hformed hrecords path).trans
    ((build.benchmark inputs).analyze_serial hne path)
  refine ⟨tally, lines, (build.benchmark inputs).runs.map
    fun measured ↦ parsedRow (build.benchmark inputs) measured path.text, [], hrun, ?_, ?_⟩
  · rw [hanalyze, List.map_map]
    rfl
  · have hrows : ((build.benchmark inputs).runs.map fun measured ↦
          parsedRow (build.benchmark inputs) measured path.text).map ParsedRow.toNormalizedRow
        = inputs.toList.zipIdx.map fun one ↦
            (parsedRow (build.benchmark inputs) (one.1.measured one.2)
              path.text).toNormalizedRow := by
      rw [runs_benchmark, List.map_map, List.map_map]
      rfl
    rw [hrows]
    have hmeasured : ∀ one ∈ inputs.toList.zipIdx,
        one.1.measured one.2 ∈ (build.benchmark inputs).runs := by
      rw [runs_benchmark]
      exact fun one hone ↦ List.mem_map_of_mem hone
    refine readBack_of_accounts build sqrt (build.benchmark inputs) rfl rfl ?_ ?_ ?_ path.text
      haccounts
    · rw [List.length_zipIdx, Vector.length_toList]
    · exact fun one hone ↦ (build.benchmark inputs).run_lt (hmeasured one hone)
    · intro one hone
      have hinput := hexact one.1 (List.fst_mem_of_mem_zipIdx hone)
      exact ⟨hinput.start_lt, hinput.tcpStart_lt, hinput.duration_lt⟩

end ReadBack

/-! ## A campaign of two attempts -/

/-- A connection that takes every byte, and a broker with a fixed answer. -/
def answeringWire : Wire Transport.PlainTransport.Conn (List UInt8) where
  write conn world buf := ⟨buf.length, conn, world, 1⟩
  read conn world len := ⟨world.take len, conn, world.drop len, 1⟩
  write_le _ _ buf := Nat.le_refl buf.length
  read_le _ world len := List.length_take_le len world

/-- An attempt whose broker accepts the CONNECT when lwIP opens a connection. -/
def plainInput (scenario : Transport.TcpScenario) :
    AttemptInput Transport.TlsTransport.jumpingTimer Transport.PlainTransport.Conn
      (List UInt8) where
  call := .plain scenario
  setting :=
    { wire := answeringWire
      world := [0x20, 0x02, 0x00, 0x00]
      attemptStart := ⟨1767225600, 0⟩
      memory := Benchmark.refusedAttempt.memory
      clientId := ⟨[0x70, 0x69, 0x63, 0x6f], by decide⟩
      keepaliveSec := 60 }
  tick := 1
  chatter := [⟨"plain] Resolved broker".toList, by decide⟩]

def openScenario : Transport.TcpScenario :=
  { Transport.noPcbScenario with pcb := true, waiting := [.connected 0] }

/-- A plain build of two attempts after one warm-up. -/
def plainBuild : CampaignBuild Transport.PlainTransport.Conn where
  scheme := .plainMqtt
  board := ⟨"Pico-2-W".toList, List.forall_iff_forall_mem.mp (by decide), by decide⟩
  campaign := 1
  iterations := 2
  iterations_lt := by decide
  transport := .plain
  compact := false
  brokerHost := "broker.lan".toList
  host_line := by decide
  brokerPort := 1883
  warmup := 1
  iterations_pos := by decide

/-- A success and a failure, after a warm-up that succeeds. -/
theorem campaign_read_back_plain :
    ∃ tally lines, ∃ parsed : List ParsedRow, ∃ report,
      runHandshakeBenchmark plainBuild id #v[plainInput openScenario]
          #v[plainInput openScenario, plainInput Transport.noPcbScenario] = some (tally, lines) ∧
      Analysis.analyze [⟨Benchmark.samplePath,
          Delimited.unlines '\n' (lines.map OutputLine.text)⟩]
        = .ok (parsed.map ParsedRow.row, report) ∧
      ReadBack id tally (parsed.map ParsedRow.toNormalizedRow) report := by
  apply campaign_read_back
  intro input hinput
  have hinput : input ∈ [plainInput openScenario, plainInput Transport.noPcbScenario] := hinput
  rcases List.mem_pair.mp hinput with rfl | rfl
  · exact ⟨by decide +kernel, by decide +kernel,
      List.forall_iff_forall_mem.mp (by decide +kernel)⟩
  · exact ⟨by decide, by decide, List.forall_iff_forall_mem.mp (by decide)⟩

example : ((plainInput openScenario).ending.success,
    (plainInput Transport.noPcbScenario).ending.success) = (true, false) := by decide +kernel

end PqMqtt.Firmware
