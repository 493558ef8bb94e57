import PqMqtt.Analysis.SummaryOrder

/-!
# Columns that a row does not have

`normalize` puts a zero in the place of a memory column that a row does not have, and the summaries
read that zero like a measurement.  For every memory value that they report it is determined when
the value is nevertheless the one of the rows that have its columns.
-/

namespace PqMqtt.Analysis

open Binary64 Grouping

/-! ## Aggregates of measured values and substitutes -/

section Aggregates

variable {α : Type} {group : List α} {measured : α → Bool} {reading : α → ℤ}

theorem maxOf_mem {values : List ℤ} (h : values ≠ []) : maxOf values ∈ values := by
  obtain ⟨value, hvalue⟩ := Option.isSome_iff_exists.mp (List.isSome_max?_of_ne_nil h)
  rw [maxOf, hvalue]
  exact List.max?_mem hvalue

theorem le_maxOf {values : List ℤ} {value : ℤ} (h : value ∈ values) : value ≤ maxOf values := by
  obtain ⟨greatest, hgreatest⟩ :=
    Option.isSome_iff_exists.mp (List.isSome_max?_of_ne_nil (List.ne_nil_of_mem h))
  rw [maxOf, hgreatest]
  exact (List.max?_eq_some_iff.mp hgreatest).2 value h

theorem minOf_mem {values : List ℤ} (h : values ≠ []) : minOf values ∈ values := by
  obtain ⟨value, hvalue⟩ := Option.isSome_iff_exists.mp (List.isSome_min?_of_ne_nil h)
  rw [minOf, hvalue]
  exact List.min?_mem hvalue

theorem minOf_le {values : List ℤ} {value : ℤ} (h : value ∈ values) : minOf values ≤ value := by
  obtain ⟨least, hleast⟩ :=
    Option.isSome_iff_exists.mp (List.isSome_min?_of_ne_nil (List.ne_nil_of_mem h))
  rw [minOf, hleast]
  exact (List.min?_eq_some_iff.mp hleast).2 value h

/-- The best value of a list is that of its measured rows when a measured row is at least as good
as every substitute. -/
theorem best_filter_iff {best : List ℤ → ℤ} {worse : ℤ → ℤ → Prop}
    (hmem : ∀ {values}, values ≠ [] → best values ∈ values)
    (hbest : ∀ {values value}, value ∈ values → worse value (best values))
    (htrans : ∀ {a b c}, worse a b → worse b c → worse a c)
    (hantisymm : ∀ {a b}, worse a b → worse b a → a = b) (hne : group.filter measured ≠ []) :
    best (group.map reading) = best ((group.filter measured).map reading) ↔
      ∀ row ∈ group, measured row = false →
        ∃ other ∈ group, measured other = true ∧ worse (reading row) (reading other) := by
  have hmeasured : (group.filter measured).map reading ≠ [] := by simpa using hne
  have hgroup : group.map reading ≠ [] := by
    intro h
    simp [List.map_eq_nil_iff.mp h] at hne
  have hamong {row : α} (hrow : row ∈ group) (hm : measured row = true) :
      worse (reading row) (best ((group.filter measured).map reading)) :=
    hbest (List.mem_map_of_mem (List.mem_filter.mpr ⟨hrow, hm⟩))
  obtain ⟨top, htop, htopeq⟩ := List.mem_map.mp (hmem hmeasured)
  rw [List.mem_filter] at htop
  constructor
  · intro heq row hrow _
    refine ⟨top, htop.1, htop.2, ?_⟩
    rw [htopeq, ← heq]
    exact hbest (List.mem_map_of_mem hrow)
  · intro hworse
    apply hantisymm
    · obtain ⟨row, hrow, hroweq⟩ := List.mem_map.mp (hmem hgroup)
      rw [← hroweq]
      cases hm : measured row with
      | true => exact hamong hrow hm
      | false =>
        obtain ⟨other, hother, hm', hle⟩ := hworse row hrow hm
        exact htrans hle (hamong hother hm')
    · rw [← htopeq]
      exact hbest (List.mem_map_of_mem htop.1)

/-- The greatest value is a measured one when every substitute is below a measured value. -/
theorem maxOf_filter_iff (hne : group.filter measured ≠ []) :
    maxOf (group.map reading) = maxOf ((group.filter measured).map reading) ↔
      ∀ row ∈ group, measured row = false →
        ∃ other ∈ group, measured other = true ∧ reading row ≤ reading other :=
  best_filter_iff maxOf_mem le_maxOf le_trans le_antisymm hne

/-- The least value is a measured one when every substitute is above a measured value. -/
theorem minOf_filter_iff (hne : group.filter measured ≠ []) :
    minOf (group.map reading) = minOf ((group.filter measured).map reading) ↔
      ∀ row ∈ group, measured row = false →
        ∃ other ∈ group, measured other = true ∧ reading other ≤ reading row :=
  best_filter_iff minOf_mem minOf_le ge_trans ge_antisymm hne

/-- Zeros do not change a sum. -/
theorem sum_filter_of_zero (hzero : ∀ row ∈ group, measured row = false → reading row = 0) :
    (group.map reading).sum = ((group.filter measured).map reading).sum := by
  induction group with
  | nil => rfl
  | cons row group ih =>
    obtain ⟨hrow, hgroup⟩ := List.forall_mem_cons.mp hzero
    rw [List.map_cons, List.sum_cons, ih hgroup]
    cases hm : measured row with
    | true => simp [hm]
    | false => simp [hm, hrow hm]

/-- Zeros are not positive. -/
theorem positive_filter_of_zero (hzero : ∀ row ∈ group, measured row = false → reading row = 0) :
    (group.map reading).filter (0 < ·) = ((group.filter measured).map reading).filter (0 < ·) := by
  rw [List.filter_map, List.filter_map, List.filter_filter]
  congr 1
  apply List.filter_congr
  intro row hrow
  cases hm : measured row with
  | true => simp
  | false => simp [hzero row hrow hm]

end Aggregates

/-! ## Rows of a log -/

/-- The memory columns of the rows. -/
def memoryColumns : List String :=
  ["heap_capacity_bytes", "heap_in_use_before_bytes", "heap_peak_in_use_bytes",
    "heap_peak_delta_bytes", "heap_in_use_after_bytes", "free_before_bytes",
    "free_before_tls_bytes", "min_free_bytes", "free_after_bytes",
    "maximum_allocation_request_bytes", "allocation_calls", "free_calls", "failed_allocations",
    "stack_capacity_bytes", "stack_high_water_bytes", "stack_unused_bytes",
    "stack_guard_corrupted", "alloc_failed", "alloc_failure_bytes"]

/-- Only the three columns of old logs are renamed. -/
theorem aliases_eq_or (key : String) :
    aliases key = key ∨ aliases key ∈ ["run", "mqtt_ms", "total_ms"] := by
  unfold aliases
  split_ifs <;> simp

/-- A memory column that is missing is absent from the texts, or it is the text of a zero. -/
theorem textsOf_of_missing {raw : List (String × Text)} {column : String}
    (hmissing : column ∉ raw.map Prod.fst) (hcolumn : column ∈ memoryColumns) (path : Text)
    (legacy : Bool) {text : Text} (h : textsOf raw path legacy column = some text) :
    text = "0".toList := by
  refine Dict.setdefaults_forall (p := fun key text ↦ key = column → text = "0".toList)
    ?_ ?_ column text h rfl
  · apply Dict.ofPairs_forall
    intro pair hpair heq
    obtain ⟨other, hother, rfl⟩ := List.mem_map.mp hpair
    have hrenamed : aliases other.1 = column := heq
    rcases aliases_eq_or other.1 with hsame | hold
    · have hname : other.1 = column := hsame.symm.trans hrenamed
      exact absurd (List.mem_map.mpr ⟨other, Dict.mem_of_mem_items other hother, hname⟩) hmissing
    · have hnone : ∀ name ∈ ["run", "mqtt_ms", "total_ms"], name ∉ memoryColumns := by decide
      exact absurd (hrenamed ▸ hcolumn) (hnone _ hold)
  · intro pair hpair heq
    have hnames : ∀ pair ∈ defaults path legacy,
        pair.1 ∈ memoryColumns → pair.2 = "0".toList := by
      simp only [defaults, List.forall_mem_cons]
      refine ⟨fun h ↦ absurd h (by decide), ?_⟩
      decide
    exact hnames pair hpair (heq ▸ hcolumn)

theorem integerValue_of_missing {raw : List (String × Text)} {column : String}
    (hmissing : column ∉ raw.map Prod.fst) (hcolumn : column ∈ memoryColumns) (path : Text)
    (legacy : Bool) : integerValue (textsOf raw path legacy) column = .ok (.int 0) := by
  have htext : numericText (textsOf raw path legacy) column = "0".toList := by
    unfold numericText
    cases h : textsOf raw path legacy column with
    | none => rfl
    | some text =>
      obtain rfl := textsOf_of_missing hmissing hcolumn path legacy h
      rfl
  have hcampaign : column ≠ "campaign" := by
    rintro rfl
    exact absurd hcolumn (by decide)
  have hflag : parseBool "0".toList = 0 := by decide
  have hzero : pyFloat "0".toList = .ok (.fin 0) := by decide +kernel
  simp only [integerValue, htext, hflag, hcampaign, hzero]
  split
  · rfl
  · rfl

/-- A row of a log: what `parse` hands to `normalize`, and what it gets back.  The summaries look
up `scheme` and `board` in it. -/
structure ParsedRow where
  raw : List (String × Text)
  path : Text
  legacy : Bool
  row : Dict Value
  normalized : normalize raw path legacy = .ok row
  scheme : Text
  scheme_eq : row "scheme" = some (.str scheme)
  board : Text
  board_eq : row "board" = some (.str board)

/-- A campaign that stays a text is none of the numbers. -/
theorem no_digits_of_campaign {raw : List (String × Text)} {path : Text} {legacy : Bool}
    {row : Dict Value} (h : normalize raw path legacy = .ok row) {text : Text}
    (hcampaign : row "campaign" = some (.str text)) :
    isDigits (text.dropWhile (· = '-')) = false := by
  obtain ⟨-, -, rfl⟩ := (normalize_eq_ok_iff ..).mp h
  have hvalue : (integerValue (textsOf raw path legacy) "campaign").toOption
      = some (.str text) := hcampaign
  unfold integerValue at hvalue
  dsimp only at hvalue
  split at hvalue
  · cases hvalue
  split at hvalue
  · rename_i hname
    obtain rfl := Value.str.inj (Option.some.inj hvalue)
    exact hname.2
  · cases hx : pyFloat (numericText (textsOf raw path legacy) "campaign") with
    | error error => rw [hx] at hvalue; cases hvalue
    | ok x =>
      rw [hx] at hvalue
      cases hn : intOfFloat x with
      | error error => simp [bind, Except.bind, hn, Except.toOption] at hvalue
      | ok n => simp [bind, Except.bind, hn, Except.toOption] at hvalue

namespace ParsedRow

variable (parsed : ParsedRow)

/-- The text of a column. -/
def text (column : String) : Text :=
  match parsed.row column with
  | some (.str text) => text
  | _ => []

/-- The number of a column. -/
def int (column : String) : ℤ :=
  match parsed.row column with
  | some (.int value) => value
  | _ => 0

/-- The float of a column. -/
def float (column : String) : Double :=
  match parsed.row column with
  | some (.float value) => value
  | _ => .fin 0

def campaign : Campaign :=
  match h : parsed.row "campaign" with
  | some (.str text) => .name text (no_digits_of_campaign parsed.normalized h)
  | _ => .number (parsed.int "campaign")

/-- The columns that the summaries read. -/
def toNormalizedRow : NormalizedRow where
  scheme := parsed.scheme
  board := parsed.board
  campaign := parsed.campaign
  success := parsed.int "success" ≠ 0
  failureStage := parsed.text "failure_stage"
  timeout := parsed.int "timeout" ≠ 0
  stackGuardCorrupted := parsed.int "stack_guard_corrupted" ≠ 0
  allocFailed := parsed.int "alloc_failed" ≠ 0
  legacySuccessOnly := parsed.int "legacy_success_only" ≠ 0
  latency := parsed.float
  integer := parsed.int

/-- The row was printed with the column. -/
def hasColumn (column : String) : Bool := column ∈ parsed.raw.map Prod.fst

theorem int_of_missing {column : String} (hmissing : parsed.hasColumn column = false)
    (hcolumn : column ∈ memoryColumns) : parsed.int column = 0 := by
  have hnone : column ∉ parsed.raw.map Prod.fst := of_decide_eq_false hmissing
  have hvalue := integerValue_of_missing hnone hcolumn parsed.path parsed.legacy
  have hinteger : ∀ name ∈ memoryColumns, name ∈ integerFields ∧ name ≠ "source_file" ∧
      name ≠ "legacy_success_only" := by decide
  obtain ⟨hmem, hsource, hlegacy⟩ := hinteger column hcolumn
  obtain ⟨-, -, hrow⟩ := (normalize_eq_ok_iff ..).mp parsed.normalized
  rw [int, hrow, normalizedRow, if_neg hsource, if_neg hlegacy, if_pos hmem, hvalue]
  rfl

end ParsedRow

/-! ## Reports -/

/-- What a report reads from each row. -/
inductive Reading where
  | column (name : String)
  | stackGuard
  | allocFailed
  | baselineGrowth
deriving DecidableEq

namespace Reading

def columns : Reading → List String
  | column name => [name]
  | stackGuard => ["stack_guard_corrupted"]
  | allocFailed => ["alloc_failed"]
  | baselineGrowth => ["heap_in_use_after_bytes", "heap_in_use_before_bytes"]

def value : Reading → NormalizedRow → ℤ
  | column name, row => row.integer name
  | stackGuard, row => if row.stackGuardCorrupted then 1 else 0
  | allocFailed, row => if row.allocFailed then 1 else 0
  | baselineGrowth, row =>
    row.integer "heap_in_use_after_bytes" - row.integer "heap_in_use_before_bytes"

/-- The value of the reading in a row of a log. -/
def of (reading : Reading) (parsed : ParsedRow) : ℤ := reading.value parsed.toNormalizedRow

/-- The row has the columns of the reading. -/
def measured (reading : Reading) (parsed : ParsedRow) : Bool :=
  reading.columns.all parsed.hasColumn

/-- What takes the place of a reading whose columns are not all there. -/
def substitute : Reading → ParsedRow → ℤ
  | baselineGrowth, parsed =>
    (if parsed.hasColumn "heap_in_use_after_bytes" then parsed.int "heap_in_use_after_bytes" else 0)
      - if parsed.hasColumn "heap_in_use_before_bytes" then parsed.int "heap_in_use_before_bytes"
        else 0
  | _, _ => 0

theorem of_missing {reading : Reading} (hcolumns : ∀ name ∈ reading.columns, name ∈ memoryColumns)
    {parsed : ParsedRow} (h : reading.measured parsed = false) :
    reading.of parsed = reading.substitute parsed := by
  have hzero (name : String) (hname : name ∈ reading.columns)
      (hmissing : parsed.hasColumn name = false) : parsed.int name = 0 :=
    parsed.int_of_missing hmissing (hcolumns name hname)
  cases reading with
  | column name =>
    have hmissing : parsed.hasColumn name = false := by simpa [measured, columns] using h
    exact hzero name (List.mem_singleton_self _) hmissing
  | stackGuard =>
    have hmissing : parsed.hasColumn "stack_guard_corrupted" = false := by
      simpa [measured, columns] using h
    have hint := hzero _ (List.mem_singleton_self _) hmissing
    simp [of, value, ParsedRow.toNormalizedRow, hint, substitute]
  | allocFailed =>
    have hmissing : parsed.hasColumn "alloc_failed" = false := by
      simpa [measured, columns] using h
    have hint := hzero _ (List.mem_singleton_self _) hmissing
    simp [of, value, ParsedRow.toNormalizedRow, hint, substitute]
  | baselineGrowth =>
    have hfilled (name : String) (hname : name ∈ columns .baselineGrowth) :
        parsed.int name = if parsed.hasColumn name then parsed.int name else 0 := by
      cases hhas : parsed.hasColumn name with
      | true => rfl
      | false => exact hzero name hname hhas
    have hafter := hfilled "heap_in_use_after_bytes" (by decide)
    have hbefore := hfilled "heap_in_use_before_bytes" (by decide)
    calc of .baselineGrowth parsed
        = parsed.int "heap_in_use_after_bytes" - parsed.int "heap_in_use_before_bytes" := rfl
      _ = substitute .baselineGrowth parsed := by
        rw [hafter, hbefore]
        rfl

end Reading

/-- How a report combines the values of the rows. -/
inductive Aggregate where
  | maximum
  | minimum
  | total
  | positiveMinimum
deriving DecidableEq

def Aggregate.of : Aggregate → List ℤ → ℤ
  | maximum, values => maxOf values
  | minimum, values => minOf values
  | total, values => values.sum
  | positiveMinimum, values => minOf (values.filter (0 < ·))

/-- A memory value that a summary reports in rows of type `ρ`. -/
structure Report (ρ : Type) where
  aggregate : Aggregate
  reading : Reading
  reported : ρ → Number
  columns_memory : ∀ name ∈ reading.columns, name ∈ memoryColumns := by decide
  one_column : reading = .baselineGrowth → aggregate = .maximum := by decide

namespace Report

variable {ρ : Type} (report : Report ρ)

/-- The value of the rows that have the columns; not a number when no row has them. -/
def expected (group : List ParsedRow) : Number :=
  let measured := group.filter report.reading.measured
  if measured.isEmpty then Number.nan
  else .int (report.aggregate.of (measured.map report.reading.of))

/-- Some row has the columns, and no substitute goes beyond the values of such rows. -/
def Unharmed (group : List ParsedRow) : Prop :=
  (∃ parsed ∈ group, report.reading.measured parsed = true) ∧
    ∀ parsed ∈ group, report.reading.measured parsed = false →
      match report.aggregate with
      | .maximum => ∃ other ∈ group, report.reading.measured other = true ∧
          report.reading.substitute parsed ≤ report.reading.of other
      | .minimum => ∃ other ∈ group, report.reading.measured other = true ∧
          report.reading.of other ≤ report.reading.substitute parsed
      | .total => True
      | .positiveMinimum => True

theorem substitute_eq_zero (h : report.aggregate ≠ .maximum) (parsed : ParsedRow) :
    report.reading.substitute parsed = 0 := by
  have hreading : report.reading ≠ .baselineGrowth := fun heq ↦ h (report.one_column heq)
  cases hcase : report.reading with
  | column name => rfl
  | stackGuard => rfl
  | allocFailed => rfl
  | baselineGrowth => exact absurd hcase hreading

/-- The aggregate of all rows is the expected value exactly when no substitute matters. -/
theorem int_eq_expected_iff (group : List ParsedRow) :
    Number.int (report.aggregate.of (group.map report.reading.of)) = report.expected group ↔
      report.Unharmed group := by
  have hmissing {parsed : ParsedRow} (h : report.reading.measured parsed = false) :
      report.reading.of parsed = report.reading.substitute parsed :=
    Reading.of_missing report.columns_memory h
  have hempty : group.filter report.reading.measured ≠ [] ↔
      ∃ parsed ∈ group, report.reading.measured parsed = true := by
    simp [List.filter_eq_nil_iff]
  unfold expected Unharmed
  rw [← hempty]
  by_cases hne : group.filter report.reading.measured = []
  · simp [hne, Number.nan]
  have hnot : (group.filter report.reading.measured).isEmpty = false := by simpa using hne
  simp only [hnot, Bool.false_eq_true, if_false, Number.int.injEq, ne_eq, hne, not_false_eq_true,
    true_and]
  have hzero (h : report.aggregate ≠ .maximum) : ∀ parsed ∈ group,
      report.reading.measured parsed = false → report.reading.of parsed = 0 :=
    fun parsed _ hm ↦ (hmissing hm).trans (report.substitute_eq_zero h parsed)
  cases haggregate : report.aggregate with
  | maximum =>
    rw [Aggregate.of, Aggregate.of, maxOf_filter_iff hne]
    apply forall₃_congr
    intro parsed _ hm
    rw [hmissing hm]
  | minimum =>
    rw [Aggregate.of, Aggregate.of, minOf_filter_iff hne]
    apply forall₃_congr
    intro parsed _ hm
    rw [hmissing hm]
  | total =>
    rw [Aggregate.of, Aggregate.of, sum_filter_of_zero (hzero (by simp [haggregate]))]
    simp
  | positiveMinimum =>
    rw [Aggregate.of, Aggregate.of, positive_filter_of_zero (hzero (by simp [haggregate]))]
    simp

end Report

/-! ## The summary of memory and traffic -/

/-- The memory values of `memory_traffic_summary`. -/
def memoryTrafficReports : List (Report MemoryTrafficRow) :=
  [{ aggregate := .maximum, reading := .column "heap_peak_in_use_bytes"
     reported := fun row ↦ .int row.peakHeapBytes },
   { aggregate := .maximum, reading := .column "heap_peak_delta_bytes"
     reported := fun row ↦ .int row.peakHeapDeltaBytes },
   { aggregate := .maximum, reading := .column "stack_high_water_bytes"
     reported := fun row ↦ .int row.peakStackBytes },
   { aggregate := .minimum, reading := .column "min_free_bytes"
     reported := fun row ↦ .int row.minimumFreeBytes },
   { aggregate := .maximum, reading := .column "maximum_allocation_request_bytes"
     reported := fun row ↦ .int row.maximumAllocationRequestBytes },
   { aggregate := .total, reading := .column "failed_allocations"
     reported := fun row ↦ .int row.failedAllocations },
   { aggregate := .total, reading := .stackGuard
     reported := fun row ↦ .int row.stackGuardCorruptions },
   { aggregate := .maximum, reading := .column "heap_in_use_after_bytes"
     reported := fun row ↦ .int row.maximumPostCleanupHeapBytes },
   { aggregate := .maximum, reading := .baselineGrowth
     reported := fun row ↦ .int row.maximumHeapBaselineGrowthBytes },
   { aggregate := .positiveMinimum, reading := .column "free_before_tls_bytes"
     reported := fun row ↦ .int row.minimumFreeBeforeTlsBytes },
   { aggregate := .total, reading := .allocFailed
     reported := fun row ↦ .int row.allocationFailures }]

/-- A count is a sum of ones. -/
theorem countP_eq_sum {α : Type} (p : α → Bool) (items : List α) :
    (items.countP p : ℤ) = (items.map fun item ↦ if p item then (1 : ℤ) else 0).sum := by
  induction items with
  | nil => rfl
  | cons item items ih =>
    rw [List.countP_cons, List.map_cons, List.sum_cons, ← ih, Nat.cast_add, add_comm]
    congr 1
    split <;> rfl

/-- Every report is the aggregate of its readings. -/
theorem reported_memoryTrafficRow {entry : GroupKey × List NormalizedRow} {row : MemoryTrafficRow}
    (h : memoryTrafficRow entry = .ok row) : ∀ report ∈ memoryTrafficReports,
      report.reported row = .int (report.aggregate.of (entry.2.map report.reading.value)) := by
  obtain ⟨traffic, -, h⟩ := bind_eq_ok_iff.mp h
  obtain ⟨hsTx, -, h⟩ := bind_eq_ok_iff.mp h
  obtain ⟨hsRx, -, h⟩ := bind_eq_ok_iff.mp h
  obtain rfl := Except.ok.inj h
  have hguard := countP_eq_sum (fun row : NormalizedRow ↦ row.stackGuardCorrupted) entry.2
  have halloc := countP_eq_sum (fun row : NormalizedRow ↦ row.allocFailed) entry.2
  simp only [memoryTrafficReports, List.forall_mem_cons]
  exact ⟨rfl, rfl, rfl, rfl, rfl, rfl, congrArg Number.int hguard, rfl, rfl, rfl,
    congrArg Number.int halloc, fun _ h ↦ absurd h List.not_mem_nil⟩

/-- The rows of a log with a scheme and a board. -/
def parsedGroup (rows : List ParsedRow) (key : GroupKey) : List ParsedRow :=
  rows.filter fun parsed ↦ (parsed.scheme, parsed.board) = key

theorem withKey_map_toNormalizedRow (rows : List ParsedRow) (key : GroupKey) :
    withKey NormalizedRow.key (rows.map ParsedRow.toNormalizedRow) key =
      (parsedGroup rows key).map ParsedRow.toNormalizedRow := by
  rw [withKey, List.filter_map]
  rfl

theorem memoryTraffic_reports_iff {rows : List ParsedRow} {output : List MemoryTrafficRow}
    (h : memoryTrafficSummary (rows.map ParsedRow.toNormalizedRow) = .ok output)
    {row : MemoryTrafficRow} (hrow : row ∈ output) : ∀ report ∈ memoryTrafficReports,
      (report.reported row = report.expected (parsedGroup rows (row.scheme, row.board)) ↔
        report.Unharmed (parsedGroup rows (row.scheme, row.board))) := by
  intro report hreport
  obtain ⟨entry, hentry, heq⟩ := (mem_mapM_iff h row).mp hrow
  have hkey : (row.scheme, row.board) = entry.1 := by
    obtain ⟨traffic, -, heq⟩ := bind_eq_ok_iff.mp heq
    obtain ⟨hsTx, -, heq⟩ := bind_eq_ok_iff.mp heq
    obtain ⟨hsRx, -, heq⟩ := bind_eq_ok_iff.mp heq
    obtain rfl := Except.ok.inj heq
    rfl
  have hgroup := eq_withKey_of_mem _ ((sortByKey_perm toLex _).mem_iff.mp hentry)
  rw [withKey_map_toNormalizedRow] at hgroup
  rw [reported_memoryTrafficRow heq report hreport, hgroup, hkey, List.map_map]
  exact report.int_eq_expected_iff _

/-! ## The summary for deployment -/

/-- The memory values of `derived_summary`. -/
def derivedReports : List (Report DerivedRow) :=
  [{ aggregate := .maximum, reading := .column "heap_peak_in_use_bytes"
     reported := fun row ↦ row.peakHeapBytes },
   { aggregate := .maximum, reading := .column "stack_high_water_bytes"
     reported := fun row ↦ row.peakStackBytes },
   { aggregate := .minimum, reading := .column "min_free_bytes"
     reported := fun row ↦ row.minimumHeapFreeBytes }]

/-- What the loops after that over the groups leave alone. -/
structure MemoryView where
  key : GroupKey
  peakHeapBytes : Number
  peakStackBytes : Number
  minimumHeapFreeBytes : Number

namespace MemoryView

/-- The memory values of a row. -/
def ofRow (row : DerivedRow) : MemoryView :=
  ⟨row.key, row.peakHeapBytes, row.peakStackBytes, row.minimumHeapFreeBytes⟩

/-- The memory values of a group. -/
def ofGroup (entry : GroupKey × List NormalizedRow) : MemoryView :=
  ⟨entry.1, .int (maxOf (entry.2.map (·.integer "heap_peak_in_use_bytes"))),
    .int (maxOf (entry.2.map (·.integer "stack_high_water_bytes"))),
    .int (minOf (entry.2.map (·.integer "min_free_bytes")))⟩

theorem ofRow_derivedRow {resources : List (GroupKey × Dict Text)}
    {base : List (GroupKey × Base)} {entry : GroupKey × List NormalizedRow} {row : DerivedRow}
    (h : derivedRow resources base entry = .ok row) : ofRow row = ofGroup entry := by
  obtain ⟨staticRam, -, h⟩ := bind_eq_ok_iff.mp h
  obtain ⟨peakTotal, -, h⟩ := bind_eq_ok_iff.mp h
  obtain ⟨sramRegion, -, h⟩ := bind_eq_ok_iff.mp h
  obtain ⟨flash, -, h⟩ := bind_eq_ok_iff.mp h
  obtain ⟨stackReserved, -, h⟩ := bind_eq_ok_iff.mp h
  obtain ⟨headroom, -, h⟩ := bind_eq_ok_iff.mp h
  obtain ⟨latencyOverPlain, -, h⟩ := bind_eq_ok_iff.mp h
  obtain ⟨latencyOverEcdsa, -, h⟩ := bind_eq_ok_iff.mp h
  obtain ⟨trafficOverEcdsa, -, h⟩ := bind_eq_ok_iff.mp h
  obtain ⟨trafficPerLatency, -, h⟩ := bind_eq_ok_iff.mp h
  obtain rfl := Except.ok.inj h
  rfl

/-- Labels, build results and sizes leave the memory values of the groups alone. -/
theorem map_finishDerived {order : SetOrder} {base : List (GroupKey × Base)}
    {resources : List (GroupKey × Dict Text)} {statusRows : List (Dict Text)}
    {output result : List DerivedRow}
    (h : finishDerived order base resources statusRows output = .ok result) :
    ∃ extra, (result.map ofRow).Perm (output.map ofRow ++ extra) ∧
      ∀ view ∈ extra, view.key ∉ output.map DerivedRow.key := by
  obtain ⟨extra, hperm, hnew⟩ := @map_finishDerived_labels _ ofRow (fun _ _ _ ↦ rfl)
    (fun _ _ _ _ ↦ rfl) _ _ _ _ _ _ h
  have hlabels : (labelPareto order base output).map ofRow = output.map ofRow := by
    rw [labelPareto_eq, List.map_map]
    rfl
  rw [List.map_append, hlabels] at hperm
  refine ⟨extra.map ofRow, hperm, ?_⟩
  intro view hview
  obtain ⟨row, hrow, rfl⟩ := List.mem_map.mp hview
  exact hnew row hrow

end MemoryView

/-- The rows of the groups have the memory values of the groups. -/
theorem ofRow_of_derivedSummary {order : SetOrder} {statusRows resourceRows : List (Dict Text)}
    {rows : List NormalizedRow} {output : List DerivedRow}
    (h : derivedSummary order statusRows resourceRows rows = .ok output) {row : DerivedRow}
    (hrow : row ∈ output) (hkey : ∃ attempt ∈ rows, attempt.key = row.key) :
    MemoryView.ofRow row =
      MemoryView.ofGroup (row.key, withKey NormalizedRow.key rows row.key) := by
  obtain ⟨keyed, -, h⟩ := bind_eq_ok_iff.mp h
  obtain ⟨base, -, h⟩ := bind_eq_ok_iff.mp h
  obtain ⟨groups, hgroups, h⟩ := bind_eq_ok_iff.mp h
  obtain ⟨extra, hperm, hnew⟩ := MemoryView.map_finishDerived h
  have hviews : groups.map MemoryView.ofRow
      = (sortGroups (groupBy NormalizedRow.key rows)).map MemoryView.ofGroup :=
    map_eq_of_mapM (fun _ _ hresult ↦ MemoryView.ofRow_derivedRow hresult) hgroups
  have hkeys : groups.map DerivedRow.key
      = (sortGroups (groupBy NormalizedRow.key rows)).map Prod.fst :=
    map_eq_of_mapM (fun _ _ hresult ↦
      congrArg MemoryView.key (MemoryView.ofRow_derivedRow hresult)) hgroups
  have hmem := hperm.mem_iff.mp (List.mem_map_of_mem (f := MemoryView.ofRow) hrow)
  rw [hviews] at hmem
  rw [hkeys] at hnew
  rcases List.mem_append.mp hmem with hgroup | hextra
  · obtain ⟨entry, hentry, heq⟩ := List.mem_map.mp hgroup
    have hentrykey : entry.1 = row.key := congrArg MemoryView.key heq
    have hrows := eq_withKey_of_mem _ ((sortByKey_perm toLex _).mem_iff.mp hentry)
    rw [hentrykey] at hrows
    rw [← heq, ← hrows, ← hentrykey]
  · have hold : row.key ∈ (sortGroups (groupBy NormalizedRow.key rows)).map Prod.fst := by
      obtain ⟨group, hgroup, hfst⟩ := List.mem_map.mp
        ((mem_keys_groupBy NormalizedRow.key).mpr hkey)
      exact List.mem_map.mpr ⟨group, (sortByKey_perm toLex _).mem_iff.mpr hgroup, hfst⟩
    exact absurd hold (hnew _ hextra)

theorem derived_reports_iff {order : SetOrder} {statusRows resourceRows : List (Dict Text)}
    {rows : List ParsedRow} {output : List DerivedRow}
    (h : derivedSummary order statusRows resourceRows (rows.map ParsedRow.toNormalizedRow)
      = .ok output)
    {row : DerivedRow} (hrow : row ∈ output)
    (hkey : ∃ parsed ∈ rows, (parsed.scheme, parsed.board) = row.key) :
    ∀ report ∈ derivedReports,
      (report.reported row = report.expected (parsedGroup rows row.key) ↔
        report.Unharmed (parsedGroup rows row.key)) := by
  obtain ⟨parsed, hparsed, hparsedkey⟩ := hkey
  have hview := ofRow_of_derivedSummary h hrow
    ⟨parsed.toNormalizedRow, List.mem_map_of_mem hparsed, hparsedkey⟩
  rw [withKey_map_toNormalizedRow] at hview
  have hreported : ∀ report ∈ derivedReports, report.reported row
      = .int (report.aggregate.of ((parsedGroup rows row.key).map report.reading.of)) := by
    have hheap := congrArg MemoryView.peakHeapBytes hview
    have hstack := congrArg MemoryView.peakStackBytes hview
    have hfree := congrArg MemoryView.minimumHeapFreeBytes hview
    simp only [MemoryView.ofGroup, List.map_map] at hheap hstack hfree
    simp only [derivedReports, List.forall_mem_cons]
    exact ⟨hheap, hstack, hfree, fun _ h ↦ absurd h List.not_mem_nil⟩
  intro report hreport
  rw [hreported report hreport]
  exact report.int_eq_expected_iff _

/-! ## Missing columns -/

/-- For every mixture of rows, a reported memory value is that of the rows that have its columns
exactly when there is such a row and the substitutes do not matter. -/
theorem missing_columns (rows : List ParsedRow) :
    (∀ output, memoryTrafficSummary (rows.map ParsedRow.toNormalizedRow) = .ok output →
      ∀ row ∈ output, ∀ report ∈ memoryTrafficReports,
        (report.reported row = report.expected (parsedGroup rows (row.scheme, row.board)) ↔
          report.Unharmed (parsedGroup rows (row.scheme, row.board)))) ∧
    ∀ order statusRows resourceRows output,
      derivedSummary order statusRows resourceRows (rows.map ParsedRow.toNormalizedRow)
        = .ok output →
      ∀ row ∈ output, (∃ parsed ∈ rows, (parsed.scheme, parsed.board) = row.key) →
        ∀ report ∈ derivedReports,
          (report.reported row = report.expected (parsedGroup rows row.key) ↔
            report.Unharmed (parsedGroup rows row.key)) := by
  constructor
  · intro output h row hrow
    exact memoryTraffic_reports_iff h hrow
  · intro order statusRows resourceRows output h row hrow hkey
    exact derived_reports_iff h hrow hkey

theorem normalize_of_isOk {raw : List (String × Text)} {path : Text} {legacy : Bool}
    (h : (normalize raw path legacy).isOk = true) :
    normalize raw path legacy = .ok (normalizedRow (textsOf raw path legacy) path legacy) := by
  obtain ⟨row, hrow⟩ := exists_of_isOk h
  rw [hrow, ((normalize_eq_ok_iff ..).mp hrow).2.2]

/-- A row under a header with one memory column. -/
def measuredAttempt : ParsedRow where
  raw := [("scheme", "HAWK-512".toList), ("board", "pico2_w".toList), ("run", "1".toList),
    ("min_free_bytes", "64".toList)]
  path := "log".toList
  legacy := false
  row := _
  normalized := normalize_of_isOk (by decide +kernel)
  scheme := "HAWK-512".toList
  scheme_eq := by decide +kernel
  board := "pico2_w".toList
  board_eq := by decide +kernel

/-- A legacy row, which has no memory column. -/
def legacyAttempt : ParsedRow where
  raw := legacyFields13.zip
    (["csv_hs", "HAWK-512", "pico2_w", "2", "1", "2", "3", "1", "2", "10", "20", "1", "1"].map
      String.toList)
  path := "log".toList
  legacy := true
  row := _
  normalized := normalize_of_isOk (by decide +kernel)
  scheme := "HAWK-512".toList
  scheme_eq := by decide +kernel
  board := "pico2_w".toList
  board_eq := by decide +kernel

/-- A set that is iterated in the order of its members. -/
def insertionOrder : SetOrder where
  list := List.dedup
  perm _ := .refl _

theorem missing_columns_example :
    ∃ output derived,
      memoryTrafficSummary [measuredAttempt.toNormalizedRow, legacyAttempt.toNormalizedRow]
        = .ok output ∧
      derivedSummary insertionOrder [] []
        [measuredAttempt.toNormalizedRow, legacyAttempt.toNormalizedRow] = .ok derived ∧
      (∀ row ∈ output, ∀ report ∈ memoryTrafficReports,
        (report.reported row = report.expected
            (parsedGroup [measuredAttempt, legacyAttempt] (row.scheme, row.board)) ↔
          report.Unharmed
            (parsedGroup [measuredAttempt, legacyAttempt] (row.scheme, row.board)))) ∧
      ∀ row ∈ derived, row.key = ("HAWK-512".toList, "pico2_w".toList) →
        ∀ report ∈ derivedReports,
          (report.reported row =
              report.expected (parsedGroup [measuredAttempt, legacyAttempt] row.key) ↔
            report.Unharmed (parsedGroup [measuredAttempt, legacyAttempt] row.key)) := by
  obtain ⟨hmemory, hderived⟩ := missing_columns [measuredAttempt, legacyAttempt]
  obtain ⟨output, houtput⟩ := exists_of_isOk (show
    (memoryTrafficSummary [measuredAttempt.toNormalizedRow, legacyAttempt.toNormalizedRow]).isOk
      by decide +kernel)
  obtain ⟨derived, hresult⟩ := exists_of_isOk (show (derivedSummary insertionOrder [] []
    [measuredAttempt.toNormalizedRow, legacyAttempt.toNormalizedRow]).isOk by decide +kernel)
  refine ⟨output, derived, houtput, hresult, hmemory output houtput, ?_⟩
  intro row hrow hkey
  exact hderived insertionOrder [] [] derived hresult row hrow
    ⟨measuredAttempt, List.mem_cons_self, hkey.symm⟩

/-- A row without the column turns the least free memory into zero, alone and next to a row that
has it. -/
theorem minimum_of_missing_column :
    legacyAttempt.hasColumn "min_free_bytes" = false ∧
      (memoryTrafficSummary [legacyAttempt.toNormalizedRow]).map
        (·.map MemoryTrafficRow.minimumFreeBytes) = .ok [0] ∧
      measuredAttempt.int "min_free_bytes" = 64 ∧
      (memoryTrafficSummary
          [measuredAttempt.toNormalizedRow, legacyAttempt.toNormalizedRow]).map
        (·.map MemoryTrafficRow.minimumFreeBytes) = .ok [0] ∧
      (derivedSummary insertionOrder [] []
          [measuredAttempt.toNormalizedRow, legacyAttempt.toNormalizedRow]).map
        (·.map DerivedRow.minimumHeapFreeBytes) = .ok [.int 0] := by
  decide +kernel

end PqMqtt.Analysis
