import Mathlib.Data.Char
import Mathlib.Data.List.Lex
import PqMqtt.Analysis.HsCsv
import PqMqtt.Analysis.Printf
import PqMqtt.Analysis.PyNumber
import PqMqtt.Foundation.Grouping

/-!
# Summaries of attempts

`summarize`, `latency_summary`, `memory_traffic_summary` and `derived_summary` of
`analyze_hs_csv.py`.  They read the rows that `normalize` returns; a row is taken here with the
columns that they read, each with its type.  Dictionaries of groups are lists of entries in the
order of insertion, and sets are iterated in an order of which nothing is known.
-/

namespace PqMqtt.Analysis

open Binary64 Grouping

/-! ## Normalized rows -/

/-- The column `campaign`: a number, or a text that `normalize` did not take for one. -/
inductive Campaign where
  | number (value : ℤ)
  | name (text : Text) (no_digits : isDigits (text.dropWhile (· = '-')) = false)
deriving DecidableEq

/-- `str(campaign)` -/
def Campaign.text : Campaign → Text
  | number value => formatD value
  | name text _ => text

/-- The columns of a normalized row; the last two are those of `LATENCY_FIELDS`, and those of
`INTEGER_FIELDS` that are neither flags nor the campaign. -/
structure NormalizedRow where
  scheme : Text
  board : Text
  campaign : Campaign
  success : Bool
  failureStage : Text
  timeout : Bool
  stackGuardCorrupted : Bool
  allocFailed : Bool
  legacySuccessOnly : Bool
  latency : String → Double
  integer : String → ℤ

abbrev GroupKey := Text × Text

abbrev CampaignKey := Text × Text × Campaign

namespace NormalizedRow

/-- `(row["scheme"], row["board"])` -/
def key (row : NormalizedRow) : GroupKey := (row.scheme, row.board)

/-- `(row["scheme"], row["board"], row["campaign"])` -/
def campaignKey (row : NormalizedRow) : CampaignKey := (row.scheme, row.board, row.campaign)

/-- `row["total_tx_bytes"] + row["total_rx_bytes"]` -/
def traffic (row : NormalizedRow) : ℤ :=
  row.integer "total_tx_bytes" + row.integer "total_rx_bytes"

end NormalizedRow

/-- The entries of a dictionary of groups in the order of `sorted(grouped.items())`. -/
def sortGroups {β : Type} (groups : List (GroupKey × β)) : List (GroupKey × β) :=
  sortByKey toLex groups

/-- `(scheme, board, str(campaign))` -/
def campaignRank (key : CampaignKey) : Text ×ₗ Text ×ₗ Text :=
  toLex (key.1, toLex (key.2.1, key.2.2.text))

/-- `[row for row in group if row["success"]]` -/
def successful (group : List NormalizedRow) : List NormalizedRow := group.filter (·.success)

/-- `100.0 * len(successful) / len(group)` -/
def successRate (group : List NormalizedRow) : Double :=
  ((Double.fin 100).mul (ofRat (successful group).length)).div (ofRat group.length)

/-- The latencies of a metric. -/
def latencies (metric : String) (rows : List NormalizedRow) : List Number :=
  (rows.map (·.latency metric)).map Number.float

/-- `max` of values that are not empty. -/
def maxOf (values : List ℤ) : ℤ := values.max?.getD 0

/-- `min` of values, with 0 where there are none. -/
def minOf (values : List ℤ) : ℤ := values.min?.getD 0

/-! ## summarize -/

structure OverviewRow where
  scheme : Text
  board : Text
  attempted : ℕ
  successful : ℕ
  failures : ℕ
  timeouts : ℕ
  successRate : Double
  failureStages : Text
  legacySuccessOnly : Bool
deriving DecidableEq

/-- `sorted(failures.items())` of the counter of the stages of the failed rows. -/
def failureCounts (group : List NormalizedRow) : List (Text × ℕ) :=
  sortByKey id <|
    (groupBy id ((group.filter fun row ↦ !row.success).map (·.failureStage))).map fun stage ↦
      (stage.1, stage.2.length)

/-- The counts as text. -/
def renderCounts (counts : List (Text × ℕ)) : Text :=
  let text := [';'].intercalate (counts.map fun stage ↦ stage.1 ++ ':' :: formatU stage.2)
  if text = [] then "none".toList else text

def overviewRow (entry : GroupKey × List NormalizedRow) : OverviewRow :=
  let group := entry.2
  { scheme := entry.1.1
    board := entry.1.2
    attempted := group.length
    successful := (successful group).length
    failures := group.length - (successful group).length
    timeouts := group.countP (·.timeout)
    successRate := successRate group
    failureStages := renderCounts (failureCounts group)
    legacySuccessOnly := group.any (·.legacySuccessOnly) }

structure CampaignRow where
  scheme : Text
  board : Text
  campaign : Campaign
  attempted : ℕ
  successful : ℕ
  successRate : Double
  medianTotalMs : Number
deriving DecidableEq

/-- The median of the total latencies of the rows. -/
def medianTotalMs (rows : List NormalizedRow) : Except PyError Number :=
  if rows = [] then .ok Number.nan
  else (robustStats (latencies "total_ms" rows)).map RobustStats.median

def campaignRow (entry : CampaignKey × List NormalizedRow) : Except PyError CampaignRow := do
  let group := entry.2
  let median ← medianTotalMs (successful group)
  .ok
    { scheme := entry.1.1
      board := entry.1.2.1
      campaign := entry.1.2.2
      attempted := group.length
      successful := (successful group).length
      successRate := successRate group
      medianTotalMs := median }

def summarize (rows : List NormalizedRow) :
    Except PyError (List OverviewRow × List CampaignRow) := do
  let overview := (sortGroups (groupBy NormalizedRow.key rows)).map overviewRow
  let campaigns ←
    (sortByKey campaignRank (groupBy NormalizedRow.campaignKey rows)).mapM campaignRow
  .ok (overview, campaigns)

/-! ## latency_summary -/

structure LatencyRow where
  scheme : Text
  board : Text
  metric : String
  stats : RobustStats
deriving DecidableEq

/-- The rows of a group, one for each metric. -/
def latencyRows (entry : GroupKey × List NormalizedRow) : Except PyError (List LatencyRow) :=
  latencyFields.mapM fun metric ↦ do
    let stats ← robustStats (latencies metric entry.2)
    .ok ⟨entry.1.1, entry.1.2, metric, stats⟩

/-- `latency_summary` -/
def latencySummary (rows : List NormalizedRow) : Except PyError (List LatencyRow) := do
  let output ← (sortGroups (groupBy NormalizedRow.key (successful rows))).mapM latencyRows
  .ok output.flatten

/-! ## memory_traffic_summary -/

structure MemoryTrafficRow where
  scheme : Text
  board : Text
  peakHeapBytes : ℤ
  peakHeapDeltaBytes : ℤ
  peakStackBytes : ℤ
  minimumFreeBytes : ℤ
  maximumAllocationRequestBytes : ℤ
  failedAllocations : ℤ
  stackGuardCorruptions : ℤ
  maximumPostCleanupHeapBytes : ℤ
  maximumHeapBaselineGrowthBytes : ℤ
  minimumFreeBeforeTlsBytes : ℤ
  allocationFailures : ℤ
  medianTrafficBytes : Number
  medianHsTxBytes : Number
  medianHsRxBytes : Number
deriving DecidableEq

/-- `quantile(sorted(values), 0.5)`, not a number where there are no values. -/
def medianOf (values : List ℤ) : Except PyError Number :=
  if values = [] then .ok Number.nan else quantile (sorted (values.map Number.int)) (.fin (1 / 2))

def memoryTrafficRow (entry : GroupKey × List NormalizedRow) : Except PyError MemoryTrafficRow := do
  let group := entry.2
  let traffic ← medianOf ((successful group).map (·.traffic))
  let hsTx ← medianOf ((successful group).map (·.integer "hs_tx_bytes"))
  let hsRx ← medianOf ((successful group).map (·.integer "hs_rx_bytes"))
  .ok
    { scheme := entry.1.1
      board := entry.1.2
      peakHeapBytes := maxOf (group.map (·.integer "heap_peak_in_use_bytes"))
      peakHeapDeltaBytes := maxOf (group.map (·.integer "heap_peak_delta_bytes"))
      peakStackBytes := maxOf (group.map (·.integer "stack_high_water_bytes"))
      minimumFreeBytes := minOf (group.map (·.integer "min_free_bytes"))
      maximumAllocationRequestBytes :=
        maxOf (group.map (·.integer "maximum_allocation_request_bytes"))
      failedAllocations := (group.map (·.integer "failed_allocations")).sum
      stackGuardCorruptions := group.countP (·.stackGuardCorrupted)
      maximumPostCleanupHeapBytes := maxOf (group.map (·.integer "heap_in_use_after_bytes"))
      maximumHeapBaselineGrowthBytes := maxOf (group.map fun row ↦
        row.integer "heap_in_use_after_bytes" - row.integer "heap_in_use_before_bytes")
      minimumFreeBeforeTlsBytes :=
        minOf ((group.map (·.integer "free_before_tls_bytes")).filter (0 < ·))
      allocationFailures := group.countP (·.allocFailed)
      medianTrafficBytes := traffic
      medianHsTxBytes := hsTx
      medianHsRxBytes := hsRx }

/-- `memory_traffic_summary` -/
def memoryTrafficSummary (rows : List NormalizedRow) : Except PyError (List MemoryTrafficRow) :=
  (sortGroups (groupBy NormalizedRow.key rows)).mapM memoryTrafficRow

end PqMqtt.Analysis
