import Mathlib.Data.List.Dedup
import PqMqtt.Analysis.Summaries

/-!
# The summary for deployment

`derived_summary` of `analyze_hs_csv.py`.  The CSV files with build results and firmware sizes are
given as the rows that the reader returns, files one after the other.
-/

namespace PqMqtt.Analysis

open Binary64 Grouping

/-- `TARGET_SCHEMES` -/
def targetSchemes : List (String × String) :=
  [("mqtt_client_plain", "Plain-MQTT"), ("mqtt_client_ecdsa_p256", "ECDSA-P256"),
    ("mqtt_client_rsa2048", "RSA-2048"), ("mqtt_client_mldsa44", "ML-DSA-44"),
    ("mqtt_client_hawk512", "HAWK-512"), ("mqtt_client_falcon512", "Falcon-512"),
    ("mqtt_client_mayo1", "MAYO-1"), ("mqtt_client_snova_24_5_16_4", "SNOVA-24-5-16-4")]

/-- `TARGET_SCHEMES.get(row.get("target", ""))` -/
def targetScheme (row : Dict Text) : Option Text :=
  (targetSchemes.find? fun target ↦ target.1.toList = (row "target").getD []).map (·.2.toList)

/-- The rows of a target that is known, under `(scheme, row["board"])`. -/
def keyedRow (row : Dict Text) : Except PyError (Option (GroupKey × Dict Text)) :=
  match targetScheme row, row "board" with
  | none, _ => .ok none
  | some scheme, some board => .ok (some ((scheme, board), row))
  | some _, none => .error .keyError

/-- `resources[key] = resource` -/
def setResource (resources : List (GroupKey × Dict Text)) (entry : GroupKey × Dict Text) :
    List (GroupKey × Dict Text) :=
  if entry.1 ∈ resources.map Prod.fst then
    resources.map fun old ↦ if old.1 = entry.1 then entry else old
  else resources ++ [entry]

/-- What the successful attempts of a group are compared by. -/
structure Base where
  latency : Number
  traffic : Number
  heap : ℤ
  headroom : ℤ

def baseEntry (entry : GroupKey × List NormalizedRow) :
    Except PyError (Option (GroupKey × Base)) := do
  let rows := successful entry.2
  if rows = [] then .ok none
  else
    let latency ← quantile (sorted (latencies "total_ms" rows)) (.fin (1 / 2))
    let traffic ← medianOf (rows.map (·.traffic))
    .ok (some (entry.1,
      { latency := latency
        traffic := traffic
        heap := maxOf (rows.map (·.integer "heap_peak_in_use_bytes"))
        headroom := minOf (rows.map (·.integer "min_free_bytes")) }))

structure DerivedRow where
  scheme : Text
  board : Text
  firmwareBuild : String
  buildReason : Text
  mtlsCompletion : String
  attempted : ℕ
  successful : ℕ
  successRate : Double
  medianLatencyMs : Number
  medianTrafficBytes : Number
  peakHeapBytes : Number
  peakStackBytes : Number
  minimumHeapFreeBytes : Number
  flashBytes : Number
  staticRamBytes : Number
  stackReservedBytes : Number
  peakTotalRamUpperBoundBytes : Number
  ramHeadroomLowerBoundBytes : Number
  latencyOverPlain : Number
  latencyOverEcdsa : Number
  trafficOverEcdsa : Number
  trafficPerLatency : Number
  pareto : String
deriving DecidableEq

/-- `(row["scheme"], row["board"])` -/
def DerivedRow.key (row : DerivedRow) : GroupKey := (row.scheme, row.board)

/-- `int(resource[field]) if resource else math.nan` -/
def resourceNumber (resource : Option (Dict Text)) (field : String) : Except PyError Number :=
  match resource with
  | none => .ok Number.nan
  | some resource =>
    match resource field with
    | none => .error .keyError
    | some text => (pyInt text).map Number.int

/-- `static_ram + peak_heap + peak_stack if resource else math.nan` -/
def peakTotalRam (resource : Option (Dict Text)) (staticRam : Number) (peakHeap peakStack : ℤ) :
    Except PyError Number :=
  if resource.isNone then .ok Number.nan
  else do
    let withHeap ← staticRam.add (.int peakHeap)
    withHeap.add (.int peakStack)

/-- The quotient of two values that are there, unless the second one is zero. -/
def ratio : Option Number → Option Number → Except PyError Number
  | some x, some y => if y.truthy then x.div y else .ok Number.nan
  | _, _ => .ok Number.nan

def derivedRow (resources : List (GroupKey × Dict Text)) (base : List (GroupKey × Base))
    (entry : GroupKey × List NormalizedRow) : Except PyError DerivedRow := do
  let (scheme, board) := entry.1
  let group := entry.2
  let values := base.lookup (scheme, board)
  let plain := base.lookup ("Plain-MQTT".toList, board)
  let ecdsa := base.lookup ("ECDSA-P256".toList, board)
  let peakHeap := maxOf (group.map (·.integer "heap_peak_in_use_bytes"))
  let peakStack := maxOf (group.map (·.integer "stack_high_water_bytes"))
  let resource := resources.lookup (scheme, board)
  let staticRam ← resourceNumber resource "static_ram_bytes"
  let peakTotal ← peakTotalRam resource staticRam peakHeap peakStack
  let sramRegion ← resourceNumber resource "sram_region_bytes"
  let flash ← resourceNumber resource "flash_bytes"
  let stackReserved ← resourceNumber resource "stack_reserved_bytes"
  let headroom ← sramRegion.sub peakTotal
  let latencyOverPlain ← ratio (values.map Base.latency) (plain.map Base.latency)
  let latencyOverEcdsa ← ratio (values.map Base.latency) (ecdsa.map Base.latency)
  let trafficOverEcdsa ← ratio (values.map Base.traffic) (ecdsa.map Base.traffic)
  let trafficPerLatency ← ratio (values.map Base.traffic) (values.map Base.latency)
  .ok
    { scheme := scheme
      board := board
      firmwareBuild := "yes"
      buildReason := "none".toList
      mtlsCompletion :=
        if scheme = "Plain-MQTT".toList then "not_applicable"
        else if (successful group).isEmpty then "no" else "yes"
      attempted := group.length
      successful := (successful group).length
      successRate := successRate group
      medianLatencyMs := (values.map Base.latency).getD Number.nan
      medianTrafficBytes := (values.map Base.traffic).getD Number.nan
      peakHeapBytes := .int peakHeap
      peakStackBytes := .int peakStack
      minimumHeapFreeBytes := .int (minOf (group.map (·.integer "min_free_bytes")))
      flashBytes := flash
      staticRamBytes := staticRam
      stackReservedBytes := stackReserved
      peakTotalRamUpperBoundBytes := peakTotal
      ramHeadroomLowerBoundBytes := headroom
      latencyOverPlain := latencyOverPlain
      latencyOverEcdsa := latencyOverEcdsa
      trafficOverEcdsa := trafficOverEcdsa
      trafficPerLatency := trafficPerLatency
      pareto := "" }

/-! ## The frontier -/

/-- The order in which a set of texts is iterated. -/
structure SetOrder where
  list : List Text → List Text
  perm : ∀ members, (list members).Perm members.dedup

def dominated (candidates : List (GroupKey × Base)) (candidate : GroupKey × Base) : Bool :=
  candidates.any fun other ↦
    other.1 ≠ candidate.1 && other.2.latency.le candidate.2.latency &&
      other.2.traffic.le candidate.2.traffic && other.2.heap ≤ candidate.2.heap &&
      (other.2.latency.lt candidate.2.latency || other.2.traffic.lt candidate.2.traffic ||
        other.2.heap < candidate.2.heap)

def frontier (base : List (GroupKey × Base)) (board : Text) : List GroupKey :=
  let candidates := base.filter fun entry ↦ entry.1.2 = board
  (candidates.filter fun candidate ↦ !dominated candidates candidate).map Prod.fst

/-- The loop over the output for one board. -/
def labelBoard (base : List (GroupKey × Base)) (output : List DerivedRow) (board : Text) :
    List DerivedRow :=
  output.map fun row ↦
    if row.key ∈ frontier base board then { row with pareto := "yes" }
    else if row.board = board then { row with pareto := "no" }
    else row

def labelPareto (order : SetOrder) (base : List (GroupKey × Base)) (output : List DerivedRow) :
    List DerivedRow :=
  (order.list (output.map DerivedRow.board)).foldl (labelBoard base) output

/-- The label that the loops leave on a row: whether the frontier of its board has it. -/
def labelled (base : List (GroupKey × Base)) (row : DerivedRow) : DerivedRow :=
  { row with pareto := if row.key ∈ frontier base row.board then "yes" else "no" }

/-! ## Build results and sizes -/

/-- `status.get("status") == "success"` -/
def built (status : Dict Text) : Bool := status "status" = some "success".toList

def buildReason (statuses : List (Dict Text)) : Text :=
  let reasons := (statuses.filter fun status ↦ !built status).map fun status ↦
    (status "reason").getD "build_failed".toList
  let text := [';'].intercalate (reasons.dedup.insertionSort (· ≤ ·))
  if text = [] then "none".toList else text

/-- A target that was built, or not, and has no attempts. -/
def unattemptedRow (key : GroupKey) (anyBuilt : Bool) (reason : Text) : DerivedRow where
  scheme := key.1
  board := key.2
  firmwareBuild := if anyBuilt then "yes" else "no"
  buildReason := reason
  mtlsCompletion := if anyBuilt then "not_run" else "not_applicable"
  attempted := 0
  successful := 0
  successRate := .nan
  medianLatencyMs := Number.nan
  medianTrafficBytes := Number.nan
  peakHeapBytes := Number.nan
  peakStackBytes := Number.nan
  minimumHeapFreeBytes := Number.nan
  flashBytes := Number.nan
  staticRamBytes := Number.nan
  stackReservedBytes := Number.nan
  peakTotalRamUpperBoundBytes := Number.nan
  ramHeadroomLowerBoundBytes := Number.nan
  latencyOverPlain := Number.nan
  latencyOverEcdsa := Number.nan
  trafficOverEcdsa := Number.nan
  trafficPerLatency := Number.nan
  pareto := "not_applicable"

/-- The row of a key is changed in place; keys of the output are distinct. -/
def updateRow (output : List DerivedRow) (key : GroupKey) (change : DerivedRow → DerivedRow) :
    List DerivedRow :=
  output.map fun row ↦ if row.key = key then change row else row

/-- One entry of the build results; `byKey` are the keys of the output before the loop. -/
def applyStatus (byKey : List GroupKey) (output : List DerivedRow)
    (entry : GroupKey × List (GroupKey × Dict Text)) : List DerivedRow :=
  let statuses := entry.2.map Prod.snd
  let anyBuilt := statuses.any built
  let reason := buildReason statuses
  if entry.1 ∈ byKey then
    updateRow output entry.1 fun row ↦ { row with
      firmwareBuild := if anyBuilt then "yes" else "no", buildReason := reason }
  else output ++ [unattemptedRow entry.1 anyBuilt reason]

/-- One entry of the sizes. -/
def applyResource (byKey : List GroupKey) (output : List DerivedRow)
    (entry : GroupKey × Dict Text) : Except PyError (List DerivedRow) :=
  if entry.1 ∉ byKey then .ok output
  else do
    let flash ← resourceNumber (some entry.2) "flash_bytes"
    let staticRam ← resourceNumber (some entry.2) "static_ram_bytes"
    let stackReserved ← resourceNumber (some entry.2) "stack_reserved_bytes"
    .ok (updateRow output entry.1 fun row ↦ { row with
      flashBytes := flash, staticRamBytes := staticRam, stackReservedBytes := stackReserved })

/-- `derived_summary` from the rows of the groups on. -/
def finishDerived (order : SetOrder) (base : List (GroupKey × Base))
    (resources : List (GroupKey × Dict Text)) (statusRows : List (Dict Text))
    (output : List DerivedRow) : Except PyError (List DerivedRow) := do
  let labelled := labelPareto order base output
  let statuses ← statusRows.mapM keyedRow
  let buildStatus := sortGroups (groupBy Prod.fst statuses.reduceOption)
  let reported := buildStatus.foldl (applyStatus (labelled.map DerivedRow.key)) labelled
  let sized ← resources.foldlM (applyResource (reported.map DerivedRow.key)) reported
  .ok (sized.insertionSort fun first second ↦ toLex first.key ≤ toLex second.key)

/-- `derived_summary` -/
def derivedSummary (order : SetOrder) (statusRows resourceRows : List (Dict Text))
    (rows : List NormalizedRow) : Except PyError (List DerivedRow) := do
  let keyed ← resourceRows.mapM keyedRow
  let resources := keyed.reduceOption.foldl setResource []
  let grouped := groupBy NormalizedRow.key rows
  let base ← grouped.mapM baseEntry
  let output ← (sortGroups grouped).mapM (derivedRow resources base.reduceOption)
  finishDerived order base.reduceOption resources statusRows output

end PqMqtt.Analysis
