import Mathlib.Data.UInt
import PqMqtt.Analysis.LogReading

/-!
# The stored values and the row that is read

The firmware prints a row by position and names its columns in another string, and `parse` reads
the columns by name.  `stored` gives for every name the value that the firmware holds when it
prints the row; the row that `parse` returns has these values.
-/

namespace PqMqtt.Analysis

open Delimited

/-- A duration in microseconds, as milliseconds with three decimals. -/
def milliseconds (us : UInt64) : Value := .float (Binary64.ofRat (us.toNat / 1000))

/-- A byte counter, which the firmware casts to 32 bits. -/
def byteCount (bytes : UInt64) : Value := .int (bytes.toNat % 2 ^ 32 : ℕ)

def flagValue (flag : Bool) : Value := .int (if flag then 1 else 0)

/-- The durations that a row prints. -/
def MeasuredRun.durations (measured : MeasuredRun) : List UInt64 :=
  let timings := measured.attempt.result.timings
  [timings.dnsUs, timings.tcpUs, timings.tlsUs, measured.attempt.mqttUs,
    timings.tcpUs + timings.tlsUs + measured.attempt.mqttUs, timings.tlsCryptoUs,
    timings.tlsNetWaitUs]

/-- The times are integers that a double holds, and the durations are so short that a double has
digits left for their thousandths of a millisecond. -/
structure MeasuredRun.PrintedExactly (measured : MeasuredRun) : Prop where
  start_lt : measured.attempt.startEpochMs.toNat < 2 ^ 53
  tcpStart_lt : measured.attempt.result.tcpStartEpochMs.toNat < 2 ^ 53
  duration_lt : ∀ us ∈ measured.durations, us.toNat < 1000 * 2 ^ 43

theorem MeasuredRun.PrintedExactly.timesExact {measured : MeasuredRun}
    (h : measured.PrintedExactly) : Benchmark.TimesExact measured :=
  ⟨throughFloat_eq h.start_lt, throughFloat_eq h.tcpStart_lt⟩

theorem Field.value_milliseconds {us : UInt64} (h : us.toNat < 1000 * 2 ^ 43) :
    Field.value (.milliseconds us) = PqMqtt.Analysis.milliseconds us := by
  rw [Field.value, thousandths_msOfUs h]
  rfl

theorem Field.value_byteCount (bytes : UInt64) :
    Field.value (.unsigned bytes.toUInt32.toUInt64) = byteCount bytes := rfl

namespace Benchmark

variable (benchmark : Benchmark) {measured : MeasuredRun}

/-- What the firmware holds for the columns of a row. -/
def stored (measured : MeasuredRun) : List (String × Value) :=
  let attempt := measured.attempt.result
  let timings := attempt.timings
  let bandwidth := attempt.bandwidth
  let memory := measured.attempt.memory
  [("scheme", .str benchmark.scheme.name.toList),
    ("board", .str benchmark.board.name),
    ("campaign", .int benchmark.campaign.toInt),
    ("run", .int measured.run),
    ("start_epoch_ms", .int measured.attempt.startEpochMs.toNat),
    ("tcp_start_epoch_ms", .int attempt.tcpStartEpochMs.toNat),
    ("dns_ms", milliseconds timings.dnsUs),
    ("tcp_ms", milliseconds timings.tcpUs),
    ("tls_ms", milliseconds timings.tlsUs),
    ("mqtt_ms", milliseconds measured.attempt.mqttUs),
    ("total_ms", milliseconds (timings.tcpUs + timings.tlsUs + measured.attempt.mqttUs)),
    ("crypto_ms", milliseconds timings.tlsCryptoUs),
    ("net_wait_ms", milliseconds timings.tlsNetWaitUs),
    ("success", flagValue measured.attempt.success),
    ("failure_stage", .str attempt.failureStage.name.toList),
    ("error_code", .int attempt.errorCode.toInt),
    ("timeout", flagValue attempt.timedOut),
    ("heap_capacity_bytes", .int memory.heapCapacityBytes.toNat),
    ("heap_in_use_before_bytes", .int memory.heapInUseBeforeBytes.toNat),
    ("heap_peak_in_use_bytes", .int memory.heapPeakInUseBytes.toNat),
    ("heap_peak_delta_bytes", .int memory.heapPeakDeltaBytes.toNat),
    ("heap_in_use_after_bytes", .int memory.heapInUseAfterBytes.toNat),
    ("free_before_bytes", .int memory.freeBeforeBytes.toNat),
    ("free_before_tls_bytes", .int memory.freeBeforeTlsBytes.toNat),
    ("min_free_bytes", .int memory.minFreeBytes.toNat),
    ("free_after_bytes", .int memory.freeAfterBytes.toNat),
    ("maximum_allocation_request_bytes", .int memory.maximumAllocationRequestBytes.toNat),
    ("allocation_calls", .int memory.allocationCalls.toNat),
    ("free_calls", .int memory.freeCalls.toNat),
    ("failed_allocations", .int memory.failedAllocations.toNat),
    ("stack_capacity_bytes", .int memory.stackCapacityBytes.toNat),
    ("stack_high_water_bytes", .int memory.stackHighWaterBytes.toNat),
    ("stack_unused_bytes", .int memory.stackUnusedBytes.toNat),
    ("stack_guard_corrupted", flagValue memory.stackGuardCorrupted),
    ("alloc_failed", flagValue memory.allocationFailed),
    ("alloc_failure_stage", .str memory.allocationFailureStage.name.toList),
    ("alloc_failure_bytes", .int memory.allocationFailureBytes.toNat),
    ("hs_tx_bytes", byteCount bandwidth.handshakeTxBytes),
    ("hs_rx_bytes", byteCount bandwidth.handshakeRxBytes),
    ("hs_tx_writes", .int bandwidth.handshakeTxCalls.toNat),
    ("hs_rx_reads", .int bandwidth.handshakeRxCalls.toNat),
    ("total_tx_bytes", byteCount bandwidth.totalTxBytes),
    ("total_rx_bytes", byteCount bandwidth.totalRxBytes)]

theorem map_fst_stored (measured : MeasuredRun) :
    (benchmark.stored measured).map Prod.fst = columnNames := rfl

/-- The stored values are the values of the printed fields, column by column. -/
theorem stored_eq (hrun : measured.run < 2 ^ 31) (h : measured.PrintedExactly) :
    benchmark.stored measured = columnNames.zip ((benchmark.fields measured).map Field.value) := by
  have hvalue : ∀ us ∈ measured.durations, Field.value (.milliseconds us) = milliseconds us :=
    fun us hus ↦ Field.value_milliseconds (h.duration_lt us hus)
  simp only [MeasuredRun.durations, List.forall_mem_cons] at hvalue
  obtain ⟨hdns, htcp, htls, hmqtt, htotal, hcrypto, hwait, -⟩ := hvalue
  have hnumber : Field.value (.signed (Int32.ofNat measured.run)) = .int measured.run :=
    congrArg Value.int (Int32.toInt_ofNat_of_lt hrun)
  simp only [fields, List.map_cons, List.map_nil, hdns, htcp, htls, hmqtt, htotal, hcrypto, hwait,
    hnumber, Field.value_byteCount]
  rfl

/-- A row has a value for every column that is stored. -/
theorem rowOf_stored (hrun : measured.run < 2 ^ 31) (h : measured.PrintedExactly) (path : Text)
    {column : String} {value : Value} (hmem : (column, value) ∈ benchmark.stored measured) :
    benchmark.rowOf measured path column = some value := by
  have hcolumn : column ∈ columnNames := List.mem_map_of_mem (f := Prod.fst) hmem
  have hother : ∀ name ∈ columnNames, name ≠ "source_file" ∧ name ≠ "legacy_success_only" := by
    decide
  have hnodup : ((benchmark.stored measured).map Prod.fst).Nodup := columnNames_nodup
  rw [rowOf, rowWith, Dict.set_of_ne _ _ (hother column hcolumn).1,
    Dict.set_of_ne _ _ (hother column hcolumn).2, ← benchmark.stored_eq hrun h]
  exact Dict.ofPairs_eq_some hnodup hmem

/-- A log of the column names and one row. -/
def rowLog (measured : MeasuredRun) : Text :=
  unlines '\n' ([headerLine, benchmark.rowLine measured].map [','].intercalate)

theorem parse_rowLog (measured : MeasuredRun) (path : LogPath) :
    parse [⟨path, benchmark.rowLog measured⟩] = .ok [benchmark.readRow measured path.text] := by
  have hplain : ∀ fields ∈ [headerLine, benchmark.rowLine measured], PlainFields fields := by
    simp only [List.forall_mem_cons, List.not_mem_nil, false_imp_iff, implies_true, and_true]
    exact ⟨headerLine_plain, benchmark.rowLine_plain measured⟩
  have hheader := parseLine_header headerLine_plain headerLine_startsWith path.text ⟨none, []⟩
  have hloop := foldlM_readLines_complete (parseLine path.text)
    (fun fields hfields state ↦ parseLine_newline hfields path.text state)
    (parseLine_nil path.text) hplain ⟨none, []⟩
  rw [List.foldlM_cons, hheader, headerLine_columns] at hloop
  simp only [List.foldlM_cons, List.foldlM_nil, bind, Except.bind, parseLine_rowLine,
    List.nil_append] at hloop
  simp only [parse, List.foldlM_cons, List.foldlM_nil, parseFile, rowLog, bind, Except.bind, hloop]
  rfl

/-- `parse` reads the header line and the row of an attempt as one row, which is no legacy row and
has in each of the 43 columns the value that the firmware stored. -/
theorem parse_row_agrees (benchmark : Benchmark) (path : LogPath) {measured : MeasuredRun}
    (hmem : measured ∈ benchmark.runs) (h : measured.PrintedExactly) :
    ∃ row, parse [⟨path, benchmark.rowLog measured⟩] = .ok [row] ∧
      row "legacy_success_only" = some (.int 0) ∧
      (benchmark.stored measured).map Prod.fst = columnNames ∧
      ∀ column value, (column, value) ∈ benchmark.stored measured → row column = some value := by
  have hrun := benchmark.run_lt hmem
  have hread : benchmark.readRow measured path.text = benchmark.rowOf measured path.text :=
    (benchmark.rowWith_read_eq_rowOf_iff measured path.text).mpr h.timesExact
  refine ⟨benchmark.rowOf measured path.text, ?_, rfl, benchmark.map_fst_stored measured, ?_⟩
  · rw [parse_rowLog, hread]
  · intro column value hstored
    exact benchmark.rowOf_stored hrun h path.text hstored

/-- An attempt that the broker refused. -/
def refusedAttempt : Attempt where
  startEpochMs := 1760000000123
  result :=
    { timings := ⟨31250, 18040, 912345, 611111, 301234⟩
      bandwidth := ⟨17408, 9216, 2 ^ 32 + 17472, 9300, 6, 14⟩
      tcpStartEpochMs := 1760000000155
      failureStage := .mqtt
      errorCode := 5
      timedOut := false }
  mqttUs := 48765
  success := false
  memory := ⟨200704, 40960, 98304, 57344, 40960, 159744, 152000, 102400, 159744, 16717, 412, 412, 0,
    8192, 6120, 2072, false, false, 0, .idle⟩

def refusedBenchmark : Benchmark where
  scheme := .mldsa44
  board := ⟨"Pico-2W".toList, List.forall_iff_forall_mem.mp (by decide), by decide⟩
  campaign := 2
  attempts := [refusedAttempt]
  length_lt := by decide

theorem parse_row_agrees_refused :
    ∃ row, parse [⟨⟨"pico.log".toList, by decide⟩,
        refusedBenchmark.rowLog ⟨0, refusedAttempt⟩⟩] = .ok [row] ∧
      row "legacy_success_only" = some (.int 0) ∧
      (refusedBenchmark.stored ⟨0, refusedAttempt⟩).map Prod.fst = columnNames ∧
      ∀ column value, (column, value) ∈ refusedBenchmark.stored ⟨0, refusedAttempt⟩ →
        row column = some value :=
  parse_row_agrees refusedBenchmark _ (List.mem_singleton.mpr rfl)
    ⟨by decide, by decide, List.forall_iff_forall_mem.mp (by decide)⟩

end Benchmark

end PqMqtt.Analysis
