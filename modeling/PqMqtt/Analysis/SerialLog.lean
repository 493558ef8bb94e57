import PqMqtt.Analysis.Printf

/-!
# The attempt log of the firmware

What `run_handshake_benchmark` prints for the host: one line with the column names, then for
every measured attempt a start line and, when the attempt has ended, a row with its result.  The
fields of a row are kept with the `printf` conversion that prints them.  The other lines of the
log start with words that the analyzers skip, and are left out.
-/

namespace PqMqtt.Analysis

open Delimited

/-- The characters of a field: printable ASCII without the comma and the quote. -/
def Plain (c : Char) : Prop :=
  0x21 ≤ c.toNat ∧ c.toNat ≤ 0x7e ∧ c ≠ ',' ∧ c ≠ quotechar

instance (c : Char) : Decidable (Plain c) := inferInstanceAs (Decidable (_ ∧ _))

theorem Plain.isSpace_eq_false {c : Char} (h : Plain c) : isSpace c = false := by
  obtain ⟨hlow, hhigh, -, -⟩ := h
  simp only [isSpace, Bool.or_eq_false_iff, decide_eq_false_iff_not, List.contains_eq_mem,
    List.mem_cons, List.not_mem_nil, or_false]
  omega

theorem Plain.ne_comma {c : Char} (h : Plain c) : c ≠ ',' := h.2.2.1

theorem Plain.ne_quotechar {c : Char} (h : Plain c) : c ≠ quotechar := h.2.2.2

/-! ## The measured attempts -/

inductive Scheme where
  | plainMqtt
  | falcon512
  | mayo1
  | snova
  | hawk512
  | ecdsaP256
  | rsa2048
  | mldsa44
deriving DecidableEq

/-- `TLS_BENCH_SCHEME` -/
def Scheme.name : Scheme → String
  | plainMqtt => "Plain-MQTT"
  | falcon512 => "Falcon-512"
  | mayo1 => "MAYO-1"
  | snova => "SNOVA-24-5-16-4"
  | hawk512 => "HAWK-512"
  | ecdsaP256 => "ECDSA-P256"
  | rsa2048 => "RSA-2048"
  | mldsa44 => "ML-DSA-44"

/-- `SIGBENCH_BOARD_NAME`, the board that the build was configured for. -/
structure Board where
  name : Text
  plain : ∀ c ∈ name, Plain c
  length_le : name.length ≤ fieldSizeLimit

/-- `tls_failure_stage_t` -/
inductive FailureStage where
  | none
  | dns
  | tcp
  | tlsContext
  | certificate
  | privateKey
  | keyShare
  | tlsHandshake
  | mqtt
deriving DecidableEq

/-- `tls_failure_stage_name` -/
def FailureStage.name : FailureStage → String
  | none => "none"
  | dns => "dns"
  | tcp => "tcp"
  | tlsContext => "tls_context"
  | certificate => "certificate"
  | privateKey => "private_key"
  | keyShare => "key_share"
  | tlsHandshake => "tls_handshake"
  | mqtt => "mqtt"

/-- `runtime_mem_stage_t` -/
inductive MemoryStage where
  | idle
  | dns
  | tcp
  | tlsContext
  | certificate
  | privateKey
  | keyShare
  | tlsHandshake
  | serverCertVerify
  | clientCertVerify
  | primitiveSign
  | primitiveVerify
  | mqtt
  | close
deriving DecidableEq

/-- `runtime_memory_stage_name` -/
def MemoryStage.name : MemoryStage → String
  | idle => "none"
  | dns => "dns"
  | tcp => "tcp"
  | tlsContext => "tls_context"
  | certificate => "certificate"
  | privateKey => "private_key"
  | keyShare => "key_share"
  | tlsHandshake => "tls_handshake"
  | serverCertVerify => "server_certificate_verify"
  | clientCertVerify => "client_certificate_verify"
  | primitiveSign => "primitive_sign"
  | primitiveVerify => "primitive_verify"
  | mqtt => "mqtt"
  | close => "close"

/-- `tls_timings_t` -/
structure Timings where
  dnsUs : UInt64
  tcpUs : UInt64
  tlsUs : UInt64
  tlsNetWaitUs : UInt64
  tlsCryptoUs : UInt64

/-- `tls_bandwidth_t` -/
structure Bandwidth where
  handshakeRxBytes : UInt64
  handshakeTxBytes : UInt64
  totalRxBytes : UInt64
  totalTxBytes : UInt64
  handshakeTxCalls : UInt32
  handshakeRxCalls : UInt32

/-- `tls_attempt_result_t` -/
structure AttemptResult where
  timings : Timings
  bandwidth : Bandwidth
  tcpStartEpochMs : UInt64
  failureStage : FailureStage
  errorCode : Int32
  timedOut : Bool

/-- `runtime_memory_result_t` -/
structure MemoryResult where
  heapCapacityBytes : UInt32
  heapInUseBeforeBytes : UInt32
  heapPeakInUseBytes : UInt32
  heapPeakDeltaBytes : UInt32
  heapInUseAfterBytes : UInt32
  freeBeforeBytes : UInt32
  freeBeforeTlsBytes : UInt32
  minFreeBytes : UInt32
  freeAfterBytes : UInt32
  maximumAllocationRequestBytes : UInt32
  allocationCalls : UInt32
  freeCalls : UInt32
  failedAllocations : UInt32
  stackCapacityBytes : UInt32
  stackHighWaterBytes : UInt32
  stackUnusedBytes : UInt32
  stackGuardCorrupted : Bool
  allocationFailed : Bool
  allocationFailureBytes : UInt32
  allocationFailureStage : MemoryStage

/-- What `run_benchmark_attempt` has when it prints the row of an attempt. -/
structure Attempt where
  startEpochMs : UInt64
  result : AttemptResult
  mqttUs : UInt64
  success : Bool
  memory : MemoryResult

/-- An attempt and its number in the campaign. -/
structure MeasuredRun where
  run : ℕ
  attempt : Attempt

/-- A campaign of `TLS_BENCH_ITERS` measured attempts. -/
structure Benchmark where
  scheme : Scheme
  board : Board
  campaign : Int32
  attempts : List Attempt
  length_lt : attempts.length < 2 ^ 31

def Benchmark.runs (benchmark : Benchmark) : List MeasuredRun :=
  benchmark.attempts.zipIdx.map fun (attempt, run) ↦ ⟨run, attempt⟩

/-! ## Fields -/

/-- A printed value with its conversion. -/
inductive Field where
  | name (text : Text)
  | milliseconds (us : UInt64)
  | flag (value : Bool)
  | unsigned (value : UInt64)
  | signed (value : Int32)

/-- The text of a field: `%s`, `%.3f` of milliseconds, `%u` and `%d`. -/
def Field.format : Field → Text
  | name text => text
  | milliseconds us => formatMs us.toNat
  | flag value => if value then formatU 1 else formatU 0
  | unsigned value => formatU value.toNat
  | signed value => formatD value.toInt

/-- The column names of `csv_hs_header`. -/
def columnNames : List String :=
  ["scheme", "board", "campaign", "run", "start_epoch_ms", "tcp_start_epoch_ms", "dns_ms",
    "tcp_ms", "tls_ms", "mqtt_ms", "total_ms", "crypto_ms", "net_wait_ms", "success",
    "failure_stage", "error_code", "timeout", "heap_capacity_bytes", "heap_in_use_before_bytes",
    "heap_peak_in_use_bytes", "heap_peak_delta_bytes", "heap_in_use_after_bytes",
    "free_before_bytes", "free_before_tls_bytes", "min_free_bytes", "free_after_bytes",
    "maximum_allocation_request_bytes", "allocation_calls", "free_calls", "failed_allocations",
    "stack_capacity_bytes", "stack_high_water_bytes", "stack_unused_bytes",
    "stack_guard_corrupted", "alloc_failed", "alloc_failure_stage", "alloc_failure_bytes",
    "hs_tx_bytes", "hs_rx_bytes", "hs_tx_writes", "hs_rx_reads", "total_tx_bytes",
    "total_rx_bytes"]

namespace Benchmark

/-- The columns of the row that `run_benchmark_attempt` prints. -/
def fields (benchmark : Benchmark) (measured : MeasuredRun) : List Field :=
  let attempt := measured.attempt.result
  let timings := attempt.timings
  let mqttUs := measured.attempt.mqttUs
  let memory := measured.attempt.memory
  [.name benchmark.scheme.name.toList, .name benchmark.board.name, .signed benchmark.campaign,
    .signed (Int32.ofNat measured.run), .unsigned measured.attempt.startEpochMs,
    .unsigned attempt.tcpStartEpochMs, .milliseconds timings.dnsUs, .milliseconds timings.tcpUs,
    .milliseconds timings.tlsUs, .milliseconds mqttUs,
    .milliseconds (timings.tcpUs + timings.tlsUs + mqttUs), .milliseconds timings.tlsCryptoUs,
    .milliseconds timings.tlsNetWaitUs, .flag measured.attempt.success,
    .name attempt.failureStage.name.toList, .signed attempt.errorCode, .flag attempt.timedOut,
    .unsigned memory.heapCapacityBytes.toUInt64, .unsigned memory.heapInUseBeforeBytes.toUInt64,
    .unsigned memory.heapPeakInUseBytes.toUInt64, .unsigned memory.heapPeakDeltaBytes.toUInt64,
    .unsigned memory.heapInUseAfterBytes.toUInt64, .unsigned memory.freeBeforeBytes.toUInt64,
    .unsigned memory.freeBeforeTlsBytes.toUInt64, .unsigned memory.minFreeBytes.toUInt64,
    .unsigned memory.freeAfterBytes.toUInt64,
    .unsigned memory.maximumAllocationRequestBytes.toUInt64,
    .unsigned memory.allocationCalls.toUInt64, .unsigned memory.freeCalls.toUInt64,
    .unsigned memory.failedAllocations.toUInt64, .unsigned memory.stackCapacityBytes.toUInt64,
    .unsigned memory.stackHighWaterBytes.toUInt64, .unsigned memory.stackUnusedBytes.toUInt64,
    .flag memory.stackGuardCorrupted, .flag memory.allocationFailed,
    .name memory.allocationFailureStage.name.toList,
    .unsigned memory.allocationFailureBytes.toUInt64,
    .unsigned attempt.bandwidth.handshakeTxBytes.toUInt32.toUInt64,
    .unsigned attempt.bandwidth.handshakeRxBytes.toUInt32.toUInt64,
    .unsigned attempt.bandwidth.handshakeTxCalls.toUInt64,
    .unsigned attempt.bandwidth.handshakeRxCalls.toUInt64,
    .unsigned attempt.bandwidth.totalTxBytes.toUInt32.toUInt64,
    .unsigned attempt.bandwidth.totalRxBytes.toUInt32.toUInt64]

/-- The fields of the start line; the sixth says that this is no warm-up. -/
def startFields (benchmark : Benchmark) (measured : MeasuredRun) : List Field :=
  [.name benchmark.scheme.name.toList, .name benchmark.board.name, .signed benchmark.campaign,
    .signed (Int32.ofNat measured.run), .flag false, .unsigned measured.attempt.startEpochMs]

def headerLine : List Text := "csv_hs_header".toList :: columnNames.map String.toList

def startLine (benchmark : Benchmark) (measured : MeasuredRun) : List Text :=
  "csv_hs_start".toList :: (benchmark.startFields measured).map Field.format

def rowLine (benchmark : Benchmark) (measured : MeasuredRun) : List Text :=
  "csv_hs".toList :: (benchmark.fields measured).map Field.format

/-- The lines of the log, as lists of fields. -/
def lines (benchmark : Benchmark) : List (List Text) :=
  headerLine :: benchmark.runs.flatMap fun measured ↦
    [benchmark.startLine measured, benchmark.rowLine measured]

/-- The serial output of a campaign. -/
def serial (benchmark : Benchmark) : Text :=
  unlines '\n' (benchmark.lines.map [','].intercalate)

end Benchmark

/-! ## Lines of plain fields -/

/-- A field that needs no quotes and no stripping, and that the reader has room for. -/
structure PlainField (field : Text) : Prop where
  plain : ∀ c ∈ field, Plain c
  length_le : field.length ≤ fieldSizeLimit

def PlainFields (fields : List Text) : Prop := ∀ field ∈ fields, PlainField field

namespace PlainFields

variable {fields : List Text}

theorem notMem_comma (h : PlainFields fields) : ∀ field ∈ fields, ',' ∉ field :=
  fun field hfield hc ↦ ((h field hfield).plain _ hc).ne_comma rfl

theorem mem_intercalate (h : PlainFields fields) :
    ∀ c ∈ [','].intercalate fields, Plain c ∨ c = ',' := by
  intro c hc
  rcases Delimited.mem_intercalate ',' hc with ⟨field, hfield, hmem⟩ | hcomma
  · exact Or.inl ((h field hfield).plain c hmem)
  · exact Or.inr hcomma

theorem isSpace_eq_false (h : PlainFields fields) :
    ∀ c ∈ [','].intercalate fields, isSpace c = false := by
  intro c hc
  rcases h.mem_intercalate c hc with hplain | rfl
  · exact hplain.isSpace_eq_false
  · decide

theorem newline_notMem (h : PlainFields fields) : '\n' ∉ [','].intercalate fields := by
  intro hc
  have hspace : isSpace '\n' = false := h.isSpace_eq_false _ hc
  exact absurd hspace (by decide)

theorem return_notMem (h : PlainFields fields) : '\r' ∉ [','].intercalate fields := by
  intro hc
  have hspace : isSpace '\r' = false := h.isSpace_eq_false _ hc
  exact absurd hspace (by decide)

theorem csvReader_eq (h : PlainFields fields) (hne : [','].intercalate fields ≠ []) :
    csvReader ([','].intercalate fields) = .ok fields :=
  csvReader_intercalate h.notMem_comma
    (fun field hfield hc ↦ ((h field hfield).plain _ hc).ne_quotechar rfl)
    (fun field hfield ↦ (h field hfield).length_le) hne

theorem count_comma (h : PlainFields fields) :
    ([','].intercalate fields).count ',' = fields.length - 1 :=
  count_intercalate ',' h.notMem_comma

/-- A line starts with a name and a comma when the name is its first field and not its last. -/
theorem startsWith_iff (h : PlainFields fields) {name : Text} (hname : ',' ∉ name) :
    name ++ [','] <+: [','].intercalate fields ↔
      fields.head? = some name ∧ 1 < fields.length :=
  prefix_append_separator_iff ',' hname h.notMem_comma

/-- A cut line consists of its first fields and a piece of the next one. -/
theorem cut (h : PlainFields fields) (hne : fields ≠ []) {text : Text}
    (hcut : text <+: [','].intercalate fields) :
    ∃ (count : ℕ) (piece field : Text), fields[count]? = some field ∧ piece <+: field ∧
      text = [','].intercalate (fields.take count ++ [piece]) ∧
      PlainFields (fields.take count ++ [piece]) := by
  obtain ⟨count, piece, field, hfield, hpiece, htext⟩ := prefix_intercalate ',' hne hcut
  refine ⟨count, piece, field, hfield, hpiece, htext, ?_⟩
  intro other hother
  rcases List.mem_append.mp hother with hbefore | hlast
  · exact h other (List.mem_of_mem_take hbefore)
  · obtain rfl := List.mem_singleton.mp hlast
    have hwhole := h field (List.mem_of_getElem? hfield)
    exact ⟨fun c hc ↦ hwhole.plain c (hpiece.subset hc),
      hpiece.length_le.trans hwhole.length_le⟩

end PlainFields

/-! ## The lines of the log are plain -/

theorem isDigit_plain {c : Char} (h : c.isDigit = true) : Plain c :=
  forall_isDigit (by decide) h

theorem formatU_plain {n : ℕ} (h : n < 2 ^ 64) : PlainField (formatU n) where
  plain := fun c hc ↦ isDigit_plain (formatU_isDigit n c hc)
  length_le := (formatU_length_le h).trans (by decide)

theorem formatD_plain {n : ℤ} (h : n.natAbs < 2 ^ 64) : PlainField (formatD n) := by
  have hdigits := formatU_plain h
  unfold formatD
  split
  · refine ⟨List.forall_mem_cons.mpr ⟨by decide, hdigits.plain⟩, ?_⟩
    have hlength := formatU_length_le h
    rw [List.length_cons]
    exact (Nat.succ_le_succ hlength).trans (by decide)
  · exact hdigits

/-- The milliseconds of a 64-bit counter have a few digits. -/
theorem formatMs_plain {us : ℕ} (h : us < 2 ^ 64) : PlainField (formatMs us) where
  plain := (formatThousandths_numeral _).forall_mem (by decide) (by decide)
  length_le := by
    have hwhole : (formatU (thousandths (msOfUs us) / 1000)).length ≤ 30 :=
      (Nat.length_toDigits_le_iff (by norm_num) (by norm_num)).mpr
        ((Nat.div_le_self _ _).trans_lt (thousandths_lt h))
    have hfraction : (formatFraction (thousandths (msOfUs us))).length = 3 := rfl
    rw [formatMs, formatThousandths, List.length_append, List.length_cons, hfraction]
    exact (Nat.add_le_add_right hwhole 4).trans (by decide)

/-- The names that the firmware prints are plain. -/
theorem plainField_of_forall {text : Text} (h : text.Forall Plain)
    (hlength : text.length ≤ fieldSizeLimit) : PlainField text :=
  ⟨List.forall_iff_forall_mem.mp h, hlength⟩

theorem Scheme.name_plain (scheme : Scheme) : PlainField scheme.name.toList := by
  cases scheme <;> exact plainField_of_forall (by decide) (by decide)

theorem FailureStage.name_plain (stage : FailureStage) : PlainField stage.name.toList := by
  cases stage <;> exact plainField_of_forall (by decide) (by decide)

theorem MemoryStage.name_plain (stage : MemoryStage) : PlainField stage.name.toList := by
  cases stage <;> exact plainField_of_forall (by decide) (by decide)

theorem Board.name_plain (board : Board) : PlainField board.name :=
  ⟨board.plain, board.length_le⟩

/-- Every conversion of a number prints a plain text. -/
theorem Field.format_plain {field : Field} (h : ∀ text, field = .name text → PlainField text) :
    PlainField field.format := by
  cases field with
  | name text => exact h text rfl
  | milliseconds us => exact formatMs_plain us.toNat_lt
  | flag value =>
    cases value with
    | false => exact formatU_plain (n := 0) (by norm_num)
    | true => exact formatU_plain (n := 1) (by norm_num)
  | unsigned value => exact formatU_plain value.toNat_lt
  | signed value => exact formatD_plain (natAbs_toInt_lt value)

namespace Benchmark

variable (benchmark : Benchmark) (measured : MeasuredRun)

theorem mem_fields_plain : ∀ field ∈ benchmark.fields measured, PlainField field.format := by
  intro field hfield
  apply Field.format_plain
  rintro text rfl
  simp only [fields, List.mem_cons, List.not_mem_nil, or_false, Field.name.injEq, reduceCtorEq,
    false_or] at hfield
  rcases hfield with rfl | rfl | rfl | rfl
  · exact benchmark.scheme.name_plain
  · exact benchmark.board.name_plain
  · exact FailureStage.name_plain _
  · exact MemoryStage.name_plain _

theorem rowLine_plain : PlainFields (benchmark.rowLine measured) := by
  intro text htext
  rcases List.mem_cons.mp htext with rfl | hfield
  · exact plainField_of_forall (by decide) (by decide)
  · obtain ⟨field, hmem, rfl⟩ := List.mem_map.mp hfield
    exact benchmark.mem_fields_plain measured field hmem

theorem startLine_plain : PlainFields (benchmark.startLine measured) := by
  intro text htext
  rcases List.mem_cons.mp htext with rfl | hfield
  · exact plainField_of_forall (by decide) (by decide)
  obtain ⟨field, hmem, rfl⟩ := List.mem_map.mp hfield
  apply Field.format_plain
  rintro name rfl
  simp only [startFields, List.mem_cons, List.not_mem_nil, or_false, Field.name.injEq,
    reduceCtorEq] at hmem
  rcases hmem with rfl | rfl
  · exact benchmark.scheme.name_plain
  · exact benchmark.board.name_plain

theorem columnNames_plain : ∀ name ∈ columnNames, PlainField name.toList := by
  have hnames : ∀ name ∈ columnNames, name.toList.Forall Plain ∧
      name.toList.length ≤ fieldSizeLimit := by decide +kernel
  exact fun name hname ↦ plainField_of_forall (hnames name hname).1 (hnames name hname).2

theorem headerLine_plain : PlainFields headerLine := by
  intro text htext
  rcases List.mem_cons.mp htext with rfl | hname
  · exact plainField_of_forall (by decide) (by decide)
  · obtain ⟨name, hmem, rfl⟩ := List.mem_map.mp hname
    exact columnNames_plain name hmem

theorem lines_plain : ∀ line ∈ benchmark.lines, PlainFields line := by
  intro line hline
  rcases List.mem_cons.mp hline with rfl | hrun
  · exact headerLine_plain
  · obtain ⟨measured, -, hmem⟩ := List.mem_flatMap.mp hrun
    rcases List.mem_cons.mp hmem with rfl | hrow
    · exact benchmark.startLine_plain measured
    · obtain rfl := List.mem_singleton.mp hrow
      exact benchmark.rowLine_plain measured

end Benchmark

end PqMqtt.Analysis
