import PqMqtt.Analysis.FieldAgreement
import PqMqtt.Analysis.MissingColumns
import PqMqtt.Analysis.MixedLog
import PqMqtt.Firmware.Attempt
import PqMqtt.Statistics.BoardStatistics

/-!
# A campaign from the board to the host

`run_handshake_benchmark`: warm-ups, measured attempts whose durations go into one array for each
metric, and a summary.  The output is a list of lines, of which the records are those that the host
reads; what the board has in its arrays at the end is what the host finds in the rows.
-/

namespace PqMqtt.Firmware

open Analysis (Attempt Bandwidth Benchmark Image MeasuredRun OutputLine Text formatD formatU)
open Binary64 (Double ofRat roundHalfEven)
open Statistics (StatRow boardStatRow)
open Transport (ConnectCall Timer)

/-! ## The build -/

/-- The transport of a build, with the type of its connection object. -/
inductive TransportKind : Type → Type where
  | tls : TransportKind Transport.TlsTransport.Conn
  | plain : TransportKind Transport.PlainTransport.Conn

/-- What the macros of a build fix besides its image. -/
structure CampaignBuild (γ : Type) extends Image where
  transport : TransportKind γ
  compact : Bool
  brokerHost : Text
  host_line : Analysis.OnOneLine brokerHost
  brokerPort : UInt16
  warmup : ℕ
  iterations_pos : 0 < iterations

/-- A line that the transport or the client prints during an attempt. -/
structure Chatter where
  rest : Text
  line : Analysis.OnOneLine rest

def Chatter.text (chatter : Chatter) : Text := '[' :: chatter.rest

/-- What a call of `run_benchmark_attempt` meets. -/
structure AttemptInput (timer : Timer) (γ : Type) (ω : Type*) where
  call : ConnectCall timer γ
  setting : AttemptSetting γ ω
  tick : ℕ
  chatter : List Chatter

/-! ## Metrics -/

/-- The arrays of `run_handshake_benchmark`. -/
inductive Metric where
  | tcp
  | tls
  | mqttConnect
  | mqttsTotalConnect
  | crypto
  | netWait
deriving DecidableEq

namespace Metric

/-- In the order of the summary. -/
def all : List Metric := [tcp, tls, mqttConnect, mqttsTotalConnect, crypto, netWait]

def label : Metric → String
  | tcp => "tcp"
  | tls => "tls"
  | mqttConnect => "mqtt_connect"
  | mqttsTotalConnect => "mqtts_total_connect"
  | crypto => "crypto"
  | netWait => "net_wait"

/-- The column of the rows with the same durations. -/
def column : Metric → String
  | tcp => "tcp_ms"
  | tls => "tls_ms"
  | mqttConnect => "mqtt_ms"
  | mqttsTotalConnect => "total_ms"
  | crypto => "crypto_ms"
  | netWait => "net_wait_ms"

/-- The microseconds of an attempt. -/
def us (metric : Metric) (ending : AttemptEnd) : UInt64 :=
  let ht := ending.result.timings
  match metric with
  | tcp => ht.tcpUs
  | tls => ht.tlsUs
  | mqttConnect => ending.mqttUs
  | mqttsTotalConnect => ht.tcpUs + ht.tlsUs + ending.mqttUs
  | crypto => ht.tlsCryptoUs
  | netWait => ht.tlsNetWaitUs

/-- `(double)us / 1000.0` -/
def ms (metric : Metric) (ending : AttemptEnd) : Double :=
  (ofRat (metric.us ending).toNat).div (.fin 1000)

end Metric

/-! ## Printed numbers -/

/-- `%.nf` -/
def formatFixed (decimals : ℕ) : Double → Text
  | .nan => "nan".toList
  | .inf true => "-inf".toList
  | .inf false => "inf".toList
  | .fin x =>
    let count := (roundHalfEven (|x| * 10 ^ decimals)).toNat
    (if x < 0 then ['-'] else []) ++ formatU (count / 10 ^ decimals) ++
      '.' :: (formatU (count % 10 ^ decimals)).leftpad decimals '0'

/-- `%-20s` -/
def padded (text : Text) : Text := text.rightpad 20 ' '

/-! ## The loop over the attempts -/

/-- The variables of `run_handshake_benchmark`. -/
structure Tally (iters : ℕ) where
  samples : Metric → Vector Double iters
  successes : ℕ
  failures : ℕ
  lastBandwidth : Bandwidth

namespace Tally

variable {iters : ℕ}

def start (iters : ℕ) : Tally iters where
  samples _ := Vector.replicate iters (.fin 0)
  successes := 0
  failures := 0
  lastBandwidth := ⟨0, 0, 0, 0, 0, 0⟩

/-- What an attempt adds; `none` stands for a store behind the end of an array. -/
def add (tally : Tally iters) (ending : AttemptEnd) : Option (Tally iters) :=
  if ending.success then
    let j := tally.successes
    if hj : j < iters then
      some
        { samples := fun metric ↦ (tally.samples metric).set j (metric.ms ending)
          successes := j + 1
          failures := tally.failures
          lastBandwidth := ending.result.bandwidth }
    else none
  else some { tally with failures := tally.failures + 1 }

/-- The observations of a metric. -/
def observed (tally : Tally iters) (metric : Metric) : List Double :=
  (tally.samples metric).toList.take tally.successes

end Tally

section Code

variable {timer : Timer} {γ : Type} {ω : Type*} (build : CampaignBuild γ)

def AttemptInput.ending (input : AttemptInput timer γ ω) : AttemptEnd :=
  runBenchmarkAttempt input.call input.setting input.tick

/-- What `run_benchmark_attempt` prints. -/
def attemptOutput (input : AttemptInput timer γ ω) (run : ℕ) (warmup : Bool) :
    List OutputLine :=
  let ending := input.ending
  let measured := ending.measured input.setting run
  let timings := ending.result.timings
  let totalMs := (ofRat (timings.tcpUs + timings.tlsUs + ending.mqttUs).toNat).div (.fin 1000)
  (if !warmup then [.record (build.printer.startLine measured)] else []) ++
    input.chatter.map (fun chatter ↦ .note chatter.text) ++
    if warmup then
      if !build.compact then
        [.note ["[bench] warmup ".toList, formatD (run + 1), "/".toList, formatD build.warmup,
          ": ".toList, if ending.success then "success".toList else "failure".toList,
          ", total ".toList, formatFixed 2 totalMs, " ms, failure=".toList,
          ending.result.failureStage.name.toList, " error=".toList,
          formatD ending.result.errorCode.toInt].flatten]
      else []
    else [.record (build.printer.rowLine measured)]

/-- One round of the loop over the measured attempts. -/
def measure (state : Tally build.iterations × List OutputLine)
    (numbered : AttemptInput timer γ ω × ℕ) :
    Option (Tally build.iterations × List OutputLine) := do
  let tally ← state.1.add numbered.1.ending
  some (tally, state.2 ++ attemptOutput build numbered.1 numbered.2 false)

/-- The lines that name the benchmark. -/
def titleLines : List OutputLine :=
  let scheme := build.scheme.name.toList
  let board := build.board.name
  let broker := [build.brokerHost, ":".toList, formatU build.brokerPort.toNat].flatten
  if build.compact then
    [.note ["[bench] ready: scheme=".toList, scheme, " board=".toList, board,
      " campaign=".toList, formatD build.campaign.toInt].flatten]
  else
    (match build.transport with
    | .plain =>
      [.note [], .note "=== Plain MQTT connection benchmark ===".toList,
        .note ["scheme=".toList, scheme, "  board=".toList, board,
          "  tls=none  broker=".toList, broker].flatten]
    | .tls =>
      [.note [], .note "=== MQTT over TLS connection benchmark ===".toList,
        .note ["scheme=".toList, scheme, "  board=".toList, board,
          "  group=X25519MLKEM768  broker=".toList, broker].flatten]) ++
    [.note ["campaign=".toList, formatD build.campaign.toInt, "  warmup=".toList,
      formatD build.warmup, "  attempted=".toList, formatD build.iterations].flatten]

/-- The explanation of the columns that a plain transport leaves empty. -/
def plainLines : List OutputLine :=
  match build.transport, build.compact with
  | .plain, false =>
    [.note ["[bench] plain mode: tls/crypto/net_wait columns remain 0; ".toList,
      "total_ms is tcp_ms + mqtt_ms".toList].flatten]
  | _, _ => []

/-- The warm-ups, and what is printed after them. -/
def warmUp (warmups : Vector (AttemptInput timer γ ω) build.warmup) : List OutputLine :=
  let successes := warmups.toList.countP (·.ending.success)
  warmups.toList.zipIdx.flatMap (fun (input, i) ↦ attemptOutput build input i true) ++
    [.note ["[bench] warm-up complete: ".toList, formatU successes, "/".toList,
      formatD build.warmup, " successful".toList].flatten,
    .note ["[bench] benchmarking: ".toList, formatD build.iterations,
      " attempted connections".toList].flatten]

/-- What is printed before the measured attempts. -/
def openingLines (warmups : Vector (AttemptInput timer γ ω) build.warmup) : List OutputLine :=
  titleLines build ++ [.record Benchmark.headerLine] ++ plainLines build ++ warmUp build warmups

/-- What `print_stat_row` prints. -/
def statLines (sqrt : Double → Double) (metric : Metric) (v : List Double) : List OutputLine :=
  let name := metric.label.toList
  match boardStatRow sqrt v with
  | none =>
    [.note ["    ".toList, padded name, ": no successful observations".toList].flatten]
  | some row =>
    (if !build.compact then
      [.note ["    ".toList, padded name, ": median ".toList, formatFixed 2 row.median,
        " ms  IQR ".toList, formatFixed 2 (row.q3.sub row.q1), " [".toList,
        formatFixed 2 row.q1, ", ".toList, formatFixed 2 row.q3, "]  p90 ".toList,
        formatFixed 2 row.p90, "  min ".toList, formatFixed 2 row.mn, "  max ".toList,
        formatFixed 2 row.mx].flatten]
    else []) ++
    [.note ["csv_hs_summary,".toList, [','].intercalate
      ([build.scheme.name.toList, build.board.name, name, formatU row.n] ++
        [row.mean, row.stddev, row.mn, row.mx, row.median, row.p90, row.p99].map
          (formatFixed 3))].flatten]

/-- The two lines with the bytes of the last success. -/
def trafficLines (bandwidth : Bandwidth) : List OutputLine :=
  let both := (bandwidth.handshakeTxBytes + bandwidth.handshakeRxBytes).toUInt32.toNat
  (if !build.compact then
    [.note ["    ".toList, "handshake traffic: ".toList,
      formatU bandwidth.handshakeTxBytes.toUInt32.toNat, " B up in ".toList,
      formatU bandwidth.handshakeTxCalls.toNat, " writes, ".toList,
      formatU bandwidth.handshakeRxBytes.toUInt32.toNat, " B down in ".toList,
      formatU bandwidth.handshakeRxCalls.toNat, " reads, ".toList, formatU both,
      " B total".toList].flatten]
  else []) ++
  [.note ["csv_hs_traffic,".toList, [','].intercalate
    ([build.scheme.name.toList, build.board.name] ++
      [bandwidth.handshakeTxBytes.toUInt32.toNat, bandwidth.handshakeRxBytes.toUInt32.toNat,
        both, bandwidth.handshakeTxCalls.toNat, bandwidth.handshakeRxCalls.toNat,
        bandwidth.totalTxBytes.toUInt32.toNat, bandwidth.totalRxBytes.toUInt32.toNat].map
        formatU)].flatten]

/-- What is printed after the attempts. -/
def summaryLines (sqrt : Double → Double) (tally : Tally build.iterations) : List OutputLine :=
  let rate := ((Double.fin 100).mul (ofRat tally.successes)).div (ofRat build.iterations)
  [.note [],
    .note ["--- summary over ".toList, formatU tally.successes,
      " successful connections (".toList, formatD build.iterations,
      " attempted) ---".toList].flatten,
    .note ["[bench] attempted=".toList, formatD build.iterations, " successful=".toList,
      formatU tally.successes, " failures=".toList, formatU tally.failures,
      " success_rate=".toList, formatFixed 1 rate, "%".toList].flatten,
    .note ["csv_hs_summary_header,scheme,board,metric,n,mean_ms,std_ms,".toList,
      "min_ms,max_ms,median_ms,p90_ms,p99_ms".toList].flatten] ++
  Metric.all.flatMap (fun metric ↦ statLines build sqrt metric (tally.observed metric)) ++
  (if 0 < tally.successes then trafficLines build tally.lastBandwidth else []) ++
  [.note "[bench] done".toList]

/-- `run_handshake_benchmark` -/
def runHandshakeBenchmark (sqrt : Double → Double)
    (warmups : Vector (AttemptInput timer γ ω) build.warmup)
    (inputs : Vector (AttemptInput timer γ ω) build.iterations) :
    Option (Tally build.iterations × List OutputLine) := do
  let (tally, lines) ← inputs.toList.zipIdx.foldlM (measure build)
    (Tally.start build.iterations, openingLines build warmups)
  some (tally, lines ++ summaryLines build sqrt tally)

end Code

/-! ## Records and notes -/

section Lines

open Analysis (OnOneLine OtherWord PassedOver onOneLine_formatD onOneLine_formatU
  passedOver_flatten passedOver_indented passedOver_nil)

@[simp]
theorem onOneLine_formatFixed (decimals : ℕ) (x : Double) :
    OnOneLine (formatFixed decimals x) := by
  match x with
  | .nan => exact (by decide : OnOneLine "nan".toList)
  | .inf true => exact (by decide : OnOneLine "-inf".toList)
  | .inf false => exact (by decide : OnOneLine "inf".toList)
  | .fin x =>
    have hzero : ∀ count, OnOneLine (List.replicate count '0') := by
      intro count c hc
      rw [List.eq_of_mem_replicate hc]
      decide
    have hpoint : OnOneLine ['.'] := by decide
    have hsign : OnOneLine (if x < 0 then ['-'] else []) := by split <;> decide
    have hdigits (n : ℕ) : OnOneLine ((formatU n).leftpad decimals '0') :=
      (hzero _).append (onOneLine_formatU n)
    exact (hsign.append (onOneLine_formatU _)).append (hpoint.append (hdigits _))

theorem onOneLine_padded {text : Text} (h : OnOneLine text) : OnOneLine (padded text) := by
  apply h.append
  intro c hc
  rw [List.eq_of_mem_replicate hc]
  decide

theorem onOneLine_intercalate {fields : List Text} (h : ∀ field ∈ fields, OnOneLine field) :
    OnOneLine ([','].intercalate fields) := by
  intro c hc
  rcases Delimited.mem_intercalate ',' hc with ⟨field, hfield, hmem⟩ | rfl
  · exact h field hfield c hmem
  · decide

theorem otherWord_padded (metric : Metric) : OtherWord (padded metric.label.toList) := by
  cases metric <;> decide

variable {timer : Timer} {γ : Type} {ω : Type*} (build : CampaignBuild γ)

theorem wellFormed_chatter (chatter : Chatter) :
    (OutputLine.note chatter.text).WellFormed := by
  have hword : OtherWord ['['] := by decide
  have hline : ∀ part ∈ [['['], chatter.rest], OnOneLine part := by
    rw [List.forall_mem_cons, List.forall_mem_singleton]
    exact ⟨by decide, chatter.line⟩
  have hnote := passedOver_flatten hword hline
  rwa [List.flatten_cons, List.flatten_singleton] at hnote

/-- A note whose first word is no record's is passed over. -/
theorem wellFormed_note {word : Text} {parts : List Text} (hword : OtherWord word)
    (h : ∀ part ∈ word :: parts, OnOneLine part) :
    ∀ line ∈ [OutputLine.note (word :: parts).flatten], line.WellFormed := by
  intro line hline
  rw [List.mem_singleton.mp hline]
  exact passedOver_flatten hword h

theorem wellFormed_indented {word : Text} {parts : List Text} (hword : OtherWord word)
    (h : ∀ part ∈ word :: parts, OnOneLine part) :
    ∀ line ∈ [OutputLine.note ("    ".toList :: word :: parts).flatten], line.WellFormed := by
  intro line hline
  rw [List.mem_singleton.mp hline]
  exact passedOver_indented hword h

theorem wellFormed_attemptOutput (input : AttemptInput timer γ ω) (run : ℕ) (warmup : Bool) :
    ∀ line ∈ attemptOutput build input run warmup, line.WellFormed := by
  have hchatter : ∀ line ∈ input.chatter.map fun chatter ↦ OutputLine.note chatter.text,
      line.WellFormed := by
    rw [List.forall_mem_map]
    exact fun chatter _ ↦ wellFormed_chatter chatter
  have hverdict : OnOneLine
      (if input.ending.success then "success".toList else "failure".toList) := by
    split <;> decide
  have hstage := (Analysis.FailureStage.name_plain
    input.ending.result.failureStage).onOneLine
  unfold attemptOutput
  dsimp only
  rw [List.forall_mem_append, List.forall_mem_append]
  cases warmup with
  | false =>
    refine ⟨⟨List.forall_mem_singleton.mpr ?_, hchatter⟩, List.forall_mem_singleton.mpr ?_⟩
    · exact build.printer.startLine_plain _
    · exact build.printer.rowLine_plain _
  | true =>
    refine ⟨⟨List.forall_mem_nil _, hchatter⟩, ?_⟩
    cases build.compact with
    | true => exact List.forall_mem_nil _
    | false =>
      refine wellFormed_note (by decide) ?_
      simp only [List.forall_mem_cons, onOneLine_formatD, onOneLine_formatFixed, hverdict, hstage,
        List.not_mem_nil, false_imp_iff, implies_true, true_and, and_true]
      decide

/-- The lines that name the transport. -/
theorem wellFormed_title {title : Text} (htitle : OtherWord title ∧ OnOneLine title)
    {group : Text} (hgroup : OnOneLine group) :
    ∀ line ∈ [OutputLine.note [], .note title,
        .note ["scheme=".toList, build.scheme.name.toList, "  board=".toList, build.board.name,
          group, [build.brokerHost, ":".toList, formatU build.brokerPort.toNat].flatten].flatten],
      line.WellFormed := by
  have hscheme := build.scheme.name_plain.onOneLine
  have hboard := build.board.name_plain.onOneLine
  have hbroker : OnOneLine
      [build.brokerHost, ":".toList, formatU build.brokerPort.toNat].flatten := by
    apply OnOneLine.flatten
    simp only [List.forall_mem_cons, build.host_line, onOneLine_formatU, List.not_mem_nil,
      false_imp_iff, implies_true, true_and, and_true]
    decide
  have hname : (OutputLine.note title).WellFormed :=
    ⟨htitle.2, Or.inr ⟨0, title, [], htitle.1, (List.append_nil title).symm⟩⟩
  rw [List.forall_mem_cons, List.forall_mem_cons]
  refine ⟨passedOver_nil, hname, wellFormed_note (by decide) ?_⟩
  simp only [List.forall_mem_cons, hscheme, hboard, hgroup, hbroker, List.not_mem_nil,
    false_imp_iff, implies_true, true_and, and_true]
  decide

theorem wellFormed_titleLines : ∀ line ∈ titleLines build, line.WellFormed := by
  have hscheme := build.scheme.name_plain.onOneLine
  have hboard := build.board.name_plain.onOneLine
  unfold titleLines
  dsimp only
  split
  · refine wellFormed_note (by decide) ?_
    simp only [List.forall_mem_cons, hscheme, hboard, onOneLine_formatD, List.not_mem_nil,
      false_imp_iff, implies_true, true_and, and_true]
    decide
  · rw [List.forall_mem_append]
    constructor
    · cases build.transport with
      | plain => exact wellFormed_title build (by decide) (by decide)
      | tls => exact wellFormed_title build (by decide) (by decide)
    · refine wellFormed_note (by decide) ?_
      simp only [List.forall_mem_cons, onOneLine_formatD, List.not_mem_nil, false_imp_iff,
        implies_true, true_and, and_true]
      decide

theorem wellFormed_plainLines : ∀ line ∈ plainLines build, line.WellFormed := by
  unfold plainLines
  split
  · exact wellFormed_note (by decide) (by decide)
  · exact List.forall_mem_nil _

theorem wellFormed_warmUp (warmups : Vector (AttemptInput timer γ ω) build.warmup) :
    ∀ line ∈ warmUp build warmups, line.WellFormed := by
  unfold warmUp
  dsimp only
  rw [List.forall_mem_append]
  constructor
  · intro line hline
    obtain ⟨numbered, -, hmem⟩ := List.mem_flatMap.mp hline
    exact wellFormed_attemptOutput build numbered.1 numbered.2 true line hmem
  · rw [List.forall_mem_cons]
    refine ⟨passedOver_flatten (by decide) ?_, wellFormed_note (by decide) ?_⟩
    · simp only [List.forall_mem_cons, onOneLine_formatU, onOneLine_formatD, List.not_mem_nil,
        false_imp_iff, implies_true, true_and, and_true]
      decide
    · simp only [List.forall_mem_cons, onOneLine_formatD, List.not_mem_nil, false_imp_iff,
        implies_true, true_and, and_true]
      decide

theorem wellFormed_openingLines (warmups : Vector (AttemptInput timer γ ω) build.warmup) :
    ∀ line ∈ openingLines build warmups, line.WellFormed := by
  unfold openingLines
  rw [List.forall_mem_append, List.forall_mem_append, List.forall_mem_append]
  refine ⟨⟨⟨wellFormed_titleLines build, ?_⟩, wellFormed_plainLines build⟩,
    wellFormed_warmUp build warmups⟩
  intro line hline
  rw [List.mem_singleton.mp hline]
  exact Analysis.Benchmark.headerLine_plain

/-- A record that the host does not read. -/
theorem wellFormed_other {word : Text} (hword : OtherWord word ∧ OnOneLine word)
    {fields : List Text} (h : ∀ field ∈ fields, OnOneLine field) :
    ∀ line ∈ [OutputLine.note [word, [','].intercalate fields].flatten], line.WellFormed := by
  refine wellFormed_note hword.1 ?_
  rw [List.forall_mem_cons, List.forall_mem_singleton]
  exact ⟨hword.2, onOneLine_intercalate h⟩

theorem wellFormed_statLines (sqrt : Double → Double) (metric : Metric) (v : List Double) :
    ∀ line ∈ statLines build sqrt metric v, line.WellFormed := by
  have hscheme := build.scheme.name_plain.onOneLine
  have hboard := build.board.name_plain.onOneLine
  have hname : OnOneLine metric.label.toList := by cases metric <;> decide
  have hpadded := onOneLine_padded hname
  unfold statLines
  dsimp only
  split
  · refine wellFormed_indented (otherWord_padded metric) ?_
    rw [List.forall_mem_cons, List.forall_mem_singleton]
    exact ⟨hpadded, by decide⟩
  · rw [List.forall_mem_append]
    constructor
    · split
      · refine wellFormed_indented (otherWord_padded metric) ?_
        simp only [List.forall_mem_cons, hpadded, onOneLine_formatFixed, List.not_mem_nil,
          false_imp_iff, implies_true, true_and, and_true]
        decide
      · exact List.forall_mem_nil _
    · refine wellFormed_other (by decide) ?_
      rw [List.forall_mem_append, List.forall_mem_map]
      refine ⟨?_, fun x _ ↦ onOneLine_formatFixed 3 x⟩
      simp only [List.forall_mem_cons, hscheme, hboard, hname, onOneLine_formatU,
        List.not_mem_nil, false_imp_iff, implies_true, true_and]

theorem wellFormed_trafficLines (bandwidth : Bandwidth) :
    ∀ line ∈ trafficLines build bandwidth, line.WellFormed := by
  have hscheme := build.scheme.name_plain.onOneLine
  have hboard := build.board.name_plain.onOneLine
  unfold trafficLines
  dsimp only
  rw [List.forall_mem_append]
  constructor
  · split
    · refine wellFormed_indented (by decide) ?_
      simp only [List.forall_mem_cons, onOneLine_formatU, List.not_mem_nil, false_imp_iff,
        implies_true, true_and, and_true]
      decide
    · exact List.forall_mem_nil _
  · refine wellFormed_other (by decide) ?_
    rw [List.forall_mem_append, List.forall_mem_map]
    refine ⟨?_, fun n _ ↦ onOneLine_formatU n⟩
    rw [List.forall_mem_cons, List.forall_mem_singleton]
    exact ⟨hscheme, hboard⟩

theorem wellFormed_summaryLines (sqrt : Double → Double) (tally : Tally build.iterations) :
    ∀ line ∈ summaryLines build sqrt tally, line.WellFormed := by
  unfold summaryLines
  dsimp only
  rw [List.forall_mem_append, List.forall_mem_append, List.forall_mem_append]
  refine ⟨⟨⟨?_, ?_⟩, ?_⟩, ?_⟩
  · rw [List.forall_mem_cons, List.forall_mem_cons, List.forall_mem_cons]
    refine ⟨passedOver_nil, passedOver_flatten (by decide) ?_, passedOver_flatten (by decide) ?_,
      wellFormed_note (by decide) (by decide)⟩
    · simp only [List.forall_mem_cons, onOneLine_formatU, onOneLine_formatD, List.not_mem_nil,
        false_imp_iff, implies_true, true_and, and_true]
      decide
    · simp only [List.forall_mem_cons, onOneLine_formatU, onOneLine_formatD,
        onOneLine_formatFixed, List.not_mem_nil, false_imp_iff, implies_true, true_and, and_true]
      decide
  · intro line hline
    obtain ⟨metric, -, hmem⟩ := List.mem_flatMap.mp hline
    exact wellFormed_statLines build sqrt metric _ line hmem
  · split
    · exact wellFormed_trafficLines build tally.lastBandwidth
    · exact List.forall_mem_nil _
  · intro line hline
    rw [List.mem_singleton.mp hline]
    exact ⟨by decide, Or.inr ⟨0, "[bench] done".toList, [], by decide, rfl⟩⟩

end Lines

end PqMqtt.Firmware
