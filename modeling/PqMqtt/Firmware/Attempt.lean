import PqMqtt.Analysis.SerialLog
import PqMqtt.Firmware.Device
import PqMqtt.Mqtt.Outcome

/-!
# Benchmark attempts

`run_benchmark_attempt`: one call of the transport's connect function, one exchange of CONNECT and
CONNACK, and the two lines of the log that the host reads.  Both transports write the fields of the
result that the attempt prints, and a failed exchange overwrites them.
-/

namespace PqMqtt.Firmware

open Analysis (AttemptResult Benchmark FailureStage Field MeasuredRun MemoryResult Text columnNames
  formatD formatMs formatThousandths formatU)
open Mqtt (ConnectOutcome ConnectRefused mqttConnectMeasured mqttDisconnect timeUs64)
open Transport (ConnectCall ObjectOp Progress Timer Timeval connectStages errTimeout zeroedResult)

/-! ## The code -/

/-- What an attempt meets besides its connect call, and the configuration of its CONNECT. -/
structure AttemptSetting (γ ω : Type*) where
  wire : Wire γ ω
  world : ω
  attemptStart : Timeval
  memory : MemoryResult
  clientId : Mqtt.CString
  keepaliveSec : UInt16

/-- `attempt`, `mqtt_us` and `success` at the end, and the log of the connection object. -/
structure AttemptEnd where
  result : AttemptResult
  mqttUs : UInt64
  success : Bool
  ops : List ObjectOp

section Code

variable {timer : Timer} {γ : Type} {ω : Type*}

/-- `mqtt`, and `mqtt_start` -/
def startMqtt (timer : Timer) (setting : AttemptSetting γ ω) (tls : Progress γ) :
    UInt64 × Mqtt.Conn (Device γ ω) :=
  timeUs64 (setting.wire.api timer) ⟨(Device.ofProgress tls setting.world).log .getTimings, []⟩

/-- The call of `mqtt_connect_measured_attempt`. -/
def connectMqtt (timer : Timer) (setting : AttemptSetting γ ω) (tls : Progress γ) :
    ConnectOutcome × Mqtt.Conn (Device γ ω) :=
  mqttConnectMeasured (setting.wire.api timer) (startMqtt timer setting tls).2 setting.clientId
    setting.keepaliveSec ⟨true, true⟩

/-- The body of `if (tls)`. -/
def exchangeMqtt (call : ConnectCall timer γ) (setting : AttemptSetting γ ω) (tls : Progress γ)
    (attempt : AttemptResult) : AttemptEnd :=
  let api := setting.wire.api timer
  let attempt := { attempt with timings := call.getTimings tls.conn }
  let mqttStart := (startMqtt timer setting tls).1
  let outcome := connectMqtt timer setting tls
  let success := outcome.1.result
  let mqttUs := outcome.1.connectUs.getD 0
  let timed : UInt64 × Mqtt.Conn (Device γ ω) :=
    if !success && mqttUs == 0 then
      let now := timeUs64 api outcome.2
      (now.1 - mqttStart, now.2)
    else (mqttUs, outcome.2)
  let mqtt := { timed.2 with device := timed.2.device.log .getBandwidth }
  let attempt := { attempt with bandwidth := call.getBandwidth mqtt.device.conn }
  if success then ⟨attempt, timed.1, true, (mqttDisconnect api mqtt).device.ops⟩
  else
    let mqttError := outcome.1.errorCode.getD 0
    let timedOut := call.ioTimedOut mqtt.device.conn
    let attempt := { attempt with
      failureStage := .mqtt
      errorCode := Int32.ofInt (if timedOut then errTimeout else mqttError)
      timedOut := timedOut }
    ⟨attempt, timed.1, false, ((mqtt.device.log .ioTimedOut).log .close).ops⟩

/-- `run_benchmark_attempt`, up to its output. -/
def runBenchmarkAttempt (call : ConnectCall timer γ) (setting : AttemptSetting γ ω) (tick : ℕ) :
    AttemptEnd :=
  let tls := call.connect (some zeroedResult) tick
  let attempt := tls.result.getD zeroedResult
  match tls.conn with
  | none => ⟨attempt, 0, false, tls.ops⟩
  | some conn => exchangeMqtt call setting { tls with conn := conn } attempt

/-- What `run_benchmark_attempt` prints about an attempt. -/
def AttemptEnd.measured (ending : AttemptEnd) (setting : AttemptSetting γ ω) (run : ℕ) :
    MeasuredRun where
  run := run
  attempt :=
    { startEpochMs := setting.attemptStart.epochMs
      result := ending.result
      mqttUs := ending.mqttUs
      success := ending.success
      memory := setting.memory }

/-- The lines that the host reads: one is printed before the connect call, one at the end. -/
def attemptLines (benchmark : Benchmark) (call : ConnectCall timer γ) (setting : AttemptSetting γ ω)
    (run : ℕ) (warmup : Bool) (tick : ℕ) : List (List Text) :=
  let measured := (runBenchmarkAttempt call setting tick).measured setting run
  (if !warmup then [benchmark.startLine measured] else []) ++
    if warmup then [] else [benchmark.rowLine measured]

end Code

section Ends

variable {timer : Timer} {γ : Type} {ω : Type*} (call : ConnectCall timer γ)
  (setting : AttemptSetting γ ω) (tls : Progress γ) (attempt : AttemptResult)

/-! ## The two ends of the exchange -/

theorem exchangeMqtt_connected (h : (connectMqtt timer setting tls).1.result = true) :
    exchangeMqtt call setting tls attempt =
      let mqtt := (connectMqtt timer setting tls).2
      { result := { attempt with
          timings := call.getTimings tls.conn
          bandwidth := call.getBandwidth mqtt.device.conn }
        mqttUs := (connectMqtt timer setting tls).1.connectUs.getD 0
        success := true
        ops := (mqttDisconnect (setting.wire.api timer)
          { mqtt with device := mqtt.device.log .getBandwidth }).device.ops } := by
  simp only [exchangeMqtt, h, Bool.not_true, Bool.false_and, Bool.false_eq_true, if_false, if_true]
  rfl

/-- The time of a failed exchange is measured by the caller, and the transport says whether the
code of the failure counts. -/
theorem exchangeMqtt_failed (h : (connectMqtt timer setting tls).1.result = false) :
    ∃ code, Mqtt.FailureCode code ∧ (connectMqtt timer setting tls).1 = .failed ⟨true, true⟩ code ∧
      exchangeMqtt call setting tls attempt =
        let mqtt := (connectMqtt timer setting tls).2
        let timedOut := call.ioTimedOut mqtt.device.conn
        { result := { attempt with
            timings := call.getTimings tls.conn
            bandwidth := call.getBandwidth mqtt.device.conn
            failureStage := .mqtt
            errorCode := Int32.ofInt (if timedOut then errTimeout else code)
            timedOut := timedOut }
          mqttUs := (timer.reading mqtt.device.tick).us - (timer.reading tls.tick).us
          success := false
          ops := mqtt.device.ops ++ [.getBandwidth] ++ [.ioTimedOut] ++ [.close] } := by
  obtain ⟨code, houtcome, hcode⟩ := Mqtt.mqttConnectInternal_failed h
  refine ⟨code, hcode, houtcome, ?_⟩
  have hfailed : (connectMqtt timer setting tls).1 = .failed ⟨true, true⟩ code := houtcome
  simp only [exchangeMqtt, hfailed, ConnectOutcome.failed, Bool.not_false, Bool.true_and, if_true,
    Option.getD_some, beq_self_eq_true, Bool.false_eq_true, if_false]
  rfl

/-- The code of a failed exchange is stored unless the transport says that a deadline passed. -/
theorem result_of_failed (h : (connectMqtt timer setting tls).1.result = false) :
    ∃ code, Mqtt.FailureCode code ∧ (connectMqtt timer setting tls).1 = .failed ⟨true, true⟩ code ∧
      (exchangeMqtt call setting tls attempt).result.failureStage = .mqtt ∧
      (exchangeMqtt call setting tls attempt).result.errorCode = Int32.ofInt
        (if (exchangeMqtt call setting tls attempt).result.timedOut = true then errTimeout
          else code) := by
  obtain ⟨code, hcode, houtcome, hfailed⟩ := exchangeMqtt_failed call setting tls attempt h
  rw [hfailed]
  exact ⟨code, hcode, houtcome, rfl, rfl⟩

/-- The time of the exchange lies between two looks at the clock. -/
theorem exists_mqttUs_eq : ∃ first second, tls.tick ≤ first ∧ first ≤ second ∧
    (exchangeMqtt call setting tls attempt).mqttUs
      = (timer.reading second).us - (timer.reading first).us := by
  have hkept := kept_tick setting.wire timer (tls.tick + 1)
  cases hresult : (connectMqtt timer setting tls).1.result with
  | false =>
    obtain ⟨code, -, -, hfailed⟩ := exchangeMqtt_failed call setting tls attempt hresult
    have hlater : tls.tick + 1 ≤ (connectMqtt timer setting tls).2.device.tick :=
      hkept.mqttConnectInternal _ _ (Nat.le_refl _)
    refine ⟨tls.tick, _, Nat.le_refl _, (Nat.le_succ _).trans hlater, ?_⟩
    rw [hfailed]
  | true =>
    obtain ⟨later, hlater, houtcome⟩ := Mqtt.mqttConnectInternal_connected hresult
    have htick : tls.tick + 1 ≤ later.device.tick := by
      rw [hlater]
      exact hkept.read.readConnack (hkept.write.sendAll _ (hkept.timeUs _ (Nat.le_refl _)))
    have hconnect : connectMqtt timer setting tls = _ := houtcome
    refine ⟨tls.tick + 1, later.device.tick, Nat.le_succ _, htick, ?_⟩
    rw [exchangeMqtt_connected call setting tls attempt hresult, hconnect]
    rfl

/-! ## What the fields say -/

/-- The fields of an attempt agree with each other, and its durations can be added. -/
structure AttemptEnd.Consistent (ending : AttemptEnd) : Prop where
  success_iff : ending.success = true ↔ ending.result.failureStage = .none
  success : ending.success = true →
    ending.result.errorCode = 0 ∧ ending.result.timedOut = false
  timeout : ending.result.timedOut = true →
    ending.success = false ∧ ending.result.errorCode = Int32.ofInt errTimeout
  total : ending.result.timings.tcpUs.toNat + ending.result.timings.tlsUs.toNat
    + ending.mqttUs.toNat < 2 ^ 64

/-- The phases of the connect call fit in the time before the exchange. -/
theorem total_lt (hsound : tls.Sound timer call.getTimings true) :
    (call.getTimings tls.conn).tcpUs.toNat + (call.getTimings tls.conn).tlsUs.toNat
      + (exchangeMqtt call setting tls attempt).mqttUs.toNat < 2 ^ 64 := by
  obtain ⟨first, second, hfirst, hsecond, hmqtt⟩ := exists_mqttUs_eq call setting tls attempt
  rw [hmqtt]
  calc (call.getTimings tls.conn).tcpUs.toNat + (call.getTimings tls.conn).tlsUs.toNat
        + ((timer.reading second).us - (timer.reading first).us).toNat
      ≤ timer.us tls.tick + ((timer.reading second).us - (timer.reading first).us).toNat :=
        Nat.add_le_add_right hsound.spent _
    _ ≤ timer.us first + ((timer.reading second).us - (timer.reading first).us).toNat :=
        Nat.add_le_add_right (Timer.us_le hfirst) _
    _ = timer.us second := Timer.us_add_sub hsecond
    _ < 2 ^ 64 := timer.us_lt second

variable {tls attempt}

theorem consistent_exchangeMqtt (hsound : tls.Sound timer call.getTimings true)
    (hclear : attempt.failureStage = .none ∧ attempt.errorCode = 0 ∧ attempt.timedOut = false) :
    (exchangeMqtt call setting tls attempt).Consistent := by
  have htotal := total_lt call setting tls attempt hsound
  cases hresult : (connectMqtt timer setting tls).1.result with
  | false =>
    obtain ⟨code, -, -, hfailed⟩ := exchangeMqtt_failed call setting tls attempt hresult
    rw [hfailed] at htotal ⊢
    refine ⟨⟨fun hsuccess ↦ (nomatch hsuccess), fun hstage ↦ (nomatch hstage)⟩,
      fun hsuccess ↦ (nomatch hsuccess), fun htimeout ↦ ⟨rfl, ?_⟩, htotal⟩
    dsimp only at htimeout ⊢
    rw [if_pos htimeout]
  | true =>
    have hconnected := exchangeMqtt_connected call setting tls attempt hresult
    rw [hconnected] at htotal ⊢
    refine ⟨⟨fun _ ↦ hclear.1, fun _ ↦ rfl⟩, fun _ ↦ hclear.2, fun htimeout ↦ ?_, htotal⟩
    exact absurd (htimeout.symm.trans hclear.2.2) (by decide)

variable {call} {tick : ℕ}

theorem runBenchmarkAttempt_of_none (h : (call.connect (some zeroedResult) tick).conn = none) :
    runBenchmarkAttempt call setting tick =
      ⟨(call.connect (some zeroedResult) tick).result.getD zeroedResult, 0, false,
        (call.connect (some zeroedResult) tick).ops⟩ := by
  rw [runBenchmarkAttempt, h]

theorem runBenchmarkAttempt_of_some {conn : γ}
    (h : (call.connect (some zeroedResult) tick).conn = some conn) :
    runBenchmarkAttempt call setting tick =
      exchangeMqtt call setting { call.connect (some zeroedResult) tick with conn := conn }
        ((call.connect (some zeroedResult) tick).result.getD zeroedResult) := by
  rw [runBenchmarkAttempt, h]

variable (call tick)

theorem consistent_runBenchmarkAttempt : (runBenchmarkAttempt call setting tick).Consistent := by
  have hsettled := call.settled (some zeroedResult) tick
  cases hconn : (call.connect (some zeroedResult) tick).conn with
  | none =>
    have hfailed := hsettled.failed hconn
    obtain ⟨attempt, hattempt⟩ := Option.isSome_iff_exists.mp hfailed.pointer
    rw [runBenchmarkAttempt_of_none setting hconn, hattempt, Option.getD_some]
    have hstage : attempt.failureStage ≠ .none := by
      intro hnone
      have hmem := hfailed.stage attempt hattempt
      rw [hnone] at hmem
      exact absurd hmem (by decide)
    exact
      { success_iff := ⟨fun hsuccess ↦ (nomatch hsuccess), fun hnone ↦ absurd hnone hstage⟩
        success := fun hsuccess ↦ (nomatch hsuccess)
        timeout := fun htimeout ↦ ⟨rfl, hfailed.timeout attempt hattempt htimeout⟩
        total := hfailed.spent attempt hattempt }
  | some conn =>
    have hsound := hsettled.sound hconn
    obtain ⟨attempt, hattempt⟩ := Option.isSome_iff_exists.mp hsound.pointer
    have hresult : (call.connect (some zeroedResult) tick).result = some attempt := hattempt
    rw [runBenchmarkAttempt_of_some setting hconn, hresult, Option.getD_some]
    exact consistent_exchangeMqtt call setting hsound (hsound.clear attempt hattempt)

end Ends

/-! ## What the row says -/

/-- The cell of a row in a column. -/
def cell (row : List Text) (column : String) : Option Text :=
  (columnNames.zip row.tail).lookup column

/-- The columns of the durations, and the column of their sum. -/
structure Adds (format : ℕ → Text) (row : List Text) (tcpUs tlsUs mqttUs : ℕ) : Prop where
  tcp : cell row "tcp_ms" = some (format tcpUs)
  tls : cell row "tls_ms" = some (format tlsUs)
  mqtt : cell row "mqtt_ms" = some (format mqttUs)
  total : cell row "total_ms" = some (format (tcpUs + tlsUs + mqttUs))

/-- A row agrees with itself. -/
structure SelfConsistent (row : List Text) : Prop where
  flag : ∀ column ∈ ["success", "timeout"],
    cell row column = some "0".toList ∨ cell row column = some "1".toList
  success_iff : cell row "success" = some "1".toList ↔
    cell row "failure_stage" = some "none".toList
  success : cell row "success" = some "1".toList →
    cell row "error_code" = some "0".toList ∧ cell row "timeout" = some "0".toList
  timeout : cell row "timeout" = some "1".toList →
    cell row "success" = some "0".toList ∧ cell row "error_code" = some "-1001".toList
  total : ∃ tcpUs tlsUs mqttUs, Adds formatMs row tcpUs tlsUs mqttUs ∧
    (tcpUs + tlsUs + mqttUs < 1000 * 2 ^ 43 → Adds formatThousandths row tcpUs tlsUs mqttUs)

theorem format_flag_eq_iff (value : Bool) :
    ((Field.flag value).format = "1".toList ↔ value = true) ∧
      ((Field.flag value).format = "0".toList ↔ value = false) := by
  cases value <;> decide

theorem stageName_eq_none_iff (stage : FailureStage) :
    stage.name.toList = "none".toList ↔ stage = .none := by
  cases stage <;> decide

/-- Milliseconds are printed exactly when there are not too many. -/
theorem formatMs_eq {us : ℕ} (h : us < 1000 * 2 ^ 43) : formatMs us = formatThousandths us := by
  rw [formatMs, Analysis.thousandths_msOfUs h]

/-- Sums that are printed exactly have parts that are. -/
theorem Adds.exact {row : List Text} {tcpUs tlsUs mqttUs : ℕ}
    (h : Adds formatMs row tcpUs tlsUs mqttUs) (hsum : tcpUs + tlsUs + mqttUs < 1000 * 2 ^ 43) :
    Adds formatThousandths row tcpUs tlsUs mqttUs where
  tcp := by rw [h.tcp, formatMs_eq (by omega)]
  tls := by rw [h.tls, formatMs_eq (by omega)]
  mqtt := by rw [h.mqtt, formatMs_eq (by omega)]
  total := by rw [h.total, formatMs_eq hsum]

section Row

variable {ω : Type*} {γ : Type} (benchmark : Benchmark) (setting : AttemptSetting γ ω) (run : ℕ)
  {ending : AttemptEnd}

theorem cell_success : cell (benchmark.rowLine (ending.measured setting run)) "success"
    = some (Field.flag ending.success).format := rfl

theorem cell_failureStage : cell (benchmark.rowLine (ending.measured setting run)) "failure_stage"
    = some ending.result.failureStage.name.toList := rfl

theorem cell_errorCode : cell (benchmark.rowLine (ending.measured setting run)) "error_code"
    = some (formatD ending.result.errorCode.toInt) := rfl

theorem cell_timeout : cell (benchmark.rowLine (ending.measured setting run)) "timeout"
    = some (Field.flag ending.result.timedOut).format := rfl

theorem AttemptEnd.Consistent.adds (h : ending.Consistent) :
    Adds formatMs (benchmark.rowLine (ending.measured setting run))
      ending.result.timings.tcpUs.toNat ending.result.timings.tlsUs.toNat
      ending.mqttUs.toNat := by
  have hsum : (ending.result.timings.tcpUs + ending.result.timings.tlsUs + ending.mqttUs).toNat
      = ending.result.timings.tcpUs.toNat + ending.result.timings.tlsUs.toNat
        + ending.mqttUs.toNat := by
    rw [UInt64.toNat_add, UInt64.toNat_add, Nat.mod_add_mod, Nat.mod_eq_of_lt h.total]
  refine ⟨rfl, rfl, rfl, ?_⟩
  rw [← hsum]
  rfl

/-- What the fields of an attempt say, its row says. -/
theorem AttemptEnd.Consistent.row (h : ending.Consistent) :
    SelfConsistent (benchmark.rowLine (ending.measured setting run)) where
  flag column hcolumn := by
    have hformat : ∀ value, (Field.flag value).format = "0".toList ∨
        (Field.flag value).format = "1".toList := by
      decide
    rcases List.mem_pair.mp hcolumn with hname | hname
    · rw [hname, cell_success, Option.some_inj, Option.some_inj]
      exact hformat ending.success
    · rw [hname, cell_timeout, Option.some_inj, Option.some_inj]
      exact hformat ending.result.timedOut
  success_iff := by
    rw [cell_success, cell_failureStage, Option.some_inj, Option.some_inj,
      (format_flag_eq_iff _).1, stageName_eq_none_iff]
    exact h.success_iff
  success hsuccess := by
    rw [cell_success, Option.some_inj, (format_flag_eq_iff _).1] at hsuccess
    obtain ⟨hcode, htimeout⟩ := h.success hsuccess
    rw [cell_errorCode, cell_timeout, hcode, htimeout]
    exact ⟨rfl, rfl⟩
  timeout htimeout := by
    rw [cell_timeout, Option.some_inj, (format_flag_eq_iff _).1] at htimeout
    obtain ⟨hsuccess, hcode⟩ := h.timeout htimeout
    rw [cell_success, cell_errorCode, hsuccess, hcode]
    exact ⟨rfl, rfl⟩
  total := ⟨_, _, _, h.adds benchmark setting run, (h.adds benchmark setting run).exact⟩

end Row

/-! ## What the row says of the attempt -/

section Reflection

variable {timer : Timer} {γ : Type} {ω : Type*}

/-- The connect call of an attempt has returned a connection. -/
def Connected (call : ConnectCall timer γ) (tick : ℕ) (tls : Progress γ) : Prop :=
  ∃ conn, (call.connect (some zeroedResult) tick).conn = some conn ∧
    tls = { call.connect (some zeroedResult) tick with conn := conn }

/-- The broker refuses the CONNECT of an attempt. -/
def BrokerRefused (timer : Timer) (setting : AttemptSetting γ ω) (tls : Progress γ) (code : UInt8) :
    Prop :=
  ConnectRefused (setting.wire.api timer) (startMqtt timer setting tls).2
    ⟨setting.clientId, setting.keepaliveSec, none, none, false⟩ code

/-- A row names the phase that failed, and the reason of a failed exchange. -/
structure Reflects (call : ConnectCall timer γ) (setting : AttemptSetting γ ω) (tick : ℕ)
    (row : List Text) : Prop where
  null : (call.connect (some zeroedResult) tick).conn = none →
    ∃ stage ∈ connectStages, cell row "failure_stage" = some stage.name.toList
  failed : ∀ tls, Connected call tick tls → (connectMqtt timer setting tls).1.result = false →
    cell row "failure_stage" = some "mqtt".toList ∧
      ∃ code : Int32, code ≠ 0 ∧ cell row "error_code" = some (formatD code.toInt)
  refused : ∀ tls code, Connected call tick tls → BrokerRefused timer setting tls code →
    cell row "failure_stage" = some "mqtt".toList ∧
      (cell row "timeout" = some "0".toList → cell row "error_code" = some (formatU code.toNat))

variable (benchmark : Benchmark) (call : ConnectCall timer γ) (setting : AttemptSetting γ ω)
  (run tick : ℕ)

theorem runBenchmarkAttempt_of_connected {tls : Progress γ} (h : Connected call tick tls) :
    ∃ attempt, runBenchmarkAttempt call setting tick = exchangeMqtt call setting tls attempt := by
  obtain ⟨conn, hconn, htls⟩ := h
  rw [htls]
  exact ⟨_, runBenchmarkAttempt_of_some setting hconn⟩

theorem reflects_row : Reflects call setting tick
    (benchmark.rowLine ((runBenchmarkAttempt call setting tick).measured setting run)) where
  null hnone := by
    have hfailed := (call.settled (some zeroedResult) tick).failed hnone
    obtain ⟨attempt, hattempt⟩ := Option.isSome_iff_exists.mp hfailed.pointer
    rw [runBenchmarkAttempt_of_none setting hnone, hattempt]
    exact ⟨attempt.failureStage, hfailed.stage attempt hattempt, rfl⟩
  failed tls htls hresult := by
    obtain ⟨attempt, hattempt⟩ := runBenchmarkAttempt_of_connected call setting tick htls
    obtain ⟨code, hcode, -, hstage, herror⟩ := result_of_failed call setting tls attempt hresult
    rw [hattempt, cell_failureStage, cell_errorCode, hstage, herror]
    refine ⟨rfl, _, ?_, rfl⟩
    split
    · decide
    · exact hcode.ne_zero
  refused tls code htls hrefused := by
    have houtcome : (connectMqtt timer setting tls).1 = .failed ⟨true, true⟩ code.toNat :=
      Mqtt.mqttConnectInternal_refused hrefused
    obtain ⟨attempt, hattempt⟩ := runBenchmarkAttempt_of_connected call setting tick htls
    obtain ⟨stored, -, hstored, hstage, herror⟩ :=
      result_of_failed call setting tls attempt (congrArg ConnectOutcome.result houtcome)
    have hsame : stored = code.toNat :=
      Option.some.inj (congrArg ConnectOutcome.errorCode (hstored.symm.trans houtcome))
    rw [hattempt, cell_failureStage, cell_timeout, cell_errorCode, hstage, herror, hsame]
    refine ⟨rfl, fun htimeout ↦ ?_⟩
    rw [Option.some_inj, (format_flag_eq_iff _).2] at htimeout
    rw [if_neg (ne_true_of_eq_false htimeout), Mqtt.toInt_refusal, Analysis.formatD_natCast]

/-- A measured attempt prints its start and its row, and the row is consistent. -/
theorem attemptLines_measured :
    ∃ start row, attemptLines benchmark call setting run false tick = [start, row] ∧
      start.head? = some "csv_hs_start".toList ∧ row.head? = some "csv_hs".toList ∧
      SelfConsistent row ∧ Reflects call setting tick row :=
  ⟨_, _, rfl, rfl, rfl,
    (consistent_runBenchmarkAttempt call setting tick).row benchmark setting run,
    reflects_row benchmark call setting run tick⟩

end Reflection

end PqMqtt.Firmware
