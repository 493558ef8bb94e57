import PqMqtt.Transport.Measurements
import PqMqtt.Transport.Progress

/-!
# Connecting over TLS

`tls_connect_common`.  All its failure exits but the first go through `connect_failed`, which saves
the timings and the traffic of the object before it closes it.
-/

namespace PqMqtt.Transport

open Run Lifecycle
open Analysis (AttemptResult Timings FailureStage)

namespace TlsTransport

/-! ## The object before the handshake -/

namespace ReadyConn

/-- The object returned by `calloc`. -/
def zeroed : ReadyConn where
  conn := Conn.zeroed
  received := 0
  inHandshake_eq := rfl
  hsNetWaitUs_eq := rfl
  tlsRxBytes_eq := rfl
  tlsTxBytes_eq := rfl

/-- A callback of lwIP runs. -/
def handle (ready : ReadyConn) : Callback → ReadyConn
  | .connected err =>
      { conn := onConnected ready.conn err
        received := ready.received
        inHandshake_eq :=
          (congrArg Ledger.inHandshake (ledger_onConnected _ _)).trans ready.inHandshake_eq
        hsNetWaitUs_eq :=
          (congrArg Ledger.hsNetWaitUs (ledger_onConnected _ _)).trans ready.hsNetWaitUs_eq
        tlsRxBytes_eq := (tlsRxBytes_onConnected _ _).trans ready.tlsRxBytes_eq
        tlsTxBytes_eq := (tlsTxBytes_onConnected _ _).trans ready.tlsTxBytes_eq }
  | .recv chain err =>
      { conn := (onRecv ready.conn chain err).1
        received := ready.received + (onRecv ready.conn chain err).2
        inHandshake_eq :=
          (congrArg Ledger.inHandshake (ledger_onRecv _ _ _)).trans ready.inHandshake_eq
        hsNetWaitUs_eq :=
          (congrArg Ledger.hsNetWaitUs (ledger_onRecv _ _ _)).trans ready.hsNetWaitUs_eq
        tlsRxBytes_eq := by rw [tlsRxBytes_onRecv, ready.tlsRxBytes_eq, UInt64.ofNat_add]
        tlsTxBytes_eq := (tlsTxBytes_onRecv _ _ _).trans ready.tlsTxBytes_eq }
  | .err code => { ready with conn := onErr ready.conn code }

/-- `c->dns_us = us;` -/
def setDnsUs (ready : ReadyConn) (us : UInt64) : ReadyConn :=
  { ready with conn := { ready.conn with dnsUs := us } }

/-- `c->tcp_connect_us = us;` -/
def setTcpConnectUs (ready : ReadyConn) (us : UInt64) : ReadyConn :=
  { ready with conn := { ready.conn with tcpConnectUs := us } }

/-- Callbacks run one after the other. -/
def deliver (ready : ReadyConn) (callbacks : List Callback) : ReadyConn :=
  callbacks.foldl handle ready

@[simp]
theorem ledger_handle (ready : ReadyConn) (callback : Callback) :
    (ready.handle callback).conn.ledger = ready.conn.ledger := by
  cases callback with
  | connected err => exact ledger_onConnected _ _
  | recv chain err => exact ledger_onRecv _ _ _
  | err code => exact ledger_onErr _ _

@[simp]
theorem ledger_deliver (ready : ReadyConn) (callbacks : List Callback) :
    (ready.deliver callbacks).conn.ledger = ready.conn.ledger := by
  induction callbacks generalizing ready with
  | nil => rfl
  | cons callback callbacks ih => exact (ih (ready.handle callback)).trans (ledger_handle _ _)

end ReadyConn

/-! ## The code -/

/-- A handshake that has ended, with the record at its exit as the last step. -/
structure Handshake (timer : Timer) (ready : ReadyConn) (tick : ℕ) where
  events : List LinkEvent
  exit : Exit
  notDone : ∀ exit, (run (Link.step timer) (Link.begin timer ready tick) events).phase ≠ .done exit
  done : (run (Link.step timer) (Link.begin timer ready tick)
    (events ++ [.record])).phase = .done exit

def Handshake.link {timer : Timer} {ready : ReadyConn} {tick : ℕ}
    (handshake : Handshake timer ready tick) : Link :=
  run (Link.step timer) (Link.begin timer ready tick) (handshake.events ++ [.record])

/-- The exit of a handshake whose first round is its last. -/
def firstExit (frame : Frame) (clock : Clock) (ret sslErr : ℤ) : Exit :=
  if clock.ms > frame.deadline then .deadline
  else if ret ≠ sslSuccess then .failed sslErr
  else .connected

/-- A round whose return value asks for no other round ends the loop. -/
theorem endRound_eq (conn : Conn) (frame : Frame) (clock : Clock) {ret sslErr : ℤ}
    (h : ret ≠ sslSuccess → sslErr ≠ sslErrorWantRead ∧ sslErr ≠ sslErrorWantWrite) :
    endRound conn frame ret sslErr clock
      = (some (firstExit frame clock ret sslErr), { conn with inHandshake := false }) := by
  have hends : ¬(ret ≠ sslSuccess ∧ (sslErr = sslErrorWantRead ∨ sslErr = sslErrorWantWrite)) := by
    rintro ⟨hret, hread | hwrite⟩
    · exact (h hret).1 hread
    · exact (h hret).2 hwrite
  unfold endRound firstExit
  rw [if_neg hends]
  split_ifs <;> rfl

section FirstRound

variable (timer : Timer) (ready : ReadyConn) (tick : ℕ) (ret sslErr : ℤ)
  (h : ret ≠ sslSuccess → sslErr ≠ sslErrorWantRead ∧ sslErr ≠ sslErrorWantWrite)

include h in
theorem leaves_of_round :
    let link := (Link.begin timer ready tick).step timer (.round ret sslErr)
    let frame := (enterHandshake ready.conn (timer.reading tick)).1
    link.call = none ∧
      link.phase = .leaving frame (firstExit frame (timer.reading (tick + 1)) ret sslErr) := by
  simp only [Link.step, Link.act, Link.begin, endRound_eq _ _ _ h, and_self]

/-- A handshake whose first round is its last. -/
def Handshake.ofRound : Handshake timer ready tick where
  events := [.round ret sslErr]
  exit := firstExit (enterHandshake ready.conn (timer.reading tick)).1 (timer.reading (tick + 1))
    ret sslErr
  notDone exit hdone := by
    have hphase := (leaves_of_round timer ready tick ret sslErr h).2.symm.trans hdone
    cases hphase
  done := by
    obtain ⟨hcall, hphase⟩ := leaves_of_round timer ready tick ret sslErr h
    simp only [run, List.cons_append, List.nil_append, List.foldl_cons, List.foldl_nil]
    generalize (Link.begin timer ready tick).step timer (.round ret sslErr) = link at hphase hcall ⊢
    simp only [Link.step, Link.act, hphase, hcall]

end FirstRound

/-- What a call of `tls_connect_common` meets: after the TCP phase the return values of
`wolfSSL_CTX_new`, `wolfSSL_CTX_load_verify_buffer`, `wolfSSL_CTX_use_certificate_buffer`,
`wolfSSL_CTX_use_PrivateKey_buffer`, `wolfSSL_new`, `wolfSSL_UseSupportedCurve` and
`wolfSSL_UseKeyShare`, and the handshake. -/
structure Scenario (timer : Timer) extends TcpScenario where
  ctxNew : Bool
  loadVerifyBuffer : ℤ
  useCertificateBuffer : ℤ
  usePrivateKeyBuffer : ℤ
  sslNew : Bool
  useSupportedCurve : ℤ
  useKeyShare : ℤ
  handshake : (ready : ReadyConn) → (tick : ℕ) → Handshake timer ready tick

/-- `capture_result` -/
def captureResult (c : Progress Conn) : Progress Conn :=
  c.save [.getTimings, .getBandwidth] fun result ↦ { result with
    timings := tlsGetTimings c.conn, bandwidth := tlsGetBandwidth c.conn }

/-- `connect_failed` -/
def connectFailed (c : Progress Conn) (stage : FailureStage) (errorCode : ℤ) (timedOut : Bool) :
    Progress (Option Conn) :=
  ((captureResult c).store fun result ↦ { result with
    failureStage := stage, errorCode := Int32.ofInt errorCode, timedOut := timedOut }).closed

/-- `connect_failed` before the handshake. -/
def connectFailedEarly (c : Progress ReadyConn) (stage : FailureStage) (errorCode : ℤ)
    (timedOut : Bool) : Progress (Option Conn) :=
  connectFailed (c.map ReadyConn.conn) stage errorCode timedOut

section Connect

variable {timer : Timer} (scenario : Scenario timer)

/-- `tls_connect_common` from the handshake on. -/
def performHandshake (c : Progress ReadyConn) : Progress (Option Conn) :=
  let handshake := scenario.handshake c.conn c.tick
  let c := { c with conn := handshake.link.conn, tick := handshake.link.tick }
  match handshake.exit with
  | .deadline => connectFailed c .tlsHandshake errTimeout true
  | .failed sslErr =>
      connectFailed c .tlsHandshake (if c.conn.ioTimedOut then errTimeout else sslErr)
        c.conn.ioTimedOut
  | .connected => (captureResult c).returned

/-- `tls_connect_common` from the initialisation of wolfSSL on. -/
def initialiseTls (c : Progress ReadyConn) : Progress (Option Conn) :=
  if !scenario.ctxNew then connectFailedEarly c .tlsContext errAllocation false
  else
    let c := c.map fun ready ↦ { ready with conn := { ready.conn with sslCtx := true } }
    if scenario.loadVerifyBuffer ≠ sslSuccess then
      connectFailedEarly c .certificate scenario.loadVerifyBuffer false
    else if scenario.useCertificateBuffer ≠ sslSuccess then
      connectFailedEarly c .certificate scenario.useCertificateBuffer false
    else if scenario.usePrivateKeyBuffer ≠ sslSuccess then
      connectFailedEarly c .privateKey scenario.usePrivateKeyBuffer false
    else if !scenario.sslNew then connectFailedEarly c .tlsContext errAllocation false
    else
      let c := c.map fun ready ↦ { ready with conn := { ready.conn with ssl := true } }
      if scenario.useSupportedCurve ≠ sslSuccess then
        connectFailedEarly c .keyShare scenario.useSupportedCurve false
      else if scenario.useKeyShare ≠ sslSuccess then
        connectFailedEarly c .keyShare scenario.useKeyShare false
      else performHandshake scenario c

/-- `tls_connect_common` from the opening of the TCP connection on. -/
def openTcp (c : Progress ReadyConn) : Progress (Option Conn) :=
  let c := c.store fun result ↦ { result with tcpStartEpochMs := scenario.wallClock.epochMs }
  if !scenario.pcb then connectFailedEarly c .tcp errMem false
  else
    let c := c.map fun ready ↦ { ready with conn := { ready.conn with pcb := true } }
    if scenario.tcpConnect ≠ 0 then connectFailedEarly c .tcp scenario.tcpConnect false
    else
      let waited := c.map (ReadyConn.deliver · scenario.waiting)
      let checked := waited.map (ReadyConn.deliver · scenario.checking)
      let settled := checked.map (ReadyConn.deliver · scenario.settled)
      -- The loop ends without a flag only by its deadline.
      if !waited.conn.conn.tcpConnected && !waited.conn.conn.tcpError then
        connectFailedEarly (checked.recordTcp timer ReadyConn.setTcpConnectUs) .tcp errTimeout true
      else if checked.conn.conn.tcpError then
        connectFailedEarly (settled.recordTcp timer ReadyConn.setTcpConnectUs) .tcp
          settled.conn.conn.tcpErrorCode false
      else initialiseTls scenario (settled.recordTcp timer ReadyConn.setTcpConnectUs)

/-- `tls_connect_common` -/
def tlsConnectCommon (result : Option AttemptResult) (tick : ℕ) : Progress (Option Conn) :=
  if !scenario.allocated then .notAllocated result tick
  else
    let c := (Progress.allocated .zeroed result tick).recordDns timer ReadyConn.setDnsUs
    match scenario.dns.out with
    | none => connectFailedEarly c .dns (scenario.dns.errorCode.getD 0) scenario.dns.expired
    | some _ => openTcp scenario c

/-- `tls_connect` -/
def tlsConnect (tick : ℕ) : Progress (Option Conn) := tlsConnectCommon scenario none tick

/-- `tls_connect_attempt` -/
def tlsConnectAttempt (result : Option AttemptResult) (tick : ℕ) : Progress (Option Conn) :=
  tlsConnectCommon scenario result tick

end Connect

/-! ## The time of the handshake -/

namespace Link

/-- The durations of the three phases. -/
def durations (link : Link) : UInt64 × UInt64 × UInt64 :=
  (link.conn.dnsUs, link.conn.tcpConnectUs, link.conn.tlsHandshakeUs)

def ledgerDurations (ledger : Ledger) : UInt64 × UInt64 × UInt64 :=
  (ledger.dnsUs, ledger.tcpConnectUs, ledger.tlsHandshakeUs)

theorem durations_of_ledger {first second : Link} (h : first.conn.ledger = second.conn.ledger) :
    first.durations = second.durations := congrArg ledgerDurations h

/-- Only the record at the exit changes a duration. -/
theorem durations_step (timer : Timer) (link : Link) {event : LinkEvent} (h : event ≠ .record) :
    (link.step timer event).durations = link.durations := by
  cases event with
  | connected err => exact durations_of_ledger (ledger_onConnected _ _)
  | recv chain err => exact durations_of_ledger (ledger_onRecv _ _ _)
  | err code => rfl
  | poll =>
    simp only [step, act]
    split
    · rfl
    next call hcall =>
      have hledger := congrArg ledgerDurations
        (ledger_wsslRecvPoll link.conn call (timer.reading link.tick))
      rw [apply_ite ledgerDurations] at hledger
      have hsame := hledger.trans (ite_self _)
      split
      · exact hsame
      · exact hsame
  | send sz e =>
    simp only [step, act]
    split
    · exact congrArg ledgerDurations (ledger_sendOnce link.conn sz e)
    · rfl
  | enter sz =>
    simp only [step, act]
    split <;> rfl
  | round ret sslErr =>
    rcases round_cases timer link ret sslErr with hstays | ⟨frame, exit, -, hleaves⟩
    · rw [hstays]
      rfl
    · rw [hleaves]
      rfl
  | record => exact absurd rfl h
  | clearTimeout =>
    simp only [step, act]
    split <;> rfl

/-- Before the record the phase changes only when the loop is left. -/
theorem phase_step (timer : Timer) (link : Link) {event : LinkEvent} (h : event ≠ .record) :
    (link.step timer event).phase = link.phase ∨
      ∃ frame exit, link.phase = .looping frame ∧
        (link.step timer event).phase = .leaving frame exit := by
  cases event with
  | round ret sslErr =>
    rcases round_cases timer link ret sslErr with hstays | ⟨frame, exit, hphase, hleaves⟩
    · rw [hstays]
      exact Or.inl rfl
    · rw [hleaves]
      exact Or.inr ⟨frame, exit, hphase, rfl⟩
  | record => exact absurd rfl h
  | connected err => exact Or.inl rfl
  | recv chain err => exact Or.inl rfl
  | err code => exact Or.inl rfl
  | _ =>
    simp only [step, act]
    repeat' split
    all_goals exact Or.inl rfl

/-- The handshake began at a tick; when it is done, its duration fits in the time since then. -/
def Began (timer : Timer) (ready : ReadyConn) (tick : ℕ) (link : Link) : Prop :=
  link.conn.dnsUs = ready.conn.dnsUs ∧ link.conn.tcpConnectUs = ready.conn.tcpConnectUs ∧
    tick ≤ link.tick ∧
    match link.phase with
    | .looping frame => frame.t0.toNat = timer.us tick
    | .leaving frame _ => frame.t0.toNat = timer.us tick
    | .done _ => timer.us tick + link.conn.tlsHandshakeUs.toNat ≤ timer.us link.tick

variable {timer : Timer} {ready : ReadyConn} {tick : ℕ} {link : Link}

/-- Time goes on, and the phase and the durations stay. -/
theorem Began.later {next : Link} (h : link.Began timer ready tick)
    (hdurations : next.durations = link.durations) (htick : link.tick ≤ next.tick)
    (hphase : next.phase = link.phase) : next.Began timer ready tick := by
  simp only [durations, Prod.mk.injEq] at hdurations
  obtain ⟨hdnsSame, htcpSame, htlsSame⟩ := hdurations
  obtain ⟨hdns, htcp, hbegan, hcase⟩ := h
  refine ⟨hdnsSame.trans hdns, htcpSame.trans htcp, hbegan.trans htick, ?_⟩
  rw [hphase, htlsSame]
  cases hp : link.phase with
  | looping frame =>
    rw [hp] at hcase
    exact hcase
  | leaving frame exit =>
    rw [hp] at hcase
    exact hcase
  | done exit =>
    rw [hp] at hcase
    exact hcase.trans (Timer.us_le htick)

theorem began_record (h : link.Began timer ready tick) :
    (link.step timer .record).Began timer ready tick := by
  simp only [step, act]
  split
  next frame exit hcall hphase =>
    obtain ⟨hdns, htcp, htick, hcase⟩ := h
    rw [hphase] at hcase
    have hnow : timer.us link.tick ≤ timer.us (link.tick + 1) := Timer.us_le (Nat.le_succ _)
    have hle : frame.t0.toNat ≤ timer.us link.tick := hcase.trans_le (Timer.us_le htick)
    have helapsed : ((timer.reading link.tick).us - frame.t0).toNat
        = timer.us link.tick - frame.t0.toNat :=
      UInt64.toNat_sub_of_le _ _ (UInt64.le_iff_toNat_le.mpr hle)
    refine ⟨hdns, htcp, htick.trans (Nat.le_succ _), ?_⟩
    change timer.us tick + ((timer.reading link.tick).us - frame.t0).toNat
      ≤ timer.us (link.tick + 1)
    omega
  · exact h.later rfl (Nat.le_succ _) rfl

theorem began_step (timer : Timer) (ready : ReadyConn) (tick : ℕ) (link : Link) (event : LinkEvent)
    (h : link.Began timer ready tick) : (link.step timer event).Began timer ready tick := by
  by_cases hrecord : event = .record
  · rw [hrecord]
    exact began_record h
  have hdurations := durations_step timer link hrecord
  rcases phase_step timer link hrecord with hphase | hleft
  · exact h.later hdurations (Nat.le_succ _) hphase
  · obtain ⟨frame, exit, hlooping, hleaving⟩ := hleft
    simp only [durations, Prod.mk.injEq] at hdurations
    obtain ⟨hdns, htcp, htick, hcase⟩ := h
    rw [hlooping] at hcase
    refine ⟨hdurations.1.trans hdns, hdurations.2.1.trans htcp, htick.trans (Nat.le_succ _), ?_⟩
    rw [hleaving]
    exact hcase

theorem began_run (timer : Timer) (ready : ReadyConn) (tick : ℕ) (events : List LinkEvent) :
    (run (step timer) (begin timer ready tick) events).Began timer ready tick :=
  run_invariant ⟨rfl, rfl, Nat.le_succ tick, rfl⟩ (began_step timer ready tick) events

end Link

/-- A handshake that has ended leaves the earlier durations alone and fits in the time since it
began. -/
theorem Handshake.spent {timer : Timer} {ready : ReadyConn} {tick : ℕ}
    (handshake : Handshake timer ready tick) :
    handshake.link.conn.dnsUs = ready.conn.dnsUs ∧
      handshake.link.conn.tcpConnectUs = ready.conn.tcpConnectUs ∧
      timer.us tick + handshake.link.conn.tlsHandshakeUs.toNat
        ≤ timer.us handshake.link.tick := by
  obtain ⟨hdns, htcp, -, hcase⟩ :=
    Link.began_run timer ready tick (handshake.events ++ [.record])
  rw [handshake.done] at hcase
  exact ⟨hdns, htcp, hcase⟩

/-! ## The exits -/

theorem timings_of_ledger {first second : Conn} (h : first.ledger = second.ledger) :
    tlsGetTimings first = tlsGetTimings second :=
  congrArg HandshakeNumbers.timings (handshakeNumbers_congr h)

variable {timer : Timer} {asked : Bool}

/-- Every call of `connect_failed` with a stage of its own, and with the timeout code if the
deadline has passed, settles the call and keeps the durations. -/
theorem settled_connectFailed {c : Progress Conn} (h : c.Sound timer tlsGetTimings asked)
    {stage : FailureStage} (hstage : stage ∈ connectStages) {errorCode : ℤ} {timedOut : Bool}
    (hcode : timedOut = true → errorCode = errTimeout) :
    (connectFailed c stage errorCode timedOut).Settled timer tlsGetTimings asked ∧
      (connectFailed c stage errorCode timedOut).Retained :=
  h.settled_save (by decide) (fun _ ↦ ⟨rfl, rfl, rfl⟩) (fun _ ↦ rfl) (fun _ ↦ hstage)
    fun _ _ hout ↦ congrArg Int32.ofInt (hcode hout)

def readyTimings (ready : ReadyConn) : Timings := tlsGetTimings ready.conn

theorem settled_connectFailedEarly {c : Progress ReadyConn} (h : c.Sound timer readyTimings asked)
    {stage : FailureStage} (hstage : stage ∈ connectStages) {errorCode : ℤ} {timedOut : Bool}
    (hcode : timedOut = true → errorCode = errTimeout) :
    (connectFailedEarly c stage errorCode timedOut).Settled timer tlsGetTimings asked ∧
      (connectFailedEarly c stage errorCode timedOut).Retained :=
  settled_connectFailed (h.map rfl) hstage hcode

/-- An exit before the handshake that is not about a deadline. -/
theorem settled_failure {c : Progress ReadyConn} (h : c.Sound timer readyTimings asked)
    {stage : FailureStage} (hstage : stage ∈ connectStages) (errorCode : ℤ) :
    (connectFailedEarly c stage errorCode false).Settled timer tlsGetTimings asked ∧
      (connectFailedEarly c stage errorCode false).Retained :=
  settled_connectFailedEarly h hstage fun hfalse ↦ (nomatch hfalse)

/-- A change that keeps the timings. -/
theorem sound_change {c : Progress ReadyConn} (h : c.Sound timer readyTimings asked)
    {change : ReadyConn → ReadyConn}
    (hchange : readyTimings (change c.conn) = readyTimings c.conn) :
    (c.map change).Sound timer readyTimings asked := h.map hchange

theorem sound_deliver {c : Progress ReadyConn} (h : c.Sound timer readyTimings asked)
    (callbacks : List Callback) :
    (c.map (ReadyConn.deliver · callbacks)).Sound timer readyTimings asked :=
  sound_change h (timings_of_ledger (ReadyConn.ledger_deliver c.conn callbacks))

theorem sound_recordTcp {c : Progress ReadyConn} (h : c.Sound timer readyTimings asked) :
    (c.recordTcp timer ReadyConn.setTcpConnectUs).Sound timer readyTimings asked :=
  h.recordTcp fun _ ↦ rfl

section Connect

variable (scenario : Scenario timer)

theorem settled_performHandshake {c : Progress ReadyConn}
    (h : c.Sound timer readyTimings asked) :
    (performHandshake scenario c).Settled timer tlsGetTimings asked ∧
      (performHandshake scenario c).Retained := by
  obtain ⟨hdns, htcp, hspent⟩ := (scenario.handshake c.conn c.tick).spent
  have hended : Progress.Sound timer tlsGetTimings asked
      { c with
        conn := (scenario.handshake c.conn c.tick).link.conn
        tick := (scenario.handshake c.conn c.tick).link.tick } :=
    { live := h.live
      pointer := h.pointer
      clear := h.clear
      dns := fun us hus ↦ hdns.trans (h.dns us hus)
      tcp := fun us hus ↦ htcp.trans (h.tcp us hus)
      spent := by
        have hearlier := h.spent
        simp only [readyTimings, tlsGetTimings, htcp] at hearlier ⊢
        omega }
  unfold performHandshake
  dsimp only
  split
  · exact settled_connectFailed hended (by decide) fun _ ↦ rfl
  · exact settled_connectFailed hended (by decide) fun hout ↦ if_pos hout
  · exact ⟨hended.save (by decide) fun _ ↦ ⟨rfl, rfl, rfl⟩,
      fun hnull ↦ absurd hnull (Option.some_ne_none _)⟩

theorem settled_initialiseTls {c : Progress ReadyConn} (h : c.Sound timer readyTimings asked) :
    (initialiseTls scenario c).Settled timer tlsGetTimings asked ∧
      (initialiseTls scenario c).Retained := by
  have hctx : (c.map fun ready ↦
      { ready with conn := { ready.conn with sslCtx := true } }).Sound timer readyTimings asked :=
    sound_change h rfl
  unfold initialiseTls
  split
  · exact settled_failure h (by decide) _
  dsimp only
  split
  · exact settled_failure hctx (by decide) _
  split
  · exact settled_failure hctx (by decide) _
  split
  · exact settled_failure hctx (by decide) _
  split
  · exact settled_failure hctx (by decide) _
  split
  · exact settled_failure (sound_change hctx rfl) (by decide) _
  split
  · exact settled_failure (sound_change hctx rfl) (by decide) _
  · exact settled_performHandshake scenario (sound_change hctx rfl)

theorem settled_openTcp {c : Progress ReadyConn} (h : c.Sound timer readyTimings asked) :
    (openTcp scenario c).Settled timer tlsGetTimings asked ∧ (openTcp scenario c).Retained := by
  have hstored : (c.store fun result ↦ { result with
      tcpStartEpochMs := scenario.wallClock.epochMs }).Sound timer readyTimings asked :=
    h.store fun _ ↦ ⟨rfl, rfl, rfl⟩
  unfold openTcp
  generalize c.store _ = c at hstored ⊢
  have hopened : (c.map fun ready ↦
      { ready with conn := { ready.conn with pcb := true } }).Sound timer readyTimings asked :=
    sound_change hstored rfl
  dsimp only
  split
  · exact settled_failure hstored (by decide) _
  generalize c.map _ = c at hopened ⊢
  have hchecked := sound_deliver (sound_deliver hopened scenario.waiting) scenario.checking
  have hsettled := sound_deliver hchecked scenario.settled
  split
  · exact settled_failure hopened (by decide) _
  split
  · exact settled_connectFailedEarly (sound_recordTcp hchecked) (by decide) fun _ ↦ rfl
  split
  · exact settled_failure (sound_recordTcp hsettled) (by decide) _
  · exact settled_initialiseTls scenario (sound_recordTcp hsettled)

/-- Every exit of `tls_connect_common` settles the call, and every failure exit keeps the durations
of the phases that ended. -/
theorem settled_tlsConnectCommon (result : Option AttemptResult) (tick : ℕ) :
    (tlsConnectCommon scenario result tick).Settled timer tlsGetTimings result.isSome ∧
      (tlsConnectCommon scenario result tick).Retained := by
  have hallocated : (Progress.allocated .zeroed result tick).Sound timer readyTimings
      result.isSome := Progress.sound_allocated rfl result tick
  have hresolved : ((Progress.allocated .zeroed result tick).recordDns timer
      ReadyConn.setDnsUs).Sound timer readyTimings result.isSome :=
    hallocated.recordDns fun _ ↦ rfl
  unfold tlsConnectCommon
  split
  · exact ⟨Progress.settled_notAllocated result tick, Progress.retained_notAllocated result tick⟩
  dsimp only
  split
  · refine settled_connectFailedEarly hresolved (by decide) fun hexpired ↦ ?_
    rw [Verdict.errorCode_of_expired hexpired]
    rfl
  · exact settled_openTcp scenario hresolved

end Connect

/-- The broker accepts the TCP connection and refuses the handshake in its first round. -/
def refusedScenario (timer : Timer) (sslErr : ℤ)
    (h : sslErr ≠ sslErrorWantRead ∧ sslErr ≠ sslErrorWantWrite) : Scenario timer where
  allocated := true
  dns := .cached 0xC0A80001
  wallClock := ⟨1767225600, 0⟩
  pcb := true
  tcpConnect := 0
  waiting := [.connected 0]
  checking := []
  settled := []
  ctxNew := true
  loadVerifyBuffer := sslSuccess
  useCertificateBuffer := sslSuccess
  usePrivateKeyBuffer := sslSuccess
  sslNew := true
  useSupportedCurve := sslSuccess
  useKeyShare := sslSuccess
  handshake ready tick := .ofRound timer ready tick (-1) sslErr fun _ ↦ h

example : ((tlsConnectAttempt (refusedScenario jumpingTimer (-308) (by decide))
    (some zeroedResult) 2).result.map fun result ↦ (result.failureStage, result.errorCode))
      = some (.tlsHandshake, -308) := by decide

end TlsTransport

end PqMqtt.Transport
