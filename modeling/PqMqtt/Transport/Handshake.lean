import PqMqtt.Analysis.SerialLog
import PqMqtt.Foundation.Intervals
import PqMqtt.Transport.PcbAccess

/-!
# The handshake of the TLS transport

`tls_connect_common` calls `wolfSSL_connect` until it succeeds, fails or the deadline has passed.
wolfSSL calls `wssl_recv` and `wssl_send` from inside, and the lwIP callbacks run between any two
steps.  While `in_handshake` is set the two callbacks of wolfSSL book what belongs to the
handshake; the three exits record the rest.

A run starts when `in_handshake` is set and goes on after the handshake, where wolfSSL is called
by `tls_read`, `tls_write` and `tls_close`.  Each step reads the clock once.  The history keeps
the calls of `wssl_recv` made during the handshake and the true byte counts.
-/

namespace PqMqtt.Transport

open Run Intervals CheckThenLock
open Analysis (Timings Bandwidth)

/-- The clock of the board: a 64-bit counter of microseconds that never runs backwards. -/
structure Timer where
  reading : ℕ → Clock
  monotone : Monotone fun tick ↦ (reading tick).us.toNat

/-- `time_us_64` -/
def Timer.us (timer : Timer) (tick : ℕ) : ℕ := (timer.reading tick).us.toNat

theorem Timer.us_le {timer : Timer} {first second : ℕ} (h : first ≤ second) :
    timer.us first ≤ timer.us second := timer.monotone h

theorem Timer.us_lt (timer : Timer) (tick : ℕ) : timer.us tick < 2 ^ 64 :=
  UInt64.toNat_lt _

namespace TlsTransport

/-! ## The code -/

/-- `SSL_SUCCESS` -/
def sslSuccess : ℤ := 1

/-- `SSL_ERROR_WANT_READ` -/
def sslErrorWantRead : ℤ := 2

/-- `SSL_ERROR_WANT_WRITE` -/
def sslErrorWantWrite : ℤ := 3

/-- `on_connected` -/
def onConnected (conn : Conn) (err : ℤ) : Conn :=
  if err ≠ 0 then { conn with tcpErrorCode := err, tcpError := true }
  else { conn with tcpConnected := true }

/-- `wssl_send` without interruption; `e` is what `tcp_write` returns. -/
def sendOnce (conn : Conn) (sz : ℕ) (e : ℤ) : SendResult × Conn :=
  if !conn.pcb || conn.tcpError then (.connClose, conn)
  else if e = 0 then (.sent sz, countSent sz conn)
  else (.general, conn)

/-- Locals of `tls_connect_common` during the handshake. -/
structure Frame where
  hsRxStart : UInt64
  hsTxStart : UInt64
  t0 : UInt64
  deadline : UInt32

/-- How the handshake loop is left. -/
inductive Exit where
  | connected
  | failed (sslErr : ℤ)
  | deadline
deriving DecidableEq

/-- The statements before the handshake loop. -/
def enterHandshake (conn : Conn) (clock : Clock) : Frame × Conn :=
  (⟨conn.tlsRxBytes, conn.tlsTxBytes, clock.us, clock.ms + 30000⟩,
    { conn with inHandshake := true })

/-- One iteration of the handshake loop after `wolfSSL_connect` has returned `ret`, up to the
statement that clears `in_handshake`. -/
def endRound (conn : Conn) (frame : Frame) (ret sslErr : ℤ) (clock : Clock) :
    Option Exit × Conn :=
  if clock.ms > frame.deadline then (some .deadline, { conn with inHandshake := false })
  else if ret ≠ sslSuccess ∧ (sslErr = sslErrorWantRead ∨ sslErr = sslErrorWantWrite) then
    (none, conn)
  else if ret ≠ sslSuccess then (some (.failed sslErr), { conn with inHandshake := false })
  else (some .connected, { conn with inHandshake := false })

/-- The three assignments that stand at every exit. -/
def recordHandshake (conn : Conn) (frame : Frame) (clock : Clock) : Conn :=
  { conn with
    tlsHandshakeUs := clock.us - frame.t0
    tlsHandshakeRxBytes := conn.tlsRxBytes - frame.hsRxStart
    tlsHandshakeTxBytes := conn.tlsTxBytes - frame.hsTxStart }

/-- `tls_get_timings` -/
def tlsGetTimings (conn : Conn) : Timings where
  dnsUs := conn.dnsUs
  tcpUs := conn.tcpConnectUs
  tlsUs := conn.tlsHandshakeUs
  tlsNetWaitUs := conn.hsNetWaitUs
  tlsCryptoUs :=
    if conn.tlsHandshakeUs > conn.hsNetWaitUs then conn.tlsHandshakeUs - conn.hsNetWaitUs else 0

/-- `tls_get_bandwidth` -/
def tlsGetBandwidth (conn : Conn) : Bandwidth where
  handshakeRxBytes := conn.tlsHandshakeRxBytes
  handshakeTxBytes := conn.tlsHandshakeTxBytes
  totalRxBytes := conn.tlsRxBytes
  totalTxBytes := conn.tlsTxBytes
  handshakeTxCalls := conn.hsTxCalls
  handshakeRxCalls := conn.hsRxCalls

/-- The program of `wssl_send`, run without interruption. -/
theorem run_wsslSend (conn : Conn) (sz : ℕ) (e : ℤ) :
    ∃ machine, run Machine.step (Machine.start conn (wsslSend sz .done))
        (List.replicate 7 (.foreground e)) = machine ∧
      machine.program = .done (sendOnce conn sz e).1 ∧ machine.state = (sendOnce conn sz e).2 := by
  refine ⟨_, rfl, ?_⟩
  simp only [List.replicate, run, List.foldl_cons, List.foldl_nil, Machine.start, wsslSend,
    sendOnce]
  cases hpcb : conn.pcb with
  | false => simp [Machine.step, pcb, hpcb]
  | true =>
    cases herror : conn.tcpError with
    | true => simp [Machine.step, pcb, hpcb, herror]
    | false =>
      by_cases he : e = 0
      · simp [Machine.step, pcb, hpcb, herror, he, countSentUpdate]
      · simp [Machine.step, pcb, hpcb, herror, he]

/-! ## The connection during and after the handshake -/

/-- A call of `wssl_recv` during the handshake. -/
structure Wait where
  span : Interval
  gotData : Bool

/-- A connection object on which the handshake has not begun, with the bytes received so far. -/
structure ReadyConn where
  conn : Conn
  received : ℕ
  inHandshake_eq : conn.inHandshake = false
  hsNetWaitUs_eq : conn.hsNetWaitUs = 0
  tlsRxBytes_eq : conn.tlsRxBytes = UInt64.ofNat received
  tlsTxBytes_eq : conn.tlsTxBytes = 0

/-- Where the foreground is: in the loop, between the loop and the record, or behind it. -/
inductive Phase where
  | looping (frame : Frame)
  | leaving (frame : Frame) (exit : Exit)
  | done (exit : Exit)

/-- wolfSSL may be running. -/
def Phase.allowsIo : Phase → Bool
  | looping _ => true
  | leaving _ _ => false
  | done _ => true

/-- The connection, the call of `wssl_recv` in progress, and the history. -/
structure Link where
  conn : Conn
  call : Option RecvCall
  phase : Phase
  tick : ℕ
  waits : List Wait
  received : ℕ
  sent : ℕ

/-- Callbacks of lwIP, calls that wolfSSL makes from inside, the return of `wolfSSL_connect`, the
record at the exit, and the first statement of `tls_read`. -/
inductive LinkEvent where
  | connected (err : ℤ)
  | recv (chain : Option Pbuf) (err : ℤ)
  | err (code : ℤ)
  | enter (sz : ℤ)
  | poll
  | send (sz : ℕ) (e : ℤ)
  | round (ret sslErr : ℤ)
  | record
  | clearTimeout

def RecvResult.gotData : RecvResult → Bool
  | bytes _ => true
  | connClose => false
  | timeout => false

def SendResult.count (sz : ℕ) : SendResult → ℕ
  | sent _ => sz
  | connClose => 0
  | general => 0

namespace Link

/-- `wssl_recv` has returned. -/
def endCall (link : Link) (conn : Conn) (call : RecvCall) (result : RecvResult) (clock : Clock) :
    Link :=
  { link with
    conn := conn
    call := none
    waits :=
      if link.conn.inHandshake then
        link.waits ++ [⟨⟨call.tEnter.toNat, clock.us.toNat⟩, result.gotData⟩]
      else link.waits }

/-- What happens in a step at a reading of the clock. -/
def act (link : Link) (clock : Clock) : LinkEvent → Link
  | .connected err => { link with conn := onConnected link.conn err }
  | .recv chain err =>
      let handled := onRecv link.conn chain err
      { link with conn := handled.1, received := link.received + handled.2 }
  | .err code => { link with conn := onErr link.conn code }
  | .enter sz =>
      if link.call.isNone && link.phase.allowsIo then
        { link with call := some (wsslRecvEnter sz clock) }
      else link
  | .poll =>
      match link.call with
      | none => link
      | some call =>
          let polled := wsslRecvPoll link.conn call clock
          match polled.1 with
          | none => { link with conn := polled.2 }
          | some result => link.endCall polled.2 call result clock
  | .send sz e =>
      if link.call.isNone && link.phase.allowsIo then
        let outcome := sendOnce link.conn sz e
        { link with conn := outcome.2, sent := link.sent + outcome.1.count sz }
      else link
  | .round ret sslErr =>
      match link.call, link.phase with
      | none, .looping frame =>
          let ended := endRound link.conn frame ret sslErr clock
          match ended.1 with
          | none => { link with conn := ended.2 }
          | some exit => { link with conn := ended.2, phase := .leaving frame exit }
      | _, _ => link
  | .record =>
      match link.call, link.phase with
      | none, .leaving frame exit =>
          { link with conn := recordHandshake link.conn frame clock, phase := .done exit }
      | _, _ => link
  | .clearTimeout =>
      match link.call, link.phase with
      | none, .done _ => { link with conn := { link.conn with ioTimedOut := false } }
      | _, _ => link

def step (timer : Timer) (link : Link) (event : LinkEvent) : Link :=
  { link.act (timer.reading link.tick) event with tick := link.tick + 1 }

/-- The handshake begins. -/
def begin (timer : Timer) (ready : ReadyConn) (tick : ℕ) : Link :=
  let entered := enterHandshake ready.conn (timer.reading tick)
  { conn := entered.2
    call := none
    phase := .looping entered.1
    tick := tick + 1
    waits := []
    received := ready.received
    sent := 0 }

end Link

/-! ## Accounts -/

/-- The fields of a connection that hold measurements. -/
structure Ledger where
  inHandshake : Bool
  dnsUs : UInt64
  tcpConnectUs : UInt64
  tlsHandshakeUs : UInt64
  hsNetWaitUs : UInt64
  tlsHandshakeRxBytes : UInt64
  tlsHandshakeTxBytes : UInt64
  hsTxCalls : UInt32
  hsRxCalls : UInt32

def Conn.ledger (conn : Conn) : Ledger where
  inHandshake := conn.inHandshake
  dnsUs := conn.dnsUs
  tcpConnectUs := conn.tcpConnectUs
  tlsHandshakeUs := conn.tlsHandshakeUs
  hsNetWaitUs := conn.hsNetWaitUs
  tlsHandshakeRxBytes := conn.tlsHandshakeRxBytes
  tlsHandshakeTxBytes := conn.tlsHandshakeTxBytes
  hsTxCalls := conn.hsTxCalls
  hsRxCalls := conn.hsRxCalls

@[simp]
theorem ledger_onConnected (conn : Conn) (err : ℤ) :
    (onConnected conn err).ledger = conn.ledger := by
  unfold onConnected
  split <;> rfl

@[simp]
theorem ledger_onRecv (conn : Conn) (chain : Option Pbuf) (err : ℤ) :
    (onRecv conn chain err).1.ledger = conn.ledger := by
  cases chain with
  | none => rfl
  | some chain =>
    unfold onRecv
    dsimp only
    split <;> rfl

@[simp]
theorem ledger_onErr (conn : Conn) (code : ℤ) : (onErr conn code).ledger = conn.ledger := rfl

/-- A round either goes on with the connection as it is or clears `in_handshake`. -/
theorem endRound_cases (conn : Conn) (frame : Frame) (ret sslErr : ℤ) (clock : Clock) :
    endRound conn frame ret sslErr clock = (none, conn) ∨
      ∃ exit, endRound conn frame ret sslErr clock
        = (some exit, { conn with inHandshake := false }) := by
  unfold endRound
  split
  · exact Or.inr ⟨.deadline, rfl⟩
  split
  · exact Or.inl rfl
  split
  · exact Or.inr ⟨.failed sslErr, rfl⟩
  · exact Or.inr ⟨.connected, rfl⟩

/-- A round that ends in the loop changes nothing, or leaves it. -/
theorem Link.round_cases (timer : Timer) (link : Link) (ret sslErr : ℤ) :
    link.step timer (.round ret sslErr) = { link with tick := link.tick + 1 } ∨
      ∃ frame exit, link.phase = .looping frame ∧ link.step timer (.round ret sslErr) =
        { link with
          conn := { link.conn with inHandshake := false }
          phase := .leaving frame exit
          tick := link.tick + 1 } := by
  simp only [step, act]
  split
  next frame hcall hphase =>
    rcases endRound_cases link.conn frame ret sslErr (timer.reading link.tick) with hend | hend
    · rw [hend]
      exact Or.inl rfl
    · obtain ⟨exit, hend⟩ := hend
      rw [hend]
      exact Or.inr ⟨frame, exit, hphase, rfl⟩
  · exact Or.inl rfl

/-- What a poll does to the measurements. -/
theorem ledger_wsslRecvPoll (conn : Conn) (call : RecvCall) (clock : Clock) :
    (wsslRecvPoll conn call clock).2.ledger =
      if (wsslRecvPoll conn call clock).1.any RecvResult.gotData && conn.inHandshake then
        { conn.ledger with
          hsNetWaitUs := conn.hsNetWaitUs + (clock.us - call.tEnter)
          hsRxCalls := conn.hsRxCalls + 1 }
      else conn.ledger := by
  unfold wsslRecvPoll
  dsimp only
  split
  · cases hin : conn.inHandshake with
    | true => simp [RecvResult.gotData, Conn.ledger, hin]
    | false => simp [RecvResult.gotData, Conn.ledger, hin]
  split
  · rfl
  split
  · rfl
  · rfl

theorem tlsTxBytes_wsslRecvPoll (conn : Conn) (call : RecvCall) (clock : Clock) :
    (wsslRecvPoll conn call clock).2.tlsTxBytes = conn.tlsTxBytes := by
  unfold wsslRecvPoll
  dsimp only
  split_ifs <;> rfl

theorem ledger_sendOnce (conn : Conn) (sz : ℕ) (e : ℤ) :
    (sendOnce conn sz e).2.ledger = { conn.ledger with
      hsTxCalls := (sendOnce conn sz e).2.hsTxCalls } := by
  unfold sendOnce
  split
  · rfl
  split
  · rfl
  · rfl

/-- Outside the handshake sending leaves the measurements alone. -/
theorem ledger_sendOnce_of_not_inHandshake {conn : Conn} (h : conn.inHandshake = false) (sz : ℕ)
    (e : ℤ) : (sendOnce conn sz e).2.ledger = conn.ledger := by
  rw [ledger_sendOnce]
  unfold sendOnce countSent
  split
  · rfl
  split
  · simp [h, Conn.ledger]
  · rfl

theorem ofInt_natCast (n : ℕ) : UInt64.ofInt n = UInt64.ofNat n := by
  have hmod : ((n : ℤ) % 2 ^ 64).toNat = n % 2 ^ 64 := by omega
  rw [UInt64.ofInt, hmod]
  apply UInt64.toNat.inj
  simp

theorem tlsTxBytes_sendOnce (conn : Conn) (sz : ℕ) (e : ℤ) :
    (sendOnce conn sz e).2.tlsTxBytes
      = conn.tlsTxBytes + UInt64.ofNat ((sendOnce conn sz e).1.count sz) := by
  unfold sendOnce
  split
  · simp [SendResult.count]
  split
  · simp [SendResult.count, countSent, ofInt_natCast]
  · simp [SendResult.count]

theorem tlsRxBytes_sendOnce (conn : Conn) (sz : ℕ) (e : ℤ) :
    (sendOnce conn sz e).2.tlsRxBytes = conn.tlsRxBytes := by
  unfold sendOnce
  split
  · rfl
  split
  · rfl
  · rfl

/-! ## Time -/

namespace Link

variable (timer : Timer) (link : Link)

def spans : List Interval := link.waits.map Wait.span

/-- The spans of the calls that returned data. -/
def dataSpans : List Interval := (link.waits.filter Wait.gotData).map Wait.span

/-- The time up to which the spans account: the present, or the entry of the current call. -/
def settled : ℕ := link.call.elim (timer.us link.tick) fun call ↦ call.tEnter.toNat

/-- The booked waiting time is that of the calls that returned data, and the calls lie one after
the other in the handshake. -/
def Timed : Prop :=
  link.conn.hsNetWaitUs.toNat = total link.dataSpans ∧ link.settled timer ≤ timer.us link.tick ∧
    match link.phase with
    | .looping frame =>
        link.conn.inHandshake = true ∧ Chained frame.t0.toNat link.spans (link.settled timer)
    | .leaving frame _ =>
        link.conn.inHandshake = false ∧ Chained frame.t0.toNat link.spans (link.settled timer)
    | .done _ =>
        link.conn.inHandshake = false ∧
          ∃ lo hi, Chained lo link.spans hi ∧ link.conn.tlsHandshakeUs.toNat = hi - lo

variable {timer link}

/-- A later state with the same measurements. -/
theorem Timed.later {next : Link} (h : link.Timed timer)
    (hin : next.conn.inHandshake = link.conn.inHandshake)
    (hwait : next.conn.hsNetWaitUs = link.conn.hsNetWaitUs)
    (htls : next.conn.tlsHandshakeUs = link.conn.tlsHandshakeUs)
    (hphase : next.phase = link.phase) (hwaits : next.waits = link.waits)
    (hsettled : link.settled timer ≤ next.settled timer)
    (hpresent : next.settled timer ≤ timer.us next.tick) : next.Timed timer := by
  have hspans : next.spans = link.spans := by rw [spans, hwaits, spans]
  have hdata : next.dataSpans = link.dataSpans := by rw [dataSpans, hwaits, dataSpans]
  obtain ⟨hbooked, -, hcase⟩ := h
  refine ⟨by rw [hwait, hdata]; exact hbooked, hpresent, ?_⟩
  rw [hphase, hin, hspans, htls]
  cases hp : link.phase with
  | looping frame =>
    rw [hp] at hcase
    exact ⟨hcase.1, hcase.2.mono hsettled⟩
  | leaving frame exit =>
    rw [hp] at hcase
    exact ⟨hcase.1, hcase.2.mono hsettled⟩
  | done exit =>
    rw [hp] at hcase
    exact hcase

/-- The account is settled later in a state with the same call, or with none. -/
theorem settled_later {next : Link} (hpresent : link.settled timer ≤ timer.us link.tick)
    (hcall : next.call = link.call ∨ next.call = none) (htick : next.tick = link.tick + 1) :
    link.settled timer ≤ next.settled timer ∧ next.settled timer ≤ timer.us next.tick := by
  have hnow : timer.us link.tick ≤ timer.us next.tick := by
    rw [htick]
    exact Timer.us_le (Nat.le_succ _)
  unfold settled at hpresent ⊢
  rcases hcall with hsame | hnone
  · rw [hsame]
    cases hcase : link.call with
    | none => exact ⟨hnow, Nat.le_refl _⟩
    | some call =>
      rw [hcase] at hpresent
      exact ⟨Nat.le_refl _, hpresent.trans hnow⟩
  · rw [hnone]
    exact ⟨hpresent.trans hnow, Nat.le_refl _⟩

/-- A step that changes no measurement that is about time. -/
theorem Timed.idle {next : Link} (h : link.Timed timer)
    (hledger : ∃ calls, next.conn.ledger = { link.conn.ledger with hsTxCalls := calls })
    (hcall : next.call = link.call ∨ next.call = none) (hphase : next.phase = link.phase)
    (hwaits : next.waits = link.waits) (htick : next.tick = link.tick + 1) : next.Timed timer := by
  obtain ⟨calls, hledger⟩ := hledger
  have hsettled := settled_later h.2.1 hcall htick
  exact h.later (congrArg Ledger.inHandshake hledger) (congrArg Ledger.hsNetWaitUs hledger)
    (congrArg Ledger.tlsHandshakeUs hledger) hphase hwaits hsettled.1 hsettled.2

/-- `wssl_recv` starts where the account has got to. -/
theorem Timed.enter (h : link.Timed timer) (hcall : link.call = none) (sz : ℤ) :
    Timed timer { link with
      call := some (wsslRecvEnter sz (timer.reading link.tick)), tick := link.tick + 1 } := by
  have hnow : timer.us link.tick ≤ timer.us (link.tick + 1) := Timer.us_le (Nat.le_succ _)
  have hsettled : link.settled timer = timer.us link.tick := by rw [settled, hcall]; rfl
  obtain ⟨hbooked, -, hcase⟩ := h
  rw [hsettled] at hcase
  exact ⟨hbooked, hnow, hcase⟩

/-- Booked time never wraps: it is over before the call that is booked next. -/
theorem toNat_add_elapsed {booked now entered : UInt64} (hle : entered.toNat ≤ now.toNat)
    (hroom : booked.toNat ≤ entered.toNat) :
    (booked + (now - entered)).toNat = booked.toNat + (now.toNat - entered.toNat) := by
  have helapsed : (now - entered).toNat = now.toNat - entered.toNat :=
    UInt64.toNat_sub_of_le now entered (UInt64.le_iff_toNat_le.mpr hle)
  have hnow : now.toNat < 2 ^ 64 := UInt64.toNat_lt _
  rw [UInt64.toNat_add, helapsed]
  exact Nat.mod_eq_of_lt (by omega)

/-- A call of `wssl_recv` returns in the loop: its span is added, and booked if it got data. -/
theorem Timed.returned {next : Link} (h : link.Timed timer) {frame : Frame}
    (hphase : link.phase = .looping frame) {call : RecvCall} (hcall : link.call = some call)
    {gotData : Bool}
    (hwaits : next.waits
      = link.waits ++ [⟨⟨call.tEnter.toNat, timer.us link.tick⟩, gotData⟩])
    (hin : next.conn.inHandshake = true)
    (hbook : next.conn.hsNetWaitUs = if gotData then
      link.conn.hsNetWaitUs + ((timer.reading link.tick).us - call.tEnter)
      else link.conn.hsNetWaitUs)
    (hnextPhase : next.phase = link.phase) (hnextCall : next.call = none)
    (htick : next.tick = link.tick + 1) : next.Timed timer := by
  have hsettled : link.settled timer = call.tEnter.toNat := by rw [settled, hcall]; rfl
  have hnextSettled : next.settled timer = timer.us next.tick := by rw [settled, hnextCall]; rfl
  obtain ⟨hbooked, hpresent, hcase⟩ := h
  rw [hphase] at hcase
  obtain ⟨-, hchained⟩ := hcase
  rw [hsettled] at hpresent hchained
  have hroom : link.conn.hsNetWaitUs.toNat ≤ call.tEnter.toNat := by
    have hdata := total_map_filter_le Wait.span Wait.gotData link.waits
    have hall := hchained.total_le
    rw [hbooked]
    exact (hdata.trans (Nat.le_add_left _ _)).trans hall
  refine ⟨?_, hnextSettled.le, ?_⟩
  · rw [hbook, dataSpans, hwaits, List.filter_append, List.map_append, total_append]
    cases gotData with
    | true =>
      rw [if_pos rfl, toNat_add_elapsed hpresent hroom, hbooked]
      rfl
    | false => exact hbooked
  · rw [hnextPhase, hphase, hnextSettled, spans, hwaits, List.map_append, htick]
    exact ⟨hin, hchained.concat hpresent (Timer.us_le (Nat.le_succ _))⟩

/-- The loop is left. -/
theorem Timed.left {next : Link} (h : link.Timed timer) {frame : Frame} {exit : Exit}
    (hphase : link.phase = .looping frame)
    (hconn : next.conn = { link.conn with inHandshake := false })
    (hnextPhase : next.phase = .leaving frame exit) (hcall : next.call = link.call)
    (hwaits : next.waits = link.waits) (htick : next.tick = link.tick + 1) :
    next.Timed timer := by
  have hsettled := settled_later h.2.1 (Or.inl hcall) htick
  obtain ⟨hbooked, -, hcase⟩ := h
  rw [hphase] at hcase
  refine ⟨?_, hsettled.2, ?_⟩
  · rw [hconn, dataSpans, hwaits]
    exact hbooked
  · rw [hnextPhase, hconn, spans, hwaits]
    exact ⟨rfl, hcase.2.mono hsettled.1⟩

/-- The handshake numbers are recorded. -/
theorem Timed.recorded {next : Link} (h : link.Timed timer) {frame : Frame} {exit : Exit}
    (hphase : link.phase = .leaving frame exit) (hcall : link.call = none)
    (hconn : next.conn = recordHandshake link.conn frame (timer.reading link.tick))
    (hnextPhase : next.phase = .done exit) (hnextCall : next.call = none)
    (hwaits : next.waits = link.waits) : next.Timed timer := by
  have hsettled : link.settled timer = timer.us link.tick := by rw [settled, hcall]; rfl
  have hnextSettled : next.settled timer = timer.us next.tick := by rw [settled, hnextCall]; rfl
  obtain ⟨hbooked, -, hcase⟩ := h
  rw [hphase, hsettled] at hcase
  obtain ⟨hin, hchained⟩ := hcase
  have helapsed : ((timer.reading link.tick).us - frame.t0).toNat
      = timer.us link.tick - frame.t0.toNat :=
    UInt64.toNat_sub_of_le _ _ (UInt64.le_iff_toNat_le.mpr hchained.le)
  refine ⟨?_, hnextSettled.le, ?_⟩
  · rw [hconn, dataSpans, hwaits]
    exact hbooked
  · rw [hnextPhase, hconn, spans, hwaits]
    exact ⟨hin, frame.t0.toNat, timer.us link.tick, hchained, helapsed⟩

theorem waits_endCall (conn : Conn) (call : RecvCall) (result : RecvResult) (clock : Clock)
    (h : link.conn.inHandshake = true) : (link.endCall conn call result clock).waits
      = link.waits ++ [⟨⟨call.tEnter.toNat, clock.us.toNat⟩, result.gotData⟩] := if_pos h

theorem waits_endCall_of_not (conn : Conn) (call : RecvCall) (result : RecvResult)
    (clock : Clock) (h : link.conn.inHandshake = false) :
    (link.endCall conn call result clock).waits = link.waits :=
  if_neg (by rw [h]; exact Bool.false_ne_true)

theorem timed_poll (h : link.Timed timer) : (link.step timer .poll).Timed timer := by
  simp only [step, act]
  split
  · exact h.idle ⟨link.conn.hsTxCalls, rfl⟩ (Or.inl rfl) rfl rfl rfl
  next call hcall =>
    have hledger := ledger_wsslRecvPoll link.conn call (timer.reading link.tick)
    split
    next hresult =>
      rw [hresult, Option.any_none, Bool.false_and, if_neg Bool.false_ne_true] at hledger
      exact h.idle ⟨link.conn.hsTxCalls, hledger⟩ (Or.inl rfl) rfl rfl rfl
    next result hresult =>
      rw [hresult, Option.any_some] at hledger
      have hquiet : link.conn.inHandshake = false →
          Timed timer { link.endCall (wsslRecvPoll link.conn call (timer.reading link.tick)).2
            call result (timer.reading link.tick) with tick := link.tick + 1 } := by
        intro hin
        rw [hin, Bool.and_false, if_neg Bool.false_ne_true] at hledger
        exact h.idle ⟨link.conn.hsTxCalls, hledger⟩ (Or.inr rfl) rfl
          (waits_endCall_of_not link.conn call result _ hin) rfl
      cases hphase : link.phase with
      | looping frame =>
        have hin : link.conn.inHandshake = true := by
          have hcase := h.2.2
          rw [hphase] at hcase
          exact hcase.1
        rw [hin, Bool.and_true] at hledger
        have hflag : (wsslRecvPoll link.conn call (timer.reading link.tick)).2.inHandshake
            = true := by
          have hcongr := congrArg Ledger.inHandshake hledger
          cases hgot : result.gotData <;> simpa [hgot, Conn.ledger, hin] using hcongr
        have hbook := congrArg Ledger.hsNetWaitUs hledger
        rw [apply_ite Ledger.hsNetWaitUs] at hbook
        exact h.returned hphase hcall (waits_endCall link.conn call result _ hin) hflag hbook
          rfl rfl rfl
      | leaving frame exit =>
        have hcase := h.2.2
        rw [hphase] at hcase
        exact hquiet hcase.1
      | done exit =>
        have hcase := h.2.2
        rw [hphase] at hcase
        exact hquiet hcase.1

theorem timed_step (timer : Timer) (link : Link) (event : LinkEvent) (h : link.Timed timer) :
    (link.step timer event).Timed timer := by
  have hsame : ∀ next : Link, next.conn.ledger = link.conn.ledger → next.call = link.call →
      next.phase = link.phase → next.waits = link.waits → next.tick = link.tick + 1 →
      next.Timed timer :=
    fun next hledger hcall hphase hwaits htick ↦
      h.idle ⟨link.conn.hsTxCalls, hledger⟩ (Or.inl hcall) hphase hwaits htick
  cases event with
  | connected err => exact hsame _ (ledger_onConnected _ _) rfl rfl rfl rfl
  | recv chain err => exact hsame _ (ledger_onRecv _ _ _) rfl rfl rfl rfl
  | err code => exact hsame _ (ledger_onErr _ _) rfl rfl rfl rfl
  | enter sz =>
    simp only [step, act]
    split
    next henter =>
      rw [Bool.and_eq_true, Option.isNone_iff_eq_none] at henter
      exact h.enter henter.1 sz
    · exact hsame _ rfl rfl rfl rfl rfl
  | poll => exact timed_poll h
  | send sz e =>
    simp only [step, act]
    split
    · exact h.idle ⟨_, ledger_sendOnce _ _ _⟩ (Or.inl rfl) rfl rfl rfl
    · exact hsame _ rfl rfl rfl rfl rfl
  | round ret sslErr =>
    rcases round_cases timer link ret sslErr with hstays | ⟨frame, exit, hphase, hleaves⟩
    · rw [hstays]
      exact hsame _ rfl rfl rfl rfl rfl
    · rw [hleaves]
      exact h.left hphase rfl rfl rfl rfl rfl
  | record =>
    simp only [step, act]
    split
    next frame exit hcall hphase => exact h.recorded hphase hcall rfl rfl hcall rfl
    · exact hsame _ rfl rfl rfl rfl rfl
  | clearTimeout =>
    simp only [step, act]
    split
    · exact hsame _ rfl rfl rfl rfl rfl
    · exact hsame _ rfl rfl rfl rfl rfl

theorem timed_begin (timer : Timer) (ready : ReadyConn) (tick : ℕ) :
    (begin timer ready tick).Timed timer := by
  refine ⟨?_, Nat.le_refl _, rfl, Timer.us_le (Nat.le_succ tick)⟩
  have hbooked : (begin timer ready tick).conn.hsNetWaitUs = 0 := ready.hsNetWaitUs_eq
  rw [hbooked]
  rfl

theorem timed_run (timer : Timer) (ready : ReadyConn) (tick : ℕ) (events : List LinkEvent) :
    (run (step timer) (begin timer ready tick) events).Timed timer :=
  run_invariant (timed_begin timer ready tick) (timed_step timer) events

/-- After the handshake the calls of `wssl_recv` took no longer than the handshake. -/
theorem Timed.of_done (h : link.Timed timer) {exit : Exit} (hphase : link.phase = .done exit) :
    total link.spans ≤ link.conn.tlsHandshakeUs.toNat ∧
      ∀ wait ∈ link.waits, wait.span.enter ≤ wait.span.leave := by
  obtain ⟨-, -, hcase⟩ := h
  rw [hphase] at hcase
  obtain ⟨-, lo, hi, hchained, htls⟩ := hcase
  constructor
  · have htotal := hchained.total_le
    omega
  · exact fun wait hwait ↦ hchained.enter_le_leave wait.span (List.mem_map_of_mem hwait)

theorem Timed.netWait_le (h : link.Timed timer) {exit : Exit} (hphase : link.phase = .done exit) :
    link.conn.hsNetWaitUs.toNat ≤ link.conn.tlsHandshakeUs.toNat := by
  rw [h.1]
  exact (total_map_filter_le Wait.span Wait.gotData link.waits).trans (h.of_done hphase).1

end Link

/-- The two parts that `tls_get_timings` reports make up the whole. -/
theorem netWait_add_crypto {conn : Conn} (h : conn.hsNetWaitUs.toNat ≤ conn.tlsHandshakeUs.toNat) :
    (tlsGetTimings conn).tlsNetWaitUs.toNat + (tlsGetTimings conn).tlsCryptoUs.toNat
      = (tlsGetTimings conn).tlsUs.toNat := by
  have hle : conn.hsNetWaitUs ≤ conn.tlsHandshakeUs := UInt64.le_iff_toNat_le.mpr h
  simp only [tlsGetTimings]
  split
  · rw [UInt64.toNat_sub_of_le _ _ hle]
    omega
  next hnot =>
    have hge : conn.tlsHandshakeUs.toNat ≤ conn.hsNetWaitUs.toNat := by
      rw [gt_iff_lt, UInt64.lt_iff_toNat_lt] at hnot
      omega
    have hzero : (0 : UInt64).toNat = 0 := rfl
    rw [hzero]
    omega

namespace Link

/-- `tls_net_wait_us` is the time inside `wssl_recv` during the handshake, and `tls_crypto_us` the
rest of the handshake. -/
def NetWaitExact (link : Link) : Prop :=
  (tlsGetTimings link.conn).tlsNetWaitUs.toNat = total link.spans ∧
    (tlsGetTimings link.conn).tlsCryptoUs.toNat + total link.spans
      = (tlsGetTimings link.conn).tlsUs.toNat

/-- Waiting is booked in full exactly when the calls that returned without data took no time. -/
theorem net_wait_exact_iff (timer : Timer) (ready : ReadyConn) (tick : ℕ)
    (events : List LinkEvent) {exit : Exit}
    (h : (run (step timer) (begin timer ready tick) events).phase = .done exit) :
    (run (step timer) (begin timer ready tick) events).NetWaitExact ↔
      ∀ wait ∈ (run (step timer) (begin timer ready tick) events).waits,
        wait.gotData = false → wait.span.leave = wait.span.enter := by
  have htimed := timed_run timer ready tick events
  generalize run (step timer) (begin timer ready tick) events = link at h htimed ⊢
  have horder := (htimed.of_done h).2
  have hsum := netWait_add_crypto (htimed.netWait_le h)
  have hbooked : (tlsGetTimings link.conn).tlsNetWaitUs.toNat = total link.dataSpans := htimed.1
  calc link.NetWaitExact
      ↔ total link.dataSpans = total link.spans := by
        unfold NetWaitExact
        rw [← hbooked]
        constructor
        · exact fun hexact ↦ hexact.1
        · intro heq
          exact ⟨heq, by omega⟩
    _ ↔ ∀ wait ∈ link.waits, wait.gotData = false → wait.span.duration = 0 :=
        total_map_filter_eq_iff Wait.span Wait.gotData link.waits
    _ ↔ ∀ wait ∈ link.waits, wait.gotData = false → wait.span.leave = wait.span.enter := by
        refine forall₂_congr fun wait hwait ↦ imp_congr_right fun _ ↦ ?_
        have hle := horder wait hwait
        unfold Interval.duration
        omega

end Link

/-- A clock that jumps by 15 seconds after two readings. -/
def jumpingTimer : Timer where
  reading tick := if tick < 2 then ⟨0, 0⟩ else ⟨15001000, 15001⟩
  monotone := by
    intro first second hle
    dsimp only
    split_ifs
    · exact Nat.le_refl _
    · exact Nat.zero_le _
    · omega
    · exact Nat.le_refl _

/-- A connection whose TCP handshake is done and on which nothing has been received. -/
def readyConn : ReadyConn where
  conn := { Conn.zeroed with pcb := true, tcpConnected := true, sslCtx := true, ssl := true }
  received := 0
  inHandshake_eq := rfl
  hsNetWaitUs_eq := rfl
  tlsRxBytes_eq := rfl
  tlsTxBytes_eq := rfl

/-- The five bytes of a record header. -/
def headerChain : Pbuf where
  payloads := [[0x16, 0x03, 0x03, 0x00, 0x5A]]
  totLen := 5
  totLen_eq := rfl
  totLen_lt := by decide

/-- The header arrives while wolfSSL waits for it, and the handshake succeeds. -/
def answeredHandshake : List LinkEvent :=
  [.enter 5, .recv (some headerChain) 0, .poll, .round 1 0, .record]

theorem net_wait_exact_answered :
    (run (Link.step jumpingTimer) (Link.begin jumpingTimer readyConn 0)
      answeredHandshake).NetWaitExact := by
  have hdone : (run (Link.step jumpingTimer) (Link.begin jumpingTimer readyConn 0)
      answeredHandshake).phase = .done .connected := by rfl
  refine (Link.net_wait_exact_iff jumpingTimer readyConn 0 answeredHandshake hdone).mpr ?_
  intro wait hwait hgot
  obtain rfl : wait = ⟨⟨0, 15001000⟩, true⟩ := List.mem_singleton.mp hwait
  exact absurd hgot (by decide)

/-- The peer stays silent for 15 seconds, and the handshake fails. -/
def silentHandshake : List LinkEvent := [.enter 5, .poll, .round (-1) (-308), .record]

/-- The 15 seconds in `wssl_recv` are booked as device work. -/
theorem timed_out_wait_booked_as_crypto :
    (run (Link.step jumpingTimer) (Link.begin jumpingTimer readyConn 0)
      silentHandshake).phase = .done (.failed (-308)) ∧
    ¬(run (Link.step jumpingTimer) (Link.begin jumpingTimer readyConn 0)
      silentHandshake).NetWaitExact := by
  refine ⟨by rfl, fun h ↦ ?_⟩
  exact absurd h.1 (by decide)

end TlsTransport

end PqMqtt.Transport
