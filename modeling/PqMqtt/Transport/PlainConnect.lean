import PqMqtt.Transport.Progress

/-!
# Connecting without TLS

`tls_connect_plain_attempt`, which fills in the result at each exit by hand.  Two of the exits, the
one where lwIP has no pcb and the one where `tcp_connect` fails, save no timings.
-/

namespace PqMqtt.Transport

open Lifecycle
open Analysis (AttemptResult Timings Bandwidth FailureStage)

namespace PlainTransport

/-! ## The code -/

/-- `on_connected` -/
def onConnected (conn : Conn) (err : ℤ) : Conn :=
  if err ≠ 0 then { conn with tcpErrorCode := err, tcpError := true }
  else { conn with tcpConnected := true }

namespace Conn

/-- A callback of lwIP runs. -/
def handle (conn : Conn) : Callback → Conn
  | .connected err => onConnected conn err
  | .recv chain err => (onRecv conn chain err).1
  | .err code => onErr conn code

/-- Callbacks run one after the other. -/
def deliver (conn : Conn) (callbacks : List Callback) : Conn := callbacks.foldl handle conn

/-- `c->dns_us = us;` -/
def setDnsUs (conn : Conn) (us : UInt64) : Conn := { conn with dnsUs := us }

/-- `c->tcp_connect_us = us;` -/
def setTcpConnectUs (conn : Conn) (us : UInt64) : Conn := { conn with tcpConnectUs := us }

end Conn

/-- `tls_get_timings` -/
def tlsGetTimings (conn : Conn) : Timings where
  dnsUs := conn.dnsUs
  tcpUs := conn.tcpConnectUs
  tlsUs := 0
  tlsNetWaitUs := 0
  tlsCryptoUs := 0

/-- `tls_get_bandwidth` -/
def tlsGetBandwidth (conn : Conn) : Bandwidth where
  handshakeRxBytes := 0
  handshakeTxBytes := 0
  totalRxBytes := conn.totalRxBytes
  totalTxBytes := conn.totalTxBytes
  handshakeTxCalls := 0
  handshakeRxCalls := 0

/-- `if (result) result->timings = tls_get_timings(c);` -/
def storeTimings (c : Progress Conn) : Progress Conn :=
  c.save [.getTimings] fun result ↦ { result with timings := tlsGetTimings c.conn }

section Connect

variable (timer : Timer) (scenario : TcpScenario)

/-- The exit at which lwIP has refused the connection. -/
def tcpRefused (c : Progress Conn) (errorCode : ℤ) : Progress (Option Conn) :=
  (c.store fun result ↦ { result with
    failureStage := .tcp, errorCode := Int32.ofInt errorCode }).closed

/-- `tls_connect_plain_attempt` from the TCP loop on. -/
def awaitTcp (c : Progress Conn) : Progress (Option Conn) :=
  let waited := c.map (Conn.deliver · scenario.waiting)
  let checked := waited.map (Conn.deliver · scenario.checking)
  let settled := checked.map (Conn.deliver · scenario.settled)
  -- The loop ends without a flag only by its deadline.
  if !waited.conn.tcpConnected && !waited.conn.tcpError then
    ((storeTimings (checked.recordTcp timer Conn.setTcpConnectUs)).store fun result ↦
      { result with
        failureStage := .tcp, errorCode := Int32.ofInt errTimeout, timedOut := true }).closed
  else if checked.conn.tcpError then
    ((storeTimings (settled.recordTcp timer Conn.setTcpConnectUs)).store fun result ↦
      { result with
        failureStage := .tcp, errorCode := Int32.ofInt settled.conn.tcpErrorCode }).closed
  else (storeTimings (settled.recordTcp timer Conn.setTcpConnectUs)).returned

/-- `tls_connect_plain_attempt` from the opening of the TCP connection on. -/
def openTcp (c : Progress Conn) : Progress (Option Conn) :=
  let c := c.store fun result ↦ { result with tcpStartEpochMs := scenario.wallClock.epochMs }
  if !scenario.pcb then tcpRefused c errMem
  else
    let c := c.map fun conn ↦ { conn with pcb := true }
    if scenario.tcpConnect ≠ 0 then tcpRefused c scenario.tcpConnect
    else awaitTcp timer scenario c

/-- `tls_connect_plain_attempt` -/
def tlsConnectPlainAttempt (result : Option AttemptResult) (tick : ℕ) : Progress (Option Conn) :=
  if !scenario.allocated then .notAllocated result tick
  else
    let c := (Progress.allocated .zeroed result tick).recordDns timer Conn.setDnsUs
    match scenario.dns.out with
    | none =>
        ((storeTimings c).store fun result ↦ { result with
          failureStage := .dns
          errorCode := Int32.ofInt (scenario.dns.errorCode.getD 0)
          timedOut := scenario.dns.expired }).closed
    | some _ => openTcp timer scenario c

/-- `tls_connect_plain` -/
def tlsConnectPlain (tick : ℕ) : Progress (Option Conn) :=
  tlsConnectPlainAttempt timer scenario none tick

end Connect

/-! ## The exits -/

theorem timings_handle (conn : Conn) (callback : Callback) :
    tlsGetTimings (conn.handle callback) = tlsGetTimings conn := by
  cases callback with
  | connected err =>
    simp only [Conn.handle, onConnected]
    split <;> rfl
  | recv chain err =>
    cases chain with
    | none => rfl
    | some chain =>
      simp only [Conn.handle, onRecv]
      split <;> rfl
  | err code => rfl

theorem timings_deliver (conn : Conn) (callbacks : List Callback) :
    tlsGetTimings (conn.deliver callbacks) = tlsGetTimings conn := by
  induction callbacks generalizing conn with
  | nil => rfl
  | cons callback callbacks ih => exact (ih (conn.handle callback)).trans (timings_handle _ _)

variable {timer : Timer} {asked : Bool}

theorem sound_deliver {c : Progress Conn} (h : c.Sound timer tlsGetTimings asked)
    (callbacks : List Callback) :
    (c.map (Conn.deliver · callbacks)).Sound timer tlsGetTimings asked :=
  h.map (timings_deliver c.conn callbacks)

theorem sound_recordTcp {c : Progress Conn} (h : c.Sound timer tlsGetTimings asked) :
    (c.recordTcp timer Conn.setTcpConnectUs).Sound timer tlsGetTimings asked :=
  h.recordTcp fun _ ↦ rfl

/-- An exit that saves the timings. -/
theorem settled_storeTimings {c : Progress Conn} (h : c.Sound timer tlsGetTimings asked)
    {assign : AttemptResult → AttemptResult}
    (htimings : ∀ result, (assign result).timings = result.timings)
    (hstage : ∀ result, (assign result).failureStage ∈ connectStages)
    (htimeout : ∀ result, result.timedOut = false → (assign result).timedOut = true →
      (assign result).errorCode = Int32.ofInt errTimeout) :
    ((storeTimings c).store assign).closed.Settled timer tlsGetTimings asked ∧
      ((storeTimings c).store assign).closed.Retained :=
  h.settled_save (by decide) (fun _ ↦ ⟨rfl, rfl, rfl⟩) (fun _ ↦ htimings _) hstage htimeout

/-- The result has no timings yet. -/
def Untimed (c : Progress Conn) : Prop :=
  ∀ result ∈ c.result, result.timings = zeroedResult.timings

/-- The exits at which lwIP has refused the connection save no timings.  They keep the DNS duration
only if nobody asked for it or it is zero. -/
theorem settled_tcpRefused {c : Progress Conn} (h : c.Sound timer tlsGetTimings asked)
    (huntimed : Untimed c) {us : UInt64} (hdns : c.measured.dns = some us)
    (htcp : c.measured.tcp = none) (errorCode : ℤ) :
    (tcpRefused c errorCode).Settled timer tlsGetTimings asked ∧
      ((tcpRefused c errorCode).Retained ↔ ¬(asked = true ∧ us ≠ 0)) := by
  constructor
  · refine h.failed (fun _ ↦ (by decide : FailureStage.tcp ∈ connectStages)) ?_ ?_
    · intro result hresult hout
      exact absurd hout (by rw [(h.clear result hresult).2.2]; decide)
    · intro result hresult
      rw [huntimed result hresult]
      exact Nat.two_pow_pos 64
  rw [not_and_not_right, ← h.pointer]
  constructor
  · intro hretained hasked
    obtain ⟨result, hresult⟩ := Option.isSome_iff_exists.mp hasked
    have hkept := (hretained rfl _ (Option.map_eq_some_iff.mpr ⟨result, hresult, rfl⟩)).1 us hdns
    rw [huntimed result hresult] at hkept
    exact hkept.symm
  · intro hzero _ stored hstored
    obtain ⟨result, hresult, rfl⟩ := Option.map_eq_some_iff.mp hstored
    have hus : us = 0 := hzero (Option.isSome_of_mem hresult)
    constructor
    · intro measured hmeasured
      have heq : us = measured := Option.some.inj (hdns.symm.trans hmeasured)
      rw [huntimed result hresult, ← heq, hus]
      rfl
    · intro measured hmeasured
      exact nomatch htcp.symm.trans hmeasured

section Connect

variable (scenario : TcpScenario)

theorem settled_awaitTcp {c : Progress Conn} (h : c.Sound timer tlsGetTimings asked) :
    (awaitTcp timer scenario c).Settled timer tlsGetTimings asked ∧
      (awaitTcp timer scenario c).Retained := by
  have hchecked : ((c.map (Conn.deliver · scenario.waiting)).map
      (Conn.deliver · scenario.checking)).Sound timer tlsGetTimings asked :=
    sound_deliver (sound_deliver h scenario.waiting) scenario.checking
  have hsettled := sound_deliver hchecked scenario.settled
  have hstage : FailureStage.tcp ∈ connectStages := by decide
  unfold awaitTcp
  dsimp only
  split
  · exact settled_storeTimings (sound_recordTcp hchecked) (fun _ ↦ rfl) (fun _ ↦ hstage)
      fun _ _ _ ↦ rfl
  split
  · refine settled_storeTimings (sound_recordTcp hsettled) (fun _ ↦ rfl) (fun _ ↦ hstage) ?_
    intro result hclear hout
    exact nomatch hclear.symm.trans hout
  · exact ⟨(sound_recordTcp hsettled).save (by decide) fun _ ↦ ⟨rfl, rfl, rfl⟩,
      fun hnull ↦ (nomatch hnull)⟩

/-- The exits of the TCP phase settle the call.  They keep the durations except where lwIP refuses
the connection. -/
theorem settled_openTcp {c : Progress Conn} (h : c.Sound timer tlsGetTimings asked)
    (huntimed : Untimed c) {us : UInt64} (hdns : c.measured.dns = some us)
    (htcp : c.measured.tcp = none) :
    (openTcp timer scenario c).Settled timer tlsGetTimings asked ∧
      ((openTcp timer scenario c).Retained ↔
        ¬((scenario.pcb = false ∨ scenario.tcpConnect ≠ 0) ∧ asked = true ∧ us ≠ 0)) := by
  have hstored : (c.store fun result ↦ { result with
      tcpStartEpochMs := scenario.wallClock.epochMs }).Sound timer tlsGetTimings asked :=
    h.store fun _ ↦ ⟨rfl, rfl, rfl⟩
  have huntimed' : Untimed (c.store fun result ↦ { result with
      tcpStartEpochMs := scenario.wallClock.epochMs }) := by
    intro stored hresult
    obtain ⟨result, hmem, rfl⟩ := Option.map_eq_some_iff.mp hresult
    exact huntimed result hmem
  unfold openTcp
  generalize hc : c.store _ = stored at hstored huntimed' ⊢
  have hmeasured : stored.measured = c.measured := by
    rw [← hc]
    rfl
  rw [← hmeasured] at hdns htcp
  have hopened : (stored.map fun conn ↦ { conn with pcb := true }).Sound timer tlsGetTimings
      asked := hstored.map rfl
  cases hpcb : scenario.pcb with
  | false =>
    rw [and_iff_right (Or.inl rfl)]
    exact settled_tcpRefused hstored huntimed' hdns htcp errMem
  | true =>
    dsimp only
    rw [if_neg (by decide), or_iff_right (by decide)]
    split
    next hconnect =>
      rw [and_iff_right hconnect]
      exact settled_tcpRefused hopened huntimed' hdns htcp scenario.tcpConnect
    next hconnect =>
      obtain ⟨hwell, hretained⟩ := settled_awaitTcp scenario hopened
      exact ⟨hwell, iff_of_true hretained fun hrefused ↦ hconnect hrefused.1⟩

/-- The DNS phase has ended with an address, lwIP refuses to open the connection, and the caller
asked for the result of a resolution that took time. -/
def ForgetsDns (timer : Timer) (scenario : TcpScenario) (result : Option AttemptResult)
    (tick : ℕ) : Prop :=
  scenario.allocated = true ∧ scenario.dns.out ≠ none ∧
    (scenario.pcb = false ∨ scenario.tcpConnect ≠ 0) ∧ result.isSome = true ∧
    timer.us tick < timer.us (tick + 1)

theorem elapsed_ne_zero_iff (timer : Timer) (tick : ℕ) :
    timer.elapsed tick ≠ 0 ↔ timer.us tick < timer.us (tick + 1) := by
  have hsum := timer.us_add_elapsed tick
  have hzero : timer.elapsed tick = 0 ↔ (timer.elapsed tick).toNat = 0 :=
    UInt64.toNat_inj.symm
  rw [ne_eq, hzero]
  omega

/-- Every exit of `tls_connect_plain_attempt` settles the call.  It keeps the durations of the
phases that ended unless lwIP refuses to open the connection. -/
theorem settled_tlsConnectPlainAttempt (result : Option AttemptResult) (tick : ℕ) :
    (tlsConnectPlainAttempt timer scenario result tick).Settled timer tlsGetTimings
        result.isSome ∧
      ((tlsConnectPlainAttempt timer scenario result tick).Retained ↔
        ¬ForgetsDns timer scenario result tick) := by
  have hallocated : (Progress.allocated Conn.zeroed result tick).Sound timer tlsGetTimings
      result.isSome := Progress.sound_allocated rfl result tick
  have hresolved : ((Progress.allocated Conn.zeroed result tick).recordDns timer
      Conn.setDnsUs).Sound timer tlsGetTimings result.isSome := hallocated.recordDns fun _ ↦ rfl
  have huntimed : Untimed ((Progress.allocated Conn.zeroed result tick).recordDns timer
      Conn.setDnsUs) := by
    intro stored hstored
    obtain ⟨-, -, rfl⟩ := Option.map_eq_some_iff.mp hstored
    rfl
  have hstage : FailureStage.dns ∈ connectStages := by decide
  unfold tlsConnectPlainAttempt ForgetsDns
  cases scenario.allocated with
  | false =>
    exact ⟨Progress.settled_notAllocated result tick,
      iff_of_true (Progress.retained_notAllocated result tick) fun hforgets ↦ (nomatch hforgets.1)⟩
  | true =>
    rw [and_iff_right rfl]
    cases hout : scenario.dns.out with
    | none =>
      refine And.imp_right (fun hretained ↦ iff_of_true hretained fun hforgets ↦ hforgets.1 rfl)
        (settled_storeTimings hresolved (fun _ ↦ rfl) (fun _ ↦ hstage) ?_)
      intro _ _ hexpired
      rw [Verdict.errorCode_of_expired hexpired]
      rfl
    | some addr =>
      rw [and_iff_right (Option.some_ne_none addr), ← elapsed_ne_zero_iff]
      exact settled_openTcp scenario hresolved huntimed rfl rfl

end Connect

end PlainTransport

end PqMqtt.Transport
