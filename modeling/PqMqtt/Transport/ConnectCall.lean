import PqMqtt.Transport.PlainConnect
import PqMqtt.Transport.TlsConnect

/-!
# Connect calls of both transports

The firmware is built with one of the two transports.  A call that fails is to keep the durations of
the phases that ended: the TLS transport does at every exit, the plain transport does not where
lwIP refuses to open the TCP connection.
-/

namespace PqMqtt.Transport

open Analysis (AttemptResult Timings Bandwidth)

/-- A call of `tls_connect_attempt` or of `tls_connect_plain_attempt`, with the type of its
connection object. -/
inductive ConnectCall (timer : Timer) : Type → Type where
  | tls (scenario : TlsTransport.Scenario timer) : ConnectCall timer TlsTransport.Conn
  | plain (scenario : TcpScenario) : ConnectCall timer PlainTransport.Conn

namespace ConnectCall

variable {timer : Timer} {γ : Type}

def connect : ConnectCall timer γ → Option AttemptResult → ℕ → Progress (Option γ)
  | tls scenario => TlsTransport.tlsConnectAttempt scenario
  | plain scenario => PlainTransport.tlsConnectPlainAttempt timer scenario

/-- `tls_get_timings` -/
def getTimings : ConnectCall timer γ → γ → Timings
  | tls _ => TlsTransport.tlsGetTimings
  | plain _ => PlainTransport.tlsGetTimings

/-- `tls_get_bandwidth` -/
def getBandwidth : ConnectCall timer γ → γ → Bandwidth
  | tls _ => TlsTransport.tlsGetBandwidth
  | plain _ => PlainTransport.tlsGetBandwidth

/-- `tls_io_timed_out` -/
def ioTimedOut : ConnectCall timer γ → γ → Bool
  | tls _ => TlsTransport.Conn.ioTimedOut
  | plain _ => PlainTransport.Conn.ioTimedOut

theorem settled (call : ConnectCall timer γ) (result : Option AttemptResult) (tick : ℕ) :
    (call.connect result tick).Settled timer call.getTimings result.isSome := by
  cases call with
  | tls scenario => exact (TlsTransport.settled_tlsConnectCommon scenario result tick).1
  | plain scenario => exact (PlainTransport.settled_tlsConnectPlainAttempt scenario result tick).1

/-- The plain transport resolved the host in some time, lwIP refuses to open the connection, and
the caller asked for the result. -/
def ForgetsDns (call : ConnectCall timer γ) (result : Option AttemptResult) (tick : ℕ) : Prop :=
  match call with
  | tls _ => False
  | plain scenario => PlainTransport.ForgetsDns timer scenario result tick

/-- A failed call keeps the durations of the phases that ended, except when the plain transport
forgets that of the resolution. -/
theorem retained_iff (call : ConnectCall timer γ) (result : Option AttemptResult) (tick : ℕ) :
    (call.connect result tick).Retained ↔ ¬call.ForgetsDns result tick := by
  cases call with
  | tls scenario =>
    exact iff_of_true (TlsTransport.settled_tlsConnectCommon scenario result tick).2 not_false
  | plain scenario => exact (PlainTransport.settled_tlsConnectPlainAttempt scenario result tick).2

end ConnectCall

/-- lwIP has no pcb left. -/
def noPcbScenario : TcpScenario where
  allocated := true
  dns := .cached 0xC0A80001
  wallClock := ⟨1767225600, 0⟩
  pcb := false
  tcpConnect := 0
  waiting := []
  checking := []
  settled := []

/-- The resolution took 15 seconds, and the result says that it took no time. -/
theorem no_pcb_forgets_dns :
    ¬((ConnectCall.plain noPcbScenario : ConnectCall TlsTransport.jumpingTimer _).connect
      (some zeroedResult) 1).Retained := by
  intro h
  have hkept := (h rfl _ rfl).1 _ rfl
  exact absurd hkept (by decide)

end PqMqtt.Transport
