import PqMqtt.Firmware.Attempt
import PqMqtt.Mqtt.Session

/-!
# Ownership of the connection object

The connect call allocates the object and closes it at every exit where it returns NULL.  Otherwise
the object belongs to the caller, an attempt or the session of `main`, which gives it up in a call
of `tls_close` or `mqtt_disconnect`.
-/

namespace PqMqtt.Firmware

open Lifecycle Run
open Analysis (AttemptResult)
open Mqtt (Event Phase Session SessionConfig mainCall)
open Transport (ConnectCall ObjectOp Progress Timer zeroedResult)

/-! ## The log of an object -/

/-- The object has been allocated and used, and is not closed. -/
def Held (ops : List ObjectOp) : Prop :=
  ∃ uses, ops = .calloc :: uses ∧ ∀ op ∈ uses, op ≠ .calloc ∧ op ≠ .close

/-- There was no object, or it was allocated, used and closed, in this order. -/
def Released (ops : List ObjectOp) : Prop :=
  ops = [] ∨ ∃ uses, ops = .calloc :: uses ++ [.close] ∧ ∀ op ∈ uses, op ≠ .calloc ∧ op ≠ .close

theorem held_of_live {ops : List ObjectOp} (h : lifetime ObjectOp.effect ops = .live) :
    Held ops := by
  obtain ⟨first, uses, hops, hfirst, huses⟩ := live_iff.mp h
  refine ⟨uses, ?_, fun op hop ↦ op.effect_eq_use_iff.mp (huses op hop)⟩
  rw [hops, first.effect_eq_acquire_iff.mp hfirst]

theorem released_of_gone {ops : List ObjectOp} (h : lifetime ObjectOp.effect ops = .gone) :
    Released ops := by
  obtain ⟨first, uses, last, hops, hfirst, huses, hlast⟩ := gone_iff.mp h
  refine Or.inr ⟨uses, ?_, fun op hop ↦ op.effect_eq_use_iff.mp (huses op hop)⟩
  rw [hops, first.effect_eq_acquire_iff.mp hfirst, last.effect_eq_release_iff.mp hlast]

section Connect

variable {timer : Timer} {γ : Type} {ω : Type*} (call : ConnectCall timer γ)

/-- The object of a connect call is with the caller if it is returned, and else it is released. -/
def Owned (progress : Progress (Option γ)) : Prop :=
  match progress.conn with
  | none => Released progress.ops
  | some _ => Held progress.ops

theorem released_of_failed {progress : Progress (Option γ)} {asked : Bool}
    (h : progress.Failed asked) : Released progress.ops := by
  rcases h.gone with hempty | hgone
  · exact Or.inl hempty
  · exact released_of_gone hgone

theorem owned_connect (result : Option AttemptResult) (tick : ℕ) :
    Owned (call.connect result tick) := by
  have hsettled := call.settled result tick
  unfold Owned
  split
  next hnone => exact released_of_failed (hsettled.failed hnone)
  next conn hsome => exact held_of_live (hsettled.sound hsome).live

/-! ## Attempts -/

variable (setting : AttemptSetting γ ω)

/-- An exchange gives up the object, by `mqtt_disconnect` after a success and by `tls_close` after a
failure. -/
theorem gone_exchangeMqtt {tls : Progress γ} (hlive : lifetime ObjectOp.effect tls.ops = .live)
    (attempt : AttemptResult) :
    lifetime ObjectOp.effect (exchangeMqtt call setting tls attempt).ops = .gone := by
  have hgetter : ((Device.ofProgress tls setting.world).log .getTimings).Live :=
    live_use hlive rfl
  have hconnect : (connectMqtt timer setting tls).2.device.Live :=
    (kept_live setting.wire timer).mqttConnectInternal _ _ hgetter
  have hbandwidth : ((connectMqtt timer setting tls).2.device.log .getBandwidth).Live :=
    hconnect.log rfl
  have htimedOut : (((connectMqtt timer setting tls).2.device.log .getBandwidth).log
      .ioTimedOut).Live := hbandwidth.log rfl
  cases hresult : (connectMqtt timer setting tls).1.result with
  | false =>
    obtain ⟨code, -, -, hfailed⟩ := exchangeMqtt_failed call setting tls attempt hresult
    rw [hfailed]
    exact gone_release htimedOut rfl
  | true =>
    rw [exchangeMqtt_connected call setting tls attempt hresult]
    exact gone_mqttDisconnect setting.wire timer hbandwidth

theorem released_runBenchmarkAttempt (tick : ℕ) :
    Released (runBenchmarkAttempt call setting tick).ops := by
  have hsettled := call.settled (some zeroedResult) tick
  cases hconn : (call.connect (some zeroedResult) tick).conn with
  | none =>
    rw [runBenchmarkAttempt_of_none setting hconn]
    exact released_of_failed (hsettled.failed hconn)
  | some conn =>
    rw [runBenchmarkAttempt_of_some setting hconn]
    exact released_of_gone (gone_exchangeMqtt call setting (hsettled.sound hconn).live _)

end Connect

/-! ## The session of main -/

section Main

variable {timer : Timer} {γ : Type} {ω : Type*}

/-- The connect call of `main`, `tls_connect` or `tls_connect_plain`. -/
def mainConnect (call : ConnectCall timer γ) (tick : ℕ) : Progress (Option γ) :=
  match call with
  | .tls scenario => Transport.TlsTransport.tlsConnect scenario tick
  | .plain scenario => Transport.PlainTransport.tlsConnectPlain timer scenario tick

/-- What `main` asks a connection for before the session. -/
def mainGetters : ConnectCall timer γ → List ObjectOp
  | .tls _ => [.getTimings, .getBandwidth]
  | .plain _ => [.getTimings]

/-- `main` has ended without a connection, or its session runs over one. -/
inductive MainState (γ ω : Type*) where
  | notConnected (ops : List ObjectOp)
  | connected (session : Session (Device γ ω))

namespace MainState

/-- The log of the connection object. -/
def ops : MainState γ ω → List ObjectOp
  | notConnected ops => ops
  | connected session => session.conn.device.ops

/-- `main` has returned. -/
def Ended : MainState γ ω → Prop
  | notConnected _ => True
  | connected session => session.phase = .closed

def start (call : ConnectCall timer γ) (world : ω) (tick : ℕ) : MainState γ ω :=
  let tls := mainConnect call tick
  match tls.conn with
  | none => notConnected tls.ops
  | some conn =>
      connected (Session.start
        { conn := conn, ops := tls.ops ++ mainGetters call, tick := tls.tick, world := world })

def step (cfg : SessionConfig) (wire : Wire γ ω) (timer : Timer) :
    MainState γ ω → Event → MainState γ ω
  | notConnected ops, _ => notConnected ops
  | connected session, event => connected (session.step cfg (wire.api timer) event)

/-- The object is released when `main` ends, and held until then. -/
def Owns (state : MainState γ ω) : Prop :=
  (state.Ended → Released state.ops) ∧ (¬state.Ended → Held state.ops)

end MainState

/-- The state of the object in a phase of the session. -/
def phaseLifetime : Phase → Lifetime
  | .closed => .gone
  | _ => .live

theorem phaseLifetime_of_ne {phase : Phase} (h : phase ≠ .closed) :
    phaseLifetime phase = .live := by
  cases phase with
  | closed => exact absurd rfl h
  | _ => rfl

theorem phaseLifetime_next {phase : Phase} (hclosed : phase ≠ .closed)
    (hdisconnecting : phase ≠ .disconnecting) (ok : Bool) :
    phaseLifetime (phase.next ok) = .live := by
  cases phase with
  | closed => exact absurd rfl hclosed
  | disconnecting => exact absurd rfl hdisconnecting
  | _ => cases ok <;> rfl

variable (cfg : SessionConfig) (wire : Wire γ ω)

/-- Every call of the session but `mqtt_disconnect` keeps a live object. -/
theorem live_mainCall {mqtt : Mqtt.Conn (Device γ ω)} (hlive : mqtt.device.Live) {phase : Phase}
    {event : Event} (hphase : phase ≠ .disconnecting) {call : Mqtt.MainCall mqtt}
    (hcall : mainCall cfg (wire.api timer) mqtt phase event = some call) :
    call.after.device.Live := by
  have hkept := kept_live wire timer
  cases phase with
  | connecting =>
    rw [← Option.some.inj hcall]
    exact hkept.mqttConnectInternal _ _ hlive
  | discovering | announcing | retiring =>
    rw [← Option.some.inj hcall]
    exact hkept.write.mqttPublishQos0 _ _ _ hlive
  | publishing =>
    cases event with
    | turn => exact nomatch hcall
    | reading payload =>
      rw [← Option.some.inj hcall]
      exact hkept.write.mqttPublishQos0 _ _ _ hlive
  | disconnecting => exact absurd rfl hphase
  | closed => exact nomatch hcall

/-- The object follows the phases of the session. -/
theorem lifetime_step {session : Session (Device γ ω)}
    (h : lifetime ObjectOp.effect session.conn.device.ops = phaseLifetime session.phase)
    (event : Event) :
    lifetime ObjectOp.effect (session.step cfg (wire.api timer) event).conn.device.ops
      = phaseLifetime (session.step cfg (wire.api timer) event).phase := by
  unfold Session.step
  split
  · exact h
  next call hcall =>
    by_cases hclosed : session.phase = .closed
    · rw [hclosed] at hcall
      exact nomatch hcall
    have hlive : session.conn.device.Live := h.trans (phaseLifetime_of_ne hclosed)
    by_cases hdisconnecting : session.phase = .disconnecting
    · rw [hdisconnecting] at hcall ⊢
      rw [← Option.some.inj hcall]
      exact gone_mqttDisconnect wire timer hlive
    · rw [phaseLifetime_next hclosed hdisconnecting]
      exact live_mainCall cfg wire hlive hdisconnecting hcall

namespace MainState

/-- The object is released, or follows the phases of the session. -/
def Tracked : MainState γ ω → Prop
  | notConnected ops => Released ops
  | connected session =>
      lifetime ObjectOp.effect session.conn.device.ops = phaseLifetime session.phase

theorem Tracked.owns {state : MainState γ ω} (h : state.Tracked) : state.Owns := by
  cases state with
  | notConnected ops => exact ⟨fun _ ↦ h, fun hrunning ↦ absurd trivial hrunning⟩
  | connected session =>
    constructor
    · intro hended
      have hgone : lifetime ObjectOp.effect session.conn.device.ops = .gone := by
        rw [h, hended]
        rfl
      exact released_of_gone hgone
    · exact fun hrunning ↦ held_of_live (h.trans (phaseLifetime_of_ne hrunning))

theorem tracked_start (call : ConnectCall timer γ) (world : ω) (tick : ℕ) :
    (start call world tick).Tracked := by
  have hconnect : mainConnect call tick = call.connect none tick := by
    cases call <;> rfl
  have hgetters : ∀ op ∈ mainGetters call, op.effect = .use := by
    have hboth : ∀ op ∈ [ObjectOp.getTimings, .getBandwidth], op.effect = .use := by decide
    cases call with
    | tls scenario => exact hboth
    | plain scenario => exact fun op hop ↦ hboth op (List.mem_of_mem_take (i := 1) hop)
  have hsettled := call.settled none tick
  rw [← hconnect] at hsettled
  unfold start
  dsimp only
  split
  next hnone => exact released_of_failed (hsettled.failed hnone)
  next conn hsome => exact live_append (hsettled.sound hsome).live hgetters

theorem tracked_step (state : MainState γ ω) (event : Event) (h : state.Tracked) :
    (state.step cfg wire timer event).Tracked := by
  cases state with
  | notConnected ops => exact h
  | connected session => exact lifetime_step cfg wire h event

theorem owns_run (call : ConnectCall timer γ) (world : ω) (tick : ℕ) (events : List Event) :
    (run (step cfg wire timer) (start call world tick) events).Owns :=
  Tracked.owns (run_invariant (tracked_start call world tick) (tracked_step cfg wire) events)

end MainState

/-- The object of every connect call is closed exactly once and then left alone: by the call when it
returns NULL, in every attempt before its end, and in every run of `main` at its end. -/
theorem connection_released_once (call : ConnectCall timer γ) (setting : AttemptSetting γ ω)
    (result : Option AttemptResult) (tick : ℕ) (events : List Event) :
    Owned (call.connect result tick) ∧ Released (runBenchmarkAttempt call setting tick).ops ∧
      (run (MainState.step cfg setting.wire timer)
        (MainState.start call setting.world tick) events).Owns :=
  ⟨owned_connect call result tick, released_runBenchmarkAttempt call setting tick,
    MainState.owns_run cfg setting.wire call setting.world tick events⟩

end Main

end PqMqtt.Firmware
