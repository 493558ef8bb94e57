import PqMqtt.Foundation.Framing
import PqMqtt.Foundation.Run
import PqMqtt.Mqtt.Connect
import PqMqtt.Mqtt.Publish

/-!
# The MQTT session of the firmware

The session `main` runs over one connection: CONNECT with a retained will, the discovery message
and the status `online`, state messages until one fails, the status `offline` and DISCONNECT.
Every call is an attempt to put one packet on the accepted stream.  The exits of `main` make
further calls on a connection whose last call failed, so the stream stays framed exactly as long
as the transport refuses to start another packet after a torn one.
-/

namespace PqMqtt.Mqtt

open Run Framing

/-! ## Configuration -/

/-- The strings the session is built from.  They fit the packets they are sent in. -/
structure SessionConfig where
  clientId : CString
  keepaliveSec : UInt16
  stateTopic : CString
  statusTopic : CString
  discoveryTopic : CString
  discoveryJson : List UInt8
  connect_size : 23 + clientId.strlen + statusTopic.strlen ≤ 251
  discoveryTopic_le : discoveryTopic.strlen ≤ 65535
  discovery_size : publishRemainingLength discoveryTopic discoveryJson ≤ 268435455
  stateTopic_le : stateTopic.strlen ≤ 65535

/-- What `build_payload` leaves in `payload[128]` when it reports a positive length. -/
structure StatePayload where
  bytes : List UInt8
  length_pos : 0 < bytes.length
  length_lt : bytes.length < 128

/-- The bytes of an ASCII text. -/
def ascii (text : String) : List UInt8 := text.toList.map fun char ↦ UInt8.ofNat char.toNat

def onlineStatus : List UInt8 := [0x6F, 0x6E, 0x6C, 0x69, 0x6E, 0x65]
def offlineStatus : List UInt8 := [0x6F, 0x66, 0x66, 0x6C, 0x69, 0x6E, 0x65]

namespace SessionConfig

variable (cfg : SessionConfig)

/-- Arguments of the call of `mqtt_connect_with_will` in `main`. -/
def connectArgs : ConnectArgs where
  clientId := cfg.clientId
  keepaliveSec := cfg.keepaliveSec
  willTopic := some cfg.statusTopic
  willPayload := some offlineStatus
  willRetain := true

theorem connectArgs_fits : cfg.connectArgs.Fits where
  clientId := by
    have hsize := cfg.connect_size
    simp only [connectArgs]
    omega
  willTopic topic htopic := by
    have hsize := cfg.connect_size
    rw [← Option.some.inj htopic]
    omega
  willPayload payload hpayload := by
    rw [← Option.some.inj hpayload]
    decide

theorem connectArgs_size : cfg.connectArgs.remainingLength ≤ 251 := by
  have hsize := cfg.connect_size
  simp only [ConnectArgs.remainingLength, ConnectArgs.will, connectArgs, offlineStatus,
    List.length_cons, List.length_nil]
  omega

theorem statusTopic_le : cfg.statusTopic.strlen ≤ 65535 := by
  have hsize := cfg.connect_size
  omega

theorem status_size {status : List UInt8} (h : status.length ≤ 7) :
    publishRemainingLength cfg.statusTopic status ≤ 268435455 := by
  have hsize := cfg.connect_size
  unfold publishRemainingLength
  omega

theorem state_size (payload : StatePayload) :
    publishRemainingLength cfg.stateTopic payload.bytes ≤ 268435455 := by
  have htopic := cfg.stateTopic_le
  have hpayload := payload.length_lt
  unfold publishRemainingLength
  omega

end SessionConfig

/-! ## Calls of the client -/

section Calls

variable {σ : Type*} (api : TlsApi σ)

/-- `publish_home_assistant_discovery` -/
def publishHomeAssistantDiscovery (mqtt : Conn σ) (cfg : SessionConfig) : Bool × Conn σ :=
  mqttPublishRetained api mqtt cfg.discoveryTopic cfg.discoveryJson

/-- `publish_availability` -/
def publishAvailability (mqtt : Conn σ) (cfg : SessionConfig) (status : List UInt8) :
    Bool × Conn σ :=
  mqttPublishRetained api mqtt cfg.statusTopic status

/-- One call of the client on a connection: the packet it sends, what it returns, the connection
it leaves, and how many bytes its first `tls_write` accepted. -/
structure MainCall (before : Conn σ) where
  packet : List UInt8
  result : Bool
  after : Conn σ
  opening : ℕ
  isPacket : IsPacket packet
  delivery : ∃ complete, Delivery before after packet complete
  accepted_eq_iff : after.accepted = before.accepted ↔ opening = 0

namespace MainCall

variable {before : Conn σ}

theorem sent_prefix (call : MainCall before) :
    call.after.accepted.drop before.accepted.length <+: call.packet := by
  obtain ⟨complete, sent, haccepted, hsent, -⟩ := call.delivery
  rwa [haccepted, List.drop_left]

/-- The attempt to send a frame that the call is. -/
def attempt (call : MainCall before) : Attempt UInt8 :=
  ⟨call.packet, call.after.accepted.drop before.accepted.length, call.sent_prefix⟩

theorem accepted_after (call : MainCall before) :
    call.after.accepted = before.accepted ++ call.attempt.sent := by
  obtain ⟨complete, sent, haccepted, -⟩ := call.delivery
  have hsent : call.attempt.sent = sent := by
    change call.after.accepted.drop before.accepted.length = sent
    rw [haccepted, List.drop_left]
  rw [hsent, haccepted]

theorem sent_eq_nil_iff (call : MainCall before) : call.attempt.sent = [] ↔ call.opening = 0 := by
  rw [← call.accepted_eq_iff, call.accepted_after, List.append_right_eq_self]

end MainCall

/-- `mqtt_connect_with_will` in `main` -/
def connectCall (cfg : SessionConfig) (mqtt : Conn σ) : MainCall mqtt :=
  have hsize : cfg.connectArgs.wrappedRemainingLength ≤ 251 :=
    cfg.connectArgs_fits.wrappedRemainingLength_eq.trans_le cfg.connectArgs_size
  { packet := (connectPacket cfg.connectArgs).written
    result := (mqttConnectWithWill api mqtt cfg.connectArgs).1
    after := (mqttConnectWithWill api mqtt cfg.connectArgs).2
    opening := (api.write (timeUs64 api mqtt).2.device (connectPacket cfg.connectArgs).written).1
    isPacket := .connect _ (decodeConnect_connectPacket cfg.connectArgs_fits cfg.connectArgs_size)
    delivery := ⟨_, mqttConnectInternal_delivery api mqtt _ hsize⟩
    accepted_eq_iff := accepted_mqttConnectInternal_eq_iff api mqtt _ hsize }

/-- A publish call whose topic and payload fit. -/
def publishCall (mqtt : Conn σ) {topic : CString} {payload : List UInt8} {retain : Bool}
    (call : Bool × Conn σ) (hcall : call = mqttPublishQos0 api mqtt topic payload retain)
    (htopic : topic.strlen ≤ 65535)
    (hsize : publishRemainingLength topic payload ≤ 268435455) : MainCall mqtt where
  packet := publishBytes topic payload retain
  result := call.1
  after := call.2
  opening := (api.write mqtt.device (publishHeader topic payload retain)).1
  isPacket := .publish _ (decodePublish_publishBytes htopic hsize retain)
  delivery := ⟨_, hcall ▸ mqttPublishQos0_delivery api mqtt topic payload retain⟩
  accepted_eq_iff := hcall ▸ accepted_mqttPublishQos0_eq_iff api mqtt topic payload retain

/-- `mqtt_disconnect` -/
def disconnectCall (mqtt : Conn σ) : MainCall mqtt where
  packet := disconnectPacket
  result := true
  after := mqttDisconnect api mqtt
  opening := (api.write mqtt.device disconnectPacket).1
  isPacket := .disconnect
  delivery := ⟨_, (sendAll_delivery api mqtt disconnectPacket).congr rfl
    (accepted_tlsClose api _)⟩
  accepted_eq_iff := by
    rw [mqttDisconnect, accepted_tlsClose, accepted_sendAll_eq_iff]
    exact or_iff_right (by decide)

end Calls

/-! ## The session -/

/-- Where `main` is: the call it makes next, or the end. -/
inductive Phase where
  | connecting
  | discovering
  | announcing
  | publishing
  | retiring
  | disconnecting
  | closed
deriving DecidableEq

/-- A turn of the publish loop without a reading to send, or with one.  Outside the loop `main`
makes its next call whatever the event. -/
inductive Event where
  | turn
  | reading (payload : StatePayload)

/-- The phase after a call that returned `ok`. -/
def Phase.next : Phase → Bool → Phase
  | .connecting, ok => if !ok then .disconnecting else .discovering
  | .discovering, ok => if !ok then .disconnecting else .announcing
  | .announcing, ok => if !ok then .disconnecting else .publishing
  | .publishing, ok => if !ok then .retiring else .publishing
  | .retiring, _ => .disconnecting
  | .disconnecting, _ => .closed
  | .closed, _ => .closed

/-- The session: its phase, its connection, and every call made so far. -/
structure Session (σ : Type*) where
  phase : Phase
  conn : Conn σ
  calls : List (Attempt UInt8)

section Session

variable {σ : Type*} (cfg : SessionConfig) (api : TlsApi σ)

/-- The call `main` makes in a phase. -/
def mainCall (mqtt : Conn σ) : Phase → Event → Option (MainCall mqtt)
  | .connecting, _ => some (connectCall api cfg mqtt)
  | .discovering, _ =>
      some (publishCall api mqtt (publishHomeAssistantDiscovery api mqtt cfg) rfl
        cfg.discoveryTopic_le cfg.discovery_size)
  | .announcing, _ =>
      some (publishCall api mqtt (publishAvailability api mqtt cfg onlineStatus) rfl
        cfg.statusTopic_le (cfg.status_size (by decide)))
  | .publishing, .turn => none
  | .publishing, .reading payload =>
      some (publishCall api mqtt (mqttPublish api mqtt cfg.stateTopic payload.bytes) rfl
        cfg.stateTopic_le (cfg.state_size payload))
  | .retiring, _ =>
      some (publishCall api mqtt (publishAvailability api mqtt cfg offlineStatus) rfl
        cfg.statusTopic_le (cfg.status_size (by decide)))
  | .disconnecting, _ => some (disconnectCall api mqtt)
  | .closed, _ => none

/-- `main`, from one call to the next. -/
def Session.step (session : Session σ) (event : Event) : Session σ :=
  match mainCall cfg api session.conn session.phase event with
  | none => session
  | some call =>
      { phase := session.phase.next call.result
        conn := call.after
        calls := session.calls ++ [call.attempt] }

/-- A transport connection has just been established. -/
def Session.start (device : σ) : Session σ := ⟨.connecting, ⟨device, []⟩, []⟩

/-- Some call failed after part of its packet was accepted. -/
def Session.Torn (session : Session σ) : Prop := ∃ call ∈ session.calls, call.Torn

/-- The stream is made of complete packets and at most one piece at its end, and nothing was
accepted after a call that left such a piece. -/
def FramingKept (session : Session σ) : Prop :=
  Framed IsPacket session.conn.accepted ∧ SilentAfterTear session.calls

/-- On a torn connection the transport refuses the first `tls_write` of the next call. -/
def RefusedWhenTorn (session : Session σ) (event : Event) : Prop :=
  session.Torn → ∀ call ∈ mainCall cfg api session.conn session.phase event, call.opening = 0

/-- The accepted stream is what the calls sent, and every call sends a packet. -/
def Session.Accounted (session : Session σ) : Prop :=
  session.conn.accepted = stream session.calls ∧ ∀ call ∈ session.calls, IsPacket call.frame

theorem accounted_step (session : Session σ) (event : Event) (h : session.Accounted) :
    (session.step cfg api event).Accounted := by
  obtain ⟨hstream, hpackets⟩ := h
  unfold Session.step
  split
  · exact ⟨hstream, hpackets⟩
  · next call _ =>
    constructor
    · calc call.after.accepted
          = session.conn.accepted ++ call.attempt.sent := call.accepted_after
        _ = stream session.calls ++ stream [call.attempt] := by
          rw [hstream, stream, stream, List.flatMap_singleton]
        _ = stream (session.calls ++ [call.attempt]) := (stream_append _ _).symm
    · intro attempt hattempt
      obtain hearlier | hlast := List.mem_append.mp hattempt
      · exact hpackets attempt hearlier
      · rw [List.mem_singleton.mp hlast]
        exact call.isPacket

theorem accounted_run (device : σ) (events : List Event) :
    (run (Session.step cfg api) (Session.start device) events).Accounted :=
  run_invariant ⟨rfl, by simp [Session.start]⟩ (accounted_step cfg api) events

/-- A step keeps the silence after a tear exactly when its call is refused on a torn connection. -/
theorem silentAfterTear_step_iff (session : Session σ) (event : Event) :
    SilentAfterTear (session.step cfg api event).calls ↔
      SilentAfterTear session.calls ∧ RefusedWhenTorn cfg api session event := by
  unfold Session.step RefusedWhenTorn Session.Torn
  cases hcall : mainCall cfg api session.conn session.phase event with
  | none => simp
  | some call =>
    simp only [silentAfterTear_append_singleton, call.sent_eq_nil_iff, Option.mem_def,
      Option.some.injEq, forall_eq']

/-- The framing survives a run of the session exactly when, at every step, a call made on a torn
connection is refused by its first `tls_write`. -/
theorem framing_kept_iff (device : σ) (events : List Event) :
    FramingKept (run (Session.step cfg api) (Session.start device) events) ↔
      AllSteps (Session.step cfg api) (RefusedWhenTorn cfg api) (Session.start device) events := by
  obtain ⟨hstream, hpackets⟩ := accounted_run cfg api device events
  have hsilent : SilentAfterTear (run (Session.step cfg api) (Session.start device) events).calls ↔
      SilentAfterTear (Session.start device : Session σ).calls ∧
        AllSteps (Session.step cfg api) (RefusedWhenTorn cfg api) (Session.start device) events :=
    @run_iff_allSteps _ _ _ _ (fun session ↦ SilentAfterTear session.calls)
      (silentAfterTear_step_iff cfg api) (Session.start device) events
  have hstart : SilentAfterTear (Session.start device).calls := silentAfterTear_nil
  rw [and_iff_right hstart] at hsilent
  rw [← hsilent, FramingKept, hstream]
  exact and_iff_right_of_imp (framed_of_silentAfterTear hpackets)

end Session

/-! ## The two boards -/

/-- `home_assistant_discovery_json`, piece by piece; `component` is the part that depends on the
sensor. -/
def homeAssistantDiscoveryJson (deviceId deviceName deviceModel stateTopic statusTopic : String)
    (component : List String) : List UInt8 :=
  (["\x7b\"dev\":\x7b\"ids\":\"", deviceId, "\",\"name\":\"", deviceName,
    "\",\"mf\":\"Raspberry Pi\",\"mdl\":\"", deviceModel, "\",\"sw\":\"pq-mqtt-1.0\"\x7d,",
    "\"o\":\x7b\"name\":\"pico-pqc-mqtt\",", "\"sw\":\"1.0\"\x7d,",
    "\"state_topic\":\"", stateTopic, "\",\"availability_topic\":\"", statusTopic,
    "\",\"payload_available\":\"online\",", "\"payload_not_available\":\"offline\",",
    "\"qos\":0,\"cmps\":\x7b"] ++ component ++ ["\x7d\x7d"]).flatMap ascii

/-- The configuration without `MQTT_BOARD_PICO2W`. -/
def picoW : SessionConfig where
  clientId := ⟨ascii "picow-pq", by decide⟩
  keepaliveSec := 60
  stateTopic := ⟨ascii "picow_pq/state", by decide⟩
  statusTopic := ⟨ascii "picow_pq/status", by decide⟩
  discoveryTopic := ⟨ascii "homeassistant/device/picow_pq/config", by decide⟩
  discoveryJson := homeAssistantDiscoveryJson "picow_pq_001" "Pico W PQ Temperature Sensor"
    "Pico W" "picow_pq/state" "picow_pq/status"
    ["\"temperature\":\x7b\"p\":\"sensor\",", "\"unique_id\":\"picow_pq_001_temperature\",",
      "\"device_class\":\"temperature\",", "\"state_class\":\"measurement\",",
      "\"unit_of_measurement\":\"\\u00b0C\",",
      "\"value_template\":\"\x7b\x7b value_json.temperature_c \x7d\x7d\"\x7d"]
  connect_size := by decide
  discoveryTopic_le := by decide
  discovery_size := by decide +kernel
  stateTopic_le := by decide

/-- The configuration with `MQTT_BOARD_PICO2W`. -/
def pico2W : SessionConfig where
  clientId := ⟨ascii "pico2w-pq", by decide⟩
  keepaliveSec := 60
  stateTopic := ⟨ascii "pico2w_pq/state", by decide⟩
  statusTopic := ⟨ascii "pico2w_pq/status", by decide⟩
  discoveryTopic := ⟨ascii "homeassistant/device/pico2w_pq/config", by decide⟩
  discoveryJson := homeAssistantDiscoveryJson "pico2w_pq_001" "Pico 2 W PQ Humidity Sensor"
    "Pico 2 W" "pico2w_pq/state" "pico2w_pq/status"
    ["\"humidity\":\x7b\"p\":\"sensor\",", "\"unique_id\":\"pico2w_pq_001_humidity\",",
      "\"device_class\":\"humidity\",", "\"state_class\":\"measurement\",",
      "\"unit_of_measurement\":\"%\",",
      "\"value_template\":\"\x7b\x7b value_json.humidity_percent \x7d\x7d\"\x7d"]
  connect_size := by decide
  discoveryTopic_le := by decide
  discovery_size := by decide +kernel
  stateTopic_le := by decide

/-- Everything is accepted except the eleventh `tls_write`, the topic length of the first state
message; the CONNACK accepts the connection. -/
def tornStateScript : Script where
  outcomes := List.replicate 10 1000 ++ [0]
  inbound := [0x20, 0x02, 0x00, 0x00]

/-- A reading of 21.50 degrees. -/
def sampleReading : StatePayload where
  bytes := ascii "\x7b\"temperature_c\":21.50\x7d"
  length_pos := by decide
  length_lt := by decide

/-- After the header of the state message, the status `offline` and DISCONNECT follow in the
stream. -/
theorem framing_broken_by_torn_state_message :
    ¬ FramingKept (run (Session.step picoW scripted) (Session.start tornStateScript)
      [.turn, .turn, .turn, .reading sampleReading, .turn, .turn]) := by
  have hloud : ¬ SilentAfterTear (run (Session.step picoW scripted)
      (Session.start tornStateScript)
      [.turn, .turn, .turn, .reading sampleReading, .turn, .turn]).calls := by
    decide +kernel
  exact fun hkept ↦ hloud hkept.2

end PqMqtt.Mqtt
