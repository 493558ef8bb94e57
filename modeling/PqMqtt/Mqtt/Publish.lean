import PqMqtt.Mqtt.Delivery
import PqMqtt.Mqtt.Wire

/-!
# PUBLISH under short writes

The four buffers of `mqtt_publish_qos0` are together one QoS 0 PUBLISH of the arguments, as long
as the topic fits its length field and the body fits the remaining length.  Since the chain of
`send_all` calls delivers their concatenation, the broker sees that packet or a proper prefix of
it, whatever the transport does.
-/

namespace PqMqtt.Mqtt

/-- The buffers of `mqtt_publish_qos0`, one after the other. -/
def publishBytes (topic : CString) (payload : List UInt8) (retain : Bool) : List UInt8 :=
  publishHeader topic payload retain ++ (encodeField topic.bytes ++ payload)

/-- Remaining length of a PUBLISH with these contents. -/
def publishRemainingLength (topic : CString) (payload : List UInt8) : ℕ :=
  2 + topic.strlen + payload.length

theorem mqttPublishQos0_delivery {σ : Type*} (api : TlsApi σ) (m : Conn σ) (topic : CString)
    (payload : List UInt8) (retain : Bool) :
    Delivery m (mqttPublishQos0 api m topic payload retain).2
      (publishBytes topic payload retain) (mqttPublishQos0 api m topic payload retain).1 := by
  have hblocks := sendBlocks_delivery api m [publishHeader topic payload retain,
    writeU16 (publishTopicLen topic), topic.bytes.take (publishTopicLen topic).toNat, payload]
  have hbytes : publishBytes topic payload retain = [publishHeader topic payload retain,
      writeU16 (publishTopicLen topic), topic.bytes.take (publishTopicLen topic).toNat,
      payload].flatten := by
    simp [publishBytes, encodeField, publishTopicLen, CString.strlen]
  rw [mqttPublishQos0_eq_sendBlocks, hbytes]
  exact hblocks

/-- PUBLISH leaves the stream as it was exactly when its first `tls_write` accepts nothing. -/
theorem accepted_mqttPublishQos0_eq_iff {σ : Type*} (api : TlsApi σ) (m : Conn σ)
    (topic : CString) (payload : List UInt8) (retain : Bool) :
    (mqttPublishQos0 api m topic payload retain).2.accepted = m.accepted ↔
      (api.write m.device (publishHeader topic payload retain)).1 = 0 := by
  rw [mqttPublishQos0_eq_sendBlocks]
  exact accepted_sendBlocks_eq_iff api m (List.cons_ne_nil _ _) _

theorem publishRemLen_toNat {topic : CString} {payload : List UInt8}
    (htopic : topic.strlen ≤ 65535)
    (hsize : publishRemainingLength topic payload ≤ 268435455) :
    (publishRemLen topic payload).toNat = publishRemainingLength topic payload := by
  unfold publishRemainingLength at hsize ⊢
  have htopicLen : (publishTopicLen topic).toUInt32.toNat = topic.strlen := by
    rw [UInt16.toNat_toUInt32]
    exact toNat_toUInt16_of_le htopic
  have hpayload : payload.length.toUInt32.toNat = payload.length :=
    UInt32.toNat_ofNat_of_lt' (by
      have hlt : payload.length < 4294967296 := by omega
      exact hlt)
  rw [publishRemLen, UInt32.toNat_add, UInt32.toNat_add, htopicLen, hpayload]
  have htwo : (2 : UInt32).toNat = 2 := rfl
  rw [htwo]
  omega

/-- The fixed header byte carries the retain flag and nothing else. -/
theorem publish_first_byte (retain : Bool) :
    let first := pktPublish ||| if retain then 0x01 else 0x00
    first &&& 0xFE = 0x30 ∧ (first &&& 0x01 ≠ 0 ↔ retain = true) := by
  cases retain <;> decide

/-- The reference reader reads the client's bytes back as the arguments. -/
theorem decodePublish_publishBytes {topic : CString} {payload : List UInt8}
    (htopic : topic.strlen ≤ 65535)
    (hsize : publishRemainingLength topic payload ≤ 268435455) (retain : Bool) :
    decodePublish (publishBytes topic payload retain) =
      some (⟨retain, topic.bytes, payload⟩, []) := by
  have hfield := decodeField_encodeField htopic payload
  have hbody : (publishRemLen topic payload).toNat =
      (encodeField topic.bytes ++ payload).length := by
    rw [publishRemLen_toNat htopic hsize, List.length_append, length_encodeField htopic]
    rfl
  have hheader := decodeFixedHeader_encodeRemlen (pktPublish ||| if retain then 0x01 else 0x00)
    hbody (by rwa [← hbody, publishRemLen_toNat htopic hsize]) []
  obtain ⟨hkind, hretain⟩ := publish_first_byte retain
  rw [publishBytes, publishHeader, List.cons_append]
  rw [List.append_nil] at hheader
  simp only [decodePublish, hheader, Option.bind_eq_bind, Option.bind_some, hkind, ne_eq,
    not_true_eq_false, if_false, hfield, hretain, Bool.decide_eq_true]

/-- One call of a publish function is exact: the packet says what was asked for, success leaves
exactly that packet in the accepted stream and failure a proper prefix of it. -/
structure PublishExact {σ : Type*} (before : Conn σ) (call : Bool × Conn σ)
    (packet : List UInt8) (contents : PublishPacket) : Prop where
  decodes : decodePublish packet = some (contents, [])
  delivers : ∃ sent, call.2.accepted = before.accepted ++ sent ∧
    (call.1 = true → sent = packet) ∧ (call.1 = false → sent <+: packet ∧ sent ≠ packet)

theorem publishExact_mqttPublishQos0 {σ : Type*} (api : TlsApi σ) (m : Conn σ)
    {topic : CString} {payload : List UInt8} (htopic : topic.strlen ≤ 65535)
    (hsize : publishRemainingLength topic payload ≤ 268435455) (retain : Bool) :
    PublishExact m (mqttPublishQos0 api m topic payload retain)
      (publishBytes topic payload retain) ⟨retain, topic.bytes, payload⟩ := by
  refine ⟨decodePublish_publishBytes htopic hsize retain, ?_⟩
  obtain ⟨sent, haccepted, hsent, hresult⟩ :=
    mqttPublishQos0_delivery api m topic payload retain
  refine ⟨sent, haccepted, hresult.mp, fun hfailed ↦ ⟨hsent, fun hall ↦ ?_⟩⟩
  rw [hresult.mpr hall] at hfailed
  exact absurd hfailed (by decide)

/-- Both publish functions are exact for every transport, every topic of at most 65535 bytes and
every payload that fits the remaining length. -/
theorem publish_exact {σ : Type*} (api : TlsApi σ) (m : Conn σ) (topic : CString)
    (payload : List UInt8) (htopic : topic.strlen ≤ 65535)
    (hsize : 2 + topic.strlen + payload.length ≤ 268435455) :
    PublishExact m (mqttPublish api m topic payload) (publishBytes topic payload false)
        ⟨false, topic.bytes, payload⟩ ∧
      PublishExact m (mqttPublishRetained api m topic payload)
        (publishBytes topic payload true) ⟨true, topic.bytes, payload⟩ :=
  ⟨publishExact_mqttPublishQos0 api m htopic hsize false,
    publishExact_mqttPublishQos0 api m htopic hsize true⟩

/-- A transport that takes one byte at a time and then fails inside the topic. -/
theorem publish_exact_one_byte_writes :
    let m := Script.open ⟨[1, 1, 1, 1, 1, 0], []⟩
    let topic : CString := ⟨[0x61, 0x2F, 0x62], by decide⟩
    PublishExact m (mqttPublish scripted m topic [0x31, 0x32])
        (publishBytes topic [0x31, 0x32] false) ⟨false, topic.bytes, [0x31, 0x32]⟩ ∧
      PublishExact m (mqttPublishRetained scripted m topic [0x31, 0x32])
        (publishBytes topic [0x31, 0x32] true) ⟨true, topic.bytes, [0x31, 0x32]⟩ :=
  publish_exact scripted (Script.open ⟨[1, 1, 1, 1, 1, 0], []⟩) ⟨[0x61, 0x2F, 0x62], by decide⟩
    [0x31, 0x32] (by decide) (by decide)

end PqMqtt.Mqtt
