import PqMqtt.Mqtt.Connect
import PqMqtt.Mqtt.Publish

/-!
# Arguments that do not fit their length fields

Lengths are cast to 16 and 32 bits before the only size check, so an argument that is too long
is shortened and not refused.  A call gives up before a byte is written for two reasons only:
the wrapped CONNECT lengths still exceed the packet buffer, or the transport accepts nothing of
the very first `tls_write`.
-/

namespace PqMqtt.Mqtt

/-- Some argument of the CONNECT is longer than its length field can say. -/
def ConnectArgs.Oversized (args : ConnectArgs) : Prop :=
  65535 < args.clientId.strlen ∨ (∃ topic ∈ args.willTopic, 65535 < topic.strlen) ∨
    ∃ payload ∈ args.willPayload, 65535 < payload.length

/-- The topic is longer than its length field can say, or the packet than a remaining length. -/
def OversizedPublish (topic : CString) (payload : List UInt8) : Prop :=
  65535 < topic.strlen ∨ 268435455 < publishRemainingLength topic payload

/-- The call fails before any byte is written. -/
def Refused {σ : Type*} (before : Conn σ) (result : Bool) (after : Conn σ) : Prop :=
  result = false ∧ after.accepted = before.accepted

section Refusal

variable {σ : Type*} (api : TlsApi σ) (m : Conn σ)

/-- CONNECT is refused exactly when its wrapped lengths do not fit the buffer or the first
`tls_write` accepts nothing. -/
theorem connect_refused_iff (args : ConnectArgs) (out : OutPointers) :
    Refused m (mqttConnectInternal api m args out).1.result
        (mqttConnectInternal api m args out).2 ↔
      251 < args.wrappedRemainingLength ∨
        (api.write (timeUs64 api m).2.device (connectPacket args).written).1 = 0 := by
  by_cases hlarge : 251 < args.wrappedRemainingLength
  · rw [mqttConnectInternal_of_too_large api m out hlarge]
    exact iff_of_true ⟨rfl, rfl⟩ (Or.inl hlarge)
  rw [or_iff_right hlarge, Refused,
    accepted_mqttConnectInternal_eq_iff api m out (Nat.le_of_not_lt hlarge)]
  refine and_iff_right_of_imp fun hrefused ↦ ?_
  -- A refused first write makes `send_all` fail, and with it the call.
  rw [mqttConnectInternal, if_neg (mt args.remLen_gt_iff.mp hlarge)]
  dsimp only
  rw [sendAll_of_refused api (connectPacket_ne_nil args) hrefused]
  rfl

/-- PUBLISH is refused exactly when the first `tls_write` accepts nothing of its header. -/
theorem publish_refused_iff (topic : CString) (payload : List UInt8) (retain : Bool) :
    Refused m (mqttPublishQos0 api m topic payload retain).1
        (mqttPublishQos0 api m topic payload retain).2 ↔
      (api.write m.device (publishHeader topic payload retain)).1 = 0 := by
  have hheader : publishHeader topic payload retain ≠ [] := List.cons_ne_nil _ _
  rw [Refused, accepted_mqttPublishQos0_eq_iff]
  refine and_iff_right_of_imp fun hrefused ↦ ?_
  rw [mqttPublishQos0_eq_sendBlocks, sendBlocks, sendAll_of_refused api hheader hrefused]
  rfl

/-- Oversized arguments are refused exactly when the wrapped CONNECT lengths still exceed the
buffer, or the transport accepts nothing of the first `tls_write`; no PUBLISH is ever refused
for its size. -/
theorem oversized_refused_iff (args : ConnectArgs) (out : OutPointers) (topic : CString)
    (payload : List UInt8) (retain : Bool) :
    ((args.Oversized → Refused m (mqttConnectInternal api m args out).1.result
        (mqttConnectInternal api m args out).2) ↔
      (args.Oversized → 251 < args.wrappedRemainingLength ∨
        (api.write (timeUs64 api m).2.device (connectPacket args).written).1 = 0)) ∧
    ((OversizedPublish topic payload → Refused m (mqttPublishQos0 api m topic payload retain).1
        (mqttPublishQos0 api m topic payload retain).2) ↔
      (OversizedPublish topic payload →
        (api.write m.device (publishHeader topic payload retain)).1 = 0)) :=
  ⟨imp_congr_right fun _ ↦ connect_refused_iff api m args out,
    imp_congr_right fun _ ↦ publish_refused_iff api m topic payload retain⟩

end Refusal

/-- A string of `length` equal letters. -/
def CString.letters (length : ℕ) : CString where
  bytes := List.replicate length 0x61
  noNul h := absurd (List.eq_of_mem_replicate h) (by decide)

@[simp]
theorem CString.strlen_letters (length : ℕ) : (CString.letters length).strlen = length :=
  List.length_replicate

/-- A CONNECT without a will counts its client identifier modulo 65536. -/
theorem wrappedRemainingLength_letters (length : ℕ) :
    (ConnectArgs.mk (CString.letters length) 60 none none false).wrappedRemainingLength =
      12 + length % 65536 := by
  simp [ConnectArgs.wrappedRemainingLength, ConnectArgs.will]

/-- A transport without a script accepts the start of every PUBLISH. -/
theorem unscripted_accepts_header (inbound : List UInt8) (topic : CString)
    (payload : List UInt8) (retain : Bool) :
    (scripted.write (Script.open ⟨[], inbound⟩).device
      (publishHeader topic payload retain)).1 ≠ 0 :=
  Nat.succ_ne_zero _

/-- A client identifier and a topic of 65536 letters are sent as empty strings. -/
theorem oversized_not_refused_65536_letters :
    let m := Script.open ⟨[], [0x20, 0x02, 0x00, 0x00]⟩
    let args : ConnectArgs := ⟨CString.letters 65536, 60, none, none, false⟩
    args.Oversized ∧ OversizedPublish (CString.letters 65536) [] ∧
      ¬ Refused m (mqttConnectInternal scripted m args ⟨true, true⟩).1.result
        (mqttConnectInternal scripted m args ⟨true, true⟩).2 ∧
      ¬ Refused m (mqttPublish scripted m (CString.letters 65536) []).1
        (mqttPublish scripted m (CString.letters 65536) []).2 := by
  intro m args
  have hlong : 65535 < (CString.letters 65536).strlen := by
    rw [CString.strlen_letters]
    norm_num
  refine ⟨Or.inl hlong, Or.inl hlong, ?_, ?_⟩
  · rw [connect_refused_iff, wrappedRemainingLength_letters, not_or]
    exact ⟨by norm_num, (List.length_pos_iff.mpr (connectPacket_ne_nil args)).ne'⟩
  · rw [mqttPublish, publish_refused_iff]
    exact unscripted_accepts_header _ _ _ _

end PqMqtt.Mqtt
