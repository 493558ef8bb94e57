import PqMqtt.Mqtt.Frame
import PqMqtt.Mqtt.Wire

/-!
# CONNECT inside its buffer

`mqtt_connect_internal` composes the packet in an array of 256 bytes after one check of the
remaining length.  With at most 251 bytes behind the fixed header, at most five bytes of fixed
header and all writes in sequence, no write leaves the array, and the reference reader finds the
arguments in what is handed to `send_all`.
-/

namespace PqMqtt.Mqtt

/-! ## Sequential writes -/

namespace PacketBuffer

/-- Writing in sequence, the array was left exactly when more was written than it holds. -/
def Sound (pkt : PacketBuffer) : Prop :=
  pkt.inBounds = true ↔ pkt.written.length ≤ capacity

@[simp]
theorem written_put (pkt : PacketBuffer) (block : List UInt8) :
    (pkt.put block).written = pkt.written ++ block := rfl

@[simp]
theorem written_putField (pkt : PacketBuffer) (len : UInt16) (bytes : List UInt8) :
    (pkt.putField len bytes).written =
      pkt.written ++ (writeU16 len ++ bytes.take len.toNat) := by
  simp [putField]

theorem sound_empty : Sound empty := by
  unfold Sound
  decide

theorem Sound.put {pkt : PacketBuffer} (h : Sound pkt) (block : List UInt8) :
    Sound (pkt.put block) := by
  have hsum : (pkt.written ++ block).length = pkt.written.length + block.length :=
    List.length_append
  unfold Sound at h ⊢
  rw [written_put, hsum, PacketBuffer.put, Bool.and_eq_true, decide_eq_true_eq, h]
  omega

theorem Sound.putField {pkt : PacketBuffer} (h : Sound pkt) (len : UInt16)
    (bytes : List UInt8) : Sound (pkt.putField len bytes) :=
  (h.put (writeU16 len)).put (bytes.take len.toNat)

end PacketBuffer

theorem sound_connectPacket (args : ConnectArgs) : (connectPacket args).Sound := by
  have hfixed := ((((((((PacketBuffer.sound_empty.put [pktConnect]).put
    (encodeRemlen args.remLen)).put [0x00, 0x04]).put [0x4D, 0x51, 0x54, 0x54]).put
    [0x04]).put [args.flags]).put (writeU16 args.keepaliveSec)).putField args.idLen
    args.clientId.bytes)
  unfold connectPacket
  cases args.will with
  | none => exact hfixed
  | some will =>
    exact (hfixed.putField will.1.strlen.toUInt16 will.1.bytes).putField
      will.2.length.toUInt16 will.2

/-! ## Contents -/

namespace ConnectArgs

/-- Remaining length of a CONNECT with these contents. -/
def remainingLength (args : ConnectArgs) : ℕ :=
  10 + 2 + args.clientId.strlen +
    match args.will with
    | some (topic, payload) => 2 + topic.strlen + 2 + payload.length
    | none => 0

/-- The same sum after each length has passed its 16-bit cast. -/
def wrappedRemainingLength (args : ConnectArgs) : ℕ :=
  10 + 2 + args.clientId.strlen % 65536 +
    match args.will with
    | some (topic, payload) => 2 + topic.strlen % 65536 + 2 + payload.length % 65536
    | none => 0

/-- What a CONNECT with these arguments has to say. -/
def contents (args : ConnectArgs) : ConnectPacket where
  protocolName := [0x4D, 0x51, 0x54, 0x54]
  protocolLevel := 4
  cleanSession := true
  keepAlive := args.keepaliveSec.toNat
  clientId := args.clientId.bytes
  will := args.will.map fun (topic, payload) ↦ ⟨topic.bytes, payload, 0, args.willRetain⟩
  userName := none
  password := none

/-- Every string fits the length field it is written with. -/
structure Fits (args : ConnectArgs) : Prop where
  clientId : args.clientId.strlen ≤ 65535
  willTopic : ∀ topic ∈ args.willTopic, topic.strlen ≤ 65535
  willPayload : ∀ payload ∈ args.willPayload, payload.length ≤ 65535

variable {args : ConnectArgs}

theorem Fits.will (h : args.Fits) {will : CString × List UInt8}
    (hwill : args.will = some will) :
    will.1.strlen ≤ 65535 ∧ will.2.length ≤ 65535 := by
  unfold ConnectArgs.will at hwill
  split at hwill
  · next topic payload htopic hpayload =>
    rw [← Option.some.inj hwill]
    exact ⟨h.willTopic topic htopic, h.willPayload payload hpayload⟩
  · exact absurd hwill (by simp)

theorem toNat_toUInt32_cast (length : ℕ) :
    length.toUInt16.toUInt32.toNat = length % 65536 := by
  rw [UInt16.toNat_toUInt32]
  rfl

/-- `rem_len` is the sum of the wrapped lengths. -/
theorem toNat_remLen (args : ConnectArgs) :
    args.remLen.toNat = args.wrappedRemainingLength := by
  have htwelve : (10 + 2 : UInt32).toNat = 12 := rfl
  have htwo : (2 : UInt32).toNat = 2 := rfl
  unfold remLen wrappedRemainingLength idLen
  cases args.will with
  | none =>
    simp only [UInt32.toNat_add, htwelve, toNat_toUInt32_cast]
    omega
  | some will =>
    simp only [UInt32.toNat_add, htwelve, htwo, toNat_toUInt32_cast]
    omega

/-- Lengths that fit are not wrapped. -/
theorem Fits.wrappedRemainingLength_eq (h : args.Fits) :
    args.wrappedRemainingLength = args.remainingLength := by
  have hid : args.clientId.strlen % 65536 = args.clientId.strlen :=
    Nat.mod_eq_of_lt (Nat.lt_succ_of_le h.clientId)
  unfold wrappedRemainingLength remainingLength
  cases hwill : args.will with
  | none => simp only [hid]
  | some will =>
    obtain ⟨htopic, hpayload⟩ := h.will hwill
    simp only [hid, Nat.mod_eq_of_lt (Nat.lt_succ_of_le htopic),
      Nat.mod_eq_of_lt (Nat.lt_succ_of_le hpayload)]

/-- The size check of `mqtt_connect_internal`, as a comparison of numbers. -/
theorem remLen_gt_iff (args : ConnectArgs) :
    args.remLen > 256 - 5 ↔ 251 < args.wrappedRemainingLength := by
  rw [gt_iff_lt, UInt32.lt_iff_toNat_lt, toNat_remLen]
  rfl

theorem flags_of_will_none (h : args.will = none) : args.flags = 0x02 := by
  simp only [flags, h]

theorem flags_of_will_some {will : CString × List UInt8} (h : args.will = some will) :
    args.flags = if args.willRetain then 0x26 else 0x06 := by
  simp only [flags, h]
  cases args.willRetain <;> rfl

/-- The single bits of the flags of a packet with a will. -/
theorem flag_bits_of_will_some {will : CString × List UInt8} (h : args.will = some will) :
    decide (args.flags &&& 0x04 ≠ 0) = true ∧ decide (args.flags &&& 0x80 ≠ 0) = false ∧
      decide (args.flags &&& 0x40 ≠ 0) = false ∧ ((args.flags >>> 3) &&& 0x03).toNat = 0 ∧
      decide (args.flags &&& 0x20 ≠ 0) = args.willRetain := by
  rw [flags_of_will_some h]
  cases args.willRetain <;> decide

end ConnectArgs

/-- The will fields of the packet. -/
def willFields (args : ConnectArgs) : List UInt8 :=
  match args.will with
  | some (topic, payload) => encodeField topic.bytes ++ (encodeField payload ++ [])
  | none => []

/-- Everything behind the fixed header. -/
def connectBody (args : ConnectArgs) : List UInt8 :=
  [0x00, 0x04, 0x4D, 0x51, 0x54, 0x54, 0x04, args.flags] ++ (writeU16 args.keepaliveSec ++
    (encodeField args.clientId.bytes ++ willFields args))

theorem written_connectPacket (args : ConnectArgs) :
    (connectPacket args).written =
      pktConnect :: (encodeRemlen args.remLen ++ (connectBody args ++ [])) := by
  unfold connectPacket connectBody willFields
  cases args.will <;>
    simp [PacketBuffer.empty, encodeField, ConnectArgs.idLen, CString.strlen]

section Fitting

variable {args : ConnectArgs}

theorem length_connectBody (h : args.Fits) :
    (connectBody args).length = args.remainingLength := by
  have hid := length_encodeField h.clientId
  unfold connectBody willFields ConnectArgs.remainingLength
  cases hwill : args.will with
  | none =>
    simp only [List.length_append, List.length_cons, List.length_nil, length_writeU16, hid,
      CString.strlen]
    omega
  | some will =>
    obtain ⟨htopic, hpayload⟩ := h.will hwill
    simp only [List.length_append, List.length_cons, List.length_nil, length_writeU16, hid,
      length_encodeField htopic, length_encodeField hpayload, CString.strlen]
    omega

/-- The payload of the packet is read back as client identifier and will. -/
theorem decodeConnectPayload_connectBody (h : args.Fits) :
    decodeConnectPayload args.flags (encodeField args.clientId.bytes ++ willFields args) =
      some (args.clientId.bytes, args.contents.will, none, none) := by
  unfold decodeConnectPayload
  rw [decodeField_encodeField h.clientId]
  unfold willFields ConnectArgs.contents
  cases hwill : args.will with
  | none =>
    rw [ConnectArgs.flags_of_will_none hwill]
    rfl
  | some will =>
    obtain ⟨htopic, hpayload⟩ := h.will hwill
    obtain ⟨hpresent, huser, hpassword, hqos, hretain⟩ :=
      ConnectArgs.flag_bits_of_will_some hwill
    simp only [Option.bind_eq_bind, Option.bind_some, hpresent, huser, hpassword, hqos, hretain,
      decodeOptionalField, if_true, if_false, Bool.false_eq_true, Option.map_some,
      decodeField_encodeField htopic, decodeField_encodeField hpayload, ne_eq, not_true_eq_false]

theorem connectFlagsValid_flags (args : ConnectArgs) :
    connectFlagsValid args.flags = true ∧ args.flags &&& 0x02 ≠ 0 := by
  cases hwill : args.will with
  | none =>
    rw [ConnectArgs.flags_of_will_none hwill]
    decide
  | some will =>
    rw [ConnectArgs.flags_of_will_some hwill]
    cases args.willRetain <;> decide

theorem decodeConnectBody_connectBody (h : args.Fits) :
    decodeConnectBody (connectBody args) = some args.contents := by
  have hname : ∀ rest, decodeField
      ([0x00, 0x04, 0x4D, 0x51, 0x54, 0x54, 0x04, args.flags] ++ rest) =
        some ([0x4D, 0x51, 0x54, 0x54], 0x04 :: args.flags :: rest) := by
    intro rest
    simp [decodeField, decodeU16]
  obtain ⟨hvalid, hclean⟩ := connectFlagsValid_flags args
  unfold decodeConnectBody connectBody
  rw [hname]
  simp only [Option.bind_eq_bind, Option.bind_some, hvalid, if_true, decodeU16_writeU16,
    decodeConnectPayload_connectBody h, hclean, ConnectArgs.contents, ne_eq, not_false_eq_true,
    decide_true]

/-- The reference reader reads the composed packet back as the arguments. -/
theorem decodeConnect_connectPacket (h : args.Fits) (hsize : args.remainingLength ≤ 251) :
    decodeConnect (connectPacket args).written = some (args.contents, []) := by
  have hlength := length_connectBody h
  have hval : args.remLen.toNat = (connectBody args).length := by
    rw [hlength, args.toNat_remLen, h.wrappedRemainingLength_eq]
  have hheader := decodeFixedHeader_encodeRemlen pktConnect hval (by omega) []
  have hkind : ¬ pktConnect ≠ 0x10 := by decide
  rw [written_connectPacket]
  simp only [decodeConnect, hheader, Option.bind_eq_bind, Option.bind_some, hkind, if_false,
    decodeConnectBody_connectBody h, Option.map_some]

theorem inBounds_connectPacket (h : args.Fits) (hsize : args.remainingLength ≤ 251) :
    (connectPacket args).inBounds = true := by
  have hheader := length_encodeRemlen_le args.remLen
  have hlength := length_connectBody h
  apply (sound_connectPacket args).mpr
  rw [written_connectPacket, PacketBuffer.capacity]
  simp only [List.length_cons, List.length_append, List.length_nil]
  omega

end Fitting

/-! ## The call -/

section Call

variable {σ : Type*} (api : TlsApi σ)

/-- Reading the CONNACK writes nothing. -/
theorem writes_readConnack (conn : Conn σ) : (readConnack api conn).2.writes = conn.writes := by
  have hread : KeptByRead api fun other ↦ other.writes = conn.writes :=
    fun other len hwrites ↦ (writes_tlsRead api other len).trans hwrites
  exact hread.readConnack rfl

/-- A packet that does not fit is refused before anything else happens. -/
theorem mqttConnectInternal_of_too_large (m : Conn σ) {args : ConnectArgs} (out : OutPointers)
    (h : 251 < args.wrappedRemainingLength) :
    mqttConnectInternal api m args out = (.failed out errMqttPacket, m) := by
  rw [mqttConnectInternal, if_pos (args.remLen_gt_iff.mpr h)]

/-- The writes of a packet that fits are those of one `send_all`. -/
theorem writes_mqttConnectInternal (m : Conn σ) {args : ConnectArgs} (out : OutPointers)
    (h : args.wrappedRemainingLength ≤ 251) :
    (mqttConnectInternal api m args out).2.writes =
      (sendAll api (timeUs64 api m).2 (connectPacket args).written).2.writes := by
  have hcheck : ¬ args.remLen > 256 - 5 := by
    rw [args.remLen_gt_iff]
    omega
  have hconnack := writes_readConnack api
    (sendAll api (timeUs64 api m).2 (connectPacket args).written).2
  rw [mqttConnectInternal, if_neg hcheck]
  dsimp only
  split
  · rfl
  · split
    · exact hconnack
    · split <;> exact hconnack

theorem accepted_mqttConnectInternal (m : Conn σ) {args : ConnectArgs} (out : OutPointers)
    (h : args.wrappedRemainingLength ≤ 251) :
    (mqttConnectInternal api m args out).2.accepted =
      (sendAll api (timeUs64 api m).2 (connectPacket args).written).2.accepted := by
  rw [Conn.accepted, writes_mqttConnectInternal api m out h, Conn.accepted]

theorem connectPacket_ne_nil (args : ConnectArgs) : (connectPacket args).written ≠ [] := by
  rw [written_connectPacket]
  exact List.cons_ne_nil pktConnect _

/-- A packet that fits is delivered, whatever the CONNACK says. -/
theorem mqttConnectInternal_delivery (m : Conn σ) {args : ConnectArgs} (out : OutPointers)
    (h : args.wrappedRemainingLength ≤ 251) :
    Delivery m (mqttConnectInternal api m args out).2 (connectPacket args).written
      (sendAll api (timeUs64 api m).2 (connectPacket args).written).1 :=
  (sendAll_delivery api (timeUs64 api m).2 (connectPacket args).written).congr
    (accepted_timeUs64 api m).symm (accepted_mqttConnectInternal api m out h)

/-- CONNECT leaves the stream as it was exactly when its first `tls_write` accepts nothing. -/
theorem accepted_mqttConnectInternal_eq_iff (m : Conn σ) {args : ConnectArgs}
    (out : OutPointers) (h : args.wrappedRemainingLength ≤ 251) :
    (mqttConnectInternal api m args out).2.accepted = m.accepted ↔
      (api.write (timeUs64 api m).2.device (connectPacket args).written).1 = 0 := by
  have hfirst := accepted_sendAll_eq_iff api (timeUs64 api m).2 (connectPacket args).written
  rw [or_iff_right (connectPacket_ne_nil args), accepted_timeUs64] at hfirst
  rw [accepted_mqttConnectInternal api m out h, hfirst]

end Call

/-- CONNECT is exact: a remaining length of at most 251 keeps every write inside the array, and
the one `send_all` of the call is handed a packet that says what the arguments say; anything
longer is refused before a byte is written. -/
theorem connect_exact {σ : Type*} (api : TlsApi σ) (m : Conn σ) (args : ConnectArgs)
    (out : OutPointers) (hargs : args.Fits) :
    (args.remainingLength ≤ 251 →
      (connectPacket args).inBounds = true ∧
      decodeConnect (connectPacket args).written = some (args.contents, []) ∧
      (mqttConnectInternal api m args out).2.writes =
        (sendAll api (timeUs64 api m).2 (connectPacket args).written).2.writes) ∧
    (251 < args.remainingLength →
      mqttConnectInternal api m args out =
        (⟨false, if out.connectUs then some 0 else none,
          if out.errorCode then some (-1102) else none⟩, m)) := by
  have hlength := hargs.wrappedRemainingLength_eq
  constructor
  · intro hsize
    exact ⟨inBounds_connectPacket hargs hsize, decodeConnect_connectPacket hargs hsize,
      writes_mqttConnectInternal api m out (by omega)⟩
  · intro hsize
    exact mqttConnectInternal_of_too_large api m out (by omega)

/-- A retained will, on a transport that takes the packet in two pieces. -/
theorem connect_exact_retained_will :
    let args : ConnectArgs := ⟨⟨[0x70, 0x71], by decide⟩, 60, some ⟨[0x73], by decide⟩,
      some [0x6F, 0x66, 0x66], true⟩
    let m := Script.open ⟨[7], []⟩
    (args.remainingLength ≤ 251 →
      (connectPacket args).inBounds = true ∧
      decodeConnect (connectPacket args).written = some (args.contents, []) ∧
      (mqttConnectInternal scripted m args ⟨true, true⟩).2.writes =
        (sendAll scripted (timeUs64 scripted m).2 (connectPacket args).written).2.writes) ∧
    (251 < args.remainingLength →
      mqttConnectInternal scripted m args ⟨true, true⟩ =
        (⟨false, if true then some 0 else none, if true then some (-1102) else none⟩, m)) :=
  connect_exact scripted (Script.open ⟨[7], []⟩)
    ⟨⟨[0x70, 0x71], by decide⟩, 60, some ⟨[0x73], by decide⟩, some [0x6F, 0x66, 0x66], true⟩
    ⟨true, true⟩ ⟨by decide, by simp [CString.strlen], by simp⟩

end PqMqtt.Mqtt
