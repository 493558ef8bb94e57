import PqMqtt.Foundation.Base128
import PqMqtt.Mqtt.Client

/-!
# MQTT 3.1.1 control packets

A reference reader for the packets the client sends, written from the packet format alone: a
fixed header with a remaining length, and a body that must fill exactly that length.  A reader
returns what the packet says and the bytes after it.  The second half shows that the client's
integer encoders write what the reader expects.
-/

namespace PqMqtt.Mqtt

/-! ## Reading fields -/

/-- Number of bytes in the longest remaining length. -/
def remainingLengthBytes : ℕ := 4

/-- The first byte of a packet, its body, and what follows the packet. -/
def decodeFixedHeader : List UInt8 → Option (UInt8 × List UInt8 × List UInt8)
  | [] => none
  | first :: rest => do
      let (length, rest) ← Base128.decode remainingLengthBytes rest
      if rest.length < length then none
      else some (first, rest.take length, rest.drop length)

/-- A two-byte integer, most significant byte first. -/
def decodeU16 : List UInt8 → Option (ℕ × List UInt8)
  | high :: low :: rest => some (256 * high.toNat + low.toNat, rest)
  | _ => none

/-- A field preceded by its two-byte length. -/
def decodeField (bytes : List UInt8) : Option (List UInt8 × List UInt8) := do
  let (length, rest) ← decodeU16 bytes
  if rest.length < length then none
  else some (rest.take length, rest.drop length)

/-- A field that is present only when a flag says so. -/
def decodeOptionalField (present : Bool) (bytes : List UInt8) :
    Option (Option (List UInt8) × List UInt8) :=
  if present then (decodeField bytes).map fun (field, rest) ↦ (some field, rest)
  else some (none, bytes)

/-! ## PUBLISH -/

/-- Contents of a QoS 0 PUBLISH. -/
structure PublishPacket where
  retain : Bool
  topic : List UInt8
  payload : List UInt8

/-- Read one PUBLISH with QoS 0 and without the duplicate flag. -/
def decodePublish (bytes : List UInt8) : Option (PublishPacket × List UInt8) := do
  let (first, body, rest) ← decodeFixedHeader bytes
  if first &&& 0xFE ≠ 0x30 then none
  else
    let (topic, payload) ← decodeField body
    some (⟨first &&& 0x01 ≠ 0, topic, payload⟩, rest)

/-! ## CONNECT -/

/-- The message the broker publishes when the client disappears. -/
structure Will where
  topic : List UInt8
  message : List UInt8
  qos : ℕ
  retain : Bool

structure ConnectPacket where
  protocolName : List UInt8
  protocolLevel : UInt8
  cleanSession : Bool
  keepAlive : ℕ
  clientId : List UInt8
  will : Option Will
  userName : Option (List UInt8)
  password : Option (List UInt8)

/-- The rules for the connect flags: the lowest bit is reserved, the will bits are clear without
a will, its quality of service is at most 2, and there is no password without a user name. -/
def connectFlagsValid (flags : UInt8) : Bool :=
  flags &&& 0x01 = 0 &&
    (flags &&& 0x04 ≠ 0 || flags &&& 0x38 = 0) &&
    flags &&& 0x18 ≠ 0x18 &&
    (flags &&& 0x80 ≠ 0 || flags &&& 0x40 = 0)

/-- The payload of a CONNECT: client identifier, will topic and message, user name, password. -/
def decodeConnectPayload (flags : UInt8) (bytes : List UInt8) :
    Option (List UInt8 × Option Will × Option (List UInt8) × Option (List UInt8)) := do
  let (clientId, rest) ← decodeField bytes
  let (willTopic, rest) ← decodeOptionalField (flags &&& 0x04 ≠ 0) rest
  let (willMessage, rest) ← decodeOptionalField (flags &&& 0x04 ≠ 0) rest
  let (userName, rest) ← decodeOptionalField (flags &&& 0x80 ≠ 0) rest
  let (password, rest) ← decodeOptionalField (flags &&& 0x40 ≠ 0) rest
  if rest ≠ [] then none
  else
    let will := match willTopic, willMessage with
      | some topic, some message =>
          some ⟨topic, message, ((flags >>> 3) &&& 0x03).toNat, flags &&& 0x20 ≠ 0⟩
      | _, _ => none
    some (clientId, will, userName, password)

/-- The body of a CONNECT. -/
def decodeConnectBody (body : List UInt8) : Option ConnectPacket := do
  let (protocolName, rest) ← decodeField body
  match rest with
  | protocolLevel :: flags :: rest =>
      if connectFlagsValid flags then
        let (keepAlive, rest) ← decodeU16 rest
        let (clientId, will, userName, password) ← decodeConnectPayload flags rest
        some ⟨protocolName, protocolLevel, flags &&& 0x02 ≠ 0, keepAlive, clientId, will,
          userName, password⟩
      else none
  | _ => none

/-- Read one CONNECT. -/
def decodeConnect (bytes : List UInt8) : Option (ConnectPacket × List UInt8) := do
  let (first, body, rest) ← decodeFixedHeader bytes
  if first ≠ 0x10 then none
  else (decodeConnectBody body).map fun packet ↦ (packet, rest)

/-! ## Complete packets -/

/-- The bytes are one complete packet of a kind the client sends. -/
inductive IsPacket : List UInt8 → Prop
  | connect {bytes : List UInt8} (packet : ConnectPacket)
      (h : decodeConnect bytes = some (packet, [])) : IsPacket bytes
  | publish {bytes : List UInt8} (packet : PublishPacket)
      (h : decodePublish bytes = some (packet, [])) : IsPacket bytes
  | disconnect : IsPacket [0xE0, 0x00]

/-! ## What the client's encoders write -/

theorem toNat_shiftRight_seven (val : UInt32) : (val >>> 7).toNat = val.toNat / 128 := by
  rw [UInt32.toNat_shiftRight, Nat.shiftRight_eq_div_pow]
  rfl

theorem toUInt8_and_0x7F (val : UInt32) :
    (val &&& 0x7F).toUInt8 = UInt8.ofNat (val.toNat % 128) := by
  apply UInt8.toNat_inj.mp
  have hmask : (val &&& 0x7F).toNat = val.toNat % 128 := by
    rw [UInt32.toNat_and]
    exact Nat.and_two_pow_sub_one_eq_mod val.toNat 7
  rw [UInt32.toNat_toUInt8, hmask, Base128.toNat_ofNat (by omega)]
  omega

/-- Setting the continuation bit of a seven-bit group adds 128. -/
theorem or_0x80_of_lt {group : ℕ} (h : group < 128) :
    UInt8.ofNat group ||| 0x80 = UInt8.ofNat (group + 128) := by
  revert group
  decide

theorem encodeRemlenRounds_eq (rounds : ℕ) (val : UInt32) :
    encodeRemlenRounds rounds val = Base128.encode rounds val.toNat := by
  induction rounds generalizing val with
  | zero => rfl
  | succ rounds ih =>
    have hnext : val >>> 7 ≠ 0 ↔ ¬ val.toNat / 128 = 0 := by
      rw [Ne, ← UInt32.toNat_inj, toNat_shiftRight_seven]
      rfl
    rw [encodeRemlenRounds, Base128.encode, toUInt8_and_0x7F]
    by_cases hlast : val.toNat / 128 = 0
    · rw [if_pos hlast]
      exact if_neg (fun h ↦ (hnext.mp h) hlast)
    · rw [if_neg hlast]
      refine (if_pos (hnext.mpr hlast)).trans ?_
      rw [or_0x80_of_lt (Nat.mod_lt _ (by norm_num)), ih, toNat_shiftRight_seven]

/-- `encode_remlen` writes the base-128 form of its argument, cut off after four bytes. -/
theorem encodeRemlen_eq (val : UInt32) :
    encodeRemlen val = Base128.encode remainingLengthBytes val.toNat :=
  encodeRemlenRounds_eq 4 val

theorem length_encodeRemlen_le (val : UInt32) : (encodeRemlen val).length ≤ 4 := by
  rw [encodeRemlen_eq]
  exact Base128.length_encode_le 4 val.toNat

@[simp]
theorem length_writeU16 (v : UInt16) : (writeU16 v).length = 2 := rfl

theorem decodeU16_writeU16 (v : UInt16) (rest : List UInt8) :
    decodeU16 (writeU16 v ++ rest) = some (v.toNat, rest) := by
  have hhigh : (v >>> 8).toUInt8.toNat = v.toNat / 256 := by
    have hlt : v.toNat < 65536 := v.toNat_lt
    have hshift : (v >>> 8).toNat = v.toNat / 256 := by
      rw [UInt16.toNat_shiftRight, Nat.shiftRight_eq_div_pow]
      rfl
    rw [UInt16.toNat_toUInt8, hshift]
    omega
  have hlow : (v &&& 0xFF).toUInt8.toNat = v.toNat % 256 := by
    have hmask : (v &&& 0xFF).toNat = v.toNat % 256 := by
      rw [UInt16.toNat_and]
      exact Nat.and_two_pow_sub_one_eq_mod v.toNat 8
    rw [UInt16.toNat_toUInt8, hmask]
    omega
  have hwhole : 256 * (v.toNat / 256) + v.toNat % 256 = v.toNat := Nat.div_add_mod v.toNat 256
  simp only [writeU16, List.cons_append, List.nil_append, decodeU16, hhigh, hlow, hwhole]

/-- The 16-bit cast keeps a length of at most 65535. -/
theorem toNat_toUInt16_of_le {length : ℕ} (h : length ≤ 65535) :
    length.toUInt16.toNat = length :=
  UInt16.toNat_ofNat_of_lt' (by
    have hlt : length < 65536 := by omega
    exact hlt)

/-- A string as the client writes it: its length cast to 16 bits, and as many of its bytes. -/
def encodeField (bytes : List UInt8) : List UInt8 :=
  writeU16 bytes.length.toUInt16 ++ bytes.take bytes.length.toUInt16.toNat

theorem length_encodeField {bytes : List UInt8} (h : bytes.length ≤ 65535) :
    (encodeField bytes).length = 2 + bytes.length := by
  rw [encodeField, toNat_toUInt16_of_le h, List.take_length, List.length_append, length_writeU16]

/-- A string that fits its length field is read back. -/
theorem decodeField_encodeField {bytes : List UInt8} (h : bytes.length ≤ 65535)
    (rest : List UInt8) :
    decodeField (encodeField bytes ++ rest) = some (bytes, rest) := by
  have hlength := toNat_toUInt16_of_le h
  rw [encodeField, hlength, List.take_length, List.append_assoc]
  simp [decodeField, decodeU16_writeU16, hlength]

/-- A header with the true length of the body is read back with that body. -/
theorem decodeFixedHeader_encodeRemlen (first : UInt8) {val : UInt32} {body : List UInt8}
    (hval : val.toNat = body.length) (hbody : body.length ≤ 268435455) (rest : List UInt8) :
    decodeFixedHeader (first :: (encodeRemlen val ++ (body ++ rest))) =
      some (first, body, rest) := by
  have hlength : Base128.decode remainingLengthBytes (encodeRemlen val ++ (body ++ rest)) =
      some (body.length, body ++ rest) := by
    rw [encodeRemlen_eq, hval]
    exact Base128.decode_encode 3 (by norm_num; omega) (body ++ rest)
  simp [decodeFixedHeader, hlength]

end PqMqtt.Mqtt
