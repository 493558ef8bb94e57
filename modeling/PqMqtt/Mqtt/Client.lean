import Mathlib.Tactic
import PqMqtt.Mqtt.TlsApi

/-!
# The MQTT client

`mqtt.c`, over any transport.  Lengths pass through the casts the code makes, so `UInt16` and
`UInt32` stand where it has `uint16_t` and `uint32_t`, and `Nat.toUInt16`, `Nat.toUInt32` are the
casts.  The CONNECT packet is composed in a buffer of 256 bytes which remembers whether some
write left it.  `mqtt_client_t` holds nothing the functions use but its connection.
-/

namespace PqMqtt.Mqtt

/-- A NUL-terminated string: its bytes before the terminator. -/
structure CString where
  bytes : List UInt8
  noNul : (0 : UInt8) ∉ bytes

def CString.strlen (text : CString) : ℕ := text.bytes.length

/-! ## Constants -/

def pktConnect : UInt8 := 0x10
def pktConnack : UInt8 := 0x20
def pktPublish : UInt8 := 0x30
def pktDisconnect : UInt8 := 0xE0

/-- `TLS_ATTEMPT_ERR_MQTT_SEND` -/
def errMqttSend : ℤ := -1101

/-- `TLS_ATTEMPT_ERR_MQTT_PACKET` -/
def errMqttPacket : ℤ := -1102

/-! ## Integers on the wire -/

/-- The `do` loop of `encode_remlen`, with the number of rounds `i < 4` still allows. -/
def encodeRemlenRounds : ℕ → UInt32 → List UInt8
  | 0, _ => []
  | rounds + 1, val =>
      let byte := (val &&& 0x7F).toUInt8
      let val := val >>> 7
      if val ≠ 0 then (byte ||| 0x80) :: encodeRemlenRounds rounds val else [byte]

/-- `encode_remlen` -/
def encodeRemlen (val : UInt32) : List UInt8 := encodeRemlenRounds 4 val

/-- `write_u16` -/
def writeU16 (v : UInt16) : List UInt8 := [(v >>> 8).toUInt8, (v &&& 0xFF).toUInt8]

/-! ## Low-level send and receive -/

section LowLevel

variable {σ : Type*} (api : TlsApi σ)

/-- `send_all`; `buf` is what the loop has not sent yet. -/
def sendAll (conn : Conn σ) (buf : List UInt8) : Bool × Conn σ :=
  if buf = [] then (true, conn)
  else
    let outcome := tlsWrite api conn buf
    if outcome.1 = 0 then (false, outcome.2)
    else sendAll outcome.2 (buf.drop outcome.1)
termination_by buf.length
decreasing_by
  have hlength : 0 < buf.length := List.length_pos_iff.mpr ‹_›
  have hcount : (tlsWrite api conn buf).1 ≠ 0 := ‹_›
  rw [List.length_drop]
  exact Nat.sub_lt hlength (Nat.pos_of_ne_zero hcount)

/-- `recv_byte` -/
def recvByte (conn : Conn σ) : Option UInt8 × Conn σ :=
  let outcome := tlsRead api conn 1
  match outcome.1 with
  | [byte] => (some byte, outcome.2)
  | _ => (none, outcome.2)

/-- The loop of `recv_remlen` over the shifts that `shift < 28` still allows. -/
def recvRemlenRounds : List UInt32 → UInt32 → Conn σ → UInt32 × Conn σ
  | [], val, conn => (val, conn)
  | shift :: shifts, val, conn =>
      let outcome := recvByte api conn
      match outcome.1 with
      | none => (0xFFFFFFFF, outcome.2)
      | some b =>
          let val := val ||| ((b &&& 0x7F).toUInt32 <<< shift)
          if b &&& 0x80 ≠ 0 then recvRemlenRounds shifts val outcome.2 else (val, outcome.2)

/-- `recv_remlen` -/
def recvRemlen (conn : Conn σ) : UInt32 × Conn σ := recvRemlenRounds api [0, 7, 14, 21] 0 conn

/-- `drain` -/
def drain (conn : Conn σ) (n : ℕ) : Bool × Conn σ :=
  if n = 0 then (true, conn)
  else
    let outcome := tlsRead api conn (min n 32)
    if outcome.1 = [] then (false, outcome.2)
    else drain outcome.2 (n - outcome.1.length)
termination_by n
decreasing_by
  have hlength : 0 < (tlsRead api conn (min n 32)).1.length := List.length_pos_iff.mpr ‹_›
  exact Nat.sub_lt (Nat.pos_of_ne_zero ‹_›) hlength

end LowLevel

/-! ## CONNECT -/

/-- Arguments of `mqtt_connect_internal`.  A will payload comes with its length, which the code
reads only when the pointer is not NULL. -/
structure ConnectArgs where
  clientId : CString
  keepaliveSec : UInt16
  willTopic : Option CString
  willPayload : Option (List UInt8)
  willRetain : Bool

namespace ConnectArgs

variable (args : ConnectArgs)

def idLen : UInt16 := args.clientId.strlen.toUInt16

/-- `has_will`, with the topic and the payload it is about. -/
def will : Option (CString × List UInt8) :=
  match args.willTopic, args.willPayload with
  | some topic, some payload => some (topic, payload)
  | _, _ => none

/-- `rem_len` -/
def remLen : UInt32 :=
  let remLen := 10 + 2 + args.idLen.toUInt32
  match args.will with
  | some (topic, payload) =>
      remLen + (2 + topic.strlen.toUInt16.toUInt32 + 2 + payload.length.toUInt16.toUInt32)
  | none => remLen

/-- `flags` -/
def flags : UInt8 :=
  let flags : UInt8 := 0x02
  match args.will with
  | some _ => if args.willRetain then flags ||| 0x04 ||| 0x20 else flags ||| 0x04
  | none => flags

end ConnectArgs

/-- `uint8_t pkt[256]` together with `pos`: the bytes before `pos`, and whether every write so
far stayed inside the array. -/
structure PacketBuffer where
  written : List UInt8
  inBounds : Bool

namespace PacketBuffer

/-- `sizeof(pkt)` -/
def capacity : ℕ := 256

def empty : PacketBuffer := ⟨[], true⟩

/-- Write a block at `pos` and advance. -/
def put (pkt : PacketBuffer) (block : List UInt8) : PacketBuffer :=
  { written := pkt.written ++ block
    inBounds := pkt.inBounds && pkt.written.length + block.length ≤ capacity }

/-- A length field and as many bytes as it says. -/
def putField (pkt : PacketBuffer) (len : UInt16) (bytes : List UInt8) : PacketBuffer :=
  (pkt.put (writeU16 len)).put (bytes.take len.toNat)

end PacketBuffer

/-- The CONNECT packet `mqtt_connect_internal` composes. -/
def connectPacket (args : ConnectArgs) : PacketBuffer :=
  let pkt := PacketBuffer.empty
    |>.put [pktConnect]
    |>.put (encodeRemlen args.remLen)
    |>.put [0x00, 0x04]
    |>.put [0x4D, 0x51, 0x54, 0x54]
    |>.put [0x04]
    |>.put [args.flags]
    |>.put (writeU16 args.keepaliveSec)
    |>.putField args.idLen args.clientId.bytes
  match args.will with
  | some (topic, payload) =>
      (pkt.putField topic.strlen.toUInt16 topic.bytes).putField payload.length.toUInt16 payload
  | none => pkt

/-- Which of the pointers `connect_us` and `error_code` are not NULL. -/
structure OutPointers where
  connectUs : Bool
  errorCode : Bool

/-- Return value of `mqtt_connect_internal` and what it stores behind its out pointers. -/
structure ConnectOutcome where
  result : Bool
  connectUs : Option UInt64
  errorCode : Option ℤ

namespace ConnectOutcome

def failed (out : OutPointers) (code : ℤ) : ConnectOutcome where
  result := false
  connectUs := if out.connectUs then some 0 else none
  errorCode := if out.errorCode then some code else none

def connected (out : OutPointers) (us : Option UInt64) : ConnectOutcome where
  result := true
  connectUs := us
  errorCode := if out.errorCode then some 0 else none

end ConnectOutcome

section Connect

variable {σ : Type*} (api : TlsApi σ)

/-- The CONNACK body, `rlen` bytes of it, and the code it is refused with. -/
def readConnackBody (conn : Conn σ) (rlen : UInt32) : Except ℤ Unit × Conn σ :=
  let body := tlsRead api conn 2
  match body.1 with
  | [_, code] =>
      let drained := if rlen > 2 then drain api body.2 (rlen - 2).toNat else (true, body.2)
      if !drained.1 then (.error errMqttPacket, drained.2)
      else if code ≠ 0x00 then (.error code.toNat, drained.2)
      else (.ok (), drained.2)
  | _ => (.error errMqttPacket, body.2)

/-- From the first CONNACK byte to the verdict: what `mqtt_connect_internal` does once the
CONNECT packet is sent. -/
def readConnack (conn : Conn σ) : Except ℤ Unit × Conn σ :=
  let type := recvByte api conn
  if type.1 ≠ some pktConnack then (.error errMqttPacket, type.2)
  else
    let rlen := recvRemlen api type.2
    if rlen.1 = 0xFFFFFFFF ∨ rlen.1 < 2 then (.error errMqttPacket, rlen.2)
    else readConnackBody api rlen.2 rlen.1

/-- `mqtt_connect_internal` -/
def mqttConnectInternal (m : Conn σ) (args : ConnectArgs) (out : OutPointers) :
    ConnectOutcome × Conn σ :=
  if args.remLen > 256 - 5 then (.failed out errMqttPacket, m)
  else
    let t0 := timeUs64 api m
    let sent := sendAll api t0.2 (connectPacket args).written
    if !sent.1 then (.failed out errMqttSend, sent.2)
    else
      let connack := readConnack api sent.2
      match connack.1 with
      | .error code => (.failed out code, connack.2)
      | .ok () =>
          if out.connectUs then
            let now := timeUs64 api connack.2
            (.connected out (some (now.1 - t0.1)), now.2)
          else (.connected out none, connack.2)

/-- `mqtt_connect` -/
def mqttConnect (m : Conn σ) (clientId : CString) (keepaliveSec : UInt16) : Bool × Conn σ :=
  let outcome := mqttConnectInternal api m ⟨clientId, keepaliveSec, none, none, false⟩
    ⟨false, false⟩
  (outcome.1.result, outcome.2)

/-- `mqtt_connect_measured`, `mqtt_connect_measured_attempt` -/
def mqttConnectMeasured (m : Conn σ) (clientId : CString) (keepaliveSec : UInt16)
    (out : OutPointers) : ConnectOutcome × Conn σ :=
  mqttConnectInternal api m ⟨clientId, keepaliveSec, none, none, false⟩ out

/-- `mqtt_connect_with_will` -/
def mqttConnectWithWill (m : Conn σ) (args : ConnectArgs) : Bool × Conn σ :=
  let outcome := mqttConnectInternal api m args ⟨false, false⟩
  (outcome.1.result, outcome.2)

end Connect

/-! ## PUBLISH and DISCONNECT -/

section Publish

variable {σ : Type*} (api : TlsApi σ)

/-- Topic length and remaining length of a PUBLISH, as `mqtt_publish_qos0` computes them. -/
def publishTopicLen (topic : CString) : UInt16 := topic.strlen.toUInt16

def publishRemLen (topic : CString) (payload : List UInt8) : UInt32 :=
  2 + (publishTopicLen topic).toUInt32 + payload.length.toUInt32

/-- `hdr` -/
def publishHeader (topic : CString) (payload : List UInt8) (retain : Bool) : List UInt8 :=
  (pktPublish ||| if retain then 0x01 else 0x00) :: encodeRemlen (publishRemLen topic payload)

/-- `mqtt_publish_qos0` -/
def mqttPublishQos0 (m : Conn σ) (topic : CString) (payload : List UInt8) (retain : Bool) :
    Bool × Conn σ :=
  let hdr := sendAll api m (publishHeader topic payload retain)
  if !hdr.1 then (false, hdr.2)
  else
    let tlen := sendAll api hdr.2 (writeU16 (publishTopicLen topic))
    if !tlen.1 then (false, tlen.2)
    else
      let name := sendAll api tlen.2 (topic.bytes.take (publishTopicLen topic).toNat)
      if !name.1 then (false, name.2)
      else
        let body := sendAll api name.2 payload
        if !body.1 then (false, body.2) else (true, body.2)

/-- `mqtt_publish` -/
def mqttPublish (m : Conn σ) (topic : CString) (payload : List UInt8) : Bool × Conn σ :=
  mqttPublishQos0 api m topic payload false

/-- `mqtt_publish_retained` -/
def mqttPublishRetained (m : Conn σ) (topic : CString) (payload : List UInt8) : Bool × Conn σ :=
  mqttPublishQos0 api m topic payload true

/-- The two bytes of `mqtt_disconnect`. -/
def disconnectPacket : List UInt8 := [pktDisconnect, 0x00]

/-- `mqtt_disconnect`: the connection it closes is not used again. -/
def mqttDisconnect (m : Conn σ) : Conn σ :=
  tlsClose api (sendAll api m disconnectPacket).2

end Publish

end PqMqtt.Mqtt
