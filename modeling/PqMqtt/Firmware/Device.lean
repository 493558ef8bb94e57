import PqMqtt.Mqtt.Frame
import PqMqtt.Transport.ConnectCall

/-!
# A connection under the MQTT client

The client of `mqtt.c` on a connection object of one of the transports.  What `tls_write` and
`tls_read` do to the object, how long they take and what they return is left open; the device keeps
the log of the operations on the object and reads the clock of the board.
-/

namespace PqMqtt.Firmware

open Lifecycle
open Mqtt (TlsApi)
open Transport (Timer ObjectOp Progress)

/-- What a call of `tls_write` or `tls_read` returns and leaves behind: the connection object, the
world outside, and the number of times the clock has been read meanwhile. -/
structure Reply (α γ ω : Type*) where
  value : α
  conn : γ
  world : ω
  readings : ℕ

/-- The code behind `tls_write` and `tls_read`. -/
structure Wire (γ ω : Type*) where
  write : γ → ω → List UInt8 → Reply ℕ γ ω
  read : γ → ω → ℕ → Reply (List UInt8) γ ω
  write_le : ∀ conn world buf, (write conn world buf).value ≤ buf.length
  read_le : ∀ conn world len, (read conn world len).value.length ≤ len

/-- The connection object, the operations on it, the next reading of the clock, and the world
outside. -/
structure Device (γ ω : Type*) where
  conn : γ
  ops : List ObjectOp
  tick : ℕ
  world : ω

namespace Device

variable {α γ ω : Type*}

/-- The connection that a connect call has returned. -/
def ofProgress (progress : Progress γ) (world : ω) : Device γ ω :=
  ⟨progress.conn, progress.ops, progress.tick, world⟩

def log (device : Device γ ω) (op : ObjectOp) : Device γ ω :=
  { device with ops := device.ops ++ [op] }

/-- A call has returned. -/
def after (device : Device γ ω) (reply : Reply α γ ω) : Device γ ω :=
  { device with conn := reply.conn, tick := device.tick + reply.readings, world := reply.world }

/-- The object is live. -/
def Live (device : Device γ ω) : Prop := lifetime ObjectOp.effect device.ops = .live

theorem Live.log {device : Device γ ω} (h : device.Live) {op : ObjectOp} (hop : op.effect = .use) :
    (device.log op).Live := live_use h hop

end Device

variable {γ ω : Type*}

/-- The calls of `tls_transport.h` on a device. -/
def Wire.api (wire : Wire γ ω) (timer : Timer) : TlsApi (Device γ ω) where
  write device buf :=
    let reply := wire.write device.conn device.world buf
    (reply.value, (device.log .write).after reply)
  read device len :=
    let reply := wire.read device.conn device.world len
    (reply.value, (device.log .read).after reply)
  close device := device.log .close
  timeUs device := ((timer.reading device.tick).us, { device with tick := device.tick + 1 })
  write_le device buf := wire.write_le device.conn device.world buf
  read_le device len := wire.read_le device.conn device.world len

/-- Every call of the client on a live object keeps it live. -/
theorem kept_live (wire : Wire γ ω) (timer : Timer) :
    Mqtt.Kept (wire.api timer) fun m ↦ m.device.Live where
  read _ _ h := h.log rfl
  write _ _ h := h.log rfl
  timeUs _ h := h

/-- Time goes on during every call of the client. -/
theorem kept_tick (wire : Wire γ ω) (timer : Timer) (tick : ℕ) :
    Mqtt.Kept (wire.api timer) fun m ↦ tick ≤ m.device.tick where
  read _ _ h := h.trans (Nat.le_add_right _ _)
  write _ _ h := h.trans (Nat.le_add_right _ _)
  timeUs _ h := h.trans (Nat.le_succ _)

/-- `mqtt_disconnect` releases the object. -/
theorem gone_mqttDisconnect (wire : Wire γ ω) (timer : Timer) {m : Mqtt.Conn (Device γ ω)}
    (h : m.device.Live) :
    lifetime ObjectOp.effect (Mqtt.mqttDisconnect (wire.api timer) m).device.ops = .gone :=
  gone_release ((kept_live wire timer).write.sendAll Mqtt.disconnectPacket h) rfl

end PqMqtt.Firmware
