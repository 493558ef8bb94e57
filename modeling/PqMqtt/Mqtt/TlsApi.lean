import Mathlib.Data.List.Basic

/-!
# The transport seen by the MQTT client

`tls_transport.h` promises little: `tls_write` accepts some of the bytes it is offered, a
prefix of them, or reports an error, and `tls_read` returns at most as many bytes as were asked
for.  `TlsApi` is any code behind these calls, on any state of its own, so a statement about
every `TlsApi` covers every pattern of short writes, short reads and failures.  A connection
keeps the calls of `tls_write` made on it; the bytes those calls accepted are what the broker
can ever see.
-/

namespace PqMqtt.Mqtt

/-- Code behind `tls_write`, `tls_read`, `tls_close` and the microsecond clock.  A count of zero
and an empty answer stand for every return value that is not positive. -/
structure TlsApi (σ : Type*) where
  write : σ → List UInt8 → ℕ × σ
  read : σ → ℕ → List UInt8 × σ
  close : σ → σ
  timeUs : σ → UInt64 × σ
  write_le : ∀ device buf, (write device buf).1 ≤ buf.length
  read_le : ∀ device len, (read device len).1.length ≤ len

/-- One call of `tls_write`. -/
structure WriteEvent where
  offered : List UInt8
  count : ℕ
  count_le : count ≤ offered.length

/-- The bytes a call of `tls_write` handed to the transport. -/
def WriteEvent.accepted (event : WriteEvent) : List UInt8 :=
  event.offered.take event.count

/-- A connection: the transport's own state and the calls of `tls_write` made so far. -/
structure Conn (σ : Type*) where
  device : σ
  writes : List WriteEvent

/-- The byte stream the transport has accepted. -/
def Conn.accepted {σ : Type*} (conn : Conn σ) : List UInt8 :=
  conn.writes.flatMap WriteEvent.accepted

section Calls

variable {σ : Type*} (api : TlsApi σ) (conn : Conn σ)

/-- `tls_write` -/
def tlsWrite (buf : List UInt8) : ℕ × Conn σ :=
  let outcome := api.write conn.device buf
  (outcome.1,
    { device := outcome.2
      writes := conn.writes ++ [⟨buf, outcome.1, api.write_le conn.device buf⟩] })

/-- `tls_read` -/
def tlsRead (len : ℕ) : List UInt8 × Conn σ :=
  let outcome := api.read conn.device len
  (outcome.1, { conn with device := outcome.2 })

/-- `tls_close` -/
def tlsClose : Conn σ :=
  { conn with device := api.close conn.device }

/-- `time_us_64` -/
def timeUs64 : UInt64 × Conn σ :=
  let outcome := api.timeUs conn.device
  (outcome.1, { conn with device := outcome.2 })

theorem tlsWrite_count (buf : List UInt8) :
    (tlsWrite api conn buf).1 = (api.write conn.device buf).1 := rfl

/-- A call of `tls_write` extends the accepted stream by the prefix it counted. -/
theorem accepted_tlsWrite (buf : List UInt8) :
    (tlsWrite api conn buf).2.accepted =
      conn.accepted ++ buf.take (tlsWrite api conn buf).1 := by
  simp [Conn.accepted, tlsWrite, WriteEvent.accepted]

@[simp]
theorem writes_tlsRead (len : ℕ) : (tlsRead api conn len).2.writes = conn.writes := rfl

@[simp]
theorem accepted_tlsClose : (tlsClose api conn).accepted = conn.accepted := rfl

@[simp]
theorem accepted_timeUs64 : (timeUs64 api conn).2.accepted = conn.accepted := rfl

end Calls

/-! ## A scripted transport -/

/-- What a scripted transport still has in store: the counts its next `tls_write` calls accept
(at most what they are offered; everything once the list has run out) and the inbound bytes. -/
structure Script where
  outcomes : List ℕ
  inbound : List UInt8

/-- The transport that follows a script. -/
def scripted : TlsApi Script where
  write script buf :=
    match script.outcomes with
    | [] => (buf.length, script)
    | count :: outcomes => (min count buf.length, { script with outcomes := outcomes })
  read script len :=
    (script.inbound.take len, { script with inbound := script.inbound.drop len })
  close script := script
  timeUs script := (0, script)
  write_le script buf := by
    cases script.outcomes with
    | nil => exact Nat.le_refl buf.length
    | cons count outcomes => exact Nat.min_le_right count buf.length
  read_le script len := by
    rw [List.length_take]
    exact Nat.min_le_left len script.inbound.length

/-- A fresh connection over a script. -/
def Script.open (script : Script) : Conn Script := ⟨script, []⟩

end PqMqtt.Mqtt
