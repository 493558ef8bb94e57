import PqMqtt.Foundation.CheckThenLock
import PqMqtt.Transport.Receive

/-!
# Calls of lwIP from the foreground

`on_err` clears `c->pcb` from the background worker.  The senders and `tls_close` look at the pcb
before `cyw43_arch_lwip_begin` and pass it to lwIP after it, so one position of the callback, the
one between the last check and the lock, makes them call lwIP with a NULL pcb.  A call is a program
of the check-then-lock discipline: the pcb is the resource, `on_err` the interrupt that takes it.
-/

namespace PqMqtt.Transport

open Run CheckThenLock

/-- The lwIP functions to which the transports pass `c->pcb`. -/
inductive LwipFn where
  | tcpWrite
  | tcpOutput
  | tcpArg
  | tcpRecv
  | tcpErr
  | tcpClose
  | tcpAbort
deriving DecidableEq

/-- The functions that must not get a NULL pcb; `tcp_abort` only follows a `tcp_close`. -/
def LwipFn.NeedsPcb (fn : LwipFn) : Prop := fn ≠ .tcpAbort

instance : DecidablePred LwipFn.NeedsPcb := fun _ ↦ inferInstanceAs (Decidable (_ ≠ _))

/-- The section of `tls_close` under the lock, which both transports have. -/
def closeSection {σ ρ : Type*} {resource : Resource σ} (next : Program resource LwipFn ρ) :
    Program resource LwipFn ρ :=
  .acquire <| .call .tcpArg fun _ ↦ .call .tcpRecv fun _ ↦ .call .tcpErr fun _ ↦
    .call .tcpClose fun e ↦
      if e ≠ 0 then .call .tcpAbort fun _ ↦ .release next else .release next

namespace TlsTransport

/-- The pcb of a connection as a resource that `on_err` takes away. -/
def pcb : Resource Conn where
  present := Conn.pcb
  lost := Conn.tcpError
  interrupt code conn := onErr conn code
  present_interrupt _ _ := rfl
  lost_interrupt _ _ := rfl

/-- Return value of `wssl_send`. -/
inductive SendResult where
  | sent (sz : ℤ)
  | connClose
  | general

/-- `c->tls_tx_bytes += (uint64_t)sz; if (c->in_handshake) c->hs_tx_calls++;` -/
def countSent (sz : ℤ) (conn : Conn) : Conn :=
  { conn with
    tlsTxBytes := conn.tlsTxBytes + UInt64.ofInt sz
    hsTxCalls := if conn.inHandshake then conn.hsTxCalls + 1 else conn.hsTxCalls }

def countSentUpdate (sz : ℤ) : pcb.Update := ⟨countSent sz, fun _ ↦ rfl, fun _ ↦ rfl⟩

/-- `wssl_send`; its caller goes on with the result. -/
def wsslSend {ρ : Type*} (sz : ℤ) (caller : SendResult → Program pcb LwipFn ρ) :
    Program pcb LwipFn ρ :=
  .ifPresent
    (.ifLost (caller .connClose)
      (.acquire <| .call .tcpWrite fun e ↦
        if e = 0 then
          .call .tcpOutput fun _ ↦ .release <| .update (countSentUpdate sz) (caller (.sent sz))
        else .release (caller .general)))
    (caller .connClose)

/-- The calls of `wssl_send` that `wolfSSL_shutdown` makes, each chosen by the results so far. -/
inductive Shutdown where
  | finished
  | send (sz : ℤ) (next : SendResult → Shutdown)

/-- `wolfSSL_shutdown` -/
def Shutdown.run {ρ : Type*} (next : Program pcb LwipFn ρ) : Shutdown → Program pcb LwipFn ρ
  | .finished => next
  | .send sz after => wsslSend sz fun result ↦ (after result).run next

/-- `tls_close` -/
def tlsClose (shutdown : Shutdown) : Program pcb LwipFn Unit :=
  let closePcb := .ifPresent (closeSection (.done ())) (.done ())
  .branch Conn.ssl (shutdown.run closePcb) closePcb

end TlsTransport

namespace PlainTransport

/-- The pcb of a connection as a resource that `on_err` takes away. -/
def pcb : Resource Conn where
  present := Conn.pcb
  lost := Conn.tcpError
  interrupt code conn := onErr conn code
  present_interrupt _ _ := rfl
  lost_interrupt _ _ := rfl

/-- `conn->total_tx_bytes += (uint64_t)len;` -/
def countSent (len : ℕ) : pcb.Update where
  apply conn := { conn with totalTxBytes := conn.totalTxBytes + UInt64.ofNat len }
  present_apply _ := rfl
  lost_apply _ := rfl

/-- `tls_write` on a connection that is not NULL. -/
def tlsWrite (len : ℕ) : Program pcb LwipFn ℤ :=
  .ifPresent
    (.ifLost (.done (-1)) <|
      if len > 2 ^ 16 - 1 then .done (-1)
      else .acquire <| .call .tcpWrite fun e ↦
        if e = 0 then .call .tcpOutput fun _ ↦ .release <| .update (countSent len) (.done len)
        else .release (.done (-1)))
    (.done (-1))

/-- `tls_close` -/
def tlsClose : Program pcb LwipFn Unit :=
  .ifPresent (closeSection (.done ())) (.done ())

end PlainTransport

/-! ## The discipline of the calls -/

theorem closeSection_disciplined {σ ρ : Type*} {resource : Resource σ}
    {next : Program resource LwipFn ρ} (h : next.Disciplined LwipFn.NeedsPcb .untested) :
    (closeSection next).Disciplined LwipFn.NeedsPcb .tested := by
  have hlast : ∀ e : ℤ,
      (if e ≠ 0 then Program.call LwipFn.tcpAbort fun _ ↦ Program.release next
        else Program.release next).Disciplined LwipFn.NeedsPcb .held := by
    intro e
    split
    · exact fun _ ↦ ⟨h, fun _ ↦ id⟩
    · exact h
  have harg : LwipFn.NeedsPcb .tcpArg := by decide
  have hrecv : LwipFn.NeedsPcb .tcpRecv := by decide
  have herr : LwipFn.NeedsPcb .tcpErr := by decide
  have hclose : LwipFn.NeedsPcb .tcpClose := by decide
  refine ⟨fun _ ↦ ⟨fun _ ↦ ⟨fun _ ↦ ⟨fun e ↦ ⟨hlast e, fun hoptional ↦ ?_⟩, ?_⟩, ?_⟩, ?_⟩, harg⟩
  · exact absurd hclose hoptional
  · exact absurd herr
  · exact absurd hrecv
  · exact absurd harg

namespace TlsTransport

theorem wsslSend_disciplined {ρ : Type*} (sz : ℤ) {caller : SendResult → Program pcb LwipFn ρ}
    (h : ∀ result, (caller result).Disciplined LwipFn.NeedsPcb .untested) :
    (wsslSend sz caller).Disciplined LwipFn.NeedsPcb .untested := by
  have hwrite : LwipFn.NeedsPcb .tcpWrite := by decide
  have houtput : LwipFn.NeedsPcb .tcpOutput := by decide
  refine ⟨⟨h .connClose, fun e ↦ ⟨?_, absurd hwrite⟩, hwrite⟩, h .connClose⟩
  dsimp only
  split
  · exact fun _ ↦ ⟨h (.sent sz), absurd houtput⟩
  · exact h .general

theorem Shutdown.run_disciplined {ρ : Type*} (shutdown : Shutdown)
    {next : Program pcb LwipFn ρ} (h : next.Disciplined LwipFn.NeedsPcb .untested) :
    (shutdown.run next).Disciplined LwipFn.NeedsPcb .untested := by
  induction shutdown with
  | finished => exact h
  | send sz after ih => exact wsslSend_disciplined sz ih

end TlsTransport

/-- The foreground calls that pass the pcb to lwIP, with their connection and result types. -/
inductive ForegroundCall : Type → Type → Type where
  | wsslSend (sz : ℤ) : ForegroundCall TlsTransport.Conn TlsTransport.SendResult
  | tlsClose (shutdown : TlsTransport.Shutdown) : ForegroundCall TlsTransport.Conn Unit
  | plainWrite (len : ℕ) : ForegroundCall PlainTransport.Conn ℤ
  | plainClose : ForegroundCall PlainTransport.Conn Unit

namespace ForegroundCall

variable {σ ρ : Type}

def pcb : ForegroundCall σ ρ → Resource σ
  | wsslSend _ => TlsTransport.pcb
  | tlsClose _ => TlsTransport.pcb
  | plainWrite _ => PlainTransport.pcb
  | plainClose => PlainTransport.pcb

def program : (call : ForegroundCall σ ρ) → Program call.pcb LwipFn ρ
  | wsslSend sz => TlsTransport.wsslSend sz .done
  | tlsClose shutdown => TlsTransport.tlsClose shutdown
  | plainWrite len => PlainTransport.tlsWrite len
  | plainClose => PlainTransport.tlsClose

theorem program_disciplined (call : ForegroundCall σ ρ) :
    call.program.Disciplined LwipFn.NeedsPcb .untested := by
  cases call with
  | wsslSend sz => exact TlsTransport.wsslSend_disciplined sz fun _ ↦ trivial
  | tlsClose shutdown =>
    have hclose : (Program.ifPresent (closeSection (.done ())) (.done ()) :
        Program TlsTransport.pcb LwipFn Unit).Disciplined LwipFn.NeedsPcb .untested :=
      ⟨closeSection_disciplined trivial, trivial⟩
    exact ⟨shutdown.run_disciplined hclose, hclose⟩
  | plainWrite len =>
    have hwrite : LwipFn.NeedsPcb .tcpWrite := by decide
    have houtput : LwipFn.NeedsPcb .tcpOutput := by decide
    refine ⟨⟨trivial, ?_⟩, trivial⟩
    split
    · exact trivial
    · refine ⟨fun e ↦ ⟨?_, absurd hwrite⟩, hwrite⟩
      dsimp only
      split
      · exact fun _ ↦ ⟨trivial, absurd houtput⟩
      · exact trivial
  | plainClose => exact ⟨closeSection_disciplined trivial, trivial⟩

/-- lwIP gets no NULL pcb as long as `on_err` never runs between the last check of a call and
`cyw43_arch_lwip_begin`; a call that has returned passed a NULL pcb if it ever did. -/
theorem pcb_not_null_iff (call : ForegroundCall σ ρ) (conn : σ) (events : List Event) :
    (AllSteps Machine.step Machine.Timely (Machine.start conn call.program) events →
      (run Machine.step (Machine.start conn call.program) events).NeverMissing LwipFn.NeedsPcb) ∧
    ((run Machine.step (Machine.start conn call.program) events).Finished →
      ((run Machine.step (Machine.start conn call.program) events).NeverMissing LwipFn.NeedsPcb ↔
        AllSteps Machine.step Machine.Timely (Machine.start conn call.program) events)) :=
  ⟨Machine.neverMissing_of_timely conn call.program_disciplined,
    Machine.neverMissing_iff_of_finished conn call.program_disciplined⟩

end ForegroundCall

/-- A connection that is up. -/
def connectedConn : TlsTransport.Conn :=
  { TlsTransport.Conn.zeroed with pcb := true, tcpConnected := true }

/-- A reset by the peer between the two checks of `wssl_send` and the lock: `tcp_write` gets a NULL
pcb. -/
theorem reset_before_begin_passes_null :
    ¬(run Machine.step
        (Machine.start connectedConn (ForegroundCall.wsslSend 100).program)
        [.foreground 0, .foreground 0, .interrupt (-14), .foreground 0,
          .foreground (-16)]).NeverMissing LwipFn.NeedsPcb := by
  intro h
  have hcall := h (.tcpWrite, false) (List.mem_cons_self ..) (by decide)
  exact absurd hcall (by decide)

end PqMqtt.Transport
