import PqMqtt.Foundation.Accounting
import PqMqtt.Transport.Handshake

/-!
# What is handed to lwIP

`wssl_send` of the TLS transport and `tls_write` of the plain transport hand their bytes to
`tcp_write`, whose length has 16 bits.  Only `tls_write` refuses what does not fit.
-/

namespace PqMqtt.Transport

open Run CheckThenLock Accounting

/-- What a successful `tcp_write` takes over; its length has the type `u16_t`. -/
def tcpWrite (buf : Memory) (len : ℕ) : List UInt8 := firstBytes buf (len % 2 ^ 16)

theorem tcpWrite_eq_iff (buf : Memory) (len : ℕ) :
    tcpWrite buf len = firstBytes buf len ↔ len ≤ 2 ^ 16 - 1 := by
  constructor
  · intro heq
    have hlength := congrArg List.length heq
    rw [tcpWrite, length_firstBytes, length_firstBytes] at hlength
    omega
  · intro hle
    rw [tcpWrite, Nat.mod_eq_of_lt (by omega)]

/-- A length that is returned after a successful `tcp_write` is truthful when it has 16 bits. -/
theorem truthful_tcpWrite_iff (buf : Memory) (len : ℕ) :
    Sent.Truthful ⟨buf, len, tcpWrite buf len⟩ ↔ len ≤ 2 ^ 16 - 1 := by
  rw [← tcpWrite_eq_iff buf len]
  constructor
  · intro htruthful
    rcases Nat.eq_zero_or_pos len with rfl | hpos
    · rfl
    · have hpositive := htruthful.positive (Int.natCast_pos.mpr hpos)
      rwa [Int.toNat_natCast] at hpositive
  · intro heq
    constructor
    · intro _
      rwa [Int.toNat_natCast]
    · intro hneg
      exact absurd hneg (not_lt.mpr (Int.natCast_nonneg len))

theorem truthful_of_neg {buf : Memory} {ret : ℤ} (h : ret < 0) : Sent.Truthful ⟨buf, ret, []⟩ :=
  ⟨fun hpos ↦ absurd hpos (not_lt.mpr h.le), fun _ ↦ rfl⟩

namespace TlsTransport

/-- `WOLFSSL_CBIO_ERR_GENERAL` -/
def cbioErrGeneral : ℤ := -1

/-- `WOLFSSL_CBIO_ERR_CONN_CLOSE` -/
def cbioErrConnClose : ℤ := -5

/-- The number that `wssl_send` returns. -/
def SendResult.ret : SendResult → ℤ
  | .sent sz => sz
  | .connClose => cbioErrConnClose
  | .general => cbioErrGeneral

/-- The arguments of `wssl_send`, where `sz` is an `int`, and what `tcp_write` returns. -/
structure SendCall where
  buf : Memory
  sz : ℕ
  sz_lt : sz < 2 ^ 31
  e : ℤ

/-- `wssl_send` with the bytes that it hands over. -/
def wsslSendBytes (conn : Conn) (call : SendCall) : Conn × Sent :=
  if !conn.pcb || conn.tcpError then (conn, ⟨call.buf, SendResult.connClose.ret, []⟩)
  else if call.e = 0 then
    (countSent call.sz conn,
      ⟨call.buf, (SendResult.sent call.sz).ret, tcpWrite call.buf call.sz⟩)
  else (conn, ⟨call.buf, SendResult.general.ret, []⟩)

/-- The bytes aside, this is `wssl_send` as the handshake has it. -/
theorem wsslSendBytes_eq_sendOnce (conn : Conn) (call : SendCall) :
    (wsslSendBytes conn call).1 = (sendOnce conn call.sz call.e).2 ∧
      (wsslSendBytes conn call).2.ret = (sendOnce conn call.sz call.e).1.ret := by
  unfold wsslSendBytes sendOnce
  split
  · exact ⟨rfl, rfl⟩
  split
  · exact ⟨rfl, rfl⟩
  · exact ⟨rfl, rfl⟩

def sender : Sender Conn SendCall := ⟨wsslSendBytes, Conn.tlsTxBytes⟩

/-- A call that reaches a successful `tcp_write` has no more bytes than this can take. -/
def FitsWrite (conn : Conn) (call : SendCall) : Prop :=
  conn.pcb = true → conn.tcpError = false → call.e = 0 → call.sz ≤ 2 ^ 16 - 1

/-- A call that does not reach a successful `tcp_write` fails and hands nothing over. -/
theorem wsslSendBytes_cases (conn : Conn) (call : SendCall) :
    (conn.pcb = true ∧ conn.tcpError = false ∧ call.e = 0 ∧
      wsslSendBytes conn call
        = (countSent call.sz conn, ⟨call.buf, call.sz, tcpWrite call.buf call.sz⟩)) ∨
    ((conn.pcb = true → conn.tcpError = false → call.e ≠ 0) ∧
      ∃ ret < 0, wsslSendBytes conn call = (conn, ⟨call.buf, ret, []⟩)) := by
  unfold wsslSendBytes
  cases conn.pcb with
  | false => exact .inr ⟨fun h ↦ absurd h (by decide), cbioErrConnClose, by decide, rfl⟩
  | true =>
    cases conn.tcpError with
    | true => exact .inr ⟨fun _ h ↦ absurd h (by decide), cbioErrConnClose, by decide, rfl⟩
    | false =>
      by_cases he : call.e = 0
      · exact .inl ⟨rfl, rfl, he, if_pos he⟩
      · exact .inr ⟨fun _ _ ↦ he, cbioErrGeneral, by decide, if_neg he⟩

theorem sender_counts : sender.CountsWhen FitsWrite where
  truthful conn call := by
    change (wsslSendBytes conn call).2.Truthful ↔ _
    rcases wsslSendBytes_cases conn call with ⟨hpcb, herror, he, hcall⟩ | ⟨hno, ret, hret, hcall⟩
    · rw [hcall, truthful_tcpWrite_iff]
      exact ⟨fun h _ _ _ ↦ h, fun h ↦ h hpcb herror he⟩
    · rw [hcall]
      exact ⟨fun _ hpcb herror he ↦ absurd he (hno hpcb herror), fun _ ↦ truthful_of_neg hret⟩
  counts conn call h := by
    change (wsslSendBytes conn call).1.tlsTxBytes
      = conn.tlsTxBytes + UInt64.ofNat (wsslSendBytes conn call).2.handed.length
    rcases wsslSendBytes_cases conn call with ⟨hpcb, herror, he, hcall⟩ | ⟨hno, ret, hret, hcall⟩
    · have hlength : (tcpWrite call.buf call.sz).length = call.sz := by
        rw [(tcpWrite_eq_iff call.buf call.sz).mpr (h hpcb herror he), length_firstBytes]
      rw [hcall, hlength, ← ofInt_natCast]
      rfl
    · rw [hcall]
      exact (UInt64.add_zero _).symm

end TlsTransport

namespace PlainTransport

/-- The arguments of `tls_write`, where `len` is a `size_t`, and what `tcp_write` returns. -/
structure WriteCall where
  buf : Memory
  len : ℕ
  e : ℤ

/-- `tls_write` on a connection that is not NULL, with the bytes that it hands over. -/
def tlsWriteBytes (conn : Conn) (call : WriteCall) : Conn × Sent :=
  if !conn.pcb || conn.tcpError then (conn, ⟨call.buf, -1, []⟩)
  else if call.len > 2 ^ 16 - 1 then (conn, ⟨call.buf, -1, []⟩)
  else if call.e = 0 then
    ((countSent call.len).apply conn, ⟨call.buf, call.len, tcpWrite call.buf call.len⟩)
  else (conn, ⟨call.buf, -1, []⟩)

/-- The bytes aside, this is the program of `tls_write`, run without interruption. -/
theorem run_tlsWrite (conn : Conn) (call : WriteCall) :
    ∃ machine, run Machine.step (Machine.start conn (tlsWrite call.len))
        (List.replicate 7 (.foreground call.e)) = machine ∧
      machine.program = .done (tlsWriteBytes conn call).2.ret ∧
      machine.state = (tlsWriteBytes conn call).1 := by
  refine ⟨_, rfl, ?_⟩
  simp only [List.replicate, run, List.foldl_cons, List.foldl_nil, Machine.start, tlsWrite,
    tlsWriteBytes]
  cases hpcb : conn.pcb with
  | false => simp [Machine.step, pcb, hpcb]
  | true =>
    cases herror : conn.tcpError with
    | true => simp [Machine.step, pcb, hpcb, herror]
    | false =>
      by_cases hlen : call.len > 2 ^ 16 - 1
      · simp only [if_pos hlen]
        simp [Machine.step, pcb, hpcb, herror]
      · simp only [if_neg hlen]
        by_cases he : call.e = 0
        · simp [Machine.step, pcb, hpcb, herror, he]
        · simp [Machine.step, pcb, hpcb, herror, he]

def sender : Sender Conn WriteCall := ⟨tlsWriteBytes, Conn.totalTxBytes⟩

theorem tlsWriteBytes_cases (conn : Conn) (call : WriteCall) :
    (call.len ≤ 2 ^ 16 - 1 ∧ tlsWriteBytes conn call
        = ((countSent call.len).apply conn, ⟨call.buf, call.len, tcpWrite call.buf call.len⟩)) ∨
      tlsWriteBytes conn call = (conn, ⟨call.buf, -1, []⟩) := by
  unfold tlsWriteBytes
  split
  · exact .inr rfl
  split
  · exact .inr rfl
  split
  · exact .inl ⟨not_lt.mp ‹_›, rfl⟩
  · exact .inr rfl

theorem sender_counts : sender.CountsWhen fun _ _ ↦ True where
  truthful conn call := by
    change (tlsWriteBytes conn call).2.Truthful ↔ _
    apply iff_of_true _ trivial
    rcases tlsWriteBytes_cases conn call with ⟨hlen, hcall⟩ | hcall
    · rw [hcall]
      exact (truthful_tcpWrite_iff call.buf call.len).mpr hlen
    · rw [hcall]
      exact truthful_of_neg (by decide)
  counts conn call _ := by
    change (tlsWriteBytes conn call).1.totalTxBytes
      = conn.totalTxBytes + UInt64.ofNat (tlsWriteBytes conn call).2.handed.length
    rcases tlsWriteBytes_cases conn call with ⟨hlen, hcall⟩ | hcall
    · rw [hcall, (tcpWrite_eq_iff call.buf call.len).mpr hlen, length_firstBytes]
      rfl
    · rw [hcall]
      exact (UInt64.add_zero _).symm

end PlainTransport

/-! ## Runs -/

/-- On the TLS transport the calls and the counter are truthful exactly when no call hands more
than 65535 bytes to a `tcp_write` that succeeds; on the plain transport they always are. -/
theorem transmit_truthful (tlsEvents : List (Event TlsTransport.sender))
    (plainEvents : List (Event PlainTransport.sender)) :
    ((run (step TlsTransport.sender) ⟨.zeroed, []⟩ tlsEvents).Truthful TlsTransport.sender ↔
      AllSteps (step TlsTransport.sender)
        (fun account event ↦ event.Meets TlsTransport.FitsWrite account) ⟨.zeroed, []⟩
        tlsEvents) ∧
    (run (step PlainTransport.sender) ⟨.zeroed, []⟩ plainEvents).Truthful
      PlainTransport.sender := by
  have htls : Account.Truthful TlsTransport.sender ⟨.zeroed, []⟩ := truthful_start rfl
  have hplain : Account.Truthful PlainTransport.sender ⟨.zeroed, []⟩ := truthful_start rfl
  constructor
  · rw [truthful_run_iff TlsTransport.sender_counts]
    exact and_iff_right htls
  · apply run_invariant hplain
    intro account event haccount
    rw [truthful_step_iff PlainTransport.sender_counts]
    cases event with
    | send call => exact ⟨haccount, trivial⟩
    | change change => exact ⟨haccount, trivial⟩

namespace TlsTransport

/-- A connection without an error. -/
def connect : sender.Change := ⟨fun conn ↦ { conn with pcb := true }, fun _ ↦ rfl⟩

/-- 70000 bytes, all taken over according to lwIP. -/
def oversizedCall : SendCall := ⟨fun _ ↦ 0x5a, 70000, by norm_num, 0⟩

/-- Of the 70000 bytes that the call returns and counts, 4464 are handed over. -/
theorem oversized_send :
    (∃ handed, (wsslSendBytes { Conn.zeroed with pcb := true } oversizedCall).2
      = ⟨oversizedCall.buf, 70000, handed⟩ ∧ handed.length = 4464) ∧
    ¬(run (step sender) ⟨.zeroed, []⟩ [.change connect, .send oversizedCall]).Truthful sender := by
  constructor
  · refine ⟨tcpWrite oversizedCall.buf oversizedCall.sz, rfl, ?_⟩
    have hsz : oversizedCall.sz = 70000 := rfl
    rw [tcpWrite, length_firstBytes, hsz]
    norm_num
  · rw [truthful_run_iff sender_counts]
    rintro ⟨-, -, hfits, -⟩
    have hle : (70000 : ℕ) ≤ 2 ^ 16 - 1 := hfits rfl rfl rfl
    exact absurd hle (by norm_num)

end TlsTransport

end PqMqtt.Transport
