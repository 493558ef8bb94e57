import PqMqtt.Foundation.BoundedChannel
import PqMqtt.Transport.RxRing

/-!
# Receive paths of the TLS and the plain transport

`on_recv` is called by lwIP from the background worker; the foreground reads through
`wssl_recv` (the wolfSSL receive callback) or through the plain `tls_read`.  Ring accesses of
the two sides are separated by `cyw43_arch_lwip_begin`/`end`, so one iteration of a reader's
polling loop and one callback are the atomic steps of the interleaving.

Each path is a state machine over its connection object.  Ghost fields record the bytes handed
to the reader and the payloads whose length was passed to `tcp_recved`.  Both machines simulate
the bounded channel of capacity `RX_BUF_CAP`.
-/

namespace PqMqtt.Transport

open Run

/-- Readings of `time_us_64` and `to_ms_since_boot` at one instant. -/
structure Clock where
  us : UInt64
  ms : UInt32

/-- A `pbuf` chain: the payloads of its segments and the 16-bit `tot_len` of its head. -/
structure Pbuf where
  payloads : List (List UInt8)
  totLen : ℕ
  totLen_eq : totLen = payloads.flatten.length
  totLen_lt : totLen < 2 ^ 16

/-- All payload bytes of a chain, in stream order. -/
def Pbuf.bytes (chain : Pbuf) : List UInt8 := chain.payloads.flatten

@[simp]
theorem Pbuf.bytes_length (chain : Pbuf) : chain.bytes.length = chain.totLen :=
  chain.totLen_eq.symm

/-- The `while (cur)` loop of `on_recv`, which pushes one segment after the other. -/
def RxRing.pushChain (ring : RxRing) (payloads : List (List UInt8)) : RxRing :=
  payloads.foldl RxRing.rxPush ring

/-- Pushing a chain segment by segment appends the part of its concatenation that fits. -/
theorem RxRing.pushChain_spec {ring : RxRing} (h : ring.WellFormed)
    (payloads : List (List UInt8)) :
    (ring.pushChain payloads).WellFormed ∧
      (ring.pushChain payloads).contents =
        ring.contents ++ payloads.flatten.take (rxBufCap - ring.contents.length) := by
  induction payloads generalizing ring with
  | nil => simpa [pushChain] using h
  | cons payload payloads ih =>
    obtain ⟨hpush, hpushed⟩ := RxRing.rxPush_spec h payload
    obtain ⟨hwell, hcontents⟩ := ih hpush
    refine ⟨hwell, ?_⟩
    have hfree : rxBufCap - (ring.rxPush payload).contents.length =
        rxBufCap - ring.contents.length - payload.length := by
      rw [hpushed, List.length_append, List.length_take, RxRing.contents_length]
      omega
    calc
      (ring.pushChain (payload :: payloads)).contents =
          (ring.rxPush payload).contents ++
            payloads.flatten.take (rxBufCap - (ring.rxPush payload).contents.length) := hcontents
      _ = ring.contents ++ (payload.take (rxBufCap - ring.contents.length) ++
            payloads.flatten.take (rxBufCap - ring.contents.length - payload.length)) := by
        rw [hfree, hpushed, RxRing.contents_length, List.append_assoc]
      _ = _ := by rw [List.flatten_cons, List.take_append]

/-- A ring with the record of what left it and what was acknowledged, as a bounded channel. -/
structure RingRepresents (ring : RxRing) (returned acknowledged : List UInt8)
    (channel : BoundedChannel.Channel UInt8) : Prop where
  wellFormed : ring.WellFormed
  queue : channel.queue = ring.contents
  taken : channel.taken = returned
  offered : channel.offered = acknowledged

namespace RingRepresents

theorem zeroed : RingRepresents RxRing.zeroed [] [] BoundedChannel.empty :=
  ⟨RxRing.wellFormed_zeroed, rfl, rfl, rfl⟩

variable {ring : RxRing} {returned acknowledged : List UInt8}
  {channel : BoundedChannel.Channel UInt8}

/-- A callback that pushes a chain and acknowledges all of it offers the chain. -/
theorem offer (h : RingRepresents ring returned acknowledged channel) (chain : Pbuf) :
    RingRepresents (ring.pushChain chain.payloads) returned
      (acknowledged ++ chain.bytes.take chain.totLen)
      (BoundedChannel.step rxBufCap channel (.offer chain.bytes)) := by
  obtain ⟨hwell, hcontents⟩ := RxRing.pushChain_spec h.wellFormed chain.payloads
  have hall : chain.bytes.take chain.totLen = chain.bytes :=
    List.take_of_length_le chain.bytes_length.le
  refine ⟨hwell, ?_, h.taken, ?_⟩
  · rw [hcontents, ← h.queue]
    rfl
  · rw [hall, ← h.offered]
    rfl

/-- A pop hands the oldest bytes to the reader. -/
theorem take (h : RingRepresents ring returned acknowledged channel) (want : ℕ) :
    RingRepresents (ring.rxPop want).2 (returned ++ (ring.rxPop want).1) acknowledged
      (BoundedChannel.step rxBufCap channel (.take want)) := by
  obtain ⟨hwell, hpopped, hleft⟩ := RxRing.rxPop_spec h.wellFormed want
  refine ⟨hwell, ?_, ?_, h.offered⟩
  · rw [hleft, ← h.queue]
    rfl
  · rw [hpopped, ← h.queue, ← h.taken]
    rfl

theorem fits_iff (h : RingRepresents ring returned acknowledged channel) (chain : Pbuf) :
    BoundedChannel.Fits rxBufCap channel (.offer chain.bytes) ↔
      chain.totLen ≤ rxBufCap - ring.avail := by
  rw [BoundedChannel.Fits, h.queue, chain.bytes_length, RxRing.contents_length]

theorem lossless_iff (h : RingRepresents ring returned acknowledged channel) :
    BoundedChannel.Lossless channel ↔ returned ++ ring.contents = acknowledged := by
  rw [BoundedChannel.Lossless, h.queue, h.taken, h.offered]

/-- What is acknowledged beyond the capacity of the ring must have been returned. -/
theorem acknowledged_length_le (h : RingRepresents ring returned acknowledged channel)
    (hlossless : returned ++ ring.contents = acknowledged) :
    acknowledged.length ≤ returned.length + rxBufCap := by
  rw [← hlossless, List.length_append, RxRing.contents_length]
  exact Nat.add_le_add_left h.wellFormed.avail_le _

end RingRepresents

/-! ## TLS transport -/

namespace TlsTransport

/-- `struct tls_conn` of `tls_transport.c`; pointers are represented by whether they are set. -/
structure Conn where
  pcb : Bool
  rx : RxRing
  tcpConnected : Bool
  tcpError : Bool
  remoteClosed : Bool
  ioTimedOut : Bool
  tcpErrorCode : ℤ
  sslCtx : Bool
  ssl : Bool
  dnsUs : UInt64
  tcpConnectUs : UInt64
  tlsHandshakeUs : UInt64
  tlsRxBytes : UInt64
  tlsTxBytes : UInt64
  tlsHandshakeRxBytes : UInt64
  tlsHandshakeTxBytes : UInt64
  inHandshake : Bool
  hsNetWaitUs : UInt64
  hsTxCalls : UInt32
  hsRxCalls : UInt32

/-- The object returned by `calloc`. -/
def Conn.zeroed : Conn where
  pcb := false
  rx := RxRing.zeroed
  tcpConnected := false
  tcpError := false
  remoteClosed := false
  ioTimedOut := false
  tcpErrorCode := 0
  sslCtx := false
  ssl := false
  dnsUs := 0
  tcpConnectUs := 0
  tlsHandshakeUs := 0
  tlsRxBytes := 0
  tlsTxBytes := 0
  tlsHandshakeRxBytes := 0
  tlsHandshakeTxBytes := 0
  inHandshake := false
  hsNetWaitUs := 0
  hsTxCalls := 0
  hsRxCalls := 0

/-- `on_recv`; the second component is the length passed to `tcp_recved`. -/
def onRecv (conn : Conn) (chain : Option Pbuf) (err : ℤ) : Conn × ℕ :=
  match chain with
  | none => ({ conn with remoteClosed := true }, 0)
  | some chain =>
      if err ≠ 0 then ({ conn with remoteClosed := true }, 0)
      else
        ({ conn with
            rx := conn.rx.pushChain chain.payloads
            tlsRxBytes := conn.tlsRxBytes + UInt64.ofNat chain.totLen }, chain.totLen)

/-- `on_err` -/
def onErr (conn : Conn) (err : ℤ) : Conn :=
  { conn with tcpErrorCode := err, tcpError := true, pcb := false }

/-- Locals of a `wssl_recv` call; `want` is `sz` after its cast to `uint16_t`. -/
structure RecvCall where
  want : ℕ
  tEnter : UInt64
  deadline : UInt32

inductive RecvResult where
  | bytes (got : List UInt8)
  | connClose
  | timeout

/-- Entry of `wssl_recv`. -/
def wsslRecvEnter (sz : ℤ) (clock : Clock) : RecvCall where
  want := (sz % 2 ^ 16).toNat
  tEnter := clock.us
  deadline := clock.ms + 15000

/-- One iteration of the `while (true)` loop of `wssl_recv`. -/
def wsslRecvPoll (conn : Conn) (call : RecvCall) (clock : Clock) : Option RecvResult × Conn :=
  let popped := conn.rx.rxPop call.want
  let closed := conn.tcpError || conn.remoteClosed
  let polled := { conn with rx := popped.2 }
  if popped.1.length ≠ 0 then
    (some (.bytes popped.1),
      if polled.inHandshake then
        { polled with
          hsNetWaitUs := polled.hsNetWaitUs + (clock.us - call.tEnter)
          hsRxCalls := polled.hsRxCalls + 1 }
      else polled)
  else if closed then (some .connClose, polled)
  else if clock.ms > call.deadline then (some .timeout, { polled with ioTimedOut := true })
  else (none, polled)

/-- Connection, current `wssl_recv` call, and the ghost record of both ends of the ring. -/
structure Receiver where
  conn : Conn
  call : Option RecvCall
  returned : List UInt8
  acknowledged : List UInt8

def Receiver.start : Receiver := ⟨Conn.zeroed, none, [], []⟩

inductive Event where
  | recv (chain : Option Pbuf) (err : ℤ)
  | err (code : ℤ)
  | handshake (active : Bool)
  | clearTimeout
  | enter (sz : ℤ) (clock : Clock)
  | poll (clock : Clock)

/-- Bytes that a finished `wssl_recv` call leaves in the caller's buffer. -/
def RecvResult.delivered : RecvResult → List UInt8
  | .bytes got => got
  | .connClose => []
  | .timeout => []

def Receiver.step (receiver : Receiver) : Event → Receiver
  | .recv chain err =>
      let handled := onRecv receiver.conn chain err
      { receiver with
        conn := handled.1
        acknowledged :=
          receiver.acknowledged ++ (chain.elim [] Pbuf.bytes).take handled.2 }
  | .err code => { receiver with conn := onErr receiver.conn code }
  | .handshake active =>
      { receiver with conn := { receiver.conn with inHandshake := active } }
  | .clearTimeout =>
      { receiver with conn := { receiver.conn with ioTimedOut := false } }
  | .enter sz clock =>
      match receiver.call with
      | none => { receiver with call := some (wsslRecvEnter sz clock) }
      | some _ => receiver
  | .poll clock =>
      match receiver.call with
      | none => receiver
      | some call =>
          let polled := wsslRecvPoll receiver.conn call clock
          match polled.1 with
          | none => { receiver with conn := polled.2 }
          | some result =>
              { receiver with
                conn := polled.2
                call := none
                returned := receiver.returned ++ result.delivered }

/-- Returned bytes followed by queued bytes are the acknowledged stream. -/
def Receiver.Lossless (receiver : Receiver) : Prop :=
  receiver.returned ++ receiver.conn.rx.contents = receiver.acknowledged

/-- A delivered chain is no longer than the free space of the ring. -/
def Receiver.DeliveryFits (receiver : Receiver) : Event → Prop
  | .recv (some chain) err =>
      err = 0 → chain.totLen ≤ rxBufCap - receiver.conn.rx.avail
  | _ => True

/-- A poll pops the ring whatever its verdict, and returns exactly the popped bytes. -/
theorem wsslRecvPoll_spec (conn : Conn) (call : RecvCall) (clock : Clock) :
    (wsslRecvPoll conn call clock).2.rx = (conn.rx.rxPop call.want).2 ∧
      ((wsslRecvPoll conn call clock).1.elim [] RecvResult.delivered) =
        (conn.rx.rxPop call.want).1 := by
  unfold wsslRecvPoll
  by_cases hgot : (conn.rx.rxPop call.want).1.length = 0
  · have hnil := List.length_eq_zero_iff.mp hgot
    simp only [hnil]
    split_ifs <;> simp_all [RecvResult.delivered]
  · simp only [ne_eq, hgot, not_false_eq_true, if_true, Option.elim, RecvResult.delivered]
    split_ifs <;> simp

/-- Reading does not touch the byte counter. -/
theorem wsslRecvPoll_tlsRxBytes (conn : Conn) (call : RecvCall) (clock : Clock) :
    (wsslRecvPoll conn call clock).2.tlsRxBytes = conn.tlsRxBytes := by
  unfold wsslRecvPoll
  dsimp only
  split_ifs <;> rfl

/-- The channel operation performed by one step. -/
def Receiver.perform (receiver : Receiver) : Event → List (BoundedChannel.Event UInt8)
  | .recv (some chain) err => if err = 0 then [.offer chain.bytes] else []
  | .poll _ => receiver.call.elim [] fun call ↦ [.take call.want]
  | _ => []

/-- The receiver represents a channel whose queue is the ring. -/
def Receiver.Represents (receiver : Receiver)
    (channel : BoundedChannel.Channel UInt8) : Prop :=
  RingRepresents receiver.conn.rx receiver.returned receiver.acknowledged channel

theorem Receiver.represents_step (receiver : Receiver)
    (channel : BoundedChannel.Channel UInt8) (event : Event)
    (h : receiver.Represents channel) :
    (receiver.step event).Represents
      (run (BoundedChannel.step rxBufCap) channel (receiver.perform event)) := by
  cases event with
  | recv chain err =>
    cases chain with
    | none => simpa [step, onRecv, perform, Represents] using h
    | some chain =>
      by_cases herr : err = 0
      · simpa [step, onRecv, perform, herr, Represents] using h.offer chain
      · simpa [step, onRecv, perform, herr, Represents] using h
  | err code => exact h
  | handshake active => exact h
  | clearTimeout => exact h
  | enter sz clock =>
    simp only [step, perform, run_nil]
    split <;> exact h
  | poll clock =>
    simp only [step, perform]
    split
    next hcall => simpa only [hcall, Option.elim, run_nil] using h
    next call hcall =>
      obtain ⟨hrx, hdelivered⟩ := wsslRecvPoll_spec receiver.conn call clock
      have htake := h.take call.want
      rw [← hrx, ← hdelivered] at htake
      simp only [hcall, Option.elim, run_cons, run_nil]
      split
      next hresult => simpa [Represents, hresult] using htake
      next result hresult => simpa [Represents, hresult] using htake

theorem Receiver.represents_start : Receiver.start.Represents BoundedChannel.empty :=
  RingRepresents.zeroed

theorem Receiver.represents_run (events : List Event) :
    (run Receiver.step Receiver.start events).Represents
      (run (BoundedChannel.step rxBufCap) BoundedChannel.empty
        (trace Receiver.step Receiver.perform Receiver.start events)) :=
  run_simulation Receiver.represents_step Receiver.represents_start events

theorem Receiver.deliveryFits_iff (receiver : Receiver)
    (channel : BoundedChannel.Channel UInt8) (event : Event)
    (h : receiver.Represents channel) :
    receiver.DeliveryFits event ↔
      AllSteps (BoundedChannel.step rxBufCap) (BoundedChannel.Fits rxBufCap) channel
        (receiver.perform event) := by
  cases event with
  | recv chain err =>
    cases chain with
    | none => simp [DeliveryFits, perform]
    | some chain =>
      by_cases herr : err = 0 <;> simp [DeliveryFits, perform, herr, h.fits_iff chain]
  | poll clock =>
    cases hcall : receiver.call <;>
      simp [DeliveryFits, perform, hcall, BoundedChannel.Fits]
  | err code => simp [DeliveryFits, perform]
  | handshake active => simp [DeliveryFits, perform]
  | clearTimeout => simp [DeliveryFits, perform]
  | enter sz clock => simp [DeliveryFits, perform]

/-- The TLS receive path is lossless exactly when no delivery exceeded the free space. -/
theorem Receiver.lossless_run_iff (events : List Event) :
    (run Receiver.step Receiver.start events).Lossless ↔
      AllSteps Receiver.step Receiver.DeliveryFits Receiver.start events := by
  rw [allSteps_trace_iff Receiver.represents_step Receiver.deliveryFits_iff
      Receiver.represents_start, ← BoundedChannel.lossless_run_iff]
  exact (Receiver.represents_run events).lossless_iff.symm

/-- `tls_rx_bytes` counts the acknowledged bytes. -/
theorem Receiver.tlsRxBytes_run (events : List Event) :
    (run Receiver.step Receiver.start events).conn.tlsRxBytes =
      UInt64.ofNat (run Receiver.step Receiver.start events).acknowledged.length := by
  refine @run_invariant _ _ Receiver.step (fun receiver ↦
    receiver.conn.tlsRxBytes = UInt64.ofNat receiver.acknowledged.length) _ rfl ?_ events
  intro receiver event h
  cases event with
  | recv chain err =>
    cases chain with
    | none => simpa [step, onRecv] using h
    | some chain =>
      by_cases herr : err = 0
      · simp [step, onRecv, herr, h, List.take_of_length_le]
      · simpa [step, onRecv, herr] using h
  | err code => exact h
  | handshake active => exact h
  | clearTimeout => exact h
  | enter sz clock =>
    simp only [step]
    split <;> exact h
  | poll clock =>
    simp only [step]
    split
    next => exact h
    next call hcall =>
      have hcount := wsslRecvPoll_tlsRxBytes receiver.conn call clock
      split <;> simpa only [hcount] using h

/-- Deliveries to an idle reader return nothing and acknowledge everything. -/
theorem Receiver.run_deliveries (receiver : Receiver) (chain : Pbuf) (count : ℕ) :
    (run Receiver.step receiver (List.replicate count (.recv (some chain) 0))).returned =
        receiver.returned ∧
      (run Receiver.step receiver
          (List.replicate count (.recv (some chain) 0))).acknowledged.length =
        receiver.acknowledged.length + count * chain.totLen := by
  have hack : ∀ receiver : Receiver, (receiver.step (.recv (some chain) 0)).acknowledged.length
      = receiver.acknowledged.length + chain.totLen := by
    simp [step, onRecv]
  exact ⟨run_replicate_eq Receiver.returned (fun _ ↦ rfl) receiver count,
    run_replicate_add (fun receiver ↦ receiver.acknowledged.length) hack receiver count⟩

/-- Deliveries of more bytes than the ring holds, with no read between them, lose bytes. -/
theorem Receiver.not_lossless_deliveries (chain : Pbuf) (count : ℕ)
    (h : rxBufCap < count * chain.totLen) :
    ¬ (run Receiver.step Receiver.start
      (List.replicate count (.recv (some chain) 0))).Lossless := by
  intro hlossless
  obtain ⟨hreturned, hack⟩ := Receiver.start.run_deliveries chain count
  have hroom := (Receiver.represents_run _).acknowledged_length_le hlossless
  rw [hreturned, hack] at hroom
  simp only [start, List.length_nil, Nat.zero_add] at hroom
  exact absurd hroom (Nat.not_le_of_lt h)

end TlsTransport

/-! ## Plain transport -/

namespace PlainTransport

/-- `struct tls_conn` of `plain_transport.c`. -/
structure Conn where
  pcb : Bool
  rx : RxRing
  tcpConnected : Bool
  tcpError : Bool
  remoteClosed : Bool
  ioTimedOut : Bool
  tcpErrorCode : ℤ
  dnsUs : UInt64
  tcpConnectUs : UInt64
  totalRxBytes : UInt64
  totalTxBytes : UInt64

/-- The object returned by `calloc`. -/
def Conn.zeroed : Conn where
  pcb := false
  rx := RxRing.zeroed
  tcpConnected := false
  tcpError := false
  remoteClosed := false
  ioTimedOut := false
  tcpErrorCode := 0
  dnsUs := 0
  tcpConnectUs := 0
  totalRxBytes := 0
  totalTxBytes := 0

/-- `on_recv`; the second component is the length passed to `tcp_recved`. -/
def onRecv (conn : Conn) (chain : Option Pbuf) (err : ℤ) : Conn × ℕ :=
  match chain with
  | none => ({ conn with remoteClosed := true }, 0)
  | some chain =>
      if err ≠ 0 then ({ conn with remoteClosed := true }, 0)
      else
        ({ conn with
            rx := conn.rx.pushChain chain.payloads
            totalRxBytes := conn.totalRxBytes + UInt64.ofNat chain.totLen }, chain.totLen)

/-- `on_err` -/
def onErr (conn : Conn) (err : ℤ) : Conn :=
  { conn with tcpErrorCode := err, tcpError := true, pcb := false }

/-- Locals of a `tls_read` call: `buf` holds the `total` bytes read so far. -/
structure ReadCall where
  len : ℕ
  deadline : UInt32
  buf : List UInt8

/-- Return value of `tls_read` with the bytes it left in the buffer; `error` is `-1`. -/
inductive ReadResult where
  | bytes (taken : List UInt8)
  | error

/-- `total > 0 ? (int)total : -1` -/
def finishRead (taken : List UInt8) : ReadResult :=
  if taken.length > 0 then .bytes taken else .error

/-- `tls_read` up to its loop: it either returns at once or starts polling. -/
def tlsReadEnter (conn : Conn) (len : ℕ) (clock : Clock) : (ReadResult ⊕ ReadCall) × Conn :=
  if len > 2 ^ 16 - 1 then (.inl .error, conn)
  else if 0 < len then
    (.inr ⟨len, clock.ms + 15000, []⟩, { conn with ioTimedOut := false })
  else (.inl (.bytes []), { conn with ioTimedOut := false })

/-- One iteration of the `while (total < len)` loop of `tls_read`. -/
def tlsReadPoll (conn : Conn) (call : ReadCall) (clock : Clock) :
    (ReadResult ⊕ ReadCall) × Conn :=
  let popped := conn.rx.rxPop ((call.len - call.buf.length) % 2 ^ 16)
  let closed := conn.tcpError || conn.remoteClosed
  let polled := { conn with rx := popped.2 }
  let buf := call.buf ++ popped.1
  if buf.length = call.len then (.inl (.bytes buf), polled)
  else if closed then (.inl (finishRead buf), polled)
  else if clock.ms > call.deadline then
    (.inl (finishRead buf), { polled with ioTimedOut := true })
  else (.inr { call with buf := buf }, polled)

/-- Connection, current `tls_read` call, and the ghost record of both ends of the ring. -/
structure Receiver where
  conn : Conn
  call : Option ReadCall
  returned : List UInt8
  acknowledged : List UInt8

def Receiver.start : Receiver := ⟨Conn.zeroed, none, [], []⟩

inductive Event where
  | recv (chain : Option Pbuf) (err : ℤ)
  | err (code : ℤ)
  | enter (len : ℕ) (clock : Clock)
  | poll (clock : Clock)

/-- Bytes that a finished `tls_read` call leaves in the caller's buffer. -/
def ReadResult.delivered : ReadResult → List UInt8
  | .bytes taken => taken
  | .error => []

/-- Continue a call, or end it and record what it returned. -/
def Receiver.settle (receiver : Receiver) (outcome : (ReadResult ⊕ ReadCall) × Conn) :
    Receiver :=
  match outcome.1 with
  | .inl result =>
      { receiver with
        conn := outcome.2
        call := none
        returned := receiver.returned ++ result.delivered }
  | .inr call => { receiver with conn := outcome.2, call := some call }

def Receiver.step (receiver : Receiver) : Event → Receiver
  | .recv chain err =>
      let handled := onRecv receiver.conn chain err
      { receiver with
        conn := handled.1
        acknowledged :=
          receiver.acknowledged ++ (chain.elim [] Pbuf.bytes).take handled.2 }
  | .err code => { receiver with conn := onErr receiver.conn code }
  | .enter len clock =>
      match receiver.call with
      | none => receiver.settle (tlsReadEnter receiver.conn len clock)
      | some _ => receiver
  | .poll clock =>
      match receiver.call with
      | none => receiver
      | some call => receiver.settle (tlsReadPoll receiver.conn call clock)

/-- Bytes already moved to the buffer of a call that has not returned. -/
def Receiver.inBuffer (receiver : Receiver) : List UInt8 :=
  receiver.call.elim [] ReadCall.buf

/-- Returned bytes, bytes in the reader's buffer and queued bytes are the acknowledged
stream. -/
def Receiver.Lossless (receiver : Receiver) : Prop :=
  receiver.returned ++ receiver.inBuffer ++ receiver.conn.rx.contents = receiver.acknowledged

/-- A delivered chain is no longer than the free space of the ring. -/
def Receiver.DeliveryFits (receiver : Receiver) : Event → Prop
  | .recv (some chain) err =>
      err = 0 → chain.totLen ≤ rxBufCap - receiver.conn.rx.avail
  | _ => True

/-- Number of bytes the next poll of a call asks the ring for. -/
def ReadCall.want (call : ReadCall) : ℕ := (call.len - call.buf.length) % 2 ^ 16

@[simp]
theorem delivered_bytes (taken : List UInt8) : (ReadResult.bytes taken).delivered = taken := rfl

@[simp]
theorem delivered_finishRead (taken : List UInt8) : (finishRead taken).delivered = taken := by
  unfold finishRead
  split_ifs with htaken
  · rfl
  · simpa [ReadResult.delivered] using htaken

/-- A poll pops the ring whatever its verdict, and keeps or returns exactly the bytes read. -/
theorem tlsReadPoll_spec (conn : Conn) (call : ReadCall) (clock : Clock) :
    (tlsReadPoll conn call clock).2.rx = (conn.rx.rxPop call.want).2 ∧
      (tlsReadPoll conn call clock).1.elim ReadResult.delivered ReadCall.buf =
        call.buf ++ (conn.rx.rxPop call.want).1 := by
  unfold tlsReadPoll ReadCall.want
  dsimp only
  split_ifs <;> simp

theorem tlsReadPoll_totalRxBytes (conn : Conn) (call : ReadCall) (clock : Clock) :
    (tlsReadPoll conn call clock).2.totalRxBytes = conn.totalRxBytes := by
  unfold tlsReadPoll
  dsimp only
  split_ifs <;> rfl

theorem tlsReadEnter_totalRxBytes (conn : Conn) (len : ℕ) (clock : Clock) :
    (tlsReadEnter conn len clock).2.totalRxBytes = conn.totalRxBytes := by
  unfold tlsReadEnter
  split_ifs <;> rfl

theorem Receiver.settle_conn (receiver : Receiver)
    (outcome : (ReadResult ⊕ ReadCall) × Conn) :
    (receiver.settle outcome).conn = outcome.2 ∧
      (receiver.settle outcome).acknowledged = receiver.acknowledged := by
  unfold settle
  cases outcome.1 <;> exact ⟨rfl, rfl⟩

theorem Receiver.settle_bytes (receiver : Receiver)
    (outcome : (ReadResult ⊕ ReadCall) × Conn) :
    (receiver.settle outcome).returned ++ (receiver.settle outcome).inBuffer =
      receiver.returned ++ outcome.1.elim ReadResult.delivered ReadCall.buf := by
  unfold settle inBuffer
  cases outcome.1 <;> simp

/-- The channel operation performed by one step. -/
def Receiver.perform (receiver : Receiver) : Event → List (BoundedChannel.Event UInt8)
  | .recv (some chain) err => if err = 0 then [.offer chain.bytes] else []
  | .poll _ => receiver.call.elim [] fun call ↦ [.take call.want]
  | _ => []

/-- The receiver represents a channel whose queue is the ring. -/
def Receiver.Represents (receiver : Receiver)
    (channel : BoundedChannel.Channel UInt8) : Prop :=
  RingRepresents receiver.conn.rx (receiver.returned ++ receiver.inBuffer)
    receiver.acknowledged channel

theorem tlsReadEnter_spec (conn : Conn) (len : ℕ) (clock : Clock) :
    (tlsReadEnter conn len clock).2.rx = conn.rx ∧
      (tlsReadEnter conn len clock).1.elim ReadResult.delivered ReadCall.buf = [] := by
  unfold tlsReadEnter
  split_ifs <;> exact ⟨rfl, rfl⟩

theorem Receiver.represents_step (receiver : Receiver)
    (channel : BoundedChannel.Channel UInt8) (event : Event)
    (h : receiver.Represents channel) :
    (receiver.step event).Represents
      (run (BoundedChannel.step rxBufCap) channel (receiver.perform event)) := by
  cases event with
  | recv chain err =>
    cases chain with
    | none => simpa [step, onRecv, perform, Represents, inBuffer] using h
    | some chain =>
      by_cases herr : err = 0
      · simpa [step, onRecv, perform, herr, Represents, inBuffer] using h.offer chain
      · simpa [step, onRecv, perform, herr, Represents, inBuffer] using h
  | err code => exact h
  | enter len clock =>
    simp only [step, perform, run_nil]
    split
    next hcall =>
      obtain ⟨hrx, hnone⟩ := tlsReadEnter_spec receiver.conn len clock
      obtain ⟨hconn, hack⟩ := receiver.settle_conn (tlsReadEnter receiver.conn len clock)
      have hidle : receiver.inBuffer = [] := by simp [inBuffer, hcall]
      simpa only [Represents, hconn, hack, hrx, receiver.settle_bytes, hnone, hidle] using h
    next => exact h
  | poll clock =>
    simp only [step, perform]
    split
    next hcall => simpa only [hcall, Option.elim, run_nil] using h
    next call hcall =>
      obtain ⟨hrx, hread⟩ := tlsReadPoll_spec receiver.conn call clock
      obtain ⟨hconn, hack⟩ := receiver.settle_conn (tlsReadPoll receiver.conn call clock)
      have hbuf : receiver.inBuffer = call.buf := by simp [inBuffer, hcall]
      have htake := h.take call.want
      rw [hbuf, List.append_assoc] at htake
      simpa only [hcall, Option.elim, run_cons, run_nil, Represents, hconn, hack, hrx,
        receiver.settle_bytes, hread] using htake

theorem Receiver.represents_start : Receiver.start.Represents BoundedChannel.empty :=
  RingRepresents.zeroed

theorem Receiver.represents_run (events : List Event) :
    (run Receiver.step Receiver.start events).Represents
      (run (BoundedChannel.step rxBufCap) BoundedChannel.empty
        (trace Receiver.step Receiver.perform Receiver.start events)) :=
  run_simulation Receiver.represents_step Receiver.represents_start events

theorem Receiver.deliveryFits_iff (receiver : Receiver)
    (channel : BoundedChannel.Channel UInt8) (event : Event)
    (h : receiver.Represents channel) :
    receiver.DeliveryFits event ↔
      AllSteps (BoundedChannel.step rxBufCap) (BoundedChannel.Fits rxBufCap) channel
        (receiver.perform event) := by
  cases event with
  | recv chain err =>
    cases chain with
    | none => simp [DeliveryFits, perform]
    | some chain =>
      by_cases herr : err = 0 <;> simp [DeliveryFits, perform, herr, h.fits_iff chain]
  | poll clock =>
    cases hcall : receiver.call <;>
      simp [DeliveryFits, perform, hcall, BoundedChannel.Fits]
  | err code => simp [DeliveryFits, perform]
  | enter len clock => simp [DeliveryFits, perform]

/-- The plain receive path is lossless exactly when no delivery exceeded the free space. -/
theorem Receiver.lossless_run_iff (events : List Event) :
    (run Receiver.step Receiver.start events).Lossless ↔
      AllSteps Receiver.step Receiver.DeliveryFits Receiver.start events := by
  rw [allSteps_trace_iff Receiver.represents_step Receiver.deliveryFits_iff
      Receiver.represents_start, ← BoundedChannel.lossless_run_iff]
  exact (Receiver.represents_run events).lossless_iff.symm

/-- `total_rx_bytes` counts the acknowledged bytes. -/
theorem Receiver.totalRxBytes_run (events : List Event) :
    (run Receiver.step Receiver.start events).conn.totalRxBytes =
      UInt64.ofNat (run Receiver.step Receiver.start events).acknowledged.length := by
  refine @run_invariant _ _ Receiver.step (fun receiver ↦
    receiver.conn.totalRxBytes = UInt64.ofNat receiver.acknowledged.length) _ rfl ?_ events
  intro receiver event h
  cases event with
  | recv chain err =>
    cases chain with
    | none => simpa [step, onRecv] using h
    | some chain =>
      by_cases herr : err = 0
      · simp [step, onRecv, herr, h, List.take_of_length_le]
      · simpa [step, onRecv, herr] using h
  | err code => exact h
  | enter len clock =>
    simp only [step]
    split
    next =>
      obtain ⟨hconn, hack⟩ := receiver.settle_conn (tlsReadEnter receiver.conn len clock)
      rw [hconn, hack, tlsReadEnter_totalRxBytes]
      exact h
    next => exact h
  | poll clock =>
    simp only [step]
    split
    next => exact h
    next call hcall =>
      obtain ⟨hconn, hack⟩ := receiver.settle_conn (tlsReadPoll receiver.conn call clock)
      rw [hconn, hack, tlsReadPoll_totalRxBytes]
      exact h

/-- Deliveries to an idle reader return nothing and acknowledge everything. -/
theorem Receiver.run_deliveries (receiver : Receiver) (chain : Pbuf) (count : ℕ) :
    (run Receiver.step receiver (List.replicate count (.recv (some chain) 0))).returned =
        receiver.returned ∧
      (run Receiver.step receiver
          (List.replicate count (.recv (some chain) 0))).inBuffer = receiver.inBuffer ∧
      (run Receiver.step receiver
          (List.replicate count (.recv (some chain) 0))).acknowledged.length =
        receiver.acknowledged.length + count * chain.totLen := by
  have hack : ∀ receiver : Receiver, (receiver.step (.recv (some chain) 0)).acknowledged.length
      = receiver.acknowledged.length + chain.totLen := by
    simp [step, onRecv]
  exact ⟨run_replicate_eq Receiver.returned (fun _ ↦ rfl) receiver count,
    run_replicate_eq Receiver.inBuffer (fun _ ↦ rfl) receiver count,
    run_replicate_add (fun receiver ↦ receiver.acknowledged.length) hack receiver count⟩

/-- Deliveries of more bytes than the ring holds, with no read between them, lose bytes. -/
theorem Receiver.not_lossless_deliveries (chain : Pbuf) (count : ℕ)
    (h : rxBufCap < count * chain.totLen) :
    ¬ (run Receiver.step Receiver.start
      (List.replicate count (.recv (some chain) 0))).Lossless := by
  intro hlossless
  obtain ⟨hreturned, hbuffer, hack⟩ := Receiver.start.run_deliveries chain count
  have hroom := (Receiver.represents_run _).acknowledged_length_le hlossless
  rw [List.length_append, hreturned, hbuffer, hack] at hroom
  simp only [start, inBuffer, Option.elim, List.length_nil, Nat.zero_add] at hroom
  exact absurd hroom (Nat.not_le_of_lt h)

end PlainTransport

/-! ## Both transports -/

/-- No inbound byte is lost on either transport exactly in the runs in which every delivered
chain fits into the free space that the ring has when the callback runs. -/
theorem inbound_lossless_iff (tlsEvents : List TlsTransport.Event)
    (plainEvents : List PlainTransport.Event) :
    ((run TlsTransport.Receiver.step TlsTransport.Receiver.start tlsEvents).Lossless ↔
      AllSteps TlsTransport.Receiver.step TlsTransport.Receiver.DeliveryFits
        TlsTransport.Receiver.start tlsEvents) ∧
    ((run PlainTransport.Receiver.step PlainTransport.Receiver.start plainEvents).Lossless ↔
      AllSteps PlainTransport.Receiver.step PlainTransport.Receiver.DeliveryFits
        PlainTransport.Receiver.start plainEvents) :=
  ⟨TlsTransport.Receiver.lossless_run_iff tlsEvents,
    PlainTransport.Receiver.lossless_run_iff plainEvents⟩

/-- One full segment of `TCP_MSS` bytes. -/
def fullSegment : Pbuf where
  payloads := [List.replicate 1460 0]
  totLen := 1460
  totLen_eq := by rw [List.flatten_singleton, List.length_replicate]
  totLen_lt := by norm_num

/-- Twelve full segments that arrive while the reader is busy overrun both rings. -/
theorem inbound_not_lossless_twelve_segments :
    ¬ (run TlsTransport.Receiver.step TlsTransport.Receiver.start
        (List.replicate 12 (.recv (some fullSegment) 0))).Lossless ∧
    ¬ (run PlainTransport.Receiver.step PlainTransport.Receiver.start
        (List.replicate 12 (.recv (some fullSegment) 0))).Lossless :=
  ⟨TlsTransport.Receiver.not_lossless_deliveries fullSegment 12 (by decide),
    PlainTransport.Receiver.not_lossless_deliveries fullSegment 12 (by decide)⟩

end PqMqtt.Transport
