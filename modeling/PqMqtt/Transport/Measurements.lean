import PqMqtt.Transport.Handshake

/-!
# What the handshake measures

At every exit of the handshake the waiting time and the device time make up the whole, and the
bytes of the handshake are among the bytes of the connection.  Whatever happens later on the
connection leaves the numbers of the handshake alone, because the counters look at `in_handshake`.
The byte counters have 64 bits, so what is said about their order holds while fewer than `2 ^ 64`
bytes have been counted.
-/

namespace PqMqtt.Transport.TlsTransport

open Run
open Analysis (Timings)

/-! ## Bytes -/

/-- A 64-bit counter that holds a part of a count. -/
def PartOf (count : ℕ) (counter : UInt64) : Prop := ∃ part ≤ count, counter = UInt64.ofNat part

theorem PartOf.mono {count later : ℕ} {counter : UInt64} (h : PartOf count counter)
    (hle : count ≤ later) : PartOf later counter := by
  obtain ⟨part, hpart, hcounter⟩ := h
  exact ⟨part, hpart.trans hle, hcounter⟩

/-- What has been counted since a counter was read. -/
theorem PartOf.since {count : ℕ} {counter : UInt64} (h : PartOf count counter) :
    PartOf count (UInt64.ofNat count - counter) := by
  obtain ⟨part, hpart, hcounter⟩ := h
  exact ⟨count - part, Nat.sub_le _ _, by rw [hcounter, UInt64.ofNat_sub hpart]⟩

theorem PartOf.le {count : ℕ} {counter : UInt64} (h : PartOf count counter)
    (hcount : count < 2 ^ 64) : counter ≤ UInt64.ofNat count := by
  obtain ⟨part, hpart, rfl⟩ := h
  rw [UInt64.le_iff_toNat_le, UInt64.toNat_ofNat_of_lt' hcount,
    UInt64.toNat_ofNat_of_lt' (hpart.trans_lt hcount)]
  exact hpart

theorem tlsRxBytes_onRecv (conn : Conn) (chain : Option Pbuf) (err : ℤ) :
    (onRecv conn chain err).1.tlsRxBytes
      = conn.tlsRxBytes + UInt64.ofNat (onRecv conn chain err).2 := by
  cases chain with
  | none => simp [onRecv]
  | some chain =>
    unfold onRecv
    dsimp only
    split <;> simp

theorem tlsTxBytes_onRecv (conn : Conn) (chain : Option Pbuf) (err : ℤ) :
    (onRecv conn chain err).1.tlsTxBytes = conn.tlsTxBytes := by
  cases chain with
  | none => rfl
  | some chain =>
    unfold onRecv
    dsimp only
    split <;> rfl

theorem tlsRxBytes_onConnected (conn : Conn) (err : ℤ) :
    (onConnected conn err).tlsRxBytes = conn.tlsRxBytes := by
  unfold onConnected
  split <;> rfl

theorem tlsTxBytes_onConnected (conn : Conn) (err : ℤ) :
    (onConnected conn err).tlsTxBytes = conn.tlsTxBytes := by
  unfold onConnected
  split <;> rfl

namespace Link

/-- The counters are the true counts modulo `2 ^ 64`, and the numbers of the handshake are parts
of them. -/
def Counted (link : Link) : Prop :=
  link.conn.tlsRxBytes = UInt64.ofNat link.received ∧
    link.conn.tlsTxBytes = UInt64.ofNat link.sent ∧
    match link.phase with
    | .looping frame => PartOf link.received frame.hsRxStart ∧ PartOf link.sent frame.hsTxStart
    | .leaving frame _ => PartOf link.received frame.hsRxStart ∧ PartOf link.sent frame.hsTxStart
    | .done _ =>
        PartOf link.received link.conn.tlsHandshakeRxBytes ∧
          PartOf link.sent link.conn.tlsHandshakeTxBytes

variable {timer : Timer} {link next : Link}

def handshakeBytes (ledger : Ledger) : UInt64 × UInt64 :=
  (ledger.tlsHandshakeRxBytes, ledger.tlsHandshakeTxBytes)

/-- A step that counts bytes and records nothing. -/
theorem Counted.later (h : link.Counted)
    (hrx : next.conn.tlsRxBytes = UInt64.ofNat next.received)
    (htx : next.conn.tlsTxBytes = UInt64.ofNat next.sent)
    (hreceived : link.received ≤ next.received) (hsent : link.sent ≤ next.sent)
    (hbytes : handshakeBytes next.conn.ledger = handshakeBytes link.conn.ledger)
    (hphase : next.phase = link.phase) : next.Counted := by
  obtain ⟨-, -, hcase⟩ := h
  refine ⟨hrx, htx, ?_⟩
  have hhsRx : next.conn.tlsHandshakeRxBytes = link.conn.tlsHandshakeRxBytes :=
    congrArg Prod.fst hbytes
  have hhsTx : next.conn.tlsHandshakeTxBytes = link.conn.tlsHandshakeTxBytes :=
    congrArg Prod.snd hbytes
  rw [hphase, hhsRx, hhsTx]
  cases hp : link.phase with
  | looping frame =>
    rw [hp] at hcase
    exact ⟨hcase.1.mono hreceived, hcase.2.mono hsent⟩
  | leaving frame exit =>
    rw [hp] at hcase
    exact ⟨hcase.1.mono hreceived, hcase.2.mono hsent⟩
  | done exit =>
    rw [hp] at hcase
    exact ⟨hcase.1.mono hreceived, hcase.2.mono hsent⟩

/-- A step that counts no bytes and records nothing. -/
theorem Counted.idle (h : link.Counted) (hrx : next.conn.tlsRxBytes = link.conn.tlsRxBytes)
    (htx : next.conn.tlsTxBytes = link.conn.tlsTxBytes) (hreceived : next.received = link.received)
    (hsent : next.sent = link.sent)
    (hbytes : handshakeBytes next.conn.ledger = handshakeBytes link.conn.ledger)
    (hphase : next.phase = link.phase) : next.Counted := by
  refine h.later ?_ ?_ hreceived.ge hsent.ge hbytes hphase
  · rw [hrx, h.1, hreceived]
  · rw [htx, h.2.1, hsent]

theorem counted_begin (timer : Timer) (ready : ReadyConn) (tick : ℕ) :
    (begin timer ready tick).Counted :=
  ⟨ready.tlsRxBytes_eq, ready.tlsTxBytes_eq, ⟨ready.received, Nat.le_refl _, ready.tlsRxBytes_eq⟩,
    ⟨0, Nat.le_refl _, ready.tlsTxBytes_eq⟩⟩

theorem counted_recv (h : link.Counted) (chain : Option Pbuf) (err : ℤ) :
    (link.step timer (.recv chain err)).Counted := by
  have hrx := tlsRxBytes_onRecv link.conn chain err
  have htx := tlsTxBytes_onRecv link.conn chain err
  refine h.later ?_ ?_ (Nat.le_add_right _ _) (Nat.le_refl _)
    (congrArg handshakeBytes (ledger_onRecv link.conn chain err)) rfl
  · simp only [step, act, hrx, h.1, UInt64.ofNat_add]
  · simp only [step, act, htx, h.2.1]

theorem counted_send (h : link.Counted) (sz : ℕ) (e : ℤ) :
    (link.step timer (.send sz e)).Counted := by
  simp only [step, act]
  split
  · have hrx := tlsRxBytes_sendOnce link.conn sz e
    have htx := tlsTxBytes_sendOnce link.conn sz e
    have hbytes := congrArg handshakeBytes (ledger_sendOnce link.conn sz e)
    refine h.later ?_ ?_ (Nat.le_refl _) (Nat.le_add_right _ _) hbytes rfl
    · simp only [hrx, h.1]
    · simp only [htx, h.2.1, UInt64.ofNat_add]
  · exact h

theorem counted_poll (h : link.Counted) : (link.step timer .poll).Counted := by
  simp only [step, act]
  split
  · exact h
  next call hcall =>
    have hrx := wsslRecvPoll_tlsRxBytes link.conn call (timer.reading link.tick)
    have htx := tlsTxBytes_wsslRecvPoll link.conn call (timer.reading link.tick)
    have hledger := congrArg handshakeBytes
      (ledger_wsslRecvPoll link.conn call (timer.reading link.tick))
    rw [apply_ite handshakeBytes] at hledger
    have hbytes := hledger.trans (ite_self _)
    split
    · exact h.idle hrx htx rfl rfl hbytes rfl
    · exact h.idle hrx htx rfl rfl hbytes rfl

theorem counted_step (timer : Timer) (link : Link) (event : LinkEvent) (h : link.Counted) :
    (link.step timer event).Counted := by
  cases event with
  | connected err =>
    have hbytes := congrArg handshakeBytes (ledger_onConnected link.conn err)
    exact h.idle (tlsRxBytes_onConnected _ _) (tlsTxBytes_onConnected _ _) rfl rfl hbytes rfl
  | recv chain err => exact counted_recv h chain err
  | err code => exact h
  | enter sz =>
    simp only [step, act]
    split
    · exact h
    · exact h
  | poll => exact counted_poll h
  | send sz e => exact counted_send h sz e
  | round ret sslErr =>
    rcases round_cases timer link ret sslErr with hstays | ⟨frame, exit, hphase, hleaves⟩
    · rw [hstays]
      exact h
    · obtain ⟨hrx, htx, hcase⟩ := h
      rw [hphase] at hcase
      rw [hleaves]
      exact ⟨hrx, htx, hcase⟩
  | record =>
    simp only [step, act]
    split
    next frame exit hcall hphase =>
      obtain ⟨hrx, htx, hcase⟩ := h
      rw [hphase] at hcase
      refine ⟨hrx, htx, ?_, ?_⟩
      · simpa only [recordHandshake, hrx] using hcase.1.since
      · simpa only [recordHandshake, htx] using hcase.2.since
    · exact h
  | clearTimeout =>
    simp only [step, act]
    split
    · exact h
    · exact h

theorem counted_run (timer : Timer) (ready : ReadyConn) (tick : ℕ) (events : List LinkEvent) :
    (run (step timer) (begin timer ready tick) events).Counted :=
  run_invariant (counted_begin timer ready tick) (counted_step timer) events

/-! ## After the handshake -/

/-- After the handshake every step leaves the ledger alone. -/
theorem ledger_step_of_done (h : link.Timed timer) {exit : Exit} (hphase : link.phase = .done exit)
    (event : LinkEvent) :
    (link.step timer event).conn.ledger = link.conn.ledger ∧
      (link.step timer event).phase = .done exit := by
  have hin : link.conn.inHandshake = false := by
    have hcase := h.2.2
    rw [hphase] at hcase
    exact hcase.1
  cases event with
  | connected err => exact ⟨ledger_onConnected _ _, hphase⟩
  | recv chain err => exact ⟨ledger_onRecv _ _ _, hphase⟩
  | err code => exact ⟨rfl, hphase⟩
  | enter sz =>
    simp only [step, act]
    split <;> exact ⟨rfl, hphase⟩
  | poll =>
    simp only [step, act]
    split
    · exact ⟨rfl, hphase⟩
    next call hcall =>
      have hledger := ledger_wsslRecvPoll link.conn call (timer.reading link.tick)
      rw [hin, Bool.and_false, if_neg Bool.false_ne_true] at hledger
      split <;> exact ⟨hledger, hphase⟩
  | send sz e =>
    simp only [step, act]
    split
    · exact ⟨ledger_sendOnce_of_not_inHandshake hin sz e, hphase⟩
    · exact ⟨rfl, hphase⟩
  | round ret sslErr =>
    simp only [step, act]
    split
    next hother =>
      rw [hphase] at hother
      cases hother
    · exact ⟨rfl, hphase⟩
  | record =>
    simp only [step, act]
    split
    next hother =>
      rw [hphase] at hother
      cases hother
    · exact ⟨rfl, hphase⟩
  | clearTimeout =>
    simp only [step, act]
    split <;> exact ⟨rfl, hphase⟩

theorem received_le_step (timer : Timer) (link : Link) (event : LinkEvent) :
    link.received ≤ (link.step timer event).received := by
  cases event with
  | recv chain err => exact Nat.le_add_right _ _
  | _ =>
    simp only [step, act]
    repeat' split
    all_goals exact Nat.le_refl _

theorem sent_le_step (timer : Timer) (link : Link) (event : LinkEvent) :
    link.sent ≤ (link.step timer event).sent := by
  cases event with
  | send sz e =>
    simp only [step, act]
    split
    · exact Nat.le_add_right _ _
    · exact Nat.le_refl _
  | _ =>
    simp only [step, act]
    repeat' split
    all_goals exact Nat.le_refl _

/-- A run that starts after the handshake. -/
theorem run_of_done (h : link.Timed timer) {exit : Exit} (hphase : link.phase = .done exit)
    (events : List LinkEvent) :
    (run (step timer) link events).conn.ledger = link.conn.ledger ∧
      link.received ≤ (run (step timer) link events).received ∧
      link.sent ≤ (run (step timer) link events).sent := by
  have hrun := @run_invariant _ _ (step timer) (fun next ↦ next.Timed timer ∧
    next.phase = .done exit ∧ next.conn.ledger = link.conn.ledger ∧
    link.received ≤ next.received ∧ link.sent ≤ next.sent) link
    ⟨h, hphase, rfl, Nat.le_refl _, Nat.le_refl _⟩
  refine (hrun ?_ events).2.2
  intro next event hnext
  obtain ⟨htimed, hdone, hledger, hreceived, hsent⟩ := hnext
  obtain ⟨hsame, hstays⟩ := ledger_step_of_done htimed hdone event
  exact ⟨timed_step timer next event htimed, hstays, hsame.trans hledger,
    hreceived.trans (received_le_step timer next event),
    hsent.trans (sent_le_step timer next event)⟩

end Link

/-! ## The numbers of the handshake -/

/-- What the getters report about the handshake. -/
structure HandshakeNumbers where
  timings : Timings
  rxBytes : UInt64
  txBytes : UInt64
  txCalls : UInt32
  rxCalls : UInt32

def handshakeNumbers (conn : Conn) : HandshakeNumbers where
  timings := tlsGetTimings conn
  rxBytes := (tlsGetBandwidth conn).handshakeRxBytes
  txBytes := (tlsGetBandwidth conn).handshakeTxBytes
  txCalls := (tlsGetBandwidth conn).handshakeTxCalls
  rxCalls := (tlsGetBandwidth conn).handshakeRxCalls

theorem handshakeNumbers_congr {first second : Conn} (h : first.ledger = second.ledger) :
    handshakeNumbers first = handshakeNumbers second := by
  simp only [Conn.ledger, Ledger.mk.injEq] at h
  obtain ⟨-, hdns, htcp, htls, hwait, hrx, htx, htxCalls, hrxCalls⟩ := h
  simp only [handshakeNumbers, tlsGetTimings, tlsGetBandwidth, hdns, htcp, htls, hwait, hrx, htx,
    htxCalls, hrxCalls]

/-- The waiting time and the device time make up the handshake. -/
def Partitioned (conn : Conn) : Prop :=
  (tlsGetTimings conn).tlsNetWaitUs.toNat + (tlsGetTimings conn).tlsCryptoUs.toNat
    = (tlsGetTimings conn).tlsUs.toNat

/-- The order of the byte counters: at the exit of the handshake, and from there to a later
state. -/
structure BytesOrdered (done after : Conn) : Prop where
  rx_le : (tlsGetBandwidth done).handshakeRxBytes ≤ (tlsGetBandwidth done).totalRxBytes
  tx_le : (tlsGetBandwidth done).handshakeTxBytes ≤ (tlsGetBandwidth done).totalTxBytes
  rx_grows : (tlsGetBandwidth done).totalRxBytes ≤ (tlsGetBandwidth after).totalRxBytes
  tx_grows : (tlsGetBandwidth done).totalTxBytes ≤ (tlsGetBandwidth after).totalTxBytes

/-- The numbers of the handshake are a partition, stay as they are, and the counters are in
order. -/
def MeasuredWell (done after : Link) : Prop :=
  Partitioned done.conn ∧ handshakeNumbers after.conn = handshakeNumbers done.conn ∧
    BytesOrdered done.conn after.conn

/-- The order of the byte counters, as long as fewer than `2 ^ 64` bytes went that way. -/
structure BytesOrderedUpTo (done after : Link) : Prop where
  rx_le : done.received < 2 ^ 64 →
    (tlsGetBandwidth done.conn).handshakeRxBytes ≤ (tlsGetBandwidth done.conn).totalRxBytes
  tx_le : done.sent < 2 ^ 64 →
    (tlsGetBandwidth done.conn).handshakeTxBytes ≤ (tlsGetBandwidth done.conn).totalTxBytes
  rx_grows : after.received < 2 ^ 64 →
    (tlsGetBandwidth done.conn).totalRxBytes ≤ (tlsGetBandwidth after.conn).totalRxBytes
  tx_grows : after.sent < 2 ^ 64 →
    (tlsGetBandwidth done.conn).totalTxBytes ≤ (tlsGetBandwidth after.conn).totalTxBytes

theorem bytesOrderedUpTo {done after : Link} (hdone : done.Counted) {exit : Exit}
    (hexit : done.phase = .done exit) (hafter : after.Counted)
    (hreceived : done.received ≤ after.received) (hsent : done.sent ≤ after.sent) :
    BytesOrderedUpTo done after := by
  obtain ⟨hdoneRx, hdoneTx, hcase⟩ := hdone
  obtain ⟨hafterRx, hafterTx, -⟩ := hafter
  rw [hexit] at hcase
  refine ⟨fun hlt ↦ ?_, fun hlt ↦ ?_, fun hlt ↦ ?_, fun hlt ↦ ?_⟩
  · exact (hcase.1.le hlt).trans_eq hdoneRx.symm
  · exact (hcase.2.le hlt).trans_eq hdoneTx.symm
  · have hpart : PartOf after.received done.conn.tlsRxBytes := ⟨_, hreceived, hdoneRx⟩
    exact (hpart.le hlt).trans_eq hafterRx.symm
  · have hpart : PartOf after.sent done.conn.tlsTxBytes := ⟨_, hsent, hdoneTx⟩
    exact (hpart.le hlt).trans_eq hafterTx.symm

/-- The numbers of the handshake are a partition and stay as they are; the byte counters are in
order as long as they have not wrapped. -/
theorem handshake_partitioned_and_frozen (timer : Timer) (ready : ReadyConn) (tick : ℕ)
    (events later : List LinkEvent) {done after : Link}
    (hdone : run (Link.step timer) (Link.begin timer ready tick) events = done) {exit : Exit}
    (hexit : done.phase = .done exit) (hafter : run (Link.step timer) done later = after) :
    Partitioned done.conn ∧ handshakeNumbers after.conn = handshakeNumbers done.conn ∧
      BytesOrderedUpTo done after := by
  have htimed : done.Timed timer := hdone ▸ Link.timed_run timer ready tick events
  have hcounted : done.Counted := hdone ▸ Link.counted_run timer ready tick events
  have hlater : after.Counted := by
    rw [← hafter]
    exact run_invariant hcounted (Link.counted_step timer) later
  obtain ⟨hledger, hreceived, hsent⟩ := Link.run_of_done htimed hexit later
  rw [hafter] at hledger hreceived hsent
  exact ⟨netWait_add_crypto (htimed.netWait_le hexit), handshakeNumbers_congr hledger,
    bytesOrderedUpTo hcounted hexit hlater hreceived hsent⟩

/-- The session after the handshake: a record each way. -/
def laterTraffic : List LinkEvent :=
  [.send 40 0, .clearTimeout, .enter 5, .recv (some headerChain) 0, .poll]

theorem answered_partitioned_and_frozen :
    Partitioned
      (run (Link.step jumpingTimer) (Link.begin jumpingTimer readyConn 0) answeredHandshake).conn ∧
    handshakeNumbers (run (Link.step jumpingTimer)
        (run (Link.step jumpingTimer) (Link.begin jumpingTimer readyConn 0) answeredHandshake)
        laterTraffic).conn
      = handshakeNumbers
        (run (Link.step jumpingTimer) (Link.begin jumpingTimer readyConn 0)
          answeredHandshake).conn ∧
    BytesOrderedUpTo
      (run (Link.step jumpingTimer) (Link.begin jumpingTimer readyConn 0) answeredHandshake)
      (run (Link.step jumpingTimer)
        (run (Link.step jumpingTimer) (Link.begin jumpingTimer readyConn 0) answeredHandshake)
        laterTraffic) :=
  have hexit : (run (Link.step jumpingTimer) (Link.begin jumpingTimer readyConn 0)
      answeredHandshake).phase = .done .connected := by rfl
  handshake_partitioned_and_frozen jumpingTimer readyConn 0 answeredHandshake laterTraffic rfl
    hexit rfl

/-! ## Wrapping counters -/

/-- The longest chain that `on_recv` can be given. -/
def fullChain : Pbuf where
  payloads := [List.replicate 65535 0]
  totLen := 65535
  totLen_eq := by rw [List.flatten_singleton, List.length_replicate]
  totLen_lt := by decide

theorem received_deliveries (timer : Timer) (link : Link) (chain : Pbuf) (count : ℕ) :
    (run (Link.step timer) link (List.replicate count (.recv (some chain) 0))).received
      = link.received + count * chain.totLen := by
  have hstep : ∀ link : Link, (link.step timer (.recv (some chain) 0)).received
      = link.received + chain.totLen := by
    simp only [Link.step, Link.act, onRecv, ne_eq, not_true_eq_false, if_false, implies_true]
  exact run_replicate_add Link.received hstep link count

/-- Deliveries that take the true count past a multiple of `2 ^ 64`. -/
theorem not_measuredWell_of_deliveries {timer : Timer} {done : Link} (h : done.Counted)
    (chain : Pbuf) (count : ℕ)
    (hwraps : UInt64.ofNat (done.received + count * chain.totLen) < UInt64.ofNat done.received) :
    ¬MeasuredWell done
      (run (Link.step timer) done (List.replicate count (.recv (some chain) 0))) := by
  intro hwell
  have hgrows := hwell.2.2.rx_grows
  have hafter : (run (Link.step timer) done
      (List.replicate count (.recv (some chain) 0))).Counted :=
    run_invariant h (Link.counted_step timer) _
  have hcount := received_deliveries timer done chain count
  simp only [tlsGetBandwidth, h.1, hafter.1, hcount] at hgrows
  exact absurd hwraps (UInt64.not_lt.mpr hgrows)

/-- After the handshake so many bytes arrive that `total_rx_bytes` wraps. -/
theorem total_rx_bytes_wraps :
    (run (Link.step jumpingTimer) (Link.begin jumpingTimer readyConn 0)
      answeredHandshake).phase = .done .connected ∧
    ¬MeasuredWell
      (run (Link.step jumpingTimer) (Link.begin jumpingTimer readyConn 0) answeredHandshake)
      (run (Link.step jumpingTimer)
        (run (Link.step jumpingTimer) (Link.begin jumpingTimer readyConn 0) answeredHandshake)
        (List.replicate 281479271743489 (.recv (some fullChain) 0))) := by
  have hreceived : (run (Link.step jumpingTimer) (Link.begin jumpingTimer readyConn 0)
      answeredHandshake).received = 5 := by rfl
  have htotal : fullChain.totLen = 65535 := rfl
  refine ⟨by rfl, not_measuredWell_of_deliveries
    (Link.counted_run jumpingTimer readyConn 0 answeredHandshake) fullChain _ ?_⟩
  rw [hreceived, htotal]
  decide

end PqMqtt.Transport.TlsTransport
