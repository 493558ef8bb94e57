import PqMqtt.Foundation.PolledWait
import PqMqtt.Transport.PlainConnect
import PqMqtt.Transport.Resolve

/-!
# Deadlines of the transports

`resolve_host`, the TCP loops of both transports, `wssl_recv`, `tls_read` of the plain transport
and the handshake loop wait in the same way: they add their limit to a reading of
`to_ms_since_boot` and give up at the first reading that is greater.
-/

namespace PqMqtt.Transport

/-- The readings of the clock at a time in microseconds. -/
def clockAt (time : ℕ) : Clock := ⟨UInt64.ofNat time, millis time⟩

@[simp]
theorem clockAt_ms (time : ℕ) : (clockAt time).ms = millis time := rfl

/-! ## resolve_host -/

namespace Resolver

variable {ν α : Type}

/-- The answers that lwIP delivers between two polls. -/
def deliver (resolver : Resolver ν α) (answers : List (ℕ × Option α)) : Resolver ν α :=
  answers.foldl (fun resolver answer ↦ resolver.step (.answer answer.1 answer.2)) resolver

/-- The deadline of a call that waits. -/
def deadline (resolver : Resolver ν α) : UInt32 :=
  match resolver.point with
  | some (.wait _ deadline) => deadline
  | _ => 0

/-- A call waits for its answer. -/
def Waits (resolver : Resolver ν α) : Prop :=
  ∃ query deadline, resolver.point = some (.wait query deadline)

theorem point_deliver (resolver : Resolver ν α) (answers : List (ℕ × Option α)) :
    (resolver.deliver answers).point = resolver.point := by
  induction answers generalizing resolver with
  | nil => rfl
  | cons answer answers ih =>
    have hstep : (resolver.step (.answer answer.1 answer.2)).point = resolver.point := by
      simp only [step]
      split
      · cases answer.2 <;> rfl
      · rfl
    exact (ih _).trans hstep

/-- One round of the loop in `resolve_host`, which leaves it with a verdict only by a timeout. -/
def poll (resolver : Resolver ν α) (event : List (ℕ × Option α) × DnsReply α) (time : ℕ) :
    PollOutcome (Resolver ν α) :=
  let polled := (resolver.deliver event.1).step (.turn (millis time) event.2)
  match polled.point with
  | some (.wait _ _) => .again polled
  | some _ => .done
  | none => .timeout

/-- A poll of a call that waits: the callback has run, the deadline has passed, or neither. -/
theorem poll_of_waits {resolver : Resolver ν α} {query : ℕ} {deadline : UInt32}
    (h : resolver.point = some (.wait query deadline))
    (event : List (ℕ × Option α) × DnsReply α) (time : ℕ) :
    resolver.poll event time
      = if (resolver.deliver event.1).dnsDone then .done
        else if millis time > deadline then .timeout
        else .again (resolver.deliver event.1) := by
  have hpoint : (resolver.deliver event.1).point = some (.wait query deadline) := by
    rw [point_deliver, h]
  simp only [poll, step, hpoint, turn]
  split_ifs with hdone hlate
  · rfl
  · rfl
  · rw [hpoint]

/-- A call that has just sent its query, of which no answer has come. -/
def asked (host : ν) (addr : α) : Resolver ν α :=
  { (start addr : Resolver ν α) with point := some (.arm 0), queries := [host] }

/-- The wait of `resolve_host` for an answer. -/
def wait (host : ν) (addr : α) :
    PolledWait (Resolver ν α × DnsReply α) (List (ℕ × Option α) × DnsReply α)
      (Resolver ν α) where
  duration := 10000
  arm := fun (resolver, reply) time ↦
    match resolver.point with
    | some (.arm _) => some (resolver.step (.turn (millis time) reply))
    | _ => none
  poll := poll
  deadline := deadline
  valid := Waits
  idle := (asked host addr, ⟨errInprogress, addr⟩)
  quiet := ([], ⟨errInprogress, addr⟩)
  duration_pos := by decide
  duration_lt := by decide
  arm_spec := by
    rintro ⟨resolver, reply⟩ time state harm
    dsimp only at harm
    split at harm
    · next query hpoint =>
      obtain rfl := Option.some.inj harm
      have hstep : (resolver.step (.turn (millis time) reply)).point
          = some (.wait query (millis time + 10000)) := by
        simp only [step, hpoint, turn]
      exact ⟨⟨query, _, hstep⟩, by rw [deadline, hstep]; rfl⟩
    · simp at harm
  again_spec := by
    rintro resolver event time next ⟨query, limit, hpoint⟩ hagain
    rw [poll_of_waits hpoint] at hagain
    split_ifs at hagain
    obtain rfl := PollOutcome.again.inj hagain
    have hkept := point_deliver resolver event.1
    exact ⟨⟨query, limit, hkept.trans hpoint⟩, by rw [deadline, deadline, hkept]⟩
  expired_of_timeout := by
    rintro resolver event time ⟨query, limit, hpoint⟩ htimeout
    rw [poll_of_waits hpoint] at htimeout
    have hdeadline : resolver.deadline = limit := by rw [deadline, hpoint]
    rw [hdeadline]
    split_ifs at htimeout with hdone hlate
    exact hlate
  idle_spec := by
    intro time
    refine ⟨{ asked host addr with point := some (.wait 0 (millis time + 10000)) }, rfl, ?_⟩
    intro later hexpired
    have hwaits : ({ asked host addr with point := some (.wait 0 (millis time + 10000)) } :
        Resolver ν α).point = some (.wait 0 (millis time + 10000)) := rfl
    rw [poll_of_waits hwaits]
    exact (if_neg Bool.false_ne_true).trans (if_pos hexpired)

end Resolver

/-! ## The TCP loops -/

section Tcp

variable {κ : Type}

/-- The loop that waits for the TCP connection, which stands in the same words in both transports:
a connection with its two flags, and the callbacks between two polls. -/
def tcpWait (deliver : κ → List Callback → κ) (tcpConnected tcpError : κ → Bool) (zeroed : κ)
    (hzeroed : (tcpConnected (deliver zeroed []) || tcpError (deliver zeroed [])) = false) :
    PolledWait κ (List Callback) (κ × UInt32) where
  duration := 10000
  arm := fun conn time ↦ some (conn, millis time + 10000)
  poll := fun (conn, deadline) callbacks time ↦
    let conn := deliver conn callbacks
    if tcpConnected conn || tcpError conn then .done
    else if millis time > deadline then .timeout
    else .again (conn, deadline)
  deadline := Prod.snd
  valid := fun _ ↦ True
  idle := zeroed
  quiet := []
  duration_pos := by decide
  duration_lt := by decide
  arm_spec := by
    rintro conn time state harm
    obtain rfl := Option.some.inj harm
    exact ⟨trivial, rfl⟩
  again_spec := by
    rintro ⟨conn, limit⟩ callbacks time next - hagain
    dsimp only at hagain
    split_ifs at hagain
    obtain rfl := PollOutcome.again.inj hagain
    exact ⟨trivial, rfl⟩
  expired_of_timeout := by
    rintro ⟨conn, limit⟩ callbacks time - htimeout
    dsimp only at htimeout
    split_ifs at htimeout with hsettled hlate
    exact hlate
  idle_spec := by
    intro time
    refine ⟨_, rfl, ?_⟩
    intro later hexpired
    dsimp only
    rw [if_neg (by simp [hzeroed])]
    exact if_pos hexpired

end Tcp

/-! ## The TLS transport -/

namespace TlsTransport

namespace Conn

/-- A callback of lwIP runs. -/
def handle (conn : Conn) : Callback → Conn
  | .connected err => onConnected conn err
  | .recv chain err => (onRecv conn chain err).1
  | .err code => onErr conn code

/-- Callbacks run one after the other. -/
def deliver (conn : Conn) (callbacks : List Callback) : Conn := callbacks.foldl handle conn

end Conn

def tcpConnectWait : PolledWait Conn (List Callback) (Conn × UInt32) :=
  tcpWait Conn.deliver Conn.tcpConnected Conn.tcpError .zeroed rfl

theorem wsslRecvPoll_timeout_iff (conn : Conn) (call : RecvCall) (clock : Clock) :
    (wsslRecvPoll conn call clock).1 = some .timeout ↔
      (conn.rx.rxPop call.want).1.length = 0 ∧ (conn.tcpError || conn.remoteClosed) = false ∧
        clock.ms > call.deadline := by
  unfold wsslRecvPoll
  dsimp only
  by_cases hgot : (conn.rx.rxPop call.want).1.length ≠ 0
  · rw [if_pos hgot]
    exact iff_of_false (by simp) fun h ↦ hgot h.1
  · rw [if_neg hgot]
    by_cases hclosed : (conn.tcpError || conn.remoteClosed) = true
    · rw [if_pos hclosed]
      exact iff_of_false (by simp) fun h ↦ by simp [h.2.1] at hclosed
    · rw [if_neg hclosed]
      by_cases hlate : clock.ms > call.deadline
      · rw [if_pos hlate]
        exact iff_of_true rfl ⟨not_not.mp hgot, Bool.eq_false_of_not_eq_true hclosed, hlate⟩
      · rw [if_neg hlate]
        exact iff_of_false (by simp) fun h ↦ hlate h.2.2

theorem endRound_deadline_iff (conn : Conn) (frame : Frame) (ret sslErr : ℤ) (clock : Clock) :
    (endRound conn frame ret sslErr clock).1 = some .deadline ↔ clock.ms > frame.deadline := by
  unfold endRound
  split_ifs with hlate hagain hfailed
  · exact iff_of_true rfl hlate
  · exact iff_of_false (by simp) hlate
  · exact iff_of_false (by simp) hlate
  · exact iff_of_false (by simp) hlate

/-- A poll of `wssl_recv`, after the callbacks that have run since the one before. -/
def recvPoll (state : Conn × RecvCall) (callbacks : List Callback) (time : ℕ) :
    PollOutcome (Conn × RecvCall) :=
  match wsslRecvPoll (state.1.deliver callbacks) state.2 (clockAt time) with
  | (none, conn) => .again (conn, state.2)
  | (some .timeout, _) => .timeout
  | (some _, _) => .done

theorem snd_of_recvPoll_again {state next : Conn × RecvCall} {callbacks : List Callback} {time : ℕ}
    (h : recvPoll state callbacks time = .again next) : next.2 = state.2 := by
  unfold recvPoll at h
  split at h
  · obtain rfl := PollOutcome.again.inj h
    rfl
  · simp at h
  · simp at h

theorem recvPoll_timeout_iff (state : Conn × RecvCall) (callbacks : List Callback) (time : ℕ) :
    recvPoll state callbacks time = .timeout ↔
      (wsslRecvPoll (state.1.deliver callbacks) state.2 (clockAt time)).1 = some .timeout := by
  unfold recvPoll
  split
  · next hpolled => simp [hpolled]
  · next hpolled => simp [hpolled]
  · next hother hpolled =>
    rw [hpolled]
    exact iff_of_false (by simp) fun h ↦ hother (Option.some.inj h)

/-- The wait of `wssl_recv` for data. -/
def wsslRecvWait : PolledWait (Conn × ℤ) (List Callback) (Conn × RecvCall) where
  duration := 15000
  arm := fun (conn, sz) time ↦ some (conn, wsslRecvEnter sz (clockAt time))
  poll := recvPoll
  deadline := fun (_, call) ↦ call.deadline
  valid := fun _ ↦ True
  idle := (.zeroed, 1)
  quiet := []
  duration_pos := by decide
  duration_lt := by decide
  arm_spec := by
    rintro ⟨conn, sz⟩ time state harm
    obtain rfl := Option.some.inj harm
    exact ⟨trivial, rfl⟩
  again_spec := by
    intro state callbacks time next _ hagain
    exact ⟨trivial, congrArg RecvCall.deadline (snd_of_recvPoll_again hagain)⟩
  expired_of_timeout := by
    intro state callbacks time _ htimeout
    rw [recvPoll_timeout_iff, wsslRecvPoll_timeout_iff] at htimeout
    exact htimeout.2.2
  idle_spec := by
    intro time
    refine ⟨_, rfl, ?_⟩
    intro later hexpired
    rw [recvPoll_timeout_iff, wsslRecvPoll_timeout_iff]
    exact ⟨rfl, rfl, hexpired⟩

/-- A round of the handshake loop; `wolfSSL_connect` leaves any connection and returns any value. -/
def handshakePoll (frame : Frame) (round : Conn × ℤ × ℤ) (time : ℕ) : PollOutcome Frame :=
  match (endRound round.1 frame round.2.1 round.2.2 (clockAt time)).1 with
  | none => .again frame
  | some .deadline => .timeout
  | some _ => .done

theorem eq_of_handshakePoll_again {frame next : Frame} {round : Conn × ℤ × ℤ} {time : ℕ}
    (h : handshakePoll frame round time = .again next) : next = frame := by
  unfold handshakePoll at h
  split at h
  · exact (PollOutcome.again.inj h).symm
  · simp at h
  · simp at h

theorem handshakePoll_timeout_iff (frame : Frame) (round : Conn × ℤ × ℤ) (time : ℕ) :
    handshakePoll frame round time = .timeout ↔ frame.deadline < millis time := by
  rw [← clockAt_ms, ← gt_iff_lt,
    ← endRound_deadline_iff round.1 frame round.2.1 round.2.2 (clockAt time)]
  unfold handshakePoll
  split
  · next hended => simp [hended]
  · next hended => simp [hended]
  · next hother hended =>
    rw [hended]
    exact iff_of_false (by simp) fun h ↦ hother (Option.some.inj h)

/-- The handshake loop.  A timeout of `wssl_recv` inside it is that call's own, and only `endRound`
ends the loop at its deadline. -/
def handshakeWait : PolledWait Conn (Conn × ℤ × ℤ) Frame where
  duration := 30000
  arm := fun conn time ↦ some (enterHandshake conn (clockAt time)).1
  poll := handshakePoll
  deadline := Frame.deadline
  valid := fun _ ↦ True
  idle := .zeroed
  quiet := (.zeroed, 0, sslErrorWantRead)
  duration_pos := by decide
  duration_lt := by decide
  arm_spec := by
    intro conn time state harm
    obtain rfl := Option.some.inj harm
    exact ⟨trivial, rfl⟩
  again_spec := by
    intro frame round time next _ hagain
    exact ⟨trivial, congrArg Frame.deadline (eq_of_handshakePoll_again hagain)⟩
  expired_of_timeout := by
    intro frame round time _ htimeout
    exact (handshakePoll_timeout_iff frame round time).mp htimeout
  idle_spec := by
    intro time
    refine ⟨_, rfl, ?_⟩
    intro later hexpired
    exact (handshakePoll_timeout_iff _ _ later).mpr hexpired

end TlsTransport

/-! ## The plain transport -/

namespace PlainTransport

def tcpConnectWait : PolledWait Conn (List Callback) (Conn × UInt32) :=
  tcpWait Conn.deliver Conn.tcpConnected Conn.tcpError .zeroed rfl

theorem ioTimedOut_deliver (conn : Conn) (callbacks : List Callback) :
    (conn.deliver callbacks).ioTimedOut = conn.ioTimedOut := by
  induction callbacks generalizing conn with
  | nil => rfl
  | cons callback callbacks ih =>
    have hhandle : (conn.handle callback).ioTimedOut = conn.ioTimedOut := by
      cases callback with
      | connected err =>
        simp only [Conn.handle, onConnected]
        split <;> rfl
      | recv chain err =>
        cases chain with
        | none => rfl
        | some chain =>
          simp only [Conn.handle, onRecv]
          split <;> rfl
      | err code => rfl
    exact (ih _).trans hhandle

/-- A poll of `tls_read`, after the callbacks that have run since the one before.  Of a call that
has returned, `tls_io_timed_out` tells whether it timed out. -/
def readPoll (state : Conn × ReadCall) (callbacks : List Callback) (time : ℕ) :
    PollOutcome (Conn × ReadCall) :=
  match tlsReadPoll (state.1.deliver callbacks) state.2 (clockAt time) with
  | (.inr call, conn) => .again (conn, call)
  | (.inl _, conn) => if conn.ioTimedOut then .timeout else .done

/-- A poll sets `io_timed_out` when it ends the call after the deadline, and leaves the deadline
of a call that goes on. -/
theorem tlsReadPoll_cases (conn : Conn) (call : ReadCall) (clock : Clock)
    (h : conn.ioTimedOut = false) :
    (∃ call' conn', tlsReadPoll conn call clock = (.inr call', conn') ∧
      conn'.ioTimedOut = false ∧ call'.deadline = call.deadline) ∨
    (∃ result conn', tlsReadPoll conn call clock = (.inl result, conn') ∧
      (conn'.ioTimedOut = true → clock.ms > call.deadline)) := by
  unfold tlsReadPoll
  dsimp only
  split_ifs with hfull hclosed hlate
  · exact Or.inr ⟨_, _, rfl, by simp [h]⟩
  · exact Or.inr ⟨_, _, rfl, by simp [h]⟩
  · exact Or.inr ⟨_, _, rfl, fun _ ↦ hlate⟩
  · exact Or.inl ⟨_, _, rfl, h, rfl⟩

/-- A poll of a call that has not timed out goes on with its deadline, or ends the call, by a
timeout only after the deadline. -/
theorem readPoll_cases {state : Conn × ReadCall} (h : state.1.ioTimedOut = false)
    (callbacks : List Callback) (time : ℕ) :
    (∃ next, readPoll state callbacks time = .again next ∧ next.1.ioTimedOut = false ∧
      next.2.deadline = state.2.deadline) ∨
    readPoll state callbacks time = .done ∨
    (readPoll state callbacks time = .timeout ∧ state.2.deadline < millis time) := by
  have hclear := (ioTimedOut_deliver state.1 callbacks).trans h
  rcases tlsReadPoll_cases (state.1.deliver callbacks) state.2 (clockAt time) hclear with
    ⟨call, conn, hpolled, hkept, hdeadline⟩ | ⟨result, conn, hpolled, hlate⟩
  · exact Or.inl ⟨(conn, call), by rw [readPoll, hpolled], hkept, hdeadline⟩
  · cases hflag : conn.ioTimedOut with
    | false => exact Or.inr (Or.inl (by rw [readPoll, hpolled]; simp [hflag]))
    | true => exact Or.inr (Or.inr ⟨by rw [readPoll, hpolled]; simp [hflag], hlate hflag⟩)

theorem readPoll_of_late {state : Conn × ReadCall} {callbacks : List Callback} {time : ℕ}
    (hfull : (state.2.buf ++ ((state.1.deliver callbacks).rx.rxPop
      ((state.2.len - state.2.buf.length) % 2 ^ 16)).1).length ≠ state.2.len)
    (hopen : ((state.1.deliver callbacks).tcpError ||
      (state.1.deliver callbacks).remoteClosed) = false)
    (hlate : (clockAt time).ms > state.2.deadline) :
    readPoll state callbacks time = .timeout := by
  unfold readPoll tlsReadPoll
  dsimp only
  rw [if_neg hfull, if_neg (by simp [hopen]), if_pos hlate]
  rfl

/-- The wait of `tls_read` for data. -/
def tlsReadWait : PolledWait (Conn × ℕ) (List Callback) (Conn × ReadCall) where
  duration := 15000
  arm := fun (conn, len) time ↦
    match tlsReadEnter conn len (clockAt time) with
    | (.inr call, conn) => some (conn, call)
    | (.inl _, _) => none
  poll := readPoll
  deadline := fun (_, call) ↦ call.deadline
  valid := fun (conn, _) ↦ conn.ioTimedOut = false
  idle := (.zeroed, 1)
  quiet := []
  duration_pos := by decide
  duration_lt := by decide
  arm_spec := by
    rintro ⟨conn, len⟩ time state harm
    dsimp only [tlsReadEnter] at harm
    split_ifs at harm with hlong hpos
    obtain rfl := Option.some.inj harm
    exact ⟨rfl, rfl⟩
  again_spec := by
    intro state callbacks time next hvalid hagain
    rcases readPoll_cases hvalid callbacks time with ⟨polled, hpoll, hkept⟩ | hpoll | ⟨hpoll, -⟩
    · obtain rfl := PollOutcome.again.inj (hpoll.symm.trans hagain)
      exact hkept
    · simp [hagain] at hpoll
    · simp [hagain] at hpoll
  expired_of_timeout := by
    intro state callbacks time hvalid htimeout
    rcases readPoll_cases hvalid callbacks time with ⟨polled, hpoll, -⟩ | hpoll | ⟨-, hlate⟩
    · simp [htimeout] at hpoll
    · simp [htimeout] at hpoll
    · exact hlate
  idle_spec := by
    intro time
    refine ⟨({ Conn.zeroed with ioTimedOut := false }, ⟨1, millis time + 15000, []⟩), rfl, ?_⟩
    intro later hexpired
    have hempty : (RxRing.rxPop Conn.zeroed.rx 1).1 = [] := rfl
    exact readPoll_of_late (by simp [Conn.deliver, hempty]) rfl hexpired

end PlainTransport

/-! ## Wrapping -/

/-- Each wait lasts for its full duration before it reports a timeout exactly when the reading of
the clock at its start plus the duration is below `2 ^ 32`. -/
theorem deadlines_hold_iff {ν α : Type} (host : ν) (addr : α) (start : ℕ) :
    ((Resolver.wait host addr).TimesOutInFull start ↔
      (millis start).toNat + 10000 < 2 ^ 32) ∧
    (TlsTransport.tcpConnectWait.TimesOutInFull start ↔
      (millis start).toNat + 10000 < 2 ^ 32) ∧
    (PlainTransport.tcpConnectWait.TimesOutInFull start ↔
      (millis start).toNat + 10000 < 2 ^ 32) ∧
    (TlsTransport.wsslRecvWait.TimesOutInFull start ↔
      (millis start).toNat + 15000 < 2 ^ 32) ∧
    (PlainTransport.tlsReadWait.TimesOutInFull start ↔
      (millis start).toNat + 15000 < 2 ^ 32) ∧
    (TlsTransport.handshakeWait.TimesOutInFull start ↔
      (millis start).toNat + 30000 < 2 ^ 32) := by
  rw [millis_toNat]
  exact ⟨(Resolver.wait host addr).timesOutInFull_iff start,
    TlsTransport.tcpConnectWait.timesOutInFull_iff start,
    PlainTransport.tcpConnectWait.timesOutInFull_iff start,
    TlsTransport.wsslRecvWait.timesOutInFull_iff start,
    PlainTransport.tlsReadWait.timesOutInFull_iff start,
    TlsTransport.handshakeWait.timesOutInFull_iff start⟩

/-- Five seconds before its clock wraps, `wssl_recv` times out at its first poll. -/
theorem wssl_recv_times_out_at_once :
    (TlsTransport.wsslRecvWait.arm (.zeroed, 1) 4294962296000).bind
      (TlsTransport.wsslRecvWait.timeoutAt · [([], 4294962296000)]) = some 4294962296000 ∧
    ¬TlsTransport.wsslRecvWait.TimesOutInFull 4294962296000 := by
  constructor
  · decide +kernel
  · rw [PolledWait.timesOutInFull_iff]
    decide

end PqMqtt.Transport
