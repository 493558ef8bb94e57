import PqMqtt.Foundation.PolledCall
import PqMqtt.Transport.Deadlines

/-!
# Whole calls of the readers

`tls_read` of the plain transport and `wssl_recv` from their entry to their return.  Before each
poll some callbacks of lwIP run, and each poll reads the clock; a list of such polls is an
interleaving of a call with arrivals, closes, errors and the passing of time.
-/

namespace PqMqtt.Transport

/-- The callbacks that run before a poll, and the clock that it reads. -/
structure Poll where
  callbacks : List Callback
  clock : Clock

/-- The bytes that a callback offers to the ring. -/
def Callback.bytes : Callback → List UInt8
  | recv (some chain) code => if code = 0 then chain.bytes else []
  | _ => []

/-- The callback sets a flag that ends a call which reads. -/
def Callback.closes : Callback → Bool
  | connected code => code ≠ 0
  | recv none _ => true
  | recv (some _) code => code ≠ 0
  | err _ => true

/-- The bytes that arrive before a poll. -/
def Poll.bytes (poll : Poll) : List UInt8 := poll.callbacks.flatMap Callback.bytes

/-- The bytes that arrive up to the last of some polls. -/
def arrivals (polls : List Poll) : List UInt8 := polls.flatMap Poll.bytes

@[simp]
theorem arrivals_nil : arrivals [] = [] := rfl

theorem arrivals_concat (polls : List Poll) (poll : Poll) :
    arrivals (polls ++ [poll]) = arrivals polls ++ poll.bytes := by
  simp [arrivals]

theorem arrivals_mono {polls more : List Poll} (h : polls <+: more) :
    arrivals polls <+: arrivals more := by
  obtain ⟨rest, rfl⟩ := h
  rw [arrivals, arrivals, List.flatMap_append]
  exact List.prefix_append _ _

/-! ## Segments of zeros -/

theorem bytes_fullSegment : fullSegment.bytes = List.replicate 1460 0 := List.flatten_singleton

theorem flatMap_replicate_fullSegment (count : ℕ) :
    (List.replicate count (Callback.recv (some fullSegment) 0)).flatMap Callback.bytes =
      List.replicate (count * 1460) 0 := by
  have hbytes : (Callback.recv (some fullSegment) 0).bytes = List.replicate 1460 0 := by
    rw [Callback.bytes, if_pos rfl, bytes_fullSegment]
  rw [List.flatMap_replicate, hbytes, List.flatten_replicate_replicate]

/-! ## The ring -/

/-- What a ring keeps of the bytes that arrive between two polls. -/
def RxRing.Keeps (before after : RxRing) (bytes : List UInt8) : Prop :=
  after.WellFormed ∧ after.contents = (before.contents ++ bytes).take rxBufCap

namespace RxRing

variable {ring : RxRing}

theorem WellFormed.length_le (h : ring.WellFormed) : ring.contents.length ≤ rxBufCap := by
  rw [contents_length]
  exact h.avail_le

theorem keeps_nil (h : ring.WellFormed) : ring.Keeps ring [] := by
  refine ⟨h, ?_⟩
  rw [List.append_nil, List.take_of_length_le h.length_le]

theorem keeps_pushChain (h : ring.WellFormed) (payloads : List (List UInt8)) :
    ring.Keeps (ring.pushChain payloads) payloads.flatten := by
  obtain ⟨hwell, hcontents⟩ := pushChain_spec h payloads
  refine ⟨hwell, ?_⟩
  rw [hcontents, List.take_append, List.take_of_length_le h.length_le]

theorem take_take_append (capacity : ℕ) (xs ys : List UInt8) :
    (xs.take capacity ++ ys).take capacity = (xs ++ ys).take capacity := by
  have hroom : capacity - min capacity xs.length = capacity - xs.length := by omega
  rw [List.take_append, List.take_append, List.take_take, Nat.min_self, List.length_take, hroom]

theorem Keeps.trans {before between after : RxRing} {first second : List UInt8}
    (hfirst : before.Keeps between first) (hsecond : between.Keeps after second) :
    before.Keeps after (first ++ second) := by
  refine ⟨hsecond.1, ?_⟩
  calc
    after.contents = ((before.contents ++ first).take rxBufCap ++ second).take rxBufCap := by
      rw [hsecond.2, hfirst.2]
    _ = (before.contents ++ (first ++ second)).take rxBufCap := by
      rw [take_take_append, List.append_assoc]

/-- Nothing is lost of bytes that fit. -/
theorem Keeps.contents_of_fits {before after : RxRing} {bytes : List UInt8}
    (h : before.Keeps after bytes) (hfits : before.contents.length + bytes.length ≤ rxBufCap) :
    after.contents = before.contents ++ bytes := by
  rw [h.2, List.take_of_length_le (by rwa [List.length_append])]

/-- Callbacks that run one after the other keep what fits of all their bytes. -/
theorem keeps_foldl {κ : Type*} (rx : κ → RxRing) {handle : κ → Callback → κ}
    (hhandle : ∀ {conn : κ}, (rx conn).WellFormed → ∀ callback,
      (rx conn).Keeps (rx (handle conn callback)) callback.bytes)
    {conn : κ} (h : (rx conn).WellFormed) (callbacks : List Callback) :
    (rx conn).Keeps (rx (callbacks.foldl handle conn)) (callbacks.flatMap Callback.bytes) := by
  induction callbacks generalizing conn with
  | nil => exact keeps_nil h
  | cons callback callbacks ih =>
    have hfirst := hhandle h callback
    exact hfirst.trans (ih hfirst.1)

end RxRing

/-! ## Plain transport -/

namespace PlainTransport

/-- The flags that end a call of `tls_read`. -/
def Conn.closed (conn : Conn) : Bool := conn.tcpError || conn.remoteClosed

/-- `tls_io_timed_out` -/
def tlsIoTimedOut (conn : Option Conn) : Bool := conn.elim false Conn.ioTimedOut

theorem keeps_handle {conn : Conn} (h : conn.rx.WellFormed) (callback : Callback) :
    conn.rx.Keeps (conn.handle callback).rx callback.bytes := by
  cases callback with
  | connected err =>
    have hrx : (conn.handle (.connected err)).rx = conn.rx := by
      simp only [Conn.handle, onConnected]
      split <;> rfl
    rw [hrx]
    exact RxRing.keeps_nil h
  | recv chain err =>
    cases chain with
    | none => exact RxRing.keeps_nil h
    | some chain =>
      by_cases herr : err = 0
      · simpa [Conn.handle, onRecv, Callback.bytes, herr, Pbuf.bytes] using
          RxRing.keeps_pushChain h chain.payloads
      · simpa [Conn.handle, onRecv, Callback.bytes, herr] using RxRing.keeps_nil h
  | err code => exact RxRing.keeps_nil h

theorem keeps_deliver {conn : Conn} (h : conn.rx.WellFormed) (callbacks : List Callback) :
    conn.rx.Keeps (conn.deliver callbacks).rx (callbacks.flatMap Callback.bytes) :=
  RxRing.keeps_foldl Conn.rx keeps_handle h callbacks

theorem closed_handle (conn : Conn) (callback : Callback) :
    (conn.handle callback).closed = (conn.closed || callback.closes) := by
  cases callback with
  | connected code =>
    by_cases hcode : code = 0 <;>
      simp [Conn.handle, onConnected, Conn.closed, Callback.closes, hcode]
  | recv chain code =>
    cases chain with
    | none => simp [Conn.handle, onRecv, Conn.closed, Callback.closes]
    | some chain =>
      by_cases hcode : code = 0 <;> simp [Conn.handle, onRecv, Conn.closed, Callback.closes, hcode]
  | err code => simp [Conn.handle, onErr, Conn.closed, Callback.closes]

theorem closed_deliver (conn : Conn) (callbacks : List Callback) :
    (conn.deliver callbacks).closed = (conn.closed || callbacks.any Callback.closes) := by
  induction callbacks generalizing conn with
  | nil => simp [Conn.deliver]
  | cons callback callbacks ih =>
    rw [List.any_cons, ← Bool.or_assoc, ← closed_handle]
    exact ih (conn.handle callback)

/-- The polls of a call of `tls_read`. -/
def readCalls : PolledCall Conn ReadCall ReadResult Poll where
  meet conn poll := conn.deliver poll.callbacks
  poll conn call poll := tlsReadPoll conn call poll.clock

/-- `tls_read`: it returns before its loop, or polls. -/
def tlsRead (conn : Conn) (len : ℕ) (clock : Clock) (polls : List Poll) :
    ReadResult × Conn ⊕ PolledCall.Status Conn ReadCall ReadResult Poll :=
  match tlsReadEnter conn len clock with
  | (.inl result, conn) => .inl (result, conn)
  | (.inr call, conn) => .inr (readCalls.run conn call [] polls)

/-- `conn->io_timed_out = false;` -/
def Conn.rearmed (conn : Conn) : Conn := { conn with ioTimedOut := false }

/-- The call that `tls_read` starts. -/
def readCall (len : ℕ) (clock : Clock) : ReadCall := ⟨len, clock.ms + 15000, []⟩

theorem tlsRead_eq (conn : Conn) {len : ℕ} (hpos : 0 < len) (hle : len ≤ 65535) (clock : Clock)
    (polls : List Poll) :
    tlsRead conn len clock polls =
      .inr (readCalls.run conn.rearmed (readCall len clock) [] polls) := by
  unfold tlsRead tlsReadEnter
  rw [if_neg (by omega), if_pos hpos]
  rfl

/-- A call that still has bytes to read, and few enough for `tls_read`. -/
structure ReadCall.Open (call : ReadCall) : Prop where
  buf_lt : call.buf.length < call.len
  len_le : call.len ≤ 65535

theorem ReadCall.Open.want_eq {call : ReadCall} (h : call.Open) :
    call.want = call.len - call.buf.length := by
  have hlen := h.len_le
  exact Nat.mod_eq_of_lt (by omega)

/-- A poll took `count` bytes out of the ring and left the flags that end a call. -/
structure Conn.Popped (found after : Conn) (count : ℕ) : Prop where
  wellFormed : after.rx.WellFormed
  contents : after.rx.contents = found.rx.contents.drop count
  closed : after.closed = found.closed

/-- What a poll of `tls_read` can do: fill the buffer, or take all that the ring holds and then end
the call by a close, end it by its deadline, or go on. -/
inductive ReadOutcome (found : Conn) (call : ReadCall) (clock : Clock) :
    (ReadResult ⊕ ReadCall) × Conn → Prop
  | full {after : Conn} (popped : found.Popped after (call.len - call.buf.length))
      (enough : call.len ≤ call.buf.length + found.rx.contents.length)
      (flag : after.ioTimedOut = found.ioTimedOut) :
      ReadOutcome found call clock
        (.inl (.bytes (call.buf ++ found.rx.contents.take (call.len - call.buf.length))), after)
  | closed {after : Conn} (popped : found.Popped after (call.len - call.buf.length))
      (short : call.buf.length + found.rx.contents.length < call.len)
      (hclosed : found.closed = true) (flag : after.ioTimedOut = found.ioTimedOut) :
      ReadOutcome found call clock (.inl (finishRead (call.buf ++ found.rx.contents)), after)
  | late {after : Conn} (popped : found.Popped after (call.len - call.buf.length))
      (short : call.buf.length + found.rx.contents.length < call.len)
      (hopen : found.closed = false) (hlate : clock.ms > call.deadline)
      (flag : after.ioTimedOut = true) :
      ReadOutcome found call clock (.inl (finishRead (call.buf ++ found.rx.contents)), after)
  | again {after : Conn} (popped : found.Popped after (call.len - call.buf.length))
      (short : call.buf.length + found.rx.contents.length < call.len)
      (hopen : found.closed = false) (hlate : ¬clock.ms > call.deadline)
      (flag : after.ioTimedOut = found.ioTimedOut) :
      ReadOutcome found call clock
        (.inr { call with buf := call.buf ++ found.rx.contents }, after)

theorem tlsReadPoll_outcome {found : Conn} (hring : found.rx.WellFormed) {call : ReadCall}
    (hcall : call.Open) (clock : Clock) :
    ReadOutcome found call clock (tlsReadPoll found call clock) := by
  obtain ⟨hwell, htaken, hleft⟩ := RxRing.rxPop_spec hring (call.len - call.buf.length)
  have hbuf := hcall.buf_lt
  have hwant : (call.len - call.buf.length) % 2 ^ 16 = call.len - call.buf.length := hcall.want_eq
  unfold tlsReadPoll
  dsimp only
  rw [hwant, htaken]
  by_cases henough : call.len ≤ call.buf.length + found.rx.contents.length
  · have hfull : (call.buf ++ found.rx.contents.take (call.len - call.buf.length)).length =
        call.len := by
      rw [List.length_append, List.length_take]
      omega
    rw [if_pos hfull]
    exact .full ⟨hwell, hleft, rfl⟩ henough rfl
  · have hall : found.rx.contents.take (call.len - call.buf.length) = found.rx.contents :=
      List.take_of_length_le (by omega)
    have hshort : call.buf.length + found.rx.contents.length < call.len :=
      Nat.lt_of_not_le henough
    rw [hall, if_neg (by rw [List.length_append]; exact hshort.ne)]
    rw [← Conn.closed]
    by_cases hclosed : found.closed = true
    · rw [if_pos hclosed]
      exact .closed ⟨hwell, hleft, rfl⟩ hshort hclosed rfl
    have hopen : found.closed = false := Bool.eq_false_of_not_eq_true hclosed
    rw [if_neg hclosed]
    by_cases hlate : clock.ms > call.deadline
    · rw [if_pos hlate]
      exact .late ⟨hwell, hleft, rfl⟩ hshort hopen hlate rfl
    · rw [if_neg hlate]
      exact .again ⟨hwell, hleft, rfl⟩ hshort hopen hlate rfl

theorem readCalls_outcome {state : Conn} (hring : state.rx.WellFormed) {call : ReadCall}
    (hcall : call.Open) (poll : Poll) :
    ReadOutcome (readCalls.meet state poll) call poll.clock
      (readCalls.poll (readCalls.meet state poll) call poll) :=
  tlsReadPoll_outcome (keeps_deliver hring poll.callbacks).1 hcall poll.clock

/-- The arrivals before a poll overrun the ring. -/
def Overruns (state : Conn) (poll : Poll) : Prop := rxBufCap < state.rx.avail + poll.bytes.length

/-- The bytes that a call has moved to the caller's buffer. -/
def taken : PolledCall.Status Conn ReadCall ReadResult Poll → List UInt8
  | .ended result _ _ _ _ _ => result.delivered
  | .polling _ call _ => call.buf

theorem finishRead_eq_error_iff (buf : List UInt8) : finishRead buf = .error ↔ buf = [] := by
  cases buf with
  | nil => exact iff_of_true rfl rfl
  | cons byte buf => exact iff_of_false (by simp [finishRead]) (List.cons_ne_nil byte buf)

theorem finishRead_eq_bytes_iff (buf bytes : List UInt8) :
    finishRead buf = .bytes bytes ↔ buf = bytes ∧ buf ≠ [] := by
  cases buf with
  | nil => simp [finishRead]
  | cons byte buf => simp [finishRead]

/-- A call that goes on is open again. -/
theorem ReadCall.Open.append {call : ReadCall} (h : call.Open) {bytes : List UInt8}
    (hshort : call.buf.length + bytes.length < call.len) :
    ReadCall.Open { call with buf := call.buf ++ bytes } :=
  ⟨by rwa [List.length_append], h.len_le⟩

theorem Conn.Popped.contents_of_short {found after : Conn} {count : ℕ}
    (h : found.Popped after count) (hshort : found.rx.contents.length ≤ count) :
    after.rx.contents = [] := by
  rw [h.contents, List.drop_of_length_le hshort]

/-- If a call that goes on keeps its buffer, what a call takes begins with what it has in its buffer
and what its first poll pops. -/
theorem popped_prefix_taken_of {state : Conn} (hring : state.rx.WellFormed) {call : ReadCall}
    (hcall : call.Open) (seen : List Poll) (poll : Poll) {polls : List Poll}
    (hkeeps : ∀ {after : Conn}, after.rx.WellFormed → ∀ {next : ReadCall}, next.Open →
      next.buf <+: taken (readCalls.run after next (seen ++ [poll]) polls)) :
    call.buf ++ (readCalls.meet state poll).rx.contents.take (call.len - call.buf.length) <+:
      taken (readCalls.run state call seen (poll :: polls)) := by
  have houtcome := readCalls_outcome hring hcall poll
  match hpoll : readCalls.poll (readCalls.meet state poll) call poll with
  | (.inl result, after) =>
    rw [PolledCall.run_of_ends hpoll]
    rw [hpoll] at houtcome
    cases houtcome with
    | full popped enough flag => exact List.prefix_rfl
    | closed popped short hclosed flag =>
      rw [List.take_of_length_le (by omega)]
      simp [taken]
    | late popped short hopen hlate flag =>
      rw [List.take_of_length_le (by omega)]
      simp [taken]
  | (.inr next, after) =>
    rw [PolledCall.run_of_goes_on hpoll]
    rw [hpoll] at houtcome
    cases houtcome with
    | again popped short hopen hlate flag =>
      rw [List.take_of_length_le (by omega)]
      exact hkeeps popped.wellFormed (hcall.append short)

/-- A call keeps the bytes in its buffer. -/
theorem buf_prefix_taken {state : Conn} (hring : state.rx.WellFormed) {call : ReadCall}
    (hcall : call.Open) (seen polls : List Poll) :
    call.buf <+: taken (readCalls.run state call seen polls) := by
  induction polls generalizing state call seen with
  | nil => exact List.prefix_rfl
  | cons poll polls ih =>
    exact (List.prefix_append _ _).trans
      (popped_prefix_taken_of hring hcall seen poll fun hafter _ hnext ↦ ih hafter hnext _)

theorem popped_prefix_taken {state : Conn} (hring : state.rx.WellFormed) {call : ReadCall}
    (hcall : call.Open) (seen : List Poll) (poll : Poll) (polls : List Poll) :
    call.buf ++ (readCalls.meet state poll).rx.contents.take (call.len - call.buf.length) <+:
      taken (readCalls.run state call seen (poll :: polls)) :=
  popped_prefix_taken_of hring hcall seen poll fun hafter _ hnext ↦
    buf_prefix_taken hafter hnext _ polls

end PlainTransport

/-! ## TLS transport -/

namespace TlsTransport

/-- The flags that end a call of `wssl_recv`. -/
def Conn.closed (conn : Conn) : Bool := conn.tcpError || conn.remoteClosed

theorem keeps_handle {conn : Conn} (h : conn.rx.WellFormed) (callback : Callback) :
    conn.rx.Keeps (conn.handle callback).rx callback.bytes := by
  cases callback with
  | connected err =>
    have hrx : (conn.handle (.connected err)).rx = conn.rx := by
      simp only [Conn.handle, onConnected]
      split <;> rfl
    rw [hrx]
    exact RxRing.keeps_nil h
  | recv chain err =>
    cases chain with
    | none => exact RxRing.keeps_nil h
    | some chain =>
      by_cases herr : err = 0
      · simpa [Conn.handle, onRecv, Callback.bytes, herr, Pbuf.bytes] using
          RxRing.keeps_pushChain h chain.payloads
      · simpa [Conn.handle, onRecv, Callback.bytes, herr] using RxRing.keeps_nil h
  | err code => exact RxRing.keeps_nil h

theorem keeps_deliver {conn : Conn} (h : conn.rx.WellFormed) (callbacks : List Callback) :
    conn.rx.Keeps (conn.deliver callbacks).rx (callbacks.flatMap Callback.bytes) :=
  RxRing.keeps_foldl Conn.rx keeps_handle h callbacks

/-- The polls of a call of `wssl_recv`. -/
def recvCalls : PolledCall Conn RecvCall RecvResult Poll where
  meet conn poll := conn.deliver poll.callbacks
  poll conn call poll :=
    match wsslRecvPoll conn call poll.clock with
    | (some result, after) => (.inl result, after)
    | (none, after) => (.inr call, after)

/-- `wssl_recv` -/
def wsslRecv (conn : Conn) (sz : ℤ) (clock : Clock) (polls : List Poll) :
    PolledCall.Status Conn RecvCall RecvResult Poll :=
  recvCalls.run conn (wsslRecvEnter sz clock) [] polls

end TlsTransport

end PqMqtt.Transport
