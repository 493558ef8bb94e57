import Mathlib.Data.List.Forall2
import PqMqtt.Transport.ReadCall

/-!
# Readers drain before they report

A reader that reports a close or a timeout has taken all that had arrived when it looked at the
flags, and what it returns is the oldest part of the ring and of the arrivals.  For `wssl_recv`,
which returns at the first bytes it finds, this is always so.  A call of `tls_read` that goes on
after it has emptied a full ring may take bytes that arrived after others were dropped.
-/

namespace PqMqtt.Transport

/-! ## wssl_recv -/

namespace TlsTransport

/-- What a call of `wssl_recv` that has ended says about the ring and the arrivals. -/
def RecvEnds (conn : Conn) (sz : ℤ) (clock : Clock) (result : RecvResult) (found after : Conn)
    (seen : List Poll) (last : Poll) : Prop :=
  match result with
  | .bytes got =>
      0 < got.length ∧ (got.length : ℤ) ≤ sz ∧ got <+: conn.rx.contents ++ arrivals seen
  | .connClose =>
      conn.rx.contents ++ arrivals seen = [] ∧ found.rx.contents = [] ∧ found.closed = true
  | .timeout =>
      conn.rx.contents ++ arrivals seen = [] ∧ found.rx.contents = [] ∧ found.closed = false ∧
        last.clock.ms > clock.ms + 15000 ∧ after.ioTimedOut = true

/-- A call of `wssl_recv` that still polls has found nothing. -/
structure RecvWaits (conn : Conn) (sz : ℤ) (clock : Clock) (state : Conn) (call : RecvCall)
    (seen : List Poll) : Prop where
  wellFormed : state.rx.WellFormed
  call_eq : call = wsslRecvEnter sz clock
  contents : state.rx.contents = conn.rx.contents ++ arrivals seen

def RecvDrains (conn : Conn) (sz : ℤ) (clock : Clock) (polls : List Poll) : Prop :=
  (wsslRecv conn sz clock polls).Satisfies (RecvEnds conn sz clock) (RecvWaits conn sz clock)

variable {conn : Conn} {sz : ℤ} {clock : Clock}

theorem want_wsslRecvEnter (clock : Clock) (hpos : 0 < sz) (hle : sz ≤ 65535) :
    ((wsslRecvEnter sz clock).want : ℤ) = sz := by
  have hmod : sz % 2 ^ 16 = sz := Int.emod_eq_of_lt hpos.le (by omega)
  rw [wsslRecvEnter, hmod, Int.toNat_of_nonneg hpos.le]

/-- What a poll of `wssl_recv` can do: return bytes, or find none and then end the call by a close,
end it by its deadline, or go on. -/
inductive RecvOutcome (found : Conn) (call : RecvCall) (clock : Clock) :
    (RecvResult ⊕ RecvCall) × Conn → Prop
  | bytes {after : Conn} (nonempty : found.rx.contents ≠ []) :
      RecvOutcome found call clock (.inl (.bytes (found.rx.contents.take call.want)), after)
  | closed {after : Conn} (empty : found.rx.contents = []) (hclosed : found.closed = true) :
      RecvOutcome found call clock (.inl .connClose, after)
  | late {after : Conn} (empty : found.rx.contents = []) (hopen : found.closed = false)
      (hlate : clock.ms > call.deadline) (flag : after.ioTimedOut = true) :
      RecvOutcome found call clock (.inl .timeout, after)
  | again {after : Conn} (empty : found.rx.contents = []) (wellFormed : after.rx.WellFormed)
      (contents : after.rx.contents = []) :
      RecvOutcome found call clock (.inr call, after)

theorem recvCalls_outcome {found : Conn} (hring : found.rx.WellFormed) {call : RecvCall}
    (hwant : 0 < call.want) (poll : Poll) :
    RecvOutcome found call poll.clock (recvCalls.poll found call poll) := by
  obtain ⟨hwell, htaken, hleft⟩ := RxRing.rxPop_spec hring call.want
  simp only [recvCalls, wsslRecvPoll, htaken]
  by_cases hempty : found.rx.contents = []
  · rw [hempty, List.drop_nil] at hleft
    rw [hempty, List.take_nil, List.length_nil, if_neg (by simp), ← Conn.closed]
    cases hclosed : found.closed with
    | true => exact .closed hempty hclosed
    | false =>
      rw [if_neg (by simp)]
      by_cases hlate : poll.clock.ms > call.deadline
      · rw [if_pos hlate]
        exact .late hempty hclosed hlate rfl
      · rw [if_neg hlate]
        exact .again hempty hwell hleft
  · have hlength : (found.rx.contents.take call.want).length ≠ 0 := by
      have hpos := List.length_pos_iff.mpr hempty
      rw [List.length_take]
      omega
    rw [if_pos hlength]
    exact .bytes hempty

namespace RecvWaits

variable {state : Conn} {call : RecvCall} {seen : List Poll}

theorem found (h : RecvWaits conn sz clock state call seen) (poll : Poll) :
    (recvCalls.meet state poll).rx.WellFormed ∧
      (recvCalls.meet state poll).rx.contents =
        (conn.rx.contents ++ arrivals (seen ++ [poll])).take rxBufCap := by
  obtain ⟨hwell, hcontents⟩ := keeps_deliver h.wellFormed poll.callbacks
  refine ⟨hwell, ?_⟩
  rw [arrivals_concat, ← List.append_assoc, ← h.contents]
  exact hcontents

/-- Nothing has arrived before a poll that finds nothing. -/
theorem eq_nil_of_found (h : RecvWaits conn sz clock state call seen) (poll : Poll)
    (hempty : (recvCalls.meet state poll).rx.contents = []) :
    conn.rx.contents ++ arrivals (seen ++ [poll]) = [] := by
  rw [(h.found poll).2, List.take_eq_nil_iff] at hempty
  exact hempty.resolve_left (by decide)

theorem want_eq (h : RecvWaits conn sz clock state call seen) (hpos : 0 < sz) (hle : sz ≤ 65535) :
    (call.want : ℤ) = sz := by
  rw [h.call_eq, want_wsslRecvEnter clock hpos hle]

end RecvWaits

/-- `wssl_recv` returns the oldest bytes, and reports a close or a timeout only when none have
arrived. -/
theorem recvDrains (hring : conn.rx.WellFormed) (hpos : 0 < sz) (hle : sz ≤ 65535)
    (polls : List Poll) : RecvDrains conn sz clock polls := by
  refine PolledCall.run_satisfies ?_ ?_ ⟨hring, rfl, by simp⟩ polls
  · intro state call seen poll result after h hpoll
    have hwant := h.want_eq hpos hle
    have houtcome := recvCalls_outcome (h.found poll).1 (by omega : 0 < call.want) poll
    rw [hpoll] at houtcome
    cases houtcome with
    | bytes nonempty =>
      have hlength := List.length_pos_iff.mpr nonempty
      refine ⟨?_, ?_, ?_⟩
      · rw [List.length_take]
        omega
      · rw [List.length_take]
        omega
      · exact (List.take_prefix _ _).trans ((h.found poll).2 ▸ List.take_prefix _ _)
    | closed empty hclosed => exact ⟨h.eq_nil_of_found poll empty, empty, hclosed⟩
    | late empty hopen hlate flag =>
      rw [h.call_eq] at hlate
      exact ⟨h.eq_nil_of_found poll empty, empty, hopen, hlate, flag⟩
  · intro state call seen poll next after h hpoll
    have hwant := h.want_eq hpos hle
    have houtcome := recvCalls_outcome (h.found poll).1 (by omega : 0 < call.want) poll
    rw [hpoll] at houtcome
    cases houtcome with
    | again empty wellFormed contents =>
      exact ⟨wellFormed, h.call_eq, contents.trans (h.eq_nil_of_found poll empty).symm⟩

end TlsTransport

/-! ## tls_read -/

namespace PlainTransport

/-- What a call of `tls_read` that has ended says about the ring and the arrivals, whatever it
returns. -/
structure ReadEnds (conn : Conn) (len : ℕ) (clock : Clock) (result : ReadResult)
    (found after : Conn) (seen : List Poll) (last : Poll) : Prop where
  error_empty : result = .error → conn.rx.contents ++ arrivals seen = [] ∧ found.rx.contents = []
  error_reason : result = .error → tlsIoTimedOut (some after) = false → found.closed = true
  length : ∀ bytes, result = .bytes bytes → 0 < bytes.length ∧ bytes.length ≤ len
  short : result.delivered.length < len → after.rx.contents = [] ∧
    (found.closed = true ∨ last.clock.ms > clock.ms + 15000)
  timedOut : tlsIoTimedOut (some after) = true ↔
    result.delivered.length < len ∧ found.closed = false ∧ last.clock.ms > clock.ms + 15000

/-- A call of `tls_read` that still polls. -/
structure ReadWaits (conn : Conn) (len : ℕ) (clock : Clock) (state : Conn) (call : ReadCall)
    (seen : List Poll) : Prop where
  wellFormed : state.rx.WellFormed
  isOpen : call.Open
  len_eq : call.len = len
  deadline_eq : call.deadline = clock.ms + 15000
  flag : state.ioTimedOut = false
  idle : call.buf = [] → state.rx.contents = conn.rx.contents ++ arrivals seen

section Read

variable {conn : Conn} {len : ℕ} {clock : Clock}

namespace ReadWaits

variable {state : Conn} {call : ReadCall} {seen : List Poll}

theorem found (h : ReadWaits conn len clock state call seen) (poll : Poll) :
    state.rx.Keeps (readCalls.meet state poll).rx poll.bytes :=
  keeps_deliver h.wellFormed poll.callbacks

theorem flag_found (h : ReadWaits conn len clock state call seen) (poll : Poll) :
    (readCalls.meet state poll).ioTimedOut = false :=
  (ioTimedOut_deliver state poll.callbacks).trans h.flag

/-- Nothing has arrived before a poll that finds nothing for an empty buffer. -/
theorem eq_nil_of_found (h : ReadWaits conn len clock state call seen) (poll : Poll)
    (hempty : call.buf ++ (readCalls.meet state poll).rx.contents = []) :
    conn.rx.contents ++ arrivals (seen ++ [poll]) = [] := by
  obtain ⟨hbuf, hring⟩ := List.append_eq_nil_iff.mp hempty
  have hfound := (h.found poll).2
  rw [hring, h.idle hbuf, List.append_assoc, ← arrivals_concat] at hfound
  exact (List.take_eq_nil_iff.mp hfound.symm).resolve_left (by decide)

/-- A poll that fills the buffer ends the call as it should. -/
theorem ends_full (h : ReadWaits conn len clock state call seen) (poll : Poll) {after : Conn}
    (enough : call.len ≤ call.buf.length + (readCalls.meet state poll).rx.contents.length)
    (flag : after.ioTimedOut = (readCalls.meet state poll).ioTimedOut) :
    ReadEnds conn len clock
      (.bytes (call.buf ++
        (readCalls.meet state poll).rx.contents.take (call.len - call.buf.length)))
      (readCalls.meet state poll) after (seen ++ [poll]) poll := by
  have hbuf := h.isOpen.buf_lt
  have hlen := h.len_eq
  have hlength : (call.buf ++
      (readCalls.meet state poll).rx.contents.take (call.len - call.buf.length)).length = len := by
    rw [List.length_append, List.length_take]
    omega
  refine ⟨by simp, by simp, ?_, ?_, ?_⟩
  · intro bytes hbytes
    obtain rfl := ReadResult.bytes.inj hbytes
    omega
  · intro hshort
    rw [delivered_bytes] at hshort
    omega
  · rw [delivered_bytes]
    refine iff_of_false ?_ (by omega)
    simp [tlsIoTimedOut, flag, h.flag_found poll]

/-- A poll that empties the ring and ends the call by a close or by the deadline ends it as it
should. -/
theorem ends_short (h : ReadWaits conn len clock state call seen) (poll : Poll) {after : Conn}
    (popped : (readCalls.meet state poll).Popped after (call.len - call.buf.length))
    (short : call.buf.length + (readCalls.meet state poll).rx.contents.length < call.len)
    (hreason : (readCalls.meet state poll).closed = true ∧ after.ioTimedOut = false ∨
      (readCalls.meet state poll).closed = false ∧ poll.clock.ms > call.deadline ∧
        after.ioTimedOut = true) :
    ReadEnds conn len clock
      (finishRead (call.buf ++ (readCalls.meet state poll).rx.contents))
      (readCalls.meet state poll) after (seen ++ [poll]) poll := by
  have hlength : (call.buf ++ (readCalls.meet state poll).rx.contents).length < len := by
    rw [List.length_append, ← h.len_eq]
    exact short
  rw [h.deadline_eq] at hreason
  refine ⟨?_, ?_, ?_, ?_, ?_⟩
  · intro herror
    have hempty := (finishRead_eq_error_iff _).mp herror
    exact ⟨h.eq_nil_of_found poll hempty, (List.append_eq_nil_iff.mp hempty).2⟩
  · intro _ hflag
    rcases hreason with ⟨hclosed, -⟩ | ⟨-, -, hset⟩
    · exact hclosed
    · exact absurd (hset.symm.trans hflag) (by decide)
  · intro bytes hbytes
    obtain ⟨rfl, hne⟩ := (finishRead_eq_bytes_iff _ _).mp hbytes
    exact ⟨List.length_pos_iff.mpr hne, hlength.le⟩
  · intro _
    refine ⟨popped.contents_of_short (by omega), ?_⟩
    exact hreason.imp And.left fun hexpired ↦ hexpired.2.1
  · rw [delivered_finishRead]
    rcases hreason with ⟨hclosed, hflag⟩ | ⟨hopen, hlate, hflag⟩
    · exact iff_of_false (by simp [tlsIoTimedOut, hflag]) (by simp [hclosed])
    · exact iff_of_true (by simp [tlsIoTimedOut, hflag]) ⟨hlength, hopen, hlate⟩

/-- A poll after which the call goes on. -/
theorem goes_on (h : ReadWaits conn len clock state call seen) (poll : Poll) {after : Conn}
    (popped : (readCalls.meet state poll).Popped after (call.len - call.buf.length))
    (short : call.buf.length + (readCalls.meet state poll).rx.contents.length < call.len)
    (flag : after.ioTimedOut = (readCalls.meet state poll).ioTimedOut) :
    ReadWaits conn len clock after
      { call with buf := call.buf ++ (readCalls.meet state poll).rx.contents }
      (seen ++ [poll]) := by
  refine ⟨popped.wellFormed, h.isOpen.append short, h.len_eq, h.deadline_eq,
    flag.trans (h.flag_found poll), ?_⟩
  intro hempty
  rw [h.eq_nil_of_found poll hempty]
  exact popped.contents_of_short (by omega)

end ReadWaits

/-- A call of `tls_read` ends as it should in every interleaving. -/
theorem run_readCalls_satisfies {state : Conn} {call : ReadCall} {seen : List Poll}
    (h : ReadWaits conn len clock state call seen) (polls : List Poll) :
    (readCalls.run state call seen polls).Satisfies (ReadEnds conn len clock)
      (ReadWaits conn len clock) := by
  refine PolledCall.run_satisfies ?_ ?_ h polls
  · intro state call seen poll result after h hpoll
    have houtcome := readCalls_outcome h.wellFormed h.isOpen poll
    rw [hpoll] at houtcome
    cases houtcome with
    | full popped enough flag => exact h.ends_full poll enough flag
    | closed popped short hclosed flag =>
      exact h.ends_short poll popped short (Or.inl ⟨hclosed, flag.trans (h.flag_found poll)⟩)
    | late popped short hopen hlate flag =>
      exact h.ends_short poll popped short (Or.inr ⟨hopen, hlate, flag⟩)
  · intro state call seen poll next after h hpoll
    have houtcome := readCalls_outcome h.wellFormed h.isOpen poll
    rw [hpoll] at houtcome
    cases houtcome with
    | again popped short hopen hlate flag => exact h.goes_on poll popped short flag

/-! ## Overruns during a call -/

/-- Nothing arrives for a call that goes on after arrivals have overrun the ring; `lost` says that
they have already. -/
def NoGap (lost : Prop) (state : Conn) (call : ReadCall) : List Poll → Prop
  | [] => True
  | poll :: polls =>
    (lost → poll.bytes = []) ∧
      match readCalls.poll (readCalls.meet state poll) call poll with
      | (.inl _, _) => True
      | (.inr next, after) => NoGap (lost ∨ Overruns state poll) after next polls

/-- The bytes in the buffer and in the ring are the oldest, and all of them unless some byte was
`lost`. -/
structure Kept (lost : Prop) (conn state : Conn) (call : ReadCall) (seen : List Poll) : Prop where
  wellFormed : state.rx.WellFormed
  isOpen : call.Open
  intact : ¬lost → call.buf ++ state.rx.contents = conn.rx.contents ++ arrivals seen
  gap : lost → state.rx.contents = [] ∧ call.buf <+: conn.rx.contents ++ arrivals seen ∧
    call.buf.length < (conn.rx.contents ++ arrivals seen).length

namespace Kept

variable {lost : Prop} {state : Conn} {call : ReadCall} {seen : List Poll} {poll : Poll}

/-- What a poll finds belongs to the oldest bytes. -/
theorem found_prefix (h : Kept lost conn state call seen) (hquiet : lost → poll.bytes = []) :
    call.buf ++ (readCalls.meet state poll).rx.contents <+:
      conn.rx.contents ++ arrivals (seen ++ [poll]) := by
  have hfound := (keeps_deliver h.wellFormed poll.callbacks).2
  rw [arrivals_concat, ← List.append_assoc]
  by_cases hlost : lost
  · obtain ⟨hempty, hinitial, -⟩ := h.gap hlost
    change (readCalls.meet state poll).rx.contents = (_ ++ poll.bytes).take rxBufCap at hfound
    rw [hempty, hquiet hlost, List.append_nil, List.take_nil] at hfound
    rw [hfound, hquiet hlost, List.append_nil, List.append_nil]
    exact hinitial
  · rw [← h.intact hlost, List.append_assoc, List.prefix_append_right_inj]
    exact hfound ▸ List.take_prefix _ _

/-- A call that goes on keeps the oldest bytes. -/
theorem goes_on (h : Kept lost conn state call seen) (hquiet : lost → poll.bytes = [])
    {after : Conn}
    (popped : (readCalls.meet state poll).Popped after (call.len - call.buf.length))
    (short : call.buf.length + (readCalls.meet state poll).rx.contents.length < call.len) :
    Kept (lost ∨ Overruns state poll) conn after
      { call with buf := call.buf ++ (readCalls.meet state poll).rx.contents }
      (seen ++ [poll]) := by
  have hempty : after.rx.contents = [] := popped.contents_of_short (by omega)
  have hkeeps := keeps_deliver h.wellFormed poll.callbacks
  have hinitial := h.found_prefix hquiet
  refine ⟨popped.wellFormed, h.isOpen.append short, ?_, ?_⟩
  · intro hnone
    obtain ⟨hlost, hfits⟩ := not_or.mp hnone
    have hfound : (readCalls.meet state poll).rx.contents = state.rx.contents ++ poll.bytes :=
      hkeeps.contents_of_fits (by
        rw [RxRing.contents_length]
        exact Nat.le_of_not_lt hfits)
    dsimp only
    rw [hempty, List.append_nil, hfound, ← List.append_assoc, h.intact hlost, arrivals_concat,
      List.append_assoc]
  · intro hlost
    refine ⟨hempty, hinitial, ?_⟩
    have hlength : (readCalls.meet state poll).rx.contents.length =
        min rxBufCap (state.rx.avail + poll.bytes.length) := by
      rw [← RxRing.contents_length state.rx, ← List.length_append, ← List.length_take]
      exact congrArg List.length hkeeps.2
    dsimp only
    rw [arrivals_concat, ← List.append_assoc, List.length_append, List.length_append, hlength]
    by_cases hbefore : lost
    · obtain ⟨hring, -, hmissing⟩ := h.gap hbefore
      have havail : state.rx.avail = 0 := by
        rw [← RxRing.contents_length, hring, List.length_nil]
      rw [havail, hquiet hbefore, List.length_nil]
      omega
    · have hover : rxBufCap < state.rx.avail + poll.bytes.length := hlost.resolve_left hbefore
      rw [← h.intact hbefore, List.length_append, RxRing.contents_length]
      omega

end Kept

/-- Without a gap a call takes the oldest bytes. -/
theorem taken_prefix_of_noGap {lost : Prop} {state : Conn} {call : ReadCall} {seen : List Poll}
    (h : Kept lost conn state call seen) {polls : List Poll} (hgap : NoGap lost state call polls) :
    taken (readCalls.run state call seen polls) <+:
      conn.rx.contents ++ arrivals (readCalls.run state call seen polls).seen := by
  induction polls generalizing lost state call seen with
  | nil =>
    by_cases hlost : lost
    · exact (h.gap hlost).2.1
    · exact h.intact hlost ▸ List.prefix_append _ _
  | cons poll polls ih =>
    obtain ⟨hquiet, hrest⟩ := hgap
    have hinitial := h.found_prefix hquiet
    have houtcome := readCalls_outcome h.wellFormed h.isOpen poll
    match hpoll : readCalls.poll (readCalls.meet state poll) call poll with
    | (.inl result, after) =>
      rw [PolledCall.run_of_ends hpoll]
      rw [hpoll] at houtcome
      cases houtcome with
      | full popped enough flag =>
        exact ((List.prefix_append_right_inj _).mpr (List.take_prefix _ _)).trans hinitial
      | closed popped short hclosed flag => rwa [taken, delivered_finishRead]
      | late popped short hopen hlate flag => rwa [taken, delivered_finishRead]
    | (.inr next, after) =>
      rw [hpoll] at hrest
      rw [PolledCall.run_of_goes_on hpoll]
      rw [hpoll] at houtcome
      cases houtcome with
      | again popped short hopen hlate flag => exact ih (h.goes_on hquiet popped short) hrest

end Read

/-! ## The same arrivals with other bytes -/

end PlainTransport

/-- Two callbacks of one kind, with chains of one length. -/
inductive Callback.SameShape : Callback → Callback → Prop
  | connected (err : ℤ) : SameShape (.connected err) (.connected err)
  | recv {first second : Option Pbuf} (h : first.map Pbuf.totLen = second.map Pbuf.totLen)
      (err : ℤ) : SameShape (.recv first err) (.recv second err)
  | err (code : ℤ) : SameShape (.err code) (.err code)

/-- Two polls at one time, after callbacks of one shape. -/
structure Poll.SameShape (first second : Poll) : Prop where
  callbacks : List.Forall₂ Callback.SameShape first.callbacks second.callbacks
  clock : first.clock = second.clock

theorem Callback.SameShape.refl (callback : Callback) : callback.SameShape callback := by
  cases callback with
  | connected err => exact .connected err
  | recv chain err => exact .recv rfl err
  | err code => exact .err code

theorem Poll.SameShape.refl (poll : Poll) : poll.SameShape poll := by
  refine ⟨?_, rfl⟩
  rw [List.forall₂_same]
  exact fun callback _ ↦ Callback.SameShape.refl callback

theorem Callback.SameShape.length_bytes {first second : Callback} (h : first.SameShape second) :
    first.bytes.length = second.bytes.length := by
  cases h with
  | connected err => rfl
  | recv hchain err =>
    rename_i first second
    cases first with
    | none =>
      obtain rfl : second = none := by simpa using hchain.symm
      rfl
    | some first =>
      obtain ⟨second, rfl, htotal⟩ := Option.map_eq_some_iff.mp hchain.symm
      simp only [Callback.bytes]
      split_ifs
      · rw [Pbuf.bytes_length, Pbuf.bytes_length, htotal]
      · rfl
  | err code => rfl

theorem Poll.SameShape.length_bytes {first second : Poll} (h : first.SameShape second) :
    first.bytes.length = second.bytes.length := by
  obtain ⟨hcallbacks, -⟩ := h
  unfold Poll.bytes
  generalize first.callbacks = callbacks at hcallbacks ⊢
  generalize second.callbacks = others at hcallbacks ⊢
  induction hcallbacks with
  | nil => rfl
  | cons hcallback _ ih =>
    rw [List.flatMap_cons, List.flatMap_cons, List.length_append, List.length_append, ih,
      hcallback.length_bytes]

theorem Callback.SameShape.closes {first second : Callback} (h : first.SameShape second) :
    first.closes = second.closes := by
  cases h with
  | connected err => rfl
  | recv hchain err =>
    rename_i first second
    cases first with
    | none =>
      obtain rfl : second = none := by simpa using hchain.symm
      rfl
    | some first =>
      obtain ⟨second, rfl, -⟩ := Option.map_eq_some_iff.mp hchain.symm
      rfl
  | err code => rfl

theorem Poll.SameShape.any_closes {first second : Poll} (h : first.SameShape second) :
    first.callbacks.any Callback.closes = second.callbacks.any Callback.closes := by
  obtain ⟨hcallbacks, -⟩ := h
  generalize first.callbacks = callbacks at hcallbacks ⊢
  generalize second.callbacks = others at hcallbacks ⊢
  induction hcallbacks with
  | nil => rfl
  | cons hcallback _ ih => rw [List.any_cons, List.any_cons, ih, hcallback.closes]

/-- A chain with all its bytes replaced by one. -/
def Pbuf.fill (byte : UInt8) (chain : Pbuf) : Pbuf where
  payloads := chain.payloads.map (List.map fun _ ↦ byte)
  totLen := chain.totLen
  totLen_eq := by rw [← List.map_flatten, List.length_map, chain.totLen_eq]
  totLen_lt := chain.totLen_lt

theorem Pbuf.bytes_fill (byte : UInt8) (chain : Pbuf) :
    (chain.fill byte).bytes = chain.bytes.map fun _ ↦ byte := List.map_flatten.symm

def Callback.fill (byte : UInt8) : Callback → Callback
  | connected code => .connected code
  | recv chain code => .recv (chain.map (Pbuf.fill byte)) code
  | err code => .err code

def Poll.fill (byte : UInt8) (poll : Poll) : Poll :=
  ⟨poll.callbacks.map (Callback.fill byte), poll.clock⟩

theorem Callback.bytes_fill (byte : UInt8) (callback : Callback) :
    (callback.fill byte).bytes = callback.bytes.map fun _ ↦ byte := by
  cases callback with
  | connected err => rfl
  | recv chain err =>
    cases chain with
    | none => rfl
    | some chain =>
      simp only [Callback.fill, Option.map_some, Callback.bytes]
      split_ifs
      · exact chain.bytes_fill byte
      · rfl
  | err code => rfl

theorem Poll.bytes_fill (byte : UInt8) (poll : Poll) :
    (poll.fill byte).bytes = poll.bytes.map fun _ ↦ byte := by
  simp only [Poll.bytes, Poll.fill, List.flatMap_map, List.map_flatMap, Callback.bytes_fill]

theorem Poll.sameShape_fill (byte : UInt8) (poll : Poll) : poll.SameShape (poll.fill byte) := by
  refine ⟨?_, rfl⟩
  rw [Poll.fill, List.forall₂_map_right_iff, List.forall₂_same]
  intro callback _
  cases callback with
  | connected err => exact .connected err
  | recv chain err => exact .recv (by cases chain <;> rfl) err
  | err code => exact .err code

namespace PlainTransport

/-- Two connections that a call cannot tell apart until it looks at the bytes. -/
structure Conn.Alike (first second : Conn) : Prop where
  wellFormed : first.rx.WellFormed ∧ second.rx.WellFormed
  avail : first.rx.avail = second.rx.avail
  closed : first.closed = second.closed

/-- Two calls that have taken the same number of bytes. -/
structure ReadCall.Alike (first second : ReadCall) : Prop where
  isOpen : first.Open ∧ second.Open
  len : first.len = second.len
  deadline : first.deadline = second.deadline
  buf : first.buf.length = second.buf.length

theorem Conn.Alike.deliver {first second : Conn} (h : first.Alike second) {poll other : Poll}
    (hshape : poll.SameShape other) :
    (first.deliver poll.callbacks).Alike (second.deliver other.callbacks) := by
  have hfirst := keeps_deliver h.wellFormed.1 poll.callbacks
  have hsecond := keeps_deliver h.wellFormed.2 other.callbacks
  refine ⟨⟨hfirst.1, hsecond.1⟩, ?_, ?_⟩
  · have hlength : poll.bytes.length = other.bytes.length := hshape.length_bytes
    have havail := h.avail
    rw [← RxRing.contents_length, ← RxRing.contents_length, hfirst.2, hsecond.2, List.length_take,
      List.length_take, List.length_append, List.length_append, RxRing.contents_length,
      RxRing.contents_length, havail]
    exact congrArg (fun length ↦ min rxBufCap (second.rx.avail + length)) hlength
  · rw [closed_deliver, closed_deliver, h.closed, hshape.any_closes]

/-- Of two calls that cannot be told apart, one goes on when the other does. -/
theorem goes_on_of_alike {found other : Conn} (hfound : found.Alike other) {call twin : ReadCall}
    (hcall : call.Alike twin) {clock : Clock} {next : ReadCall} {after : Conn}
    (hpoll : tlsReadPoll other twin clock = (.inr next, after)) :
    ∃ following left, tlsReadPoll found call clock = (.inr following, left) ∧
      left.Alike after ∧ following.Alike next := by
  have hlength : found.rx.contents.length = other.rx.contents.length := by
    rw [RxRing.contents_length, RxRing.contents_length, hfound.avail]
  have hclosed := hfound.closed
  have hlen := hcall.len
  have hbuf := hcall.buf
  have hdeadline := hcall.deadline
  have htwin := tlsReadPoll_outcome hfound.wellFormed.2 hcall.isOpen.2 clock
  have houtcome := tlsReadPoll_outcome hfound.wellFormed.1 hcall.isOpen.1 clock
  rw [hpoll] at htwin
  cases htwin with
  | again popped short hopen hlate flag =>
    match hresult : tlsReadPoll found call clock with
    | (.inl result, left) =>
      rw [hresult] at houtcome
      cases houtcome with
      | full _ enough _ => omega
      | closed _ _ hset _ => simp [hset, hopen] at hclosed
      | late _ _ _ hexpired _ =>
        rw [hdeadline] at hexpired
        exact absurd hexpired hlate
    | (.inr following, left) =>
      rw [hresult] at houtcome
      cases houtcome with
      | again popped' short' hopen' hlate' flag' =>
        refine ⟨_, _, rfl, ⟨⟨popped'.wellFormed, popped.wellFormed⟩, ?_, ?_⟩,
          ⟨hcall.isOpen.1.append short', hcall.isOpen.2.append short⟩, hlen, hdeadline, ?_⟩
        · rw [← RxRing.contents_length, ← RxRing.contents_length,
            popped'.contents_of_short (by omega), popped.contents_of_short (by omega)]
        · rw [popped'.closed, popped.closed, hclosed]
        · rw [List.length_append, List.length_append, hbuf, hlength]

/-- Whether there is a gap does not depend on the bytes. -/
theorem noGap_of_alike {lost : Prop} {state other : Conn} {call twin : ReadCall}
    (hstate : state.Alike other) (hcall : call.Alike twin) {polls others : List Poll}
    (hshape : List.Forall₂ Poll.SameShape polls others) (hgap : NoGap lost state call polls) :
    NoGap lost other twin others := by
  induction hshape generalizing lost state other call twin with
  | nil => trivial
  | @cons poll changed polls others hpoll _ ih =>
    obtain ⟨hquiet, hrest⟩ := hgap
    have hlength := hpoll.length_bytes
    have hover : Overruns state poll ↔ Overruns other changed := by
      rw [Overruns, Overruns, hstate.avail, hlength]
    refine ⟨?_, ?_⟩
    · intro hlost
      rw [← List.length_eq_zero_iff, ← hlength, hquiet hlost, List.length_nil]
    · match htwin : readCalls.poll (readCalls.meet other changed) twin changed with
      | (.inl _, _) => trivial
      | (.inr next, after) =>
        obtain ⟨following, left, hresult, hleft, hfollowing⟩ :=
          goes_on_of_alike (hstate.deliver hpoll) hcall htwin
        rw [← hpoll.clock] at hresult
        rw [show readCalls.poll (readCalls.meet state poll) call poll = _ from hresult] at hrest
        rw [← hover]
        exact ih hleft hfollowing hrest

theorem getElem?_of_initial {short long : List UInt8} (h : short <+: long) {index : ℕ}
    (hindex : index < short.length) : long[index]? = short[index]? := by
  obtain ⟨rest, rfl⟩ := h
  exact List.getElem?_append_left hindex

/-- A call that takes bytes after a gap does not take the oldest ones if the first of them is not
the byte that was dropped. -/
theorem not_prefix_of_gap {conn state : Conn} (hwell : state.rx.WellFormed) {call : ReadCall}
    (hcall : call.Open) (hring : state.rx.contents = []) {seen : List Poll}
    (hmissing : call.buf.length < (conn.rx.contents ++ arrivals seen).length) {poll : Poll}
    {byte : UInt8} (hfirst : poll.bytes.head? = some byte)
    (hother : (conn.rx.contents ++ arrivals seen)[call.buf.length]? ≠ some byte)
    (polls : List Poll) :
    ¬taken (readCalls.run state call seen (poll :: polls)) <+:
      conn.rx.contents ++ arrivals (readCalls.run state call seen (poll :: polls)).seen := by
  intro hinitial
  obtain ⟨rest, hbytes⟩ := List.head?_eq_some_iff.mp hfirst
  have hbuf := hcall.buf_lt
  have hfound : (readCalls.meet state poll).rx.contents = (byte :: rest).take rxBufCap := by
    rw [← hbytes, ← List.nil_append poll.bytes, ← hring]
    exact (keeps_deliver hwell poll.callbacks).2
  have hpopped : call.buf ++ [byte] <+:
      call.buf ++ (readCalls.meet state poll).rx.contents.take (call.len - call.buf.length) := by
    rw [List.prefix_append_right_inj, hfound, List.prefix_take_iff, List.prefix_take_iff]
    rw [List.length_singleton]
    exact ⟨⟨List.prefix_append [byte] rest, by decide⟩, by omega⟩
  have htaken := (hpopped.trans (popped_prefix_taken hwell hcall seen poll polls)).trans hinitial
  have hat : (conn.rx.contents ++
      arrivals (readCalls.run state call seen (poll :: polls)).seen)[call.buf.length]? =
        some byte := by
    rw [getElem?_of_initial htaken (by simp)]
    simp
  have hstream : conn.rx.contents ++ arrivals seen <+: conn.rx.contents ++
      arrivals (readCalls.run state call seen (poll :: polls)).seen :=
    (List.prefix_append_right_inj _).mpr
      (arrivals_mono (PolledCall.seen_prefix_run state call seen (poll :: polls)))
  exact hother ((getElem?_of_initial hstream hmissing).symm.trans hat)

theorem exists_byte_ne (byte : UInt8) : ∃ other, other ≠ byte := by
  by_cases h : byte = 0
  · exact ⟨1, by rw [h]; decide⟩
  · exact ⟨0, fun heq ↦ h heq.symm⟩

/-- The bytes that arrive after a gap can be such that they are not the ones that were dropped. -/
theorem exists_not_prefix_of_gap {conn : Conn} {lost : Prop} {state : Conn} {call : ReadCall}
    {seen : List Poll} (h : Kept lost conn state call seen) {polls : List Poll}
    (hgap : ¬NoGap lost state call polls) :
    ∃ others, List.Forall₂ Poll.SameShape polls others ∧
      ¬taken (readCalls.run state call seen others) <+:
        conn.rx.contents ++ arrivals (readCalls.run state call seen others).seen := by
  induction polls generalizing lost state call seen with
  | nil => exact absurd trivial hgap
  | cons poll polls ih =>
    by_cases hquiet : lost → poll.bytes = []
    · have houtcome := readCalls_outcome h.wellFormed h.isOpen poll
      match hpoll : readCalls.poll (readCalls.meet state poll) call poll with
      | (.inl result, after) =>
        refine absurd ⟨hquiet, ?_⟩ hgap
        rw [hpoll]
        trivial
      | (.inr next, after) =>
        have hrest : ¬NoGap (lost ∨ Overruns state poll) after next polls := by
          intro hrest
          refine hgap ⟨hquiet, ?_⟩
          rw [hpoll]
          exact hrest
        rw [hpoll] at houtcome
        cases houtcome with
        | again popped short hopen hlate flag =>
          obtain ⟨others, hshape, hnot⟩ := ih (h.goes_on hquiet popped short) hrest
          refine ⟨poll :: others, .cons (Poll.SameShape.refl poll) hshape, ?_⟩
          rwa [PolledCall.run_of_goes_on hpoll]
    · -- Bytes arrive after the gap: let them differ from the byte that was dropped first.
      obtain ⟨hlost, hbytes⟩ := Classical.not_imp.mp hquiet
      obtain ⟨hring, -, hmissing⟩ := h.gap hlost
      obtain ⟨byte, hbyte⟩ : ∃ byte : UInt8,
          byte ≠ (conn.rx.contents ++ arrivals seen).get ⟨call.buf.length, hmissing⟩ :=
        exists_byte_ne _
      obtain ⟨first, rest, hcons⟩ := List.exists_cons_of_ne_nil hbytes
      have hfirst : (poll.fill byte).bytes.head? = some byte := by
        rw [Poll.bytes_fill, hcons]
        rfl
      refine ⟨poll.fill byte :: polls, .cons (poll.sameShape_fill byte) ?_, ?_⟩
      · exact List.forall₂_same.mpr fun poll _ ↦ Poll.SameShape.refl poll
      · refine not_prefix_of_gap h.wellFormed h.isOpen hring hmissing hfirst ?_ polls
        rw [List.getElem?_eq_getElem hmissing]
        exact fun heq ↦ hbyte (Option.some.inj heq).symm

/-- A call of `tls_read` ends as it should, and takes the oldest bytes. -/
def ReadDrains (conn : Conn) (len : ℕ) (clock : Clock) (polls : List Poll) : Prop :=
  ∃ status, tlsRead conn len clock polls = .inr status ∧
    status.Satisfies (ReadEnds conn len clock) (ReadWaits conn len clock) ∧
    taken status <+: conn.rx.contents ++ arrivals status.seen

/-- No gap opens during a call of `tls_read`. -/
def ReadsWithoutGap (conn : Conn) (len : ℕ) (clock : Clock) (polls : List Poll) : Prop :=
  NoGap False conn.rearmed (readCall len clock) polls

section DrainedReads

variable {conn : Conn} {len : ℕ} {clock : Clock} {polls : List Poll}

theorem open_readCall (hpos : 0 < len) (hle : len ≤ 65535) : (readCall len clock).Open :=
  ⟨hpos, hle⟩

theorem kept_readCall (clock : Clock) (hring : conn.rx.WellFormed) (hpos : 0 < len)
    (hle : len ≤ 65535) :
    Kept False conn conn.rearmed (readCall len clock) [] := by
  refine ⟨hring, open_readCall hpos hle, fun _ ↦ ?_, False.elim⟩
  rw [arrivals_nil, List.append_nil]
  rfl

theorem readDrains_iff (hring : conn.rx.WellFormed) (hpos : 0 < len) (hle : len ≤ 65535) :
    ReadDrains conn len clock polls ↔
      taken (readCalls.run conn.rearmed (readCall len clock) [] polls) <+:
        conn.rx.contents ++ arrivals
          (readCalls.run conn.rearmed (readCall len clock) [] polls).seen := by
  have hwaits : ReadWaits conn len clock conn.rearmed (readCall len clock) [] :=
    ⟨hring, open_readCall hpos hle, rfl, rfl, rfl, fun _ ↦ (List.append_nil _).symm⟩
  rw [ReadDrains, tlsRead_eq conn hpos hle]
  constructor
  · rintro ⟨status, hstatus, -, hinitial⟩
    rwa [Sum.inr.inj hstatus]
  · intro hinitial
    exact ⟨_, rfl, run_readCalls_satisfies hwaits polls, hinitial⟩

/-- A call of `tls_read` drains before it reports, whatever bytes arrive, exactly when no gap opens
during the call. -/
theorem readDrains_sameShape_iff (hring : conn.rx.WellFormed) (hpos : 0 < len)
    (hle : len ≤ 65535) :
    (∀ others, List.Forall₂ Poll.SameShape polls others → ReadDrains conn len clock others) ↔
      ReadsWithoutGap conn len clock polls := by
  have hkept := kept_readCall clock hring hpos hle
  constructor
  · intro hdrains
    by_contra hgap
    obtain ⟨others, hshape, hnot⟩ := exists_not_prefix_of_gap hkept hgap
    exact hnot ((readDrains_iff hring hpos hle).mp (hdrains others hshape))
  · intro hgap others hshape
    rw [readDrains_iff hring hpos hle]
    refine taken_prefix_of_noGap hkept (noGap_of_alike ?_ ?_ hshape hgap)
    · exact ⟨⟨hring, hring⟩, rfl, rfl⟩
    · exact ⟨⟨hkept.isOpen, hkept.isOpen⟩, rfl, rfl, rfl⟩

/-- Arrivals that overrun an empty ring before the first poll of a long call, and more before the
second. -/
theorem not_readDrains_of_overrun (hring : conn.rx.WellFormed) (hempty : conn.rx.contents = [])
    (hopen : conn.closed = false) (hlong : rxBufCap < len) (hle : len ≤ 65535) {first : Poll}
    (hover : rxBufCap < first.bytes.length)
    (hquiet : first.callbacks.any Callback.closes = false)
    (hclock : ¬first.clock.ms > clock.ms + 15000) {second : Poll} {byte : UInt8}
    (hfirst : second.bytes.head? = some byte) (hother : first.bytes[rxBufCap]? ≠ some byte) :
    ¬ReadDrains conn len clock [first, second] := by
  have hpos : 0 < len := by omega
  have hcall : (readCall len clock).Open := open_readCall hpos hle
  have hwell : conn.rearmed.rx.WellFormed := hring
  have hfound : (readCalls.meet conn.rearmed first).rx.contents = first.bytes.take rxBufCap := by
    rw [← List.nil_append first.bytes, ← hempty]
    exact (keeps_deliver hwell first.callbacks).2
  have hlength : (readCalls.meet conn.rearmed first).rx.contents.length = rxBufCap := by
    rw [hfound, List.length_take, Nat.min_eq_left hover.le]
  have hstays : (readCalls.meet conn.rearmed first).closed = false := by
    calc
      (readCalls.meet conn.rearmed first).closed
          = (conn.rearmed.closed || first.callbacks.any Callback.closes) :=
        closed_deliver conn.rearmed first.callbacks
      _ = conn.closed := by
        rw [hquiet, Bool.or_false]
        rfl
      _ = false := hopen
  have houtcome := readCalls_outcome hwell hcall first
  rw [readDrains_iff hring hpos hle]
  match hpoll : readCalls.poll (readCalls.meet conn.rearmed first) (readCall len clock) first with
  | (.inl result, after) =>
    rw [hpoll] at houtcome
    cases houtcome with
    | full popped enough flag =>
      rw [hlength] at enough
      exact absurd enough (by simpa [readCall] using hlong)
    | closed popped short hclosed flag => exact absurd (hstays.symm.trans hclosed) (by decide)
    | late popped short hopen hlate flag => exact absurd hlate hclock
  | (.inr next, after) =>
    rw [PolledCall.run_of_goes_on hpoll]
    rw [hpoll] at houtcome
    cases houtcome with
    | again popped short hopen hlate flag =>
      have hstream : conn.rx.contents ++ arrivals ([] ++ [first]) = first.bytes := by
        rw [hempty, arrivals_concat]
        rfl
      have hbuf : ((readCall len clock).buf ++
          (readCalls.meet conn.rearmed first).rx.contents).length = rxBufCap := hlength
      refine not_prefix_of_gap popped.wellFormed (hcall.append short)
        (popped.contents_of_short (by omega)) ?_ hfirst ?_ []
      · rwa [hstream, hbuf]
      · rwa [hstream, hbuf]

end DrainedReads

end PlainTransport

/-! ## Both readers -/

/-- Both readers drain before they report, whatever bytes arrive, exactly when no gap opens during
the call of `tls_read`. -/
theorem readers_drain_iff {tls : TlsTransport.Conn} {plain : PlainTransport.Conn}
    (htls : tls.rx.WellFormed) (hplain : plain.rx.WellFormed) {sz : ℤ} {len : ℕ}
    (hsz : 0 < sz ∧ sz ≤ 65535) (hlen : 0 < len ∧ len ≤ 65535) (tlsClock plainClock : Clock)
    (tlsPolls plainPolls : List Poll) :
    (TlsTransport.RecvDrains tls sz tlsClock tlsPolls ∧
      ∀ polls, List.Forall₂ Poll.SameShape plainPolls polls →
        PlainTransport.ReadDrains plain len plainClock polls) ↔
      PlainTransport.ReadsWithoutGap plain len plainClock plainPolls := by
  rw [PlainTransport.readDrains_sameShape_iff hplain hlen.1 hlen.2]
  exact and_iff_right (TlsTransport.recvDrains htls hsz.1 hsz.2 tlsPolls)

/-- One byte arrives before the peer closes. -/
theorem readers_drain_one_byte_and_close :
    let chain : Pbuf := ⟨[[0x20]], 1, rfl, by decide⟩
    let polls : List Poll := [⟨[.recv (some chain) 0, .recv none 0], ⟨0, 0⟩⟩]
    TlsTransport.RecvDrains .zeroed 2 ⟨0, 0⟩ polls ∧
      ∀ others, List.Forall₂ Poll.SameShape polls others →
        PlainTransport.ReadDrains .zeroed 2 ⟨0, 0⟩ others := by
  intro chain polls
  exact (readers_drain_iff RxRing.wellFormed_zeroed RxRing.wellFormed_zeroed
    (by decide : (0 : ℤ) < 2 ∧ (2 : ℤ) ≤ 65535) (by decide : 0 < 2 ∧ 2 ≤ 65535) ⟨0, 0⟩ ⟨0, 0⟩
    polls polls).mpr ⟨False.elim, trivial⟩

/-- Twelve segments of zeros overrun the ring before the first poll of a call for 17000 bytes, and a
segment of ones arrives before the second. -/
theorem tls_read_takes_bytes_after_gap :
    ¬PlainTransport.ReadDrains .zeroed 17000 ⟨0, 0⟩
      [⟨List.replicate 12 (.recv (some fullSegment) 0), ⟨0, 0⟩⟩,
        ⟨[.recv (some (fullSegment.fill 1)) 0], ⟨0, 0⟩⟩] := by
  have hzeros : (⟨List.replicate 12 (.recv (some fullSegment) 0), ⟨0, 0⟩⟩ : Poll).bytes =
      List.replicate 17520 0 := flatMap_replicate_fullSegment 12
  have hones : (⟨[.recv (some (fullSegment.fill 1)) 0], ⟨0, 0⟩⟩ : Poll).bytes.head? =
      some 1 := by
    have hbytes : (Callback.recv (some (fullSegment.fill 1)) 0).bytes =
        List.replicate 1460 1 := by
      rw [Callback.bytes, if_pos rfl, Pbuf.bytes_fill, bytes_fullSegment, List.map_replicate]
    rw [Poll.bytes, List.flatMap_singleton, hbytes, List.head?_replicate]
    rfl
  refine PlainTransport.not_readDrains_of_overrun RxRing.wellFormed_zeroed rfl rfl (by decide)
    (by decide) ?_ (by decide) (by decide) hones ?_
  · rw [hzeros, List.length_replicate]
    decide
  · rw [hzeros, List.getElem?_replicate]
    decide

end PqMqtt.Transport
