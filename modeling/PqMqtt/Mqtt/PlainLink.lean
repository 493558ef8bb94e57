import PqMqtt.Mqtt.Connack
import PqMqtt.Transport.ReadCall

/-!
# The plain transport under the MQTT client

`tls_read` of the plain transport, called again and again.  The inbound bytes arrive in any pieces
before the polls of its calls, and then the peer closes.  As long as every chain finds room in the
ring the calls hand out the stream without a gap, and when one falls short no byte is left.
-/

namespace PqMqtt.Mqtt

open Transport
open PlainTransport (ReadCall ReadResult readCall readCalls taken)

/-! ## The transport -/

/-- The inbound side of a connection: the connection object, the polls to come, the clock at the
entry of each call of `tls_read`, and, for the history, the bytes returned so far, whether all that
arrived has found room in the ring, and whether a call was ended by its deadline. -/
structure PlainInbound where
  conn : PlainTransport.Conn
  polls : List Poll
  clock : ℕ → Clock
  calls : ℕ
  returned : List UInt8
  fits : Prop
  expired : Bool

/-- A call for which nothing arrives any more ends at its next poll, or by its deadline. -/
def settle (conn : PlainTransport.Conn) (call : ReadCall) : ReadResult × PlainTransport.Conn :=
  match PlainTransport.tlsReadPoll conn call ⟨0, call.deadline⟩ with
  | (.inl result, after) => (result, after)
  | (.inr call, after) => (PlainTransport.finishRead call.buf, { after with ioTimedOut := true })

/-- The end of a call, and the polls that are left after it. -/
def complete : PolledCall.Status PlainTransport.Conn ReadCall ReadResult Poll →
    ReadResult × PlainTransport.Conn × List Poll
  | .ended result _ after _ _ rest => (result, after, rest)
  | .polling conn call _ => ((settle conn call).1, (settle conn call).2, [])

namespace PlainInbound

/-- What arrives before a poll fits into the ring. -/
def Fits (conn : PlainTransport.Conn) (poll : Poll) : Prop := ¬PlainTransport.Overruns conn poll

/-- A call has ended. -/
def record (inbound : PlainInbound) (result : ReadResult) (conn : PlainTransport.Conn)
    (polls : List Poll) (fits : Prop) : PlainInbound where
  conn := conn
  polls := polls
  clock := inbound.clock
  calls := inbound.calls + 1
  returned := inbound.returned ++ result.delivered
  fits := inbound.fits ∧ fits
  expired := inbound.expired || conn.ioTimedOut

/-- A whole call of `tls_read`. -/
def read (inbound : PlainInbound) (len : ℕ) : List UInt8 × PlainInbound :=
  match PlainTransport.tlsRead inbound.conn len (inbound.clock inbound.calls) inbound.polls with
  | .inl (result, conn) =>
    (result.delivered, inbound.record result conn inbound.polls True)
  | .inr status =>
    let ended := complete status
    (ended.1.delivered, inbound.record ended.1 ended.2.1 ended.2.2
      (readCalls.Along Fits inbound.conn.rearmed (readCall len (inbound.clock inbound.calls))
        inbound.polls))

end PlainInbound

/-! ## Lengths -/

theorem length_popBytes (ring : RxRing) (got : ℕ) : (ring.popBytes got).1.length = got := by
  induction got generalizing ring with
  | zero => rfl
  | succ got ih => exact congrArg Nat.succ (ih ring.dropByte)

theorem length_rxPop_le (ring : RxRing) (want : ℕ) : (ring.rxPop want).1.length ≤ want := by
  unfold RxRing.rxPop
  rw [length_popBytes]
  split_ifs <;> omega

/-- A poll never takes more than the call still lacks. -/
theorem length_tlsReadPoll_le (conn : PlainTransport.Conn) {call : ReadCall}
    (h : call.buf.length ≤ call.len) (clock : Clock) :
    ((PlainTransport.tlsReadPoll conn call clock).1.elim ReadResult.delivered
      ReadCall.buf).length ≤ call.len := by
  have hpopped := length_rxPop_le conn.rx call.want
  have hwant : call.want ≤ call.len - call.buf.length := Nat.mod_le _ _
  rw [(PlainTransport.tlsReadPoll_spec conn call clock).2, List.length_append]
  omega

theorem len_of_tlsReadPoll {conn after : PlainTransport.Conn} {call next : ReadCall} {clock : Clock}
    (h : PlainTransport.tlsReadPoll conn call clock = (.inr next, after)) :
    next.len = call.len := by
  have hlen : (PlainTransport.tlsReadPoll conn call clock).1.elim (fun _ ↦ call.len) ReadCall.len =
      call.len := by
    unfold PlainTransport.tlsReadPoll
    dsimp only
    split_ifs <;> rfl
  rwa [h] at hlen

theorem length_settle_le (conn : PlainTransport.Conn) {call : ReadCall}
    (h : call.buf.length ≤ call.len) : (settle conn call).1.delivered.length ≤ call.len := by
  have hle := length_tlsReadPoll_le conn h ⟨0, call.deadline⟩
  unfold settle
  split
  · next hpoll =>
    rw [hpoll] at hle
    exact hle
  · next hpoll =>
    rw [hpoll] at hle
    rw [PlainTransport.delivered_finishRead]
    exact hle

theorem length_complete_le (conn : PlainTransport.Conn) {call : ReadCall}
    (h : call.buf.length ≤ call.len) (seen polls : List Poll) :
    (complete (readCalls.run conn call seen polls)).1.delivered.length ≤ call.len := by
  have hsatisfies : (readCalls.run conn call seen polls).Satisfies
      (fun result _ _ _ _ ↦ result.delivered.length ≤ call.len)
      (fun _ other _ ↦ other.buf.length ≤ other.len ∧ other.len = call.len) := by
    refine PolledCall.run_satisfies ?_ ?_ ⟨h, rfl⟩ polls
    · intro state other seen poll result after hother hpoll
      have hle := length_tlsReadPoll_le (readCalls.meet state poll) hother.1 poll.clock
      rw [show PlainTransport.tlsReadPoll _ other poll.clock = _ from hpoll, hother.2] at hle
      exact hle
    · intro state other seen poll next after hother hpoll
      have hle := length_tlsReadPoll_le (readCalls.meet state poll) hother.1 poll.clock
      have hlen : next.len = other.len := len_of_tlsReadPoll hpoll
      rw [show PlainTransport.tlsReadPoll _ other poll.clock = _ from hpoll, ← hlen] at hle
      exact ⟨hle, hlen.trans hother.2⟩
  match hrun : readCalls.run conn call seen polls with
  | .ended result found after seen last rest =>
    rw [hrun] at hsatisfies
    exact hsatisfies
  | .polling state other seen =>
    rw [hrun] at hsatisfies
    obtain ⟨hle, hlen⟩ := hsatisfies
    exact hlen ▸ length_settle_le state hle

theorem PlainInbound.length_read_le (inbound : PlainInbound) (len : ℕ) :
    (inbound.read len).1.length ≤ len := by
  unfold PlainInbound.read PlainTransport.tlsRead PlainTransport.tlsReadEnter
  by_cases hlong : len > 2 ^ 16 - 1
  · rw [if_pos hlong]
    exact Nat.zero_le len
  rw [if_neg hlong]
  by_cases hpos : 0 < len
  · rw [if_pos hpos]
    have hcall : (readCall len (inbound.clock inbound.calls)).buf.length ≤
        (readCall len (inbound.clock inbound.calls)).len := Nat.zero_le len
    exact length_complete_le inbound.conn.rearmed hcall [] inbound.polls
  · rw [if_neg hpos]
    exact Nat.zero_le len

/-- The plain transport as the client sees it: the inbound side, and any code behind the calls that
send. -/
structure PlainLink (ω : Type*) where
  outbound : ω
  inbound : PlainInbound

/-- The calls of `tls_transport.h` on the plain transport, with the outbound side and the
microsecond clock of any other. -/
def plainLink {ω : Type*} (api : TlsApi ω) : TlsApi (PlainLink ω) where
  write link buf :=
    ((api.write link.outbound buf).1,
      { link with outbound := (api.write link.outbound buf).2 })
  read link len :=
    ((link.inbound.read len).1, { link with inbound := (link.inbound.read len).2 })
  close link := { link with outbound := api.close link.outbound }
  timeUs link :=
    ((api.timeUs link.outbound).1, { link with outbound := (api.timeUs link.outbound).2 })
  write_le link buf := api.write_le link.outbound buf
  read_le link len := link.inbound.length_read_le len

/-! ## The stream -/

/-- All bytes have arrived when the peer closes. -/
def ClosesAtEnd : List Poll → Prop
  | [] => False
  | poll :: polls =>
    if poll.callbacks.any Callback.closes then arrivals polls = [] else ClosesAtEnd polls

/-- The peer has closed after the last byte, or will close. -/
def Closing (conn : PlainTransport.Conn) (polls : List Poll) : Prop :=
  if conn.closed then arrivals polls = [] else ClosesAtEnd polls

/-- A connection in the course of a run: `moved` are the bytes taken out of the ring so far.  As
long as all arrivals fit, nothing of the stream is missing; otherwise at least as many bytes as the
ring holds have come before the first that is. -/
structure Feeds (stream : List UInt8) (fits : Prop) (moved : List UInt8)
    (conn : PlainTransport.Conn) (polls : List Poll) : Prop where
  wellFormed : conn.rx.WellFormed
  closing : Closing conn polls
  intact : fits → moved ++ (conn.rx.contents ++ arrivals polls) = stream
  lost : ¬fits → moved.length + (conn.rx.contents.length + (arrivals polls).length) <
      stream.length ∧
    rxBufCap ≤ (moved ++ conn.rx.contents).length ∧
    (moved ++ conn.rx.contents).take rxBufCap = stream.take rxBufCap

/-- Only the ring and the flags of the connection object matter. -/
theorem Feeds.of_same {stream moved : List UInt8} {fits : Prop} {conn other : PlainTransport.Conn}
    {polls : List Poll} (h : Feeds stream fits moved conn polls) (hrx : other.rx = conn.rx)
    (hclosed : other.closed = conn.closed) : Feeds stream fits moved other polls := by
  obtain ⟨hwell, hclosing, hintact, hlost⟩ := h
  rw [← hrx] at hwell hintact hlost
  unfold Closing at hclosing
  rw [← hclosed] at hclosing
  exact ⟨hwell, hclosing, hintact, hlost⟩

section Run

variable {stream moved : List UInt8} {fits : Prop} {conn after : PlainTransport.Conn}
  {call : ReadCall} {poll : Poll} {polls : List Poll}

theorem Closing.meet (h : Closing conn (poll :: polls)) :
    Closing (readCalls.meet conn poll) polls := by
  have hclosed : (readCalls.meet conn poll).closed =
      (conn.closed || poll.callbacks.any Callback.closes) :=
    PlainTransport.closed_deliver conn poll.callbacks
  unfold Closing at h ⊢
  rw [hclosed]
  cases hconn : conn.closed with
  | true =>
    rw [hconn, if_pos rfl] at h
    rw [Bool.true_or, if_pos rfl]
    exact (List.append_eq_nil_iff.mp h).2
  | false =>
    rw [hconn, if_neg (by decide), ClosesAtEnd] at h
    rwa [Bool.false_or]

theorem take_eq_of_prefix {short long : List UInt8} (h : short <+: long) {count : ℕ}
    (hcount : count ≤ short.length) : short.take count = long.take count := by
  obtain ⟨rest, rfl⟩ := h
  exact (List.take_append_of_le_length hcount).symm

/-- What a poll finds is what the ring had, and as much of the arrivals as fits. -/
theorem Feeds.found (h : Feeds stream fits moved conn (poll :: polls)) :
    (readCalls.meet conn poll).rx.contents =
      conn.rx.contents ++ poll.bytes.take (rxBufCap - conn.rx.contents.length) := by
  have hkeeps := (PlainTransport.keeps_deliver h.wellFormed poll.callbacks).2
  rw [List.take_append, List.take_of_length_le h.wellFormed.length_le] at hkeeps
  exact hkeeps

/-- A poll takes bytes out of the ring. -/
theorem Feeds.popped (h : Feeds stream fits moved conn (poll :: polls)) {count : ℕ}
    (hpopped : (readCalls.meet conn poll).Popped after count) :
    Feeds stream (fits ∧ PlainInbound.Fits conn poll)
      (moved ++ (readCalls.meet conn poll).rx.contents.take count) after polls := by
  have hfound := h.found
  have harrive : arrivals (poll :: polls) = poll.bytes ++ arrivals polls := rfl
  have hmoved (more : List UInt8) :
      moved ++ (readCalls.meet conn poll).rx.contents.take count ++ (after.rx.contents ++ more) =
        moved ++ ((readCalls.meet conn poll).rx.contents ++ more) := by
    rw [hpopped.contents, List.append_assoc, ← List.append_assoc (List.take _ _),
      List.take_append_drop]
  have hring : conn.rx.contents.length = conn.rx.avail := RxRing.contents_length conn.rx
  have hwell := h.wellFormed.length_le
  refine ⟨hpopped.wellFormed, ?_, ?_, ?_⟩
  · have hmeet := h.closing.meet
    unfold Closing at hmeet ⊢
    rwa [hpopped.closed]
  · rintro ⟨hbefore, hfits⟩
    have hroom : poll.bytes.length ≤ rxBufCap - conn.rx.contents.length := by
      unfold PlainInbound.Fits PlainTransport.Overruns at hfits
      omega
    calc
      moved ++ (readCalls.meet conn poll).rx.contents.take count ++
            (after.rx.contents ++ arrivals polls)
          = moved ++ ((conn.rx.contents ++ poll.bytes) ++ arrivals polls) := by
        rw [hmoved, hfound, List.take_of_length_le hroom]
      _ = moved ++ (conn.rx.contents ++ arrivals (poll :: polls)) := by
        rw [harrive, List.append_assoc]
      _ = stream := h.intact hbefore
  · intro hnot
    have hkept := congrArg List.length (hmoved [])
    have hstill := hmoved []
    rw [hfound, List.append_nil, List.append_nil] at hstill
    rw [hfound] at hkept ⊢
    rw [hstill]
    simp only [List.length_append, List.length_take, List.length_nil] at hkept ⊢
    by_cases hbefore : fits
    · have hover : rxBufCap < conn.rx.avail + poll.bytes.length :=
        not_not.mp fun hfits ↦ hnot ⟨hbefore, hfits⟩
      have hstream := h.intact hbefore
      have hall := congrArg List.length hstream
      rw [harrive] at hall hstream
      simp only [List.length_append] at hall
      have hinitial : moved ++ (conn.rx.contents ++
          poll.bytes.take (rxBufCap - conn.rx.contents.length)) <+: stream := by
        rw [← hstream, List.prefix_append_right_inj, List.prefix_append_right_inj]
        exact (List.take_prefix _ _).trans (List.prefix_append _ _)
      refine ⟨by omega, by omega, take_eq_of_prefix hinitial ?_⟩
      simp only [List.length_append, List.length_take]
      omega
    · obtain ⟨hshort, hlong, hsame⟩ := h.lost hbefore
      rw [harrive] at hshort
      simp only [List.length_append] at hshort hlong
      refine ⟨by omega, by omega, ?_⟩
      rw [← List.append_assoc, ← hsame, List.take_append_of_le_length]
      rwa [List.length_append]

/-- A call that has ended took bytes out of the ring, and more would have come to it only if it was
ended by a close or by its deadline. -/
structure Completed (stream : List UInt8) (fits : Prop) (moved : List UInt8) (len : ℕ)
    (before : PlainTransport.Conn)
    (ended : ReadResult × PlainTransport.Conn × List Poll) : Prop where
  feeds : Feeds stream fits (moved ++ ended.1.delivered) ended.2.1 ended.2.2
  short : ended.1.delivered.length < len →
    ended.2.1.rx.contents = [] ∧ (ended.2.1.closed = true ∨ ended.2.1.ioTimedOut = true)
  closed : before.closed = true → ended.2.1.closed = true

theorem closed_meet (h : conn.closed = true) (poll : Poll) :
    (readCalls.meet conn poll).closed = true := by
  calc
    (readCalls.meet conn poll).closed = (conn.closed || poll.callbacks.any Callback.closes) :=
      PlainTransport.closed_deliver conn poll.callbacks
    _ = true := by rw [h, Bool.true_or]

/-- A poll takes all that it finds when that is not more than the call lacks. -/
theorem Feeds.popped_all (h : Feeds stream fits (moved ++ call.buf) conn (poll :: polls))
    (hpopped : (readCalls.meet conn poll).Popped after (call.len - call.buf.length))
    (hshort : call.buf.length + (readCalls.meet conn poll).rx.contents.length < call.len) :
    Feeds stream (fits ∧ PlainInbound.Fits conn poll)
      (moved ++ (call.buf ++ (readCalls.meet conn poll).rx.contents)) after polls := by
  have htaken := h.popped hpopped
  rwa [List.take_of_length_le (by omega), List.append_assoc] at htaken

theorem completed_of_outcome (h : Feeds stream fits (moved ++ call.buf) conn (poll :: polls))
    (hcall : call.Open) {result : ReadResult}
    (houtcome : PlainTransport.ReadOutcome (readCalls.meet conn poll) call poll.clock
      (.inl result, after)) :
    Completed stream (fits ∧ PlainInbound.Fits conn poll) moved call.len conn
      (result, after, polls) := by
  cases houtcome with
  | full popped enough flag =>
    refine ⟨?_, ?_, fun hclosed ↦ popped.closed.trans (closed_meet hclosed poll)⟩
    · have htaken := h.popped popped
      rwa [List.append_assoc] at htaken
    · have hbuf := hcall.buf_lt
      intro hshort
      rw [PlainTransport.delivered_bytes, List.length_append, List.length_take] at hshort
      omega
  | closed popped short hclosed flag =>
    refine ⟨?_, fun _ ↦ ⟨popped.contents_of_short (by omega), Or.inl ?_⟩, fun _ ↦ ?_⟩
    · rw [PlainTransport.delivered_finishRead]
      exact h.popped_all popped short
    · exact popped.closed.trans hclosed
    · exact popped.closed.trans hclosed
  | late popped short hopen hlate flag =>
    refine ⟨?_, fun _ ↦ ⟨popped.contents_of_short (by omega), Or.inr flag⟩,
      fun hclosed ↦ popped.closed.trans (closed_meet hclosed poll)⟩
    rw [PlainTransport.delivered_finishRead]
    exact h.popped_all popped short

/-- The end of a call for which nothing arrives any more. -/
theorem completed_settle (h : Feeds stream fits (moved ++ call.buf) conn []) (hcall : call.Open) :
    Completed stream fits moved call.len conn
      ((settle conn call).1, (settle conn call).2, []) := by
  let quiet : Poll := ⟨[], ⟨0, call.deadline⟩⟩
  have hquiet : Feeds stream fits (moved ++ call.buf) conn [quiet] := by
    refine ⟨h.wellFormed, ?_, h.intact, h.lost⟩
    have hclosing := h.closing
    unfold Closing at hclosing ⊢
    cases hconn : conn.closed with
    | true => rfl
    | false =>
      rw [hconn] at hclosing
      exact False.elim hclosing
  have hfits : (fits ∧ PlainInbound.Fits conn quiet) = fits := by
    apply propext
    apply and_iff_left
    exact Nat.not_lt.mpr h.wellFormed.avail_le
  have houtcome : PlainTransport.ReadOutcome (readCalls.meet conn quiet) call quiet.clock
      (PlainTransport.tlsReadPoll conn call ⟨0, call.deadline⟩) :=
    PlainTransport.readCalls_outcome h.wellFormed hcall quiet
  unfold settle
  match hpoll : PlainTransport.tlsReadPoll conn call ⟨0, call.deadline⟩ with
  | (.inl result, after) =>
    rw [hpoll] at houtcome
    have hcompleted := completed_of_outcome hquiet hcall houtcome
    rwa [hfits] at hcompleted
  | (.inr next, after) =>
    rw [hpoll] at houtcome
    cases houtcome with
    | again popped short hopen hlate flag =>
      have hfeeds := hquiet.popped_all popped short
      rw [hfits] at hfeeds
      refine ⟨?_, fun _ ↦ ⟨popped.contents_of_short (by omega), Or.inr rfl⟩, fun hclosed ↦ ?_⟩
      · rw [PlainTransport.delivered_finishRead]
        exact ⟨hfeeds.wellFormed, hfeeds.closing, hfeeds.intact, hfeeds.lost⟩
      · exact popped.closed.trans (closed_meet hclosed quiet)

/-- A whole call. -/
theorem completed_run (h : Feeds stream fits (moved ++ call.buf) conn polls) (hcall : call.Open)
    (seen : List Poll) :
    Completed stream (fits ∧ readCalls.Along PlainInbound.Fits conn call polls) moved call.len conn
      (complete (readCalls.run conn call seen polls)) := by
  induction polls generalizing fits conn call seen with
  | nil =>
    have hsettled := completed_settle h hcall
    rwa [← and_true fits] at hsettled
  | cons poll polls ih =>
    have houtcome := PlainTransport.readCalls_outcome h.wellFormed hcall poll
    match hpoll : readCalls.poll (readCalls.meet conn poll) call poll with
    | (.inl result, after) =>
      rw [PolledCall.run_of_ends hpoll, PolledCall.along_of_ends hpoll]
      rw [hpoll] at houtcome
      exact completed_of_outcome h hcall houtcome
    | (.inr next, after) =>
      rw [PolledCall.run_of_goes_on hpoll, PolledCall.along_of_goes_on hpoll, ← and_assoc]
      rw [hpoll] at houtcome
      cases houtcome with
      | again popped short hopen hlate flag =>
        have hrest := ih (h.popped_all popped short) (hcall.append short) (seen ++ [poll])
        exact ⟨hrest.feeds, hrest.short, fun hclosed ↦
          hrest.closed (popped.closed.trans (closed_meet hclosed poll))⟩

end Run

/-! ## The inlet -/

namespace PlainInbound

/-- The inbound side hands out a stream. -/
def Delivers (stream : List UInt8) (inbound : PlainInbound) : Prop :=
  Feeds stream inbound.fits inbound.returned inbound.conn inbound.polls

/-- The peer has closed and every byte has been handed out. -/
structure Exhausted (inbound : PlainInbound) : Prop where
  closed : inbound.conn.closed = true
  ring : inbound.conn.rx.contents = []
  polls : arrivals inbound.polls = []

/-- A stream that is not longer than the ring fits. -/
theorem Delivers.fits_of_length_le {stream : List UInt8} {inbound : PlainInbound}
    (h : inbound.Delivers stream) (hlength : stream.length ≤ rxBufCap) : inbound.fits := by
  by_contra hlost
  obtain ⟨hshort, hlong, -⟩ := h.lost hlost
  rw [List.length_append] at hlong
  omega

/-- What a read does to the inbound side. -/
structure Reads (stream : List UInt8) (inbound : PlainInbound) (len : ℕ)
    (outcome : List UInt8 × PlainInbound) : Prop where
  delivers : outcome.2.Delivers stream
  returned : outcome.2.returned = inbound.returned ++ outcome.1
  short : len ≤ 65535 → outcome.1.length < len →
    outcome.2.conn.rx.contents = [] ∧
      (outcome.2.conn.closed = true ∨ outcome.2.expired = true)
  closed : inbound.conn.closed = true → outcome.2.conn.closed = true

theorem read_of_polls (inbound : PlainInbound) {len : ℕ} (hpos : 0 < len) (hle : len ≤ 65535) :
    inbound.read len =
      let call := readCall len (inbound.clock inbound.calls)
      let ended := complete (readCalls.run inbound.conn.rearmed call [] inbound.polls)
      (ended.1.delivered, inbound.record ended.1 ended.2.1 ended.2.2
        (readCalls.Along Fits inbound.conn.rearmed call inbound.polls)) := by
  unfold PlainInbound.read
  rw [PlainTransport.tlsRead_eq _ hpos hle]

/-- A call that returns before its loop hands out nothing. -/
theorem read_of_not_polls (inbound : PlainInbound) {len : ℕ} (h : ¬(0 < len ∧ len ≤ 65535)) :
    ∃ result : ReadResult, result.delivered = [] ∧
      ∃ conn ∈ [inbound.conn, inbound.conn.rearmed],
        inbound.read len = ([], inbound.record result conn inbound.polls True) := by
  unfold PlainInbound.read PlainTransport.tlsRead PlainTransport.tlsReadEnter
  by_cases hlong : len > 2 ^ 16 - 1
  · rw [if_pos hlong]
    exact ⟨.error, rfl, inbound.conn, by simp, rfl⟩
  · rw [if_neg hlong, if_neg (by omega)]
    exact ⟨.bytes [], rfl, inbound.conn.rearmed, by simp, rfl⟩

theorem feeds_readCall {stream : List UInt8} {inbound : PlainInbound}
    (h : inbound.Delivers stream) (len : ℕ) :
    Feeds stream inbound.fits
      (inbound.returned ++ (readCall len (inbound.clock inbound.calls)).buf) inbound.conn.rearmed
      inbound.polls := by
  have hbuf : inbound.returned ++ (readCall len (inbound.clock inbound.calls)).buf =
      inbound.returned := List.append_nil _
  rw [hbuf]
  exact Feeds.of_same h rfl rfl

theorem reads {stream : List UInt8} {inbound : PlainInbound} (h : inbound.Delivers stream)
    (len : ℕ) : inbound.Reads stream len (inbound.read len) := by
  by_cases hpolls : 0 < len ∧ len ≤ 65535
  · have hcall : (readCall len (inbound.clock inbound.calls)).Open :=
      ⟨hpolls.1, hpolls.2⟩
    obtain ⟨hdelivers, hshort, hclosed⟩ := completed_run (feeds_readCall h len) hcall []
    rw [read_of_polls inbound hpolls.1 hpolls.2]
    refine ⟨hdelivers, rfl, fun _ hless ↦ ?_, hclosed⟩
    obtain ⟨hring, hreason⟩ := hshort hless
    exact ⟨hring, hreason.imp_right fun hflag ↦ Bool.or_eq_true_iff.mpr (Or.inr hflag)⟩
  · obtain ⟨result, hresult, conn, hconn, hread⟩ := inbound.read_of_not_polls hpolls
    have hsame : conn.rx = inbound.conn.rx ∧ conn.closed = inbound.conn.closed := by
      rw [List.mem_pair] at hconn
      rcases hconn with rfl | rfl <;> exact ⟨rfl, rfl⟩
    rw [hread]
    refine ⟨?_, ?_, fun hle hless ↦ ?_, fun hclosed ↦ hsame.2.trans hclosed⟩
    · have hfeeds := Feeds.of_same h hsame.1 hsame.2
      unfold Delivers record
      rwa [hresult, List.append_nil, and_true]
    · exact congrArg (inbound.returned ++ ·) hresult
    · exact absurd ⟨List.length_nil.symm ▸ hless, hle⟩ hpolls

/-- Nothing comes out of an empty stream. -/
theorem Exhausted.of_feeds {fits : Prop} {moved : List UInt8} {conn : PlainTransport.Conn}
    {polls : List Poll} (h : Feeds [] fits moved conn polls) :
    moved = [] ∧ conn.rx.contents = [] ∧ arrivals polls = [] := by
  have hfits : fits := by
    by_contra hnot
    exact absurd (h.lost hnot).1 (Nat.not_lt_zero _)
  obtain ⟨hmoved, hrest⟩ := List.append_eq_nil_iff.mp (h.intact hfits)
  exact ⟨hmoved, List.append_eq_nil_iff.mp hrest⟩

theorem Exhausted.read {inbound : PlainInbound} (h : inbound.Exhausted)
    (hwell : inbound.conn.rx.WellFormed) (len : ℕ) :
    (inbound.read len).1 = [] ∧ (inbound.read len).2.Exhausted := by
  by_cases hpolls : 0 < len ∧ len ≤ 65535
  · have hfeeds : Feeds [] True ([] ++ (readCall len (inbound.clock inbound.calls)).buf)
        inbound.conn.rearmed inbound.polls := by
      refine ⟨hwell, ?_, fun _ ↦ ?_, fun hnot ↦ absurd trivial hnot⟩
      · have hclosed : inbound.conn.rearmed.closed = true := h.closed
        unfold Closing
        rw [if_pos hclosed]
        exact h.polls
      · have hring : inbound.conn.rearmed.rx.contents = [] := h.ring
        rw [hring, h.polls]
        rfl
    have hcall : (readCall len (inbound.clock inbound.calls)).Open := ⟨hpolls.1, hpolls.2⟩
    obtain ⟨hfed, -, hclosed⟩ := completed_run hfeeds hcall []
    obtain ⟨hmoved, hring, hrest⟩ := Exhausted.of_feeds hfed
    rw [read_of_polls inbound hpolls.1 hpolls.2]
    exact ⟨hmoved, hclosed h.closed, hring, hrest⟩
  · obtain ⟨result, hresult, conn, hconn, hread⟩ := inbound.read_of_not_polls hpolls
    rw [hread]
    rw [List.mem_pair] at hconn
    rcases hconn with rfl | rfl <;> exact ⟨rfl, h.closed, h.ring, h.polls⟩

theorem expired_read {inbound : PlainInbound} (h : inbound.expired = true) (len : ℕ) :
    (inbound.read len).2.expired = true := by
  unfold PlainInbound.read
  split <;> exact Bool.or_eq_true_iff.mpr (Or.inl h)

end PlainInbound

/-- The plain transport hands out a stream until it is exhausted, if no call is ended by its
deadline. -/
def plainInlet {ω : Type*} (api : TlsApi ω) (stream : List UInt8) : Inlet (plainLink api) where
  valid link := link.inbound.Delivers stream
  taken link := link.inbound.returned
  exhausted link := link.inbound.Exhausted
  spoiled link := link.inbound.expired = true
  valid_read h len := (PlainInbound.reads h len).delivers
  taken_read h len := (PlainInbound.reads h len).returned
  exhausted_read h hexhausted len := hexhausted.read h.wellFormed len
  spoiled_read h len := PlainInbound.expired_read h len
  short_read {link} h {len} hlen hshort := by
    have hreads := PlainInbound.reads h len
    obtain ⟨hring, hclosed | hexpired⟩ := hreads.short hlen hshort
    · right
      have hclosing := hreads.delivers.closing
      unfold Closing at hclosing
      rw [if_pos hclosed] at hclosing
      exact ⟨hclosed, hring, hclosing⟩
    · exact Or.inl hexpired

/-! ## Punctual deliveries -/

section Punctual

variable {stream moved : List UInt8} {fits : Prop} {conn : PlainTransport.Conn} {call : ReadCall}
  {polls : List Poll}

/-- A call whose polls all come before its deadline is not ended by it, since the peer closes. -/
theorem not_late_run (h : Feeds stream fits (moved ++ call.buf) conn polls) (hcall : call.Open)
    (hflag : conn.ioTimedOut = false)
    (hpunctual : ∀ poll ∈ polls, ¬poll.clock.ms > call.deadline) (seen : List Poll) :
    (complete (readCalls.run conn call seen polls)).2.1.ioTimedOut = false ∧
      (complete (readCalls.run conn call seen polls)).2.2 ⊆ polls := by
  induction polls generalizing fits conn call seen with
  | nil =>
    have houtcome : PlainTransport.ReadOutcome conn call ⟨0, call.deadline⟩
        (PlainTransport.tlsReadPoll conn call ⟨0, call.deadline⟩) :=
      PlainTransport.tlsReadPoll_outcome h.wellFormed hcall _
    have hclosing := h.closing
    refine ⟨?_, List.Subset.refl []⟩
    change (settle conn call).2.ioTimedOut = false
    unfold settle
    match hpoll : PlainTransport.tlsReadPoll conn call ⟨0, call.deadline⟩ with
    | (.inl result, after) =>
      rw [hpoll] at houtcome
      cases houtcome with
      | full popped enough flag => exact flag.trans hflag
      | closed popped short hclosed flag => exact flag.trans hflag
      | late popped short hopen hlate flag => exact absurd hlate (UInt32.lt_irrefl call.deadline)
    | (.inr next, after) =>
      rw [hpoll] at houtcome
      cases houtcome with
      | again popped short hopen hlate flag =>
        unfold Closing at hclosing
        rw [hopen] at hclosing
        exact False.elim hclosing
  | cons poll polls ih =>
    have houtcome := PlainTransport.readCalls_outcome h.wellFormed hcall poll
    have hmeet : (readCalls.meet conn poll).ioTimedOut = false :=
      (PlainTransport.ioTimedOut_deliver conn poll.callbacks).trans hflag
    match hpoll : readCalls.poll (readCalls.meet conn poll) call poll with
    | (.inl result, after) =>
      rw [PolledCall.run_of_ends hpoll]
      rw [hpoll] at houtcome
      refine ⟨?_, List.subset_cons_self poll polls⟩
      cases houtcome with
      | full popped enough flag => exact flag.trans hmeet
      | closed popped short hclosed flag => exact flag.trans hmeet
      | late popped short hopen hlate flag =>
        exact absurd hlate (hpunctual poll List.mem_cons_self)
    | (.inr next, after) =>
      rw [PolledCall.run_of_goes_on hpoll]
      rw [hpoll] at houtcome
      cases houtcome with
      | again popped short hopen hlate flag =>
        obtain ⟨hnext, hrest⟩ := ih (h.popped_all popped short) (hcall.append short)
          (flag.trans hmeet) (fun other hother ↦ hpunctual other (List.mem_cons_of_mem poll hother))
          (seen ++ [poll])
        exact ⟨hnext, fun other hother ↦ List.mem_cons_of_mem poll (hrest hother)⟩

end Punctual

namespace PlainInbound

/-- No call has been ended by its deadline, and none will be. -/
structure Punctual (stream : List UInt8) (inbound : PlainInbound) : Prop where
  delivers : inbound.Delivers stream
  flag : inbound.conn.ioTimedOut = false
  expired : inbound.expired = false
  punctual : ∀ index, ∀ poll ∈ inbound.polls,
    ¬poll.clock.ms > (inbound.clock index).ms + 15000

theorem Punctual.read {stream : List UInt8} {inbound : PlainInbound} (h : inbound.Punctual stream)
    (len : ℕ) : (inbound.read len).2.Punctual stream := by
  have hdelivers := (reads h.delivers len).delivers
  by_cases hpolls : 0 < len ∧ len ≤ 65535
  · rw [read_of_polls inbound hpolls.1 hpolls.2] at hdelivers ⊢
    have hcall : (readCall len (inbound.clock inbound.calls)).Open := ⟨hpolls.1, hpolls.2⟩
    have hfeeds := feeds_readCall h.delivers len
    obtain ⟨hflag, hsubset⟩ := not_late_run hfeeds hcall rfl (h.punctual inbound.calls) []
    exact ⟨hdelivers, hflag, Bool.or_eq_false_iff.mpr ⟨h.expired, hflag⟩,
      fun index poll hpoll ↦ h.punctual index poll (hsubset hpoll)⟩
  · obtain ⟨result, hresult, conn, hconn, hread⟩ := inbound.read_of_not_polls hpolls
    have hflag : conn.ioTimedOut = false := by
      rw [List.mem_pair] at hconn
      rcases hconn with rfl | rfl
      · exact h.flag
      · rfl
    rw [hread] at hdelivers ⊢
    exact ⟨hdelivers, hflag, Bool.or_eq_false_iff.mpr ⟨h.expired, hflag⟩, h.punctual⟩

end PlainInbound

/-! ## Overruns -/

namespace PlainInbound

/-- The first poll has not come yet, or bytes have been lost. -/
def Overrun (start inbound : PlainInbound) : Prop :=
  ¬inbound.fits ∨ inbound.conn.rx = start.conn.rx ∧ inbound.polls = start.polls

theorem Overrun.read {start inbound : PlainInbound} (h : Overrun start inbound) {poll : Poll}
    {polls : List Poll} (hpolls : start.polls = poll :: polls) (hover : ¬Fits start.conn poll)
    (len : ℕ) : Overrun start (inbound.read len).2 := by
  by_cases hcall : 0 < len ∧ len ≤ 65535
  · left
    rw [read_of_polls inbound hcall.1 hcall.2]
    rintro ⟨hbefore, halong⟩
    obtain ⟨hrx, hsame⟩ := h.resolve_left (not_not.mpr hbefore)
    rw [hsame, hpolls] at halong
    have hfits : Fits inbound.conn poll := halong.1
    unfold Fits PlainTransport.Overruns at hfits hover
    rw [hrx] at hfits
    exact hover hfits
  · obtain ⟨result, -, conn, hconn, hread⟩ := inbound.read_of_not_polls hcall
    have hsame : conn.rx = inbound.conn.rx := by
      rw [List.mem_pair] at hconn
      rcases hconn with rfl | rfl <;> rfl
    rw [hread]
    refine h.imp (fun hlost hfits ↦ hlost hfits.1) fun hstart ↦ ⟨hsame.trans hstart.1, hstart.2⟩

end PlainInbound

end PqMqtt.Mqtt
