import Mathlib.Data.Stream.Init
import PqMqtt.Mqtt.Connect

/-!
# Fragmentation of the CONNACK

An inbound stream that never runs dry, delivered by `tls_read` in pieces of any positive size up
to the size asked for.  Packet type, remaining length and the drained rest are read in loops or
one byte at a time, so they do not see the pieces.  The two bytes of the CONNACK body are read
with one call whose result must be exactly 2: this single read decides whether two schedules
give the same outcome.
-/

namespace PqMqtt.Mqtt

/-! ## Scheduled delivery -/

/-- State of a transport whose inbound side follows a schedule. -/
structure Inbound (ω : Type*) where
  outbound : ω
  unread : Stream' UInt8
  reads : ℕ

/-- Bytes the read number `reads` returns when asked for `len`: at least one, at most `len`. -/
def delivered (schedule : ℕ → ℕ) (reads len : ℕ) : ℕ := min len (max 1 (schedule reads))

section Fragmented

variable {ω : Type*} (api : TlsApi ω) (schedule : ℕ → ℕ)

/-- The transport `api` with its inbound bytes taken from a stream in scheduled pieces. -/
def fragmented : TlsApi (Inbound ω) where
  write device buf :=
    ((api.write device.outbound buf).1,
      { device with outbound := (api.write device.outbound buf).2 })
  read device len :=
    (device.unread.take (delivered schedule device.reads len),
      { device with
        unread := device.unread.drop (delivered schedule device.reads len)
        reads := device.reads + 1 })
  close device := { device with outbound := api.close device.outbound }
  timeUs device :=
    ((api.timeUs device.outbound).1,
      { device with outbound := (api.timeUs device.outbound).2 })
  write_le device buf := api.write_le device.outbound buf
  read_le device len := by
    rw [Stream'.length_take]
    exact Nat.min_le_left len _

/-- A connection of `api` with an inbound stream attached. -/
def attach (m : Conn ω) (unread : Stream' UInt8) (reads : ℕ) : Conn (Inbound ω) :=
  ⟨⟨m.device, unread, reads⟩, m.writes⟩

variable (m : Conn ω) (unread : Stream' UInt8) (reads : ℕ)

theorem tlsRead_attach (len : ℕ) :
    tlsRead (fragmented api schedule) (attach m unread reads) len =
      (unread.take (delivered schedule reads len),
        attach m (unread.drop (delivered schedule reads len)) (reads + 1)) := rfl

theorem timeUs64_attach :
    timeUs64 (fragmented api schedule) (attach m unread reads) =
      ((timeUs64 api m).1, attach (timeUs64 api m).2 unread reads) := rfl

/-- Sending does not touch the inbound side. -/
theorem sendAll_attach (buf : List UInt8) :
    sendAll (fragmented api schedule) (attach m unread reads) buf =
      ((sendAll api m buf).1, attach (sendAll api m buf).2 unread reads) := by
  induction hn : buf.length using Nat.strong_induction_on generalizing m buf with
  | _ n ih =>
    by_cases hbuf : buf = []
    · simp only [hbuf, sendAll_nil]
    have hwrite : ((fragmented api schedule).write (attach m unread reads).device buf).1 =
        (api.write m.device buf).1 := rfl
    by_cases hcount : (api.write m.device buf).1 = 0
    · rw [sendAll_of_refused api hbuf hcount, sendAll_of_refused _ hbuf (hwrite.trans hcount)]
      rfl
    · have hshorter : (buf.drop (api.write m.device buf).1).length < n := by
        have hpositive := List.length_pos_iff.mpr hbuf
        rw [List.length_drop]
        omega
      rw [sendAll_of_accepted api hbuf hcount, sendAll_of_accepted _ hbuf (hwrite ▸ hcount)]
      exact ih _ hshorter (tlsWrite api m buf).2 (buf.drop (api.write m.device buf).1) rfl

theorem delivered_one : delivered schedule reads 1 = 1 :=
  Nat.min_eq_left (Nat.le_max_left 1 (schedule reads))

theorem delivered_two :
    delivered schedule reads 2 = 1 ∨ delivered schedule reads 2 = 2 := by
  unfold delivered
  omega

theorem recvByte_attach :
    recvByte (fragmented api schedule) (attach m unread reads) =
      (some unread.head, attach m unread.tail (reads + 1)) := by
  unfold recvByte
  rw [tlsRead_attach, delivered_one]
  rfl

/-! ## What the stream says -/

/-- Value and length of the remaining length at the front of a stream, as `recv_remlen` reads
it. -/
def streamRemlenRounds : List UInt32 → UInt32 → Stream' UInt8 → UInt32 × ℕ
  | [], val, _ => (val, 0)
  | shift :: shifts, val, stream =>
      let val := val ||| ((stream.head &&& 0x7F).toUInt32 <<< shift)
      if stream.head &&& 0x80 ≠ 0 then
        let rest := streamRemlenRounds shifts val stream.tail
        (rest.1, rest.2 + 1)
      else (val, 1)

def streamRemlen (stream : Stream' UInt8) : UInt32 × ℕ :=
  streamRemlenRounds [0, 7, 14, 21] 0 stream

/-- The stream starts with a CONNACK type byte and a remaining length that is long enough. -/
def ConnackAnnounced (stream : Stream' UInt8) : Prop :=
  stream.head = pktConnack ∧
    ¬ ((streamRemlen stream.tail).1 = 0xFFFFFFFF ∨ (streamRemlen stream.tail).1 < 2)

/-- The verdict on the CONNACK and the bytes left unread, when the body read gets `count`. -/
def connackVerdict (stream : Stream' UInt8) (count : ℕ) : Except ℤ Unit × Stream' UInt8 :=
  let rlen := streamRemlen stream.tail
  let body := stream.tail.drop rlen.2
  if stream.head ≠ pktConnack then (.error errMqttPacket, stream.tail)
  else if rlen.1 = 0xFFFFFFFF ∨ rlen.1 < 2 then (.error errMqttPacket, body)
  else if count ≠ 2 then (.error errMqttPacket, body.drop count)
  else if body.get 1 ≠ 0x00 then (.error (body.get 1).toNat, body.drop rlen.1.toNat)
  else (.ok (), body.drop rlen.1.toNat)

theorem recvRemlenRounds_attach (shifts : List UInt32) (val : UInt32) :
    recvRemlenRounds (fragmented api schedule) shifts val (attach m unread reads) =
      ((streamRemlenRounds shifts val unread).1,
        attach m (unread.drop (streamRemlenRounds shifts val unread).2)
          (reads + (streamRemlenRounds shifts val unread).2)) := by
  induction shifts generalizing val unread reads with
  | nil => rfl
  | cons shift shifts ih =>
    unfold recvRemlenRounds streamRemlenRounds
    rw [recvByte_attach]
    dsimp only
    by_cases hmore : unread.head &&& 0x80 ≠ 0
    · rw [if_pos hmore, if_pos hmore, ih, Stream'.drop_succ]
      congr 2
      omega
    · rw [if_neg hmore, if_neg hmore]
      rfl

theorem recvRemlen_attach :
    recvRemlen (fragmented api schedule) (attach m unread reads) =
      ((streamRemlen unread).1, attach m (unread.drop (streamRemlen unread).2)
        (reads + (streamRemlen unread).2)) :=
  recvRemlenRounds_attach api schedule m unread reads _ _

/-- Draining discards exactly `n` bytes, in whatever pieces they come. -/
theorem drain_attach (n : ℕ) :
    ∃ later, drain (fragmented api schedule) (attach m unread reads) n =
      (true, attach m (unread.drop n) later) := by
  induction n using Nat.strong_induction_on generalizing unread reads with
  | _ n ih =>
    by_cases hn : n = 0
    · exact ⟨reads, by rw [drain, if_pos hn, hn, Stream'.drop_zero]⟩
    have hpositive : 0 < delivered schedule reads (min n 32) := by
      unfold delivered
      omega
    have hle : delivered schedule reads (min n 32) ≤ n := by
      unfold delivered
      omega
    have hlength := Stream'.length_take (delivered schedule reads (min n 32)) unread
    have hread : unread.take (delivered schedule reads (min n 32)) ≠ [] :=
      List.length_pos_iff.mp (by rwa [hlength])
    obtain ⟨later, hrest⟩ := ih (n - delivered schedule reads (min n 32)) (by omega)
      (unread.drop (delivered schedule reads (min n 32))) (reads + 1)
    refine ⟨later, ?_⟩
    rw [drain, if_neg hn, tlsRead_attach]
    dsimp only
    rw [if_neg hread, hlength, hrest, Stream'.drop_drop, Nat.add_sub_cancel' hle]

theorem readConnackBody_attach {rlen : UInt32} (hrlen : ¬ rlen < 2) :
    ∃ later, readConnackBody (fragmented api schedule) (attach m unread reads) rlen =
      if delivered schedule reads 2 ≠ 2 then
        (.error errMqttPacket, attach m (unread.drop (delivered schedule reads 2)) later)
      else if unread.get 1 ≠ 0x00 then
        (.error (unread.get 1).toNat, attach m (unread.drop rlen.toNat) later)
      else (.ok (), attach m (unread.drop rlen.toNat) later) := by
  unfold readConnackBody
  rw [tlsRead_attach]
  dsimp only
  obtain hone | htwo := delivered_two schedule reads
  · exact ⟨reads + 1, by rw [hone]; rfl⟩
  · have hle : 2 ≤ rlen := UInt32.not_lt.mp hrlen
    have hsub : (rlen - 2).toNat = rlen.toNat - 2 := UInt32.toNat_sub_of_le rlen 2 hle
    have hleNat : 2 ≤ rlen.toNat := UInt32.le_iff_toNat_le.mp hle
    obtain ⟨drained, hdrained⟩ := drain_attach api schedule m (unread.drop 2) (reads + 1)
      (rlen - 2).toNat
    rw [Stream'.drop_drop, hsub, Nat.add_sub_cancel' hleNat] at hdrained
    have hbody : unread.take 2 = [unread.head, unread.get 1] := rfl
    rw [htwo, hbody]
    by_cases hlong : rlen > 2
    · refine ⟨drained, ?_⟩
      simp only [hsub, hdrained, if_pos hlong, Bool.not_true, Bool.false_eq_true, if_false,
        ne_eq, not_true_eq_false]
    · have hexact : rlen.toNat = 2 := by
        have hnot : ¬ 2 < rlen.toNat := fun h ↦ hlong (UInt32.lt_iff_toNat_lt.mpr h)
        omega
      refine ⟨reads + 1, ?_⟩
      simp only [if_neg hlong, Bool.not_true, Bool.false_eq_true, if_false, hexact, ne_eq,
        not_true_eq_false]

/-- Of all the reads of a CONNACK, only the one of the body depends on the schedule. -/
theorem readConnack_attach :
    ∃ later, readConnack (fragmented api schedule) (attach m unread reads) =
      ((connackVerdict unread
          (delivered schedule (reads + 1 + (streamRemlen unread.tail).2) 2)).1,
        attach m (connackVerdict unread
          (delivered schedule (reads + 1 + (streamRemlen unread.tail).2) 2)).2 later) := by
  unfold readConnack connackVerdict
  rw [recvByte_attach]
  dsimp only
  by_cases htype : unread.head ≠ pktConnack
  · refine ⟨reads + 1, ?_⟩
    rw [if_pos htype, if_pos (by simpa using htype)]
  rw [if_neg htype, if_neg (by simpa using htype), recvRemlen_attach]
  dsimp only
  by_cases hbad : (streamRemlen unread.tail).1 = 0xFFFFFFFF ∨ (streamRemlen unread.tail).1 < 2
  · exact ⟨_, by rw [if_pos hbad, if_pos hbad]⟩
  rw [if_neg hbad, if_neg hbad]
  obtain ⟨later, hbody⟩ := readConnackBody_attach api schedule m
    (unread.tail.drop (streamRemlen unread.tail).2) (reads + 1 + (streamRemlen unread.tail).2)
    (fun h ↦ hbad (Or.inr h))
  refine ⟨later, ?_⟩
  rw [hbody]
  split_ifs <;> rfl

end Fragmented

/-! ## Two schedules -/

/-- What a caller sees of a connect call: its boolean, its error code and the unread bytes. -/
def connectSummary {ω : Type*} (call : ConnectOutcome × Conn (Inbound ω)) :
    Bool × Option ℤ × Stream' UInt8 :=
  (call.1.result, call.1.errorCode, call.2.device.unread)

/-- The summary that belongs to a verdict. -/
def verdictSummary (verdict : Except ℤ Unit × Stream' UInt8) : Bool × Option ℤ × Stream' UInt8 :=
  match verdict.1 with
  | .error code => (false, some code, verdict.2)
  | .ok () => (true, some 0, verdict.2)

section TwoSchedules

variable {ω : Type*} (api : TlsApi ω) (m : Conn ω) (stream : Stream' UInt8) (args : ConnectArgs)
  (us : Bool)

/-- The call on a stream delivered by a schedule, with an `error_code` pointer. -/
def connectOn (schedule : ℕ → ℕ) : ConnectOutcome × Conn (Inbound ω) :=
  mqttConnectInternal (fragmented api schedule) (attach m stream 0) args ⟨us, true⟩

/-- CONNECT fits its buffer and the transport accepts all of it. -/
def ConnectSent : Prop :=
  args.wrappedRemainingLength ≤ 251 ∧
    (sendAll api (timeUs64 api m).2 (connectPacket args).written).1 = true

/-- Index of the `tls_read` call for the two body bytes: one call for the packet type and one
for each byte of the remaining length come before it. -/
def bodyRead : ℕ := 1 + (streamRemlen stream.tail).2

theorem connectSummary_of_not_sent (h : ¬ ConnectSent api m args) (first second : ℕ → ℕ) :
    connectSummary (connectOn api m stream args us first) =
      connectSummary (connectOn api m stream args us second) := by
  unfold connectOn
  by_cases hlarge : 251 < args.wrappedRemainingLength
  · rw [mqttConnectInternal_of_too_large _ _ _ hlarge,
      mqttConnectInternal_of_too_large _ _ _ hlarge]
  · have hcheck := mt args.remLen_gt_iff.mp hlarge
    have hunsent : (sendAll api (timeUs64 api m).2 (connectPacket args).written).1 = false := by
      simpa using fun hsent ↦ h ⟨Nat.le_of_not_lt hlarge, hsent⟩
    simp only [mqttConnectInternal, if_neg hcheck, timeUs64_attach, sendAll_attach, hunsent,
      Bool.not_false, if_true]

theorem connectSummary_of_sent (h : ConnectSent api m args) (schedule : ℕ → ℕ) :
    connectSummary (connectOn api m stream args us schedule) =
      verdictSummary (connackVerdict stream (delivered schedule (bodyRead stream) 2)) := by
  have hcheck := mt args.remLen_gt_iff.mp (Nat.not_lt_of_le h.1)
  obtain ⟨later, hconnack⟩ := readConnack_attach api schedule
    (sendAll api (timeUs64 api m).2 (connectPacket args).written).2 stream 0
  rw [Nat.zero_add] at hconnack
  simp only [connectOn, mqttConnectInternal, if_neg hcheck, timeUs64_attach, sendAll_attach, h.2,
    Bool.not_true, Bool.false_eq_true, if_false, hconnack, verdictSummary, bodyRead]
  cases (connackVerdict stream
      (delivered schedule (1 + (streamRemlen stream.tail).2) 2)).1 with
  | error code => rfl
  | ok _ => cases us <;> rfl

theorem connackVerdict_of_not_announced (h : ¬ ConnackAnnounced stream) (first second : ℕ) :
    connackVerdict stream first = connackVerdict stream second := by
  unfold connackVerdict
  by_cases htype : stream.head = pktConnack
  · have hbad : (streamRemlen stream.tail).1 = 0xFFFFFFFF ∨ (streamRemlen stream.tail).1 < 2 :=
      not_not.mp fun hgood ↦ h ⟨htype, hgood⟩
    simp only [hbad, if_true]
  · simp only [ne_eq, htype, not_false_eq_true, if_true]

/-- A short body read is reported with a code that a complete one never reports. -/
theorem verdictSummary_one_ne_two (h : ConnackAnnounced stream) :
    verdictSummary (connackVerdict stream 1) ≠ verdictSummary (connackVerdict stream 2) := by
  obtain ⟨htype, hgood⟩ := h
  have hshort : (verdictSummary (connackVerdict stream 1)).2.1 = some (-1102) := by
    simp only [connackVerdict, ne_eq, htype, not_true_eq_false, if_false, if_neg hgood,
      OfNat.one_ne_ofNat, not_false_eq_true, if_true]
    rfl
  have hfull : ∃ code : ℕ,
      (verdictSummary (connackVerdict stream 2)).2.1 = some (code : ℤ) := by
    simp only [connackVerdict, ne_eq, htype, not_true_eq_false, if_false, if_neg hgood]
    by_cases hcode : ((stream.tail.drop (streamRemlen stream.tail).2).get 1) = 0x00
    · refine ⟨0, ?_⟩
      rw [if_neg (not_not.mpr hcode)]
      rfl
    · refine ⟨((stream.tail.drop (streamRemlen stream.tail).2).get 1).toNat, ?_⟩
      rw [if_pos hcode]
      rfl
  obtain ⟨code, hcode⟩ := hfull
  intro heq
  rw [heq, hcode] at hshort
  have : (code : ℤ) = -1102 := Option.some.inj hshort
  omega

/-- Two schedules give the same boolean, error code and unread bytes exactly when, in case the
call gets as far as the CONNACK body, both deliver the same number of bytes to its one read. -/
theorem connect_same_for_schedules_iff (first second : ℕ → ℕ) :
    connectSummary (connectOn api m stream args us first) =
        connectSummary (connectOn api m stream args us second) ↔
      (ConnectSent api m args → ConnackAnnounced stream →
        delivered first (bodyRead stream) 2 = delivered second (bodyRead stream) 2) := by
  by_cases hsent : ConnectSent api m args
  swap
  · exact iff_of_true (connectSummary_of_not_sent api m stream args us hsent first second)
      (fun h ↦ absurd h hsent)
  rw [connectSummary_of_sent api m stream args us hsent,
    connectSummary_of_sent api m stream args us hsent]
  by_cases hannounced : ConnackAnnounced stream
  swap
  · exact iff_of_true
      (congrArg verdictSummary (connackVerdict_of_not_announced stream hannounced _ _))
      (fun _ h ↦ absurd h hannounced)
  constructor
  · intro hsame _ _
    have hne := verdictSummary_one_ne_two stream hannounced
    obtain hfirst | hfirst := delivered_two first (bodyRead stream) <;>
      obtain hsecond | hsecond := delivered_two second (bodyRead stream) <;>
      rw [hfirst, hsecond] at hsame ⊢
    · exact absurd hsame hne
    · exact absurd hsame.symm hne
  · intro hcount
    rw [hcount hsent hannounced]

end TwoSchedules

/-- An accepting CONNACK and nothing after it that matters. -/
def acceptingStream : Stream' UInt8 := fun index ↦
  if index = 0 then 0x20 else if index = 1 then 0x02 else 0x00

/-- Read in one piece the CONNACK is accepted; split between its two body bytes it is not. -/
theorem connect_differs_on_split_body :
    let m := Script.open ⟨[], []⟩
    let args : ConnectArgs := ⟨⟨[0x70], by decide⟩, 60, none, none, false⟩
    connectSummary (connectOn scripted m acceptingStream args true (fun _ ↦ 2)) ≠
      connectSummary (connectOn scripted m acceptingStream args true (fun _ ↦ 1)) := by
  intro m args
  have hsent : ConnectSent scripted m args := by
    refine ⟨by decide, ?_⟩
    have hwhole : (scripted.write (timeUs64 scripted m).2.device
        (connectPacket args).written).1 = (connectPacket args).written.length := rfl
    rw [sendAll_of_whole scripted hwhole (List.cons_ne_nil _ _)]
  have hannounced : ConnackAnnounced acceptingStream := ⟨by decide, by decide⟩
  rw [connectSummary_of_sent _ _ _ _ _ hsent, connectSummary_of_sent _ _ _ _ _ hsent]
  exact (verdictSummary_one_ne_two acceptingStream hannounced).symm

end PqMqtt.Mqtt
