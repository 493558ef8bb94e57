import PqMqtt.Mqtt.Fragmentation
import PqMqtt.Mqtt.PlainLink

/-!
# CONNACK over the plain transport

The client accepts exactly what it should as long as every chain finds room in the ring.  A chain
that finds none costs the client bytes of the CONNACK or of what follows it.
-/

namespace PqMqtt.Mqtt

open Transport

/-! ## The call -/

section Call

variable {ω : Type*} (api : TlsApi ω)

/-- The state in which the plain transport is when the CONNECT is sent. -/
def PlainInbound.start (conn : PlainTransport.Conn) (polls : List Poll) (clock : ℕ → Clock) :
    PlainInbound :=
  ⟨conn, polls, clock, 0, [], True, false⟩

/-- A connection of `api` with the inbound side of the plain transport. -/
def attachPlain (m : Conn ω) (inbound : PlainInbound) : Conn (PlainLink ω) :=
  ⟨⟨m.device, inbound⟩, m.writes⟩

/-- A connection that the peer will close once it has sent everything. -/
structure PlainInbound.Ready (conn : PlainTransport.Conn) (polls : List Poll) : Prop where
  wellFormed : conn.rx.WellFormed
  isOpen : conn.closed = false
  closes : ClosesAtEnd polls

theorem PlainInbound.Ready.delivers {conn : PlainTransport.Conn} {polls : List Poll}
    (h : PlainInbound.Ready conn polls) (clock : ℕ → Clock) :
    (PlainInbound.start conn polls clock).Delivers (conn.rx.contents ++ arrivals polls) := by
  refine ⟨h.wellFormed, ?_, fun _ ↦ rfl, fun hnot ↦ absurd trivial hnot⟩
  unfold Closing PlainInbound.start
  rw [h.isOpen]
  exact h.closes

/-- Sending a CONNECT leaves the inbound side alone. -/
theorem inbound_sendAll (conn : Conn (PlainLink ω)) (buf : List UInt8) :
    (sendAll (plainLink api) conn buf).2.device.inbound = conn.device.inbound := by
  have hwrite : KeptByWrite (plainLink api) fun other ↦
      other.device.inbound = conn.device.inbound := fun _ _ h ↦ h
  exact hwrite.sendAll buf rfl

/-- What the call leaves behind when the CONNECT is sent. -/
theorem mqttConnectInternal_of_sent {σ : Type*} (api : TlsApi σ) (m : Conn σ) {args : ConnectArgs}
    (out : OutPointers) (h : ConnectSent api m args) :
    let connack := readConnack api
      (sendAll api (timeUs64 api m).2 (connectPacket args).written).2
    (∃ code, connack.1 = .error code ∧
      mqttConnectInternal api m args out = (.failed out code, connack.2)) ∨
    (connack.1 = .ok () ∧ ∃ us, ∃ after ∈ [connack.2, (timeUs64 api connack.2).2],
      mqttConnectInternal api m args out = (.connected out us, after)) := by
  intro connack
  have hcheck := mt args.remLen_gt_iff.mp (Nat.not_lt_of_le h.1)
  unfold mqttConnectInternal
  dsimp only
  rw [if_neg hcheck, h.2, Bool.not_true, if_neg Bool.false_ne_true]
  match hconnack : connack.1 with
  | .error code => exact Or.inl ⟨code, rfl, rfl⟩
  | .ok () =>
    refine Or.inr ⟨rfl, ?_⟩
    dsimp only
    split_ifs
    · exact ⟨_, _, List.mem_cons_of_mem _ List.mem_cons_self, rfl⟩
    · exact ⟨_, _, List.mem_cons_self, rfl⟩

/-- The client accepts exactly the streams that start with an accepting CONNACK, consumes exactly a
whole CONNACK, and reports a failure with an error code and no duration. -/
structure ExactConnack (out : OutPointers) (stream : List UInt8)
    (call : ConnectOutcome × Conn (PlainLink ω)) : Prop where
  accepted : call.1.result = true ↔ ∃ count, WholeConnack stream count 0x00
  consumed : ∀ count code, WholeConnack stream count code →
    call.2.device.inbound.returned.length = count ∧
      call.2.device.inbound.conn.rx.contents ++ arrivals call.2.device.inbound.polls =
        stream.drop count
  failed : call.1.result = false →
    (out.errorCode = true → ∃ code ≠ 0, call.1.errorCode = some code) ∧
      (out.connectUs = true → call.1.connectUs = some 0)
  succeeded : call.1.result = true → out.errorCode = true → call.1.errorCode = some 0

/-- The verdict of a call, and the inbound side that it leaves. -/
theorem connect_of_sent (m : Conn (PlainLink ω)) {args : ConnectArgs} (out : OutPointers)
    (h : ConnectSent (plainLink api) m args) :
    ∃ conn : Conn (PlainLink ω), conn.device.inbound = m.device.inbound ∧
      (mqttConnectInternal (plainLink api) m args out).2.device.inbound =
        (readConnack (plainLink api) conn).2.device.inbound ∧
      ((mqttConnectInternal (plainLink api) m args out).1.result = true ↔
        (readConnack (plainLink api) conn).1 = .ok ()) := by
  refine ⟨_, inbound_sendAll api (timeUs64 (plainLink api) m).2 (connectPacket args).written, ?_⟩
  rcases mqttConnectInternal_of_sent (plainLink api) m out h with
    ⟨code, hconnack, hcall⟩ | ⟨hconnack, us, after, hafter, hcall⟩
  · rw [hcall, hconnack]
    exact ⟨rfl, by simp [ConnectOutcome.failed]⟩
  · rw [hcall, hconnack]
    rw [List.mem_pair] at hafter
    refine ⟨?_, by simp [ConnectOutcome.connected]⟩
    rcases hafter with rfl | rfl <;> rfl

/-- What the call stores behind its out pointers. -/
theorem reports_of_sent {σ : Type*} (api : TlsApi σ) (m : Conn σ) {args : ConnectArgs}
    (out : OutPointers) (h : ConnectSent api m args) :
    let outcome := (mqttConnectInternal api m args out).1
    (outcome.result = false →
      (out.errorCode = true → ∃ code ≠ 0, outcome.errorCode = some code) ∧
        (out.connectUs = true → outcome.connectUs = some 0)) ∧
    (outcome.result = true → out.errorCode = true → outcome.errorCode = some 0) := by
  intro outcome
  rcases mqttConnectInternal_of_sent api m out h with
    ⟨code, hconnack, hcall⟩ | ⟨hconnack, us, after, hafter, hcall⟩
  · have hcode : code ≠ 0 := by
      rintro rfl
      exact readConnack_ne_error_zero api _ hconnack
    have houtcome : outcome = .failed out code := congrArg Prod.fst hcall
    rw [houtcome]
    refine ⟨fun _ ↦ ⟨fun herror ↦ ⟨code, hcode, if_pos herror⟩, fun hus ↦ if_pos hus⟩, ?_⟩
    exact fun hresult ↦ absurd hresult Bool.false_ne_true
  · have houtcome : outcome = .connected out us := congrArg Prod.fst hcall
    rw [houtcome]
    exact ⟨fun hresult ↦ absurd hresult.symm Bool.false_ne_true, fun _ herror ↦ if_pos herror⟩

/-- The reads of a call whose bytes may have a gap: a CONNACK that is accepted is one of the stream
as well, since the gap comes after its first bytes. -/
theorem WholeConnack.of_lost {stream moved : List UInt8} {conn : PlainTransport.Conn}
    {polls : List Poll} {fits : Prop} (h : Feeds stream fits moved conn polls) (hlost : ¬fits)
    {code : UInt8} (hwhole : WholeConnack moved moved.length code) :
    WholeConnack stream moved.length code := by
  obtain ⟨hshort, hlong, hsame⟩ := h.lost hlost
  refine hwhole.of_take ?_ (by omega)
  have hseven : min 7 moved.length ≤ rxBufCap := by
    unfold rxBufCap
    omega
  calc
    stream.take (min 7 moved.length) =
        (stream.take rxBufCap).take (min 7 moved.length) := by
      rw [List.take_take, Nat.min_eq_left hseven]
    _ = (moved ++ conn.rx.contents).take (min 7 moved.length) := by
      rw [← hsame, List.take_take, Nat.min_eq_left hseven]
    _ = moved.take (min 7 moved.length) := List.take_append_of_le_length (Nat.min_le_right _ _)

/-- The inbound side after a call, and what a script with the bytes that the call took says. -/
theorem follows_of_sent {stream : List UInt8} {m : Conn (PlainLink ω)} {args : ConnectArgs}
    {out : OutPointers} (hsent : ConnectSent (plainLink api) m args)
    (hdelivers : m.device.inbound.Delivers stream) (hstart : m.device.inbound.returned = [])
    (hexpired :
      (mqttConnectInternal (plainLink api) m args out).2.device.inbound.expired = false) :
    let call := mqttConnectInternal (plainLink api) m args out
    call.2.device.inbound.Delivers stream ∧
      ∃ verdict : Except ℤ Unit, (call.1.result = true ↔ verdict = .ok ()) ∧
        ∀ rest, (call.2.device.inbound.Exhausted → rest = []) →
          readConnack scripted (Script.open ⟨[], call.2.device.inbound.returned ++ rest⟩) =
            (verdict, Script.open ⟨[], rest⟩) := by
  intro call
  obtain ⟨conn, hinbound, hafter, hresult⟩ := connect_of_sent api m out hsent
  rw [← hinbound] at hdelivers hstart
  rw [hafter] at hexpired ⊢
  have hfollows := follows_readConnack (plainInlet api stream)
  obtain ⟨bytes, htaken, -, hscript⟩ :=
    (hfollows.follows hdelivers).resolve_left (by simp [plainInlet, hexpired])
  have hreturned : (readConnack (plainLink api) conn).2.device.inbound.returned = bytes := by
    have htaken : (readConnack (plainLink api) conn).2.device.inbound.returned =
        conn.device.inbound.returned ++ bytes := htaken
    rwa [hstart] at htaken
  rw [hreturned]
  exact ⟨hfollows.keeps (plainInlet api stream).keptByRead_valid hdelivers, _, hresult, hscript⟩

/-- A call is exact when all that arrives during it fits. -/
theorem exact_of_fits {stream : List UInt8} {m : Conn (PlainLink ω)} {args : ConnectArgs}
    {out : OutPointers} (hsent : ConnectSent (plainLink api) m args)
    (hdelivers : m.device.inbound.Delivers stream) (hstart : m.device.inbound.returned = [])
    (hexpired :
      (mqttConnectInternal (plainLink api) m args out).2.device.inbound.expired = false)
    (hfits : (mqttConnectInternal (plainLink api) m args out).2.device.inbound.fits) :
    ExactConnack out stream (mqttConnectInternal (plainLink api) m args out) := by
  obtain ⟨hfailed, hsucceeded⟩ := reports_of_sent (plainLink api) m out hsent
  obtain ⟨hfed, verdict, hresult, hscript⟩ := follows_of_sent api hsent hdelivers hstart hexpired
  have hintact := hfed.intact hfits
  have hstream := hscript _ fun hexhausted ↦
    List.append_eq_nil_iff.mpr ⟨hexhausted.ring, hexhausted.polls⟩
  rw [hintact] at hstream
  refine ⟨?_, ?_, hfailed, hsucceeded⟩
  · rw [hresult, ← readConnack_scripted_ok_iff, hstream]
  · intro count code hwhole
    have hrest := congrArg (fun outcome ↦ outcome.2.device.inbound)
      (hstream.symm.trans hwhole.readConnack_eq)
    have hlength := congrArg List.length hintact
    have hdrop := congrArg List.length hrest
    have hle := hwhole.count_le
    simp only [Script.open, List.length_append, List.length_drop] at hlength hdrop
    exact ⟨by omega, hrest⟩

/-- A stream without a whole CONNACK is refused, whatever gets lost of it. -/
theorem exact_of_not_whole {stream : List UInt8} {m : Conn (PlainLink ω)} {args : ConnectArgs}
    {out : OutPointers} (hsent : ConnectSent (plainLink api) m args)
    (hdelivers : m.device.inbound.Delivers stream) (hstart : m.device.inbound.returned = [])
    (hexpired :
      (mqttConnectInternal (plainLink api) m args out).2.device.inbound.expired = false)
    (hnot : ¬∃ count code, WholeConnack stream count code)
    (hlost : ¬(mqttConnectInternal (plainLink api) m args out).2.device.inbound.fits) :
    ExactConnack out stream (mqttConnectInternal (plainLink api) m args out) := by
  obtain ⟨hfailed, hsucceeded⟩ := reports_of_sent (plainLink api) m out hsent
  obtain ⟨hfed, verdict, hresult, hscript⟩ := follows_of_sent api hsent hdelivers hstart hexpired
  have htaken := hscript [] fun _ ↦ rfl
  rw [List.append_nil] at htaken
  have hnone : ¬verdict = .ok () := by
    intro haccepted
    have hverdict := congrArg Prod.fst htaken
    rw [haccepted, readConnack_scripted_ok_iff] at hverdict
    obtain ⟨count, hwhole⟩ := hverdict
    have hrest := congrArg (fun outcome ↦ outcome.2.device.inbound)
      (htaken.symm.trans hwhole.readConnack_eq)
    have hle := hwhole.count_le
    have hdrop := congrArg List.length hrest
    simp only [Script.open, List.length_drop, List.length_nil] at hdrop
    obtain rfl : count =
        (mqttConnectInternal (plainLink api) m args out).2.device.inbound.returned.length := by
      omega
    exact hnot ⟨_, _, hwhole.of_lost hfed hlost⟩
  refine ⟨?_, fun count code hwhole ↦ absurd ⟨count, code, hwhole⟩ hnot, hfailed, hsucceeded⟩
  rw [hresult]
  exact iff_of_false hnone fun ⟨count, hwhole⟩ ↦ hnot ⟨count, _, hwhole⟩

/-- Bytes that are lost are missing from a whole CONNACK or from what follows it. -/
theorem fits_of_exact {stream : List UInt8} {out : OutPointers}
    {call : ConnectOutcome × Conn (PlainLink ω)} (hfed : call.2.device.inbound.Delivers stream)
    (hexact : ExactConnack out stream call)
    (hwhole : ∃ count code, WholeConnack stream count code) :
    call.2.device.inbound.fits := by
  obtain ⟨count, code, hwhole⟩ := hwhole
  obtain ⟨hreturned, hrest⟩ := hexact.consumed count code hwhole
  by_contra hlost
  have hshort := (hfed.lost hlost).1
  have hlength := congrArg List.length hrest
  have hle := hwhole.count_le
  rw [List.length_append, List.length_drop] at hlength
  omega

end Call

/-- A call that is never late is not ended by a deadline. -/
theorem not_expired_of_punctual {ω : Type*} (api : TlsApi ω) {stream : List UInt8}
    {m : Conn (PlainLink ω)} {args : ConnectArgs} (out : OutPointers)
    (hsent : ConnectSent (plainLink api) m args) (h : m.device.inbound.Punctual stream) :
    (mqttConnectInternal (plainLink api) m args out).2.device.inbound.expired = false := by
  obtain ⟨conn, hinbound, hafter, -⟩ := connect_of_sent api m out hsent
  have hkept : KeptByRead (plainLink api) fun conn ↦ conn.device.inbound.Punctual stream :=
    fun _ len hbefore ↦ hbefore.read len
  rw [hafter]
  exact (hkept.readConnack (hinbound ▸ h)).expired

/-- A whole CONNACK is not handled exactly when what arrives before the first poll overruns the
ring. -/
theorem not_exact_of_burst {ω : Type*} (api : TlsApi ω) (m : Conn ω)
    {conn : PlainTransport.Conn} {poll : Poll} {polls : List Poll}
    (hready : PlainInbound.Ready conn (poll :: polls)) (hover : ¬PlainInbound.Fits conn poll)
    (clock : ℕ → Clock) (args : ConnectArgs) (out : OutPointers) {count : ℕ} {code : UInt8}
    (hsent : ConnectSent (plainLink api)
      (attachPlain m (PlainInbound.start conn (poll :: polls) clock)) args)
    (hwhole : WholeConnack (conn.rx.contents ++ arrivals (poll :: polls)) count code) :
    ¬ExactConnack out (conn.rx.contents ++ arrivals (poll :: polls))
      (mqttConnectInternal (plainLink api)
        (attachPlain m (PlainInbound.start conn (poll :: polls) clock)) args out) := by
  intro hexact
  obtain ⟨after, hinbound, hafter, -⟩ := connect_of_sent api
    (attachPlain m (PlainInbound.start conn (poll :: polls) clock)) out hsent
  have hdelivers := hready.delivers clock
  have hfed : (readConnack (plainLink api) after).2.device.inbound.Delivers
      (conn.rx.contents ++ arrivals (poll :: polls)) := by
    have hkept : KeptByRead (plainLink api) fun conn' ↦ conn'.device.inbound.Delivers
        (conn.rx.contents ++ arrivals (poll :: polls)) :=
      fun _ len h ↦ (PlainInbound.reads h len).delivers
    apply hkept.readConnack
    rw [hinbound]
    exact hdelivers
  have hburst : PlainInbound.Overrun (PlainInbound.start conn (poll :: polls) clock)
      (readConnack (plainLink api) after).2.device.inbound := by
    have hkept : KeptByRead (plainLink api) fun conn' ↦
        PlainInbound.Overrun (PlainInbound.start conn (poll :: polls) clock)
          conn'.device.inbound := fun _ len h ↦ h.read rfl hover len
    apply hkept.readConnack
    rw [hinbound]
    exact Or.inr ⟨rfl, rfl⟩
  rw [← hafter] at hfed hburst
  rcases hburst with hlost | ⟨hrx, hpolls⟩
  · exact hlost (fits_of_exact hfed hexact ⟨count, code, hwhole⟩)
  · have hrest := (hexact.consumed count code hwhole).2
    rw [hrx, hpolls] at hrest
    have hlength : (conn.rx.contents ++ arrivals (poll :: polls)).length =
        ((conn.rx.contents ++ arrivals (poll :: polls)).drop count).length :=
      congrArg List.length hrest
    have hle := hwhole.count_le
    have hcount := hwhole.count_eq
    rw [List.length_drop] at hlength
    omega

/-- The start of an accepting CONNACK of 20004 bytes. -/
def longConnack : Pbuf where
  payloads := [[0x20, 0xA0, 0x9C, 0x01, 0x00, 0x00]]
  totLen := 6
  totLen_eq := rfl
  totLen_lt := by norm_num

/-- The start of the CONNACK, full segments of zeros, and the close. -/
def burst (segments : ℕ) : Poll where
  callbacks := .recv (some longConnack) 0 ::
    (List.replicate segments (.recv (some fullSegment) 0) ++ [.recv none 0])
  clock := ⟨0, 0⟩

theorem bytes_burst (segments : ℕ) :
    (burst segments).bytes =
      0x20 :: 0xA0 :: 0x9C :: 0x01 :: 0x00 :: 0x00 :: List.replicate (segments * 1460) 0 := by
  have hconnack : (Callback.recv (some longConnack) 0).bytes =
      [0x20, 0xA0, 0x9C, 0x01, 0x00, 0x00] := rfl
  have hclose : [Callback.recv none 0].flatMap Callback.bytes = [] := rfl
  unfold Poll.bytes burst
  rw [List.flatMap_cons, List.flatMap_append, flatMap_replicate_fullSegment, hconnack, hclose,
    List.append_nil]
  rfl

theorem remlenOf_longConnack (rest : List UInt8) :
    remlenOf (0xA0 :: 0x9C :: 0x01 :: rest) = (20000, rest) := rfl

theorem wholeConnack_zeros {zeros : ℕ} (h : 19998 ≤ zeros) :
    WholeConnack (0x20 :: 0xA0 :: 0x9C :: 0x01 :: 0x00 :: 0x00 :: List.replicate zeros 0)
      20004 0x00 := by
  have hvalue : (20000 : UInt32).toNat = 20000 := rfl
  refine ⟨rfl, ?_, ?_, ?_, ?_, ?_⟩ <;> rw [List.tail_cons, remlenOf_longConnack]
  · exact (by decide : (20000 : UInt32) ≠ 0xFFFFFFFF)
  · exact (by decide : (2 : UInt32) ≤ 20000)
  · rfl
  · simp only [hvalue, List.length_cons, List.length_replicate]
    omega
  · simp only [hvalue, List.length_cons, List.length_replicate]
    omega

theorem ready_burst (segments : ℕ) : PlainInbound.Ready .zeroed [burst segments] := by
  have hcloses : (burst segments).callbacks.any Callback.closes = true := by
    unfold burst
    rw [List.any_cons, List.any_append]
    simp [Callback.closes]
  refine ⟨RxRing.wellFormed_zeroed, rfl, ?_⟩
  rw [ClosesAtEnd, if_pos hcloses]
  rfl

/-- A CONNECT that its transport accepts in one write is sent. -/
theorem connectSent_of_whole {σ : Type*} {api : TlsApi σ} {m : Conn σ} {args : ConnectArgs}
    (hsize : args.wrappedRemainingLength ≤ 251)
    (hwhole : (api.write (timeUs64 api m).2.device (connectPacket args).written).1 =
      (connectPacket args).written.length) : ConnectSent api m args := by
  refine ⟨hsize, ?_⟩
  rw [sendAll_of_whole api hwhole (connectPacket_ne_nil args)]

theorem stream_burst (segments : ℕ) :
    PlainTransport.Conn.zeroed.rx.contents ++ arrivals [burst segments] =
      0x20 :: 0xA0 :: 0x9C :: 0x01 :: 0x00 :: 0x00 :: List.replicate (segments * 1460) 0 := by
  have harrive : arrivals [burst segments] = (burst segments).bytes := List.append_nil _
  rw [harrive, bytes_burst]
  rfl

theorem wholeConnack_burst {segments : ℕ} (h : 14 ≤ segments) :
    WholeConnack (PlainTransport.Conn.zeroed.rx.contents ++ arrivals [burst segments]) 20004
      0x00 := by
  rw [stream_burst]
  exact wholeConnack_zeros (by omega)

theorem not_fits_burst {segments : ℕ} (h : 14 ≤ segments) :
    ¬PlainInbound.Fits .zeroed (burst segments) := by
  apply not_not.mpr
  unfold PlainTransport.Overruns
  rw [bytes_burst]
  simp only [rxBufCap, List.length_cons, List.length_replicate]
  omega

/-- No call handles the burst exactly. -/
theorem not_exact_burst {σ : Type*} (api : TlsApi σ) (m : Conn σ) {segments : ℕ}
    (h : 14 ≤ segments) (clock : ℕ → Clock) (args : ConnectArgs) (out : OutPointers)
    (hsent : ConnectSent (plainLink api)
      (attachPlain m (PlainInbound.start .zeroed [burst segments] clock)) args) :
    ¬ExactConnack out (PlainTransport.Conn.zeroed.rx.contents ++ arrivals [burst segments])
      (mqttConnectInternal (plainLink api)
        (attachPlain m (PlainInbound.start .zeroed [burst segments] clock)) args out) :=
  not_exact_of_burst api m (ready_burst segments) (not_fits_burst h) clock args out hsent
    (wholeConnack_burst h)

/-! ## Exactness -/

/-- CONNACK handling over the plain transport is exact if and only if the stream does not start with
a whole CONNACK or every chain that arrives during the call fits into the ring. -/
theorem plain_connack_exact_iff {ω : Type*} (api : TlsApi ω) (m : Conn ω)
    {conn : PlainTransport.Conn} {polls : List Poll} (hready : PlainInbound.Ready conn polls)
    (clock : ℕ → Clock) (args : ConnectArgs) (out : OutPointers) :
    let stream := conn.rx.contents ++ arrivals polls
    let before := attachPlain m (PlainInbound.start conn polls clock)
    let call := mqttConnectInternal (plainLink api) before args out
    ConnectSent (plainLink api) before args → call.2.device.inbound.expired = false →
      (ExactConnack out stream call ↔
        ((∃ count code, WholeConnack stream count code) → call.2.device.inbound.fits)) := by
  intro stream before call hsent hexpired
  have hdelivers : before.device.inbound.Delivers stream := hready.delivers clock
  constructor
  · intro hexact hwhole
    exact fits_of_exact (follows_of_sent api hsent hdelivers rfl hexpired).1 hexact hwhole
  · intro hcondition
    by_cases hfits : call.2.device.inbound.fits
    · exact exact_of_fits api hsent hdelivers rfl hexpired hfits
    · exact exact_of_not_whole api hsent hdelivers rfl hexpired (mt hcondition hfits) hfits

/-- A burst with an accepting CONNACK of 20004 bytes is refused. -/
theorem plain_connack_burst_not_exact :
    let args : ConnectArgs := ⟨⟨[0x70], by decide⟩, 60, none, none, false⟩
    let before := attachPlain (Script.open ⟨[], []⟩)
      (PlainInbound.start .zeroed [burst 14] fun _ ↦ ⟨0, 0⟩)
    let call := mqttConnectInternal (plainLink scripted) before args ⟨true, true⟩
    PlainInbound.Ready .zeroed [burst 14] ∧ ConnectSent (plainLink scripted) before args ∧
      call.2.device.inbound.expired = false ∧
      ¬ExactConnack ⟨true, true⟩ (PlainTransport.Conn.zeroed.rx.contents ++ arrivals [burst 14])
        call := by
  -- the call stays a term: the kernel would run the client to compare a bound variable with it
  intro args before
  have hready := ready_burst 14
  have hsent : ConnectSent (plainLink scripted) before args :=
    connectSent_of_whole (by decide) rfl
  have hpunctual : ∀ index : ℕ, ∀ poll ∈ [burst 14],
      ¬poll.clock.ms > ((fun _ ↦ ⟨0, 0⟩ : ℕ → Clock) index).ms + 15000 := by
    intro index poll hpoll
    obtain rfl := List.mem_singleton.mp hpoll
    exact (by decide : ¬(0 : UInt32) > 0 + 15000)
  have hbefore : before.device.inbound.Punctual
      (PlainTransport.Conn.zeroed.rx.contents ++ arrivals [burst 14]) :=
    ⟨hready.delivers _, rfl, rfl, hpunctual⟩
  have hexpired := not_expired_of_punctual scripted ⟨true, true⟩ hsent hbefore
  exact ⟨hready, hsent, hexpired, not_exact_burst scripted _ le_rfl _ args _ hsent⟩

/-- A CONNACK whose two body bytes arrive in different pieces is handled exactly. -/
theorem plain_connack_exact_in_pieces :
    let args : ConnectArgs := ⟨⟨[0x70], by decide⟩, 60, none, none, false⟩
    let polls : List Poll := [⟨[.recv (some ⟨[[0x20, 0x02, 0x00]], 3, rfl, by decide⟩) 0], ⟨0, 0⟩⟩,
      ⟨[.recv (some ⟨[[0x00, 0x30]], 2, rfl, by decide⟩) 0, .recv none 0], ⟨0, 0⟩⟩]
    ExactConnack ⟨true, true⟩ (PlainTransport.Conn.zeroed.rx.contents ++ arrivals polls)
      (mqttConnectInternal (plainLink scripted) (attachPlain (Script.open ⟨[], []⟩)
        (PlainInbound.start .zeroed polls fun _ ↦ ⟨0, 0⟩)) args ⟨true, true⟩) := by
  intro args polls
  have hready : PlainInbound.Ready .zeroed polls := ⟨RxRing.wellFormed_zeroed, rfl, rfl⟩
  have hsent : ConnectSent (plainLink scripted) (attachPlain (Script.open ⟨[], []⟩)
      (PlainInbound.start .zeroed polls fun _ ↦ ⟨0, 0⟩)) args :=
    connectSent_of_whole (by decide) rfl
  have hpunctual : ∀ index : ℕ, ∀ poll ∈ polls,
      ¬poll.clock.ms > ((fun _ ↦ ⟨0, 0⟩ : ℕ → Clock) index).ms + 15000 := by
    intro index poll hpoll
    rcases List.mem_pair.mp hpoll with rfl | rfl <;>
      exact (by decide : ¬(0 : UInt32) > 0 + 15000)
  have hexpired := not_expired_of_punctual scripted ⟨true, true⟩ hsent
    ⟨hready.delivers _, rfl, rfl, hpunctual⟩
  refine (plain_connack_exact_iff scripted (Script.open ⟨[], []⟩) hready (fun _ ↦ ⟨0, 0⟩) args
    ⟨true, true⟩ hsent hexpired).mpr fun _ ↦ ?_
  exact (follows_of_sent scripted hsent (hready.delivers _) rfl hexpired).1.fits_of_length_le
    (by decide)

end PqMqtt.Mqtt
