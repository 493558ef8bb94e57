import PqMqtt.Mqtt.Client

/-!
# What CONNECT reports

The exits of `mqtt_connect_internal`: each failure stores a code that is not zero, the code of a
CONNACK that refuses the connection is stored as it is, and the duration that a success stores is
the difference of two looks at the clock.
-/

namespace PqMqtt.Mqtt

variable {σ : Type*} (api : TlsApi σ)

/-- A complete CONNACK with a code is read from a connection. -/
structure ConnackRead (conn : Conn σ) (code : UInt8) : Prop where
  packetType : (recvByte api conn).1 = some pktConnack
  length_ne : (recvRemlen api (recvByte api conn).2).1 ≠ 0xFFFFFFFF
  length_ge : 2 ≤ (recvRemlen api (recvByte api conn).2).1
  body : ∃ flags, (tlsRead api (recvRemlen api (recvByte api conn).2).2 2).1 = [flags, code]
  rest : 2 < (recvRemlen api (recvByte api conn).2).1 →
    (drain api (tlsRead api (recvRemlen api (recvByte api conn).2).2 2).2
      ((recvRemlen api (recvByte api conn).2).1 - 2).toNat).1 = true

/-- The CONNECT packet is sent and the broker refuses the connection with a code. -/
structure ConnectRefused (m : Conn σ) (args : ConnectArgs) (code : UInt8) : Prop where
  fits : ¬args.remLen > 256 - 5
  sent : (sendAll api (timeUs64 api m).2 (connectPacket args).written).1 = true
  connack : ConnackRead api (sendAll api (timeUs64 api m).2 (connectPacket args).written).2 code
  code_ne : code ≠ 0

/-- The codes that a failure of CONNECT stores. -/
def FailureCode (code : ℤ) : Prop :=
  code = errMqttSend ∨ code = errMqttPacket ∨ ∃ refusal : UInt8, refusal ≠ 0 ∧ code = refusal.toNat

/-- The code of a refusal survives as an `int`. -/
theorem toInt_refusal (refusal : UInt8) :
    (Int32.ofInt (refusal.toNat : ℤ)).toInt = refusal.toNat := by
  have hlt : refusal.toNat < 256 := refusal.toNat_lt
  exact Int32.toInt_ofInt_of_le (by omega) (by omega)

theorem FailureCode.ne_zero {code : ℤ} (h : FailureCode code) : Int32.ofInt code ≠ 0 := by
  rcases h with hsend | hpacket | hrefusal
  · rw [hsend]
    decide
  · rw [hpacket]
    decide
  · obtain ⟨refusal, hne, hcode⟩ := hrefusal
    intro hzero
    rw [hcode] at hzero
    have hint : (0 : ℤ) = refusal.toNat := (congrArg Int32.toInt hzero).symm.trans
      (toInt_refusal refusal)
    have hnat : refusal.toNat = 0 := by exact_mod_cast hint.symm
    exact hne (UInt8.toNat_inj.mp hnat)

/-- A verdict on the CONNACK, if it is a failure, has the code of one. -/
def Reports : Except ℤ Unit → Prop
  | .error code => FailureCode code
  | .ok () => True

variable {api}

theorem reports_readConnackBody (conn : Conn σ) (rlen : UInt32) :
    Reports (readConnackBody api conn rlen).1 := by
  unfold readConnackBody
  dsimp only
  split
  next flags code hbody =>
    generalize (if rlen > 2 then _ else _ : Bool × Conn σ) = drained
    split
    · exact Or.inr (Or.inl rfl)
    split
    next hcode => exact Or.inr (Or.inr ⟨code, hcode, rfl⟩)
    · trivial
  · exact Or.inr (Or.inl rfl)

theorem reports_readConnack (conn : Conn σ) : Reports (readConnack api conn).1 := by
  unfold readConnack
  dsimp only
  split
  · exact Or.inr (Or.inl rfl)
  split
  · exact Or.inr (Or.inl rfl)
  · exact reports_readConnackBody _ _

/-- A CONNACK that refuses the connection is reported with its code. -/
theorem readConnack_of_read {conn : Conn σ} {code : UInt8} (h : ConnackRead api conn code)
    (hcode : code ≠ 0) : (readConnack api conn).1 = .error (code.toNat : ℤ) := by
  obtain ⟨htype, hne, hge, ⟨flags, hbody⟩, hrest⟩ := h
  have hlength : ¬((recvRemlen api (recvByte api conn).2).1 = 0xFFFFFFFF ∨
      (recvRemlen api (recvByte api conn).2).1 < 2) := by
    rintro (heq | hlt)
    · exact hne heq
    · exact absurd hlt (UInt32.not_lt.mpr hge)
  rw [readConnack, if_neg (not_not_intro htype)]
  dsimp only
  rw [if_neg hlength, readConnackBody]
  generalize (recvRemlen api (recvByte api conn).2).1 = rlen at hrest ⊢
  generalize tlsRead api (recvRemlen api (recvByte api conn).2).2 2 = body at hbody hrest ⊢
  have hdrained : (if rlen > 2 then drain api body.2 (rlen - 2).toNat else (true, body.2)).1
      = true := by
    split
    next hlong => exact hrest hlong
    · rfl
  simp only [hbody, hdrained, Bool.not_true, Bool.false_eq_true, if_false, if_pos hcode]

variable {m : Conn σ} {args : ConnectArgs} {out : OutPointers}

/-- A failure of CONNECT stores no duration, and the code of a failure. -/
theorem mqttConnectInternal_failed (h : (mqttConnectInternal api m args out).1.result = false) :
    ∃ code, (mqttConnectInternal api m args out).1 = .failed out code ∧ FailureCode code := by
  have hreports : Reports
      (readConnack api (sendAll api (timeUs64 api m).2 (connectPacket args).written).2).1 :=
    reports_readConnack _
  revert h
  unfold mqttConnectInternal
  split
  · exact fun _ ↦ ⟨errMqttPacket, rfl, Or.inr (Or.inl rfl)⟩
  dsimp only
  split
  · exact fun _ ↦ ⟨errMqttSend, rfl, Or.inl rfl⟩
  split
  next code hconnack =>
    rw [hconnack] at hreports
    exact fun _ ↦ ⟨code, rfl, hreports⟩
  split
  · exact fun hfailed ↦ (nomatch hfailed)
  · exact fun hfailed ↦ (nomatch hfailed)

/-- A refusal by the broker is stored with its code. -/
theorem mqttConnectInternal_refused {code : UInt8} (h : ConnectRefused api m args code) :
    (mqttConnectInternal api m args out).1 = .failed out code.toNat := by
  have hconnack := readConnack_of_read h.connack h.code_ne
  rw [mqttConnectInternal, if_neg h.fits]
  simp only [h.sent, hconnack, Bool.not_true, Bool.false_eq_true, if_false]

/-- A success stores the time between two looks at the clock, the first at the start of the call and
the second at its end. -/
theorem mqttConnectInternal_connected
    (h : (mqttConnectInternal api m args ⟨true, true⟩).1.result = true) :
    ∃ later, later = (readConnack api
        (sendAll api (timeUs64 api m).2 (connectPacket args).written).2).2 ∧
      mqttConnectInternal api m args ⟨true, true⟩ =
        (.connected ⟨true, true⟩ (some ((timeUs64 api later).1 - (timeUs64 api m).1)),
          (timeUs64 api later).2) := by
  refine ⟨_, rfl, ?_⟩
  revert h
  unfold mqttConnectInternal
  split
  · exact fun hfailed ↦ (nomatch hfailed)
  dsimp only
  split
  · exact fun hfailed ↦ (nomatch hfailed)
  split
  · exact fun hfailed ↦ (nomatch hfailed)
  · exact fun _ ↦ rfl

end PqMqtt.Mqtt
