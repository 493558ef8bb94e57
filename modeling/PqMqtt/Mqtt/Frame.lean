import PqMqtt.Mqtt.Delivery

/-!
# Frames of the client's calls

A call of the client is made of calls of `tls_write` and `tls_read` and of looks at the clock.  What
each of these keeps, the whole call keeps, whatever it returns.
-/

namespace PqMqtt.Mqtt

variable {σ : Type*} {api : TlsApi σ} {P : Conn σ → Prop}

/-- A call of `tls_read` keeps the property. -/
def KeptByRead (api : TlsApi σ) (P : Conn σ → Prop) : Prop :=
  ∀ conn len, P conn → P (tlsRead api conn len).2

/-- A call of `tls_write` keeps the property. -/
def KeptByWrite (api : TlsApi σ) (P : Conn σ → Prop) : Prop :=
  ∀ conn buf, P conn → P (tlsWrite api conn buf).2

/-- Every call of the transport but `tls_close` keeps the property. -/
structure Kept (api : TlsApi σ) (P : Conn σ → Prop) : Prop where
  read : KeptByRead api P
  write : KeptByWrite api P
  timeUs : ∀ conn, P conn → P (timeUs64 api conn).2

variable {conn : Conn σ}

/-! ## Reading -/

namespace KeptByRead

theorem recvByte (hread : KeptByRead api P) (h : P conn) : P (Mqtt.recvByte api conn).2 := by
  unfold Mqtt.recvByte
  dsimp only
  split <;> exact hread conn 1 h

theorem recvRemlenRounds (hread : KeptByRead api P) (shifts : List UInt32) (val : UInt32)
    (h : P conn) : P (Mqtt.recvRemlenRounds api shifts val conn).2 := by
  induction shifts generalizing val conn with
  | nil => exact h
  | cons shift shifts ih =>
    have hbyte := hread.recvByte h
    unfold Mqtt.recvRemlenRounds
    dsimp only
    split
    · exact hbyte
    · split_ifs
      · exact ih _ hbyte
      · exact hbyte

theorem recvRemlen (hread : KeptByRead api P) (h : P conn) : P (Mqtt.recvRemlen api conn).2 :=
  hread.recvRemlenRounds _ _ h

theorem drain (hread : KeptByRead api P) (n : ℕ) (h : P conn) : P (Mqtt.drain api conn n).2 := by
  induction conn, n using Mqtt.drain.induct api with
  | case1 conn =>
    rw [Mqtt.drain, if_pos rfl]
    exact h
  | case2 conn n hn outcome hempty =>
    rw [Mqtt.drain, if_neg hn]
    dsimp only
    rw [if_pos hempty]
    exact hread conn _ h
  | case3 conn n hn outcome hmore ih =>
    rw [Mqtt.drain, if_neg hn]
    dsimp only
    rw [if_neg hmore]
    exact ih (hread conn _ h)

theorem readConnackBody (hread : KeptByRead api P) (rlen : UInt32) (h : P conn) :
    P (Mqtt.readConnackBody api conn rlen).2 := by
  have hbody := hread conn 2 h
  have hdrain := hread.drain (rlen - 2).toNat hbody
  unfold Mqtt.readConnackBody
  dsimp only
  split
  · split_ifs
    all_goals first | exact hdrain | exact hbody
  · exact hbody

theorem readConnack (hread : KeptByRead api P) (h : P conn) : P (Mqtt.readConnack api conn).2 := by
  have htype := hread.recvByte h
  have hlength := hread.recvRemlen htype
  unfold Mqtt.readConnack
  dsimp only
  split_ifs
  · exact htype
  · exact hlength
  · exact hread.readConnackBody _ hlength

end KeptByRead

/-! ## Writing -/

namespace KeptByWrite

theorem sendAll (hwrite : KeptByWrite api P) (buf : List UInt8) (h : P conn) :
    P (Mqtt.sendAll api conn buf).2 := by
  induction hn : buf.length using Nat.strong_induction_on generalizing conn buf with
  | _ n ih =>
    by_cases hbuf : buf = []
    · rwa [hbuf, sendAll_nil]
    by_cases hcount : (api.write conn.device buf).1 = 0
    · rw [sendAll_of_refused api hbuf hcount]
      exact hwrite conn buf h
    · have hshorter : (buf.drop (api.write conn.device buf).1).length < n := by
        have hpositive := List.length_pos_iff.mpr hbuf
        rw [List.length_drop]
        omega
      rw [sendAll_of_accepted api hbuf hcount]
      exact ih _ hshorter _ (hwrite conn buf h) rfl

theorem sendBlocks (hwrite : KeptByWrite api P) (blocks : List (List UInt8)) (h : P conn) :
    P (Mqtt.sendBlocks api conn blocks).2 := by
  induction blocks generalizing conn with
  | nil => exact h
  | cons block blocks ih =>
    have hblock := hwrite.sendAll block h
    unfold Mqtt.sendBlocks
    dsimp only
    split
    · exact hblock
    · exact ih hblock

theorem mqttPublishQos0 (hwrite : KeptByWrite api P) (topic : CString) (payload : List UInt8)
    (retain : Bool) (h : P conn) : P (Mqtt.mqttPublishQos0 api conn topic payload retain).2 := by
  rw [mqttPublishQos0_eq_sendBlocks]
  exact hwrite.sendBlocks _ h

end KeptByWrite

/-! ## The call of CONNECT -/

theorem Kept.mqttConnectInternal (hkept : Kept api P) (args : ConnectArgs) (out : OutPointers)
    (h : P conn) : P (Mqtt.mqttConnectInternal api conn args out).2 := by
  have hsent := hkept.write.sendAll (connectPacket args).written (hkept.timeUs conn h)
  have hconnack := hkept.read.readConnack hsent
  unfold Mqtt.mqttConnectInternal
  split
  · exact h
  dsimp only
  split
  · exact hsent
  split
  · exact hconnack
  split
  · exact hkept.timeUs _ hconnack
  · exact hconnack

end PqMqtt.Mqtt
