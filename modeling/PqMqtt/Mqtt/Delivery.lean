import PqMqtt.Mqtt.Client

/-!
# Delivery of a packet by partial writes

A call that sends a packet leaves a prefix of it in the accepted stream, and reports success
exactly when that prefix is the whole packet.  `send_all` delivers its buffer in this sense, and
delivery composes along the short-circuited chains of `send_all` that the client is made of, so
every call of the client is one delivery of the concatenation of its buffers.
-/

namespace PqMqtt.Mqtt

variable {σ : Type*}

/-- Between two states of a connection a prefix of the packet was accepted; the call reports
success exactly when all of it was. -/
def Delivery (before after : Conn σ) (packet : List UInt8) (result : Bool) : Prop :=
  ∃ sent, after.accepted = before.accepted ++ sent ∧ sent <+: packet ∧
    (result = true ↔ sent = packet)

namespace Delivery

variable {before middle after : Conn σ} {first rest packet : List UInt8} {result : Bool}

theorem refl (conn : Conn σ) : Delivery conn conn [] true :=
  ⟨[], by simp, List.prefix_rfl, by simp⟩

/-- A delivery that succeeds leaves exactly its packet. -/
theorem accepted_eq (h : Delivery before after packet true) :
    after.accepted = before.accepted ++ packet := by
  obtain ⟨sent, haccepted, -, hresult⟩ := h
  rw [haccepted, hresult.mp rfl]

/-- After a complete first part, the rest of a packet is delivered on its own. -/
theorem append (hfirst : Delivery before middle first true)
    (hrest : Delivery middle after rest result) :
    Delivery before after (first ++ rest) result := by
  obtain ⟨sent, haccepted, hsent, hresult⟩ := hrest
  refine ⟨first ++ sent, ?_, (List.prefix_append_right_inj first).mpr hsent, ?_⟩
  · rw [haccepted, hfirst.accepted_eq, List.append_assoc]
  · rw [hresult, List.append_cancel_left_eq]

/-- A packet whose first part was torn is torn, whatever follows that part. -/
theorem append_of_failed (hfirst : Delivery before after first false) (rest : List UInt8) :
    Delivery before after (first ++ rest) false := by
  obtain ⟨sent, haccepted, hsent, hresult⟩ := hfirst
  have hne : sent ≠ first := fun heq ↦ absurd (hresult.mpr heq) (by simp)
  refine ⟨sent, haccepted, hsent.trans (List.prefix_append first rest), ?_⟩
  refine iff_of_false (by simp) (fun heq ↦ hne ?_)
  have hlength : first.length + rest.length ≤ first.length := by
    simpa [heq] using hsent.length_le
  exact List.IsPrefix.eq_of_length_le hsent (by simp [heq])

/-- Steps around a delivery that leave the accepted stream alone do not disturb it. -/
theorem congr {before' after' : Conn σ} (h : Delivery before after packet result)
    (hbefore : before'.accepted = before.accepted) (hafter : after'.accepted = after.accepted) :
    Delivery before' after' packet result := by
  unfold Delivery at h ⊢
  rwa [hbefore, hafter]

end Delivery

/-! ## One buffer -/

section SendAll

variable (api : TlsApi σ)

@[simp]
theorem sendAll_nil (conn : Conn σ) : sendAll api conn [] = (true, conn) := by
  rw [sendAll, if_pos rfl]

/-- The loop stops at the first `tls_write` that accepts nothing. -/
theorem sendAll_of_refused {conn : Conn σ} {buf : List UInt8} (hbuf : buf ≠ [])
    (hrefused : (api.write conn.device buf).1 = 0) :
    sendAll api conn buf = (false, (tlsWrite api conn buf).2) := by
  rw [sendAll, if_neg hbuf]
  exact if_pos hrefused

theorem sendAll_of_accepted {conn : Conn σ} {buf : List UInt8} (hbuf : buf ≠ [])
    (haccepted : (api.write conn.device buf).1 ≠ 0) :
    sendAll api conn buf =
      sendAll api (tlsWrite api conn buf).2 (buf.drop (api.write conn.device buf).1) := by
  rw [sendAll, if_neg hbuf]
  exact if_neg haccepted

/-- A `tls_write` that accepts the whole buffer ends the loop. -/
theorem sendAll_of_whole {conn : Conn σ} {buf : List UInt8}
    (hwhole : (api.write conn.device buf).1 = buf.length) (hbuf : buf ≠ []) :
    sendAll api conn buf = (true, (tlsWrite api conn buf).2) := by
  have hlength : (api.write conn.device buf).1 ≠ 0 := by
    rw [hwhole]
    exact (List.length_pos_iff.mpr hbuf).ne'
  rw [sendAll_of_accepted api hbuf hlength, hwhole, List.drop_length, sendAll_nil]

theorem sendAll_delivery (conn : Conn σ) (buf : List UInt8) :
    Delivery conn (sendAll api conn buf).2 buf (sendAll api conn buf).1 := by
  induction hn : buf.length using Nat.strong_induction_on generalizing conn buf with
  | _ n ih =>
    by_cases hbuf : buf = []
    · subst hbuf
      simpa using Delivery.refl conn
    have hwrite := accepted_tlsWrite api conn buf
    rw [tlsWrite_count] at hwrite
    by_cases hcount : (api.write conn.device buf).1 = 0
    · -- Nothing was accepted, so the packet is torn at its start.
      rw [sendAll_of_refused api hbuf hcount]
      refine ⟨[], by rw [hwrite, hcount, List.take_zero], List.nil_prefix, ?_⟩
      exact iff_of_false (by simp) (fun h ↦ hbuf h.symm)
    · have hshorter : (buf.drop (api.write conn.device buf).1).length < n := by
        have hpositive := List.length_pos_iff.mpr hbuf
        rw [List.length_drop]
        omega
      have hrest := ih _ hshorter (tlsWrite api conn buf).2
        (buf.drop (api.write conn.device buf).1) rfl
      have hfirst : Delivery conn (tlsWrite api conn buf).2
          (buf.take (api.write conn.device buf).1) true :=
        ⟨_, hwrite, List.prefix_rfl, by simp⟩
      rw [sendAll_of_accepted api hbuf hcount]
      simpa only [List.take_append_drop] using hfirst.append hrest

/-- `send_all` leaves the stream as it was exactly when there is nothing to send or the first
`tls_write` accepts nothing. -/
theorem accepted_sendAll_eq_iff (conn : Conn σ) (buf : List UInt8) :
    (sendAll api conn buf).2.accepted = conn.accepted ↔
      buf = [] ∨ (api.write conn.device buf).1 = 0 := by
  by_cases hbuf : buf = []
  · simp [hbuf]
  have hwrite := accepted_tlsWrite api conn buf
  rw [tlsWrite_count] at hwrite
  by_cases hcount : (api.write conn.device buf).1 = 0
  · rw [sendAll_of_refused api hbuf hcount]
    simp [hwrite, hcount]
  · obtain ⟨sent, haccepted, -⟩ := sendAll_delivery api (tlsWrite api conn buf).2
      (buf.drop (api.write conn.device buf).1)
    rw [sendAll_of_accepted api hbuf hcount]
    simp [haccepted, hwrite, hbuf, hcount]

end SendAll

/-! ## A chain of buffers -/

section SendBlocks

variable (api : TlsApi σ)

/-- One `send_all` after the other, up to the first that fails. -/
def sendBlocks : Conn σ → List (List UInt8) → Bool × Conn σ
  | conn, [] => (true, conn)
  | conn, block :: blocks =>
      let sent := sendAll api conn block
      if !sent.1 then (false, sent.2) else sendBlocks sent.2 blocks

theorem sendBlocks_delivery (conn : Conn σ) (blocks : List (List UInt8)) :
    Delivery conn (sendBlocks api conn blocks).2 blocks.flatten
      (sendBlocks api conn blocks).1 := by
  induction blocks generalizing conn with
  | nil => exact Delivery.refl conn
  | cons block blocks ih =>
    have hblock := sendAll_delivery api conn block
    rw [sendBlocks, List.flatten_cons]
    cases hsent : (sendAll api conn block).1 with
    | false =>
      rw [hsent] at hblock
      exact hblock.append_of_failed blocks.flatten
    | true =>
      rw [hsent] at hblock
      exact hblock.append (ih (sendAll api conn block).2)

/-- A chain leaves the stream as it was exactly when its first `tls_write` accepts nothing. -/
theorem accepted_sendBlocks_eq_iff (conn : Conn σ) {block : List UInt8} (hblock : block ≠ [])
    (blocks : List (List UInt8)) :
    (sendBlocks api conn (block :: blocks)).2.accepted = conn.accepted ↔
      (api.write conn.device block).1 = 0 := by
  have hfirst := accepted_sendAll_eq_iff api conn block
  rw [or_iff_right hblock] at hfirst
  rw [← hfirst, sendBlocks]
  obtain ⟨first, hfirstAccepted, -⟩ := sendAll_delivery api conn block
  obtain ⟨rest, hrestAccepted, -⟩ := sendBlocks_delivery api (sendAll api conn block).2 blocks
  cases hsent : (sendAll api conn block).1 with
  | false => exact Iff.rfl
  | true =>
    have hstarted : (sendAll api conn block).2.accepted ≠ conn.accepted := by
      have hwhole := sendAll_delivery api conn block
      rw [hsent] at hwhole
      simpa [hwhole.accepted_eq] using hblock
    refine iff_of_false ?_ hstarted
    simp only [Bool.not_true, Bool.false_eq_true, if_false, hrestAccepted, hfirstAccepted,
      List.append_assoc]
    intro hall
    have hempty : first ++ rest = [] := by simpa using hall
    exact hstarted (by rw [hfirstAccepted, (List.append_eq_nil_iff.mp hempty).1,
      List.append_nil])

/-- `mqtt_publish_qos0` is a chain of four buffers. -/
theorem mqttPublishQos0_eq_sendBlocks (conn : Conn σ) (topic : CString)
    (payload : List UInt8) (retain : Bool) :
    mqttPublishQos0 api conn topic payload retain =
      sendBlocks api conn [publishHeader topic payload retain,
        writeU16 (publishTopicLen topic),
        topic.bytes.take (publishTopicLen topic).toNat, payload] := by
  simp only [mqttPublishQos0, sendBlocks]

end SendBlocks

end PqMqtt.Mqtt
