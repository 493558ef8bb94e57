import PqMqtt.Mqtt.Frame

/-!
# Reading a CONNACK

What `mqtt_connect_internal` makes of a CONNACK depends on the bytes alone.  On a transport whose
reads fall short only when the inbound bytes are exhausted, it comes to the verdict that it would
come to on a scripted transport which still has the same bytes, and leaves the same bytes unread.
-/

namespace PqMqtt.Mqtt

/-! ## Following a script -/

/-- A view of the inbound side of a transport, valid in some states: the bytes handed out so far,
and whether no byte is left.  A read falls short only when no byte is left, or spoils the view. -/
structure Inlet {σ : Type*} (api : TlsApi σ) where
  valid : σ → Prop
  taken : σ → List UInt8
  exhausted : σ → Prop
  spoiled : σ → Prop
  valid_read : ∀ {device}, valid device → ∀ len, valid (api.read device len).2
  taken_read : ∀ {device}, valid device → ∀ len,
    taken (api.read device len).2 = taken device ++ (api.read device len).1
  exhausted_read : ∀ {device}, valid device → exhausted device → ∀ len,
    (api.read device len).1 = [] ∧ exhausted (api.read device len).2
  spoiled_read : ∀ {device}, spoiled device → ∀ len, spoiled (api.read device len).2
  short_read : ∀ {device}, valid device → ∀ {len}, len ≤ 65535 →
    (api.read device len).1.length < len →
      spoiled (api.read device len).2 ∨ exhausted (api.read device len).2

/-- A part of the client does what it does on a script with the bytes that it takes, and reads are
all that it does to the transport. -/
structure Follows {σ α : Type*} {api : TlsApi σ} (inlet : Inlet api) (part : Conn σ → α × Conn σ)
    (script : Conn Script → α × Conn Script) : Prop where
  keeps : ∀ {P : Conn σ → Prop}, KeptByRead api P → ∀ {conn}, P conn → P (part conn).2
  follows : ∀ {conn : Conn σ}, inlet.valid conn.device →
    inlet.spoiled (part conn).2.device ∨
      ∃ bytes, inlet.taken (part conn).2.device = inlet.taken conn.device ++ bytes ∧
        (inlet.exhausted conn.device → bytes = [] ∧ inlet.exhausted (part conn).2.device) ∧
        ∀ rest, (inlet.exhausted (part conn).2.device → rest = []) →
          script (Script.open ⟨[], bytes ++ rest⟩) = ((part conn).1, Script.open ⟨[], rest⟩)

/-- One part of the client after another. -/
def andThen {σ α β : Type*} (first : Conn σ → α × Conn σ) (next : α → Conn σ → β × Conn σ)
    (conn : Conn σ) : β × Conn σ :=
  next (first conn).1 (first conn).2

namespace Inlet

variable {σ : Type*} {api : TlsApi σ} (inlet : Inlet api)

theorem keptByRead_valid : KeptByRead api fun conn ↦ inlet.valid conn.device :=
  fun _ len h ↦ inlet.valid_read h len

theorem keptByRead_spoiled : KeptByRead api fun conn ↦ inlet.spoiled conn.device :=
  fun _ len h ↦ inlet.spoiled_read h len

end Inlet

namespace Follows

variable {σ α β : Type*} {api : TlsApi σ} {inlet : Inlet api}

theorem pure (value : α) : Follows inlet (fun conn ↦ (value, conn)) fun conn ↦ (value, conn) where
  keeps _ _ h := h
  follows {conn} _ := by
    refine Or.inr ⟨[], (List.append_nil _).symm, fun h ↦ ⟨rfl, h⟩, fun rest _ ↦ ?_⟩
    rw [List.nil_append]

theorem andThen {first : Conn σ → α × Conn σ} {script : Conn Script → α × Conn Script}
    (hfirst : Follows inlet first script) {next : α → Conn σ → β × Conn σ}
    {scriptNext : α → Conn Script → β × Conn Script}
    (hnext : ∀ value, Follows inlet (next value) (scriptNext value)) :
    Follows inlet (andThen first next) (Mqtt.andThen script scriptNext) where
  keeps hread _ h := (hnext _).keeps hread (hfirst.keeps hread h)
  follows {conn} hvalid := by
    rcases hfirst.follows hvalid with hspoiled | ⟨bytes, htaken, hexhausted, hscript⟩
    · exact Or.inl ((hnext _).keeps inlet.keptByRead_spoiled hspoiled)
    rcases (hnext (first conn).1).follows (hfirst.keeps inlet.keptByRead_valid hvalid) with
      hspoiled | ⟨more, hmore, hempty, hrest⟩
    · exact Or.inl hspoiled
    refine Or.inr ⟨bytes ++ more, ?_, ?_, ?_⟩
    · rw [← List.append_assoc, ← htaken]
      exact hmore
    · intro h
      obtain ⟨rfl, hbetween⟩ := hexhausted h
      obtain ⟨rfl, hafter⟩ := hempty hbetween
      exact ⟨rfl, hafter⟩
    · intro rest hleft
      have hbetween : inlet.exhausted (first conn).2.device → more ++ rest = [] := by
        intro h
        obtain ⟨rfl, hafter⟩ := hempty h
        exact hleft hafter
      rw [List.append_assoc, Mqtt.andThen, hscript (more ++ rest) hbetween]
      exact hrest rest hleft

/-- A read follows a script, as long as `tls_read` accepts the length. -/
theorem tlsRead {len : ℕ} (hlen : len ≤ 65535) :
    Follows inlet (fun conn ↦ tlsRead api conn len) fun conn ↦ Mqtt.tlsRead scripted conn len where
  keeps hread _ h := hread _ len h
  follows {conn} hvalid := by
    by_cases hspoiled : inlet.spoiled (api.read conn.device len).2
    · exact Or.inl hspoiled
    refine Or.inr ⟨(api.read conn.device len).1, inlet.taken_read hvalid len, ?_, ?_⟩
    · exact fun h ↦ inlet.exhausted_read hvalid h len
    · intro rest hleft
      have hscript (inbound : List UInt8) : Mqtt.tlsRead scripted (Script.open ⟨[], inbound⟩) len =
          (inbound.take len, Script.open ⟨[], inbound.drop len⟩) := rfl
      have hle := api.read_le conn.device len
      rw [hscript]
      by_cases hshort : (api.read conn.device len).1.length < len
      · obtain rfl := hleft ((inlet.short_read hvalid hlen hshort).resolve_left hspoiled)
        rw [List.append_nil, List.take_of_length_le hle, List.drop_of_length_le hle]
        rfl
      · have hfull : (api.read conn.device len).1.length = len := by omega
        rw [List.take_left' hfull, List.drop_left' hfull]
        rfl

end Follows

section Parts

variable {σ : Type*} (api : TlsApi σ)

/-- The byte that a read for one byte has returned. -/
def oneByte : List UInt8 → Option UInt8
  | [byte] => some byte
  | _ => none

theorem recvByte_eq :
    recvByte api = andThen (fun conn ↦ tlsRead api conn 1) fun got conn ↦ (oneByte got, conn) := by
  funext conn
  unfold recvByte andThen oneByte
  dsimp only
  split <;> simp_all

theorem recvRemlenRounds_cons (shift : UInt32) (shifts : List UInt32) (val : UInt32) :
    recvRemlenRounds api (shift :: shifts) val =
      andThen (recvByte api) fun received conn ↦
        match received with
        | none => (0xFFFFFFFF, conn)
        | some b =>
          if b &&& 0x80 ≠ 0 then
            recvRemlenRounds api shifts (val ||| ((b &&& 0x7F).toUInt32 <<< shift)) conn
          else (val ||| ((b &&& 0x7F).toUInt32 <<< shift), conn) := by
  funext conn
  rfl

theorem drain_zero : (fun conn ↦ drain api conn 0) = fun conn ↦ (true, conn) := by
  funext conn
  rw [drain, if_pos rfl]

theorem drain_of_ne_zero {n : ℕ} (hn : n ≠ 0) :
    (fun conn ↦ drain api conn n) =
      andThen (fun conn ↦ tlsRead api conn (min n 32)) fun got conn ↦
        if got = [] then (false, conn) else drain api conn (n - got.length) := by
  funext conn
  rw [drain, if_neg hn]
  rfl

/-- The rest of the body after its first two bytes. -/
def drainBody (rlen : UInt32) (conn : Conn σ) : Bool × Conn σ :=
  if rlen > 2 then drain api conn (rlen - 2).toNat else (true, conn)

/-- The verdict on a CONNACK whose rest has been drained. -/
def connackResult (code : UInt8) (drained : Bool) : Except ℤ Unit :=
  if !drained then .error errMqttPacket else if code ≠ 0x00 then .error code.toNat else .ok ()

theorem readConnackBody_eq (rlen : UInt32) :
    (fun conn ↦ readConnackBody api conn rlen) =
      andThen (fun conn ↦ tlsRead api conn 2) fun got conn ↦
        match got with
        | [_, code] => andThen (drainBody api rlen)
            (fun drained conn ↦ (connackResult code drained, conn)) conn
        | _ => (.error errMqttPacket, conn) := by
  funext conn
  unfold readConnackBody andThen drainBody connackResult
  dsimp only
  generalize tlsRead api conn 2 = body
  obtain ⟨got, next⟩ := body
  match got with
  | [] => rfl
  | [_] => rfl
  | [_, code] =>
    dsimp only
    split_ifs <;> rfl
  | _ :: _ :: _ :: _ => rfl

theorem readConnack_eq :
    readConnack api =
      andThen (recvByte api) fun received conn ↦
        if received ≠ some pktConnack then (.error errMqttPacket, conn)
        else andThen (recvRemlen api) (fun rlen conn ↦
          if rlen = 0xFFFFFFFF ∨ rlen < 2 then (.error errMqttPacket, conn)
          else readConnackBody api conn rlen) conn := by
  funext conn
  rfl

theorem connackResult_ne_error_zero (code : UInt8) (drained : Bool) :
    connackResult code drained ≠ .error 0 := by
  unfold connackResult
  split_ifs with hdrained hcode
  · simp [errMqttPacket]
  · intro heq
    have hzero : (code.toNat : ℤ) = 0 := Except.error.inj heq
    exact hcode (UInt8.toNat_inj.mp (Int.natCast_eq_zero.mp hzero))
  · simp

/-- A CONNACK that is not accepted is refused with a code other than zero. -/
theorem readConnack_ne_error_zero (conn : Conn σ) : (readConnack api conn).1 ≠ .error 0 := by
  have hpacket : (Except.error errMqttPacket : Except ℤ Unit) ≠ .error 0 := by
    simp [errMqttPacket]
  have hbody (conn : Conn σ) (rlen : UInt32) :
      (readConnackBody api conn rlen).1 ≠ .error 0 := by
    rw [show readConnackBody api conn rlen = _ from congrFun (readConnackBody_eq api rlen) conn]
    unfold andThen
    dsimp only
    split
    · exact connackResult_ne_error_zero _ _
    · exact hpacket
  unfold readConnack
  dsimp only
  split_ifs
  · exact hpacket
  · exact hpacket
  · exact hbody _ _

end Parts

section Follow

variable {σ : Type*} {api : TlsApi σ} (inlet : Inlet api)

theorem follows_recvByte : Follows inlet (recvByte api) (recvByte scripted) := by
  rw [recvByte_eq, recvByte_eq]
  exact (Follows.tlsRead (by norm_num)).andThen fun got ↦ Follows.pure (oneByte got)

theorem follows_recvRemlenRounds (shifts : List UInt32) (val : UInt32) :
    Follows inlet (recvRemlenRounds api shifts val) (recvRemlenRounds scripted shifts val) := by
  induction shifts generalizing val with
  | nil => exact Follows.pure val
  | cons shift shifts ih =>
    rw [recvRemlenRounds_cons, recvRemlenRounds_cons]
    refine (follows_recvByte inlet).andThen fun received ↦ ?_
    cases received with
    | none => exact Follows.pure 0xFFFFFFFF
    | some b =>
      by_cases hmore : b &&& 0x80 ≠ 0
      · simpa only [if_pos hmore] using ih _
      · simpa only [if_neg hmore] using Follows.pure _

theorem follows_recvRemlen : Follows inlet (recvRemlen api) (recvRemlen scripted) :=
  follows_recvRemlenRounds inlet [0, 7, 14, 21] 0

theorem follows_drain (n : ℕ) :
    Follows inlet (fun conn ↦ drain api conn n) fun conn ↦ drain scripted conn n := by
  induction n using Nat.strong_induction_on with
  | _ n ih =>
    by_cases hn : n = 0
    · rw [hn, drain_zero, drain_zero]
      exact Follows.pure true
    rw [drain_of_ne_zero api hn, drain_of_ne_zero scripted hn]
    refine (Follows.tlsRead (by omega)).andThen fun got ↦ ?_
    by_cases hgot : got = []
    · simpa only [if_pos hgot] using Follows.pure false
    · have hlength := List.length_pos_iff.mpr hgot
      simpa only [if_neg hgot] using ih (n - got.length) (by omega)

theorem follows_drainBody (rlen : UInt32) :
    Follows inlet (drainBody api rlen) (drainBody scripted rlen) := by
  unfold drainBody
  by_cases hlong : rlen > 2
  · simpa only [if_pos hlong] using follows_drain inlet (rlen - 2).toNat
  · simpa only [if_neg hlong] using Follows.pure true

theorem follows_readConnackBody (rlen : UInt32) :
    Follows inlet (fun conn ↦ readConnackBody api conn rlen)
      fun conn ↦ readConnackBody scripted conn rlen := by
  rw [readConnackBody_eq, readConnackBody_eq]
  refine (Follows.tlsRead (by norm_num)).andThen fun got ↦ ?_
  match got with
  | [_, code] =>
    exact (follows_drainBody inlet rlen).andThen fun drained ↦
      Follows.pure (connackResult code drained)
  | [] => exact Follows.pure _
  | [_] => exact Follows.pure _
  | _ :: _ :: _ :: _ => exact Follows.pure _

/-- The client reads a CONNACK as it would on a script. -/
theorem follows_readConnack : Follows inlet (readConnack api) (readConnack scripted) := by
  rw [readConnack_eq, readConnack_eq]
  refine (follows_recvByte inlet).andThen fun received ↦ ?_
  by_cases htype : received ≠ some pktConnack
  · simpa only [if_pos htype] using Follows.pure _
  simp only [if_neg htype]
  refine (follows_recvRemlen inlet).andThen fun rlen ↦ ?_
  by_cases hbad : rlen = 0xFFFFFFFF ∨ rlen < 2
  · simpa only [if_pos hbad] using Follows.pure _
  · simpa only [if_neg hbad] using follows_readConnackBody inlet rlen

end Follow

/-! ## What a script says -/

/-- The remaining length at the front of some bytes as `recv_remlen` reads it, and the bytes after
it. -/
def remlenOf (bytes : List UInt8) : UInt32 × List UInt8 :=
  let read := recvRemlen scripted (Script.open ⟨[], bytes⟩)
  (read.1, read.2.device.inbound)

/-- The stream starts with a whole CONNACK of `count` bytes, whose return code is `code`. -/
structure WholeConnack (stream : List UInt8) (count : ℕ) (code : UInt8) : Prop where
  type_eq : stream.head? = some pktConnack
  valid : (remlenOf stream.tail).1 ≠ 0xFFFFFFFF
  two_le : 2 ≤ (remlenOf stream.tail).1
  code_eq : (remlenOf stream.tail).2[1]? = some code
  body : (remlenOf stream.tail).1.toNat ≤ (remlenOf stream.tail).2.length
  count_eq : count = 1 + (stream.tail.length - (remlenOf stream.tail).2.length) +
    (remlenOf stream.tail).1.toNat

theorem recvRemlenRounds_scripted_cons (shift : UInt32) (shifts : List UInt32) (val : UInt32)
    (b : UInt8) (bytes : List UInt8) :
    recvRemlenRounds scripted (shift :: shifts) val (Script.open ⟨[], b :: bytes⟩) =
      if b &&& 0x80 ≠ 0 then
        recvRemlenRounds scripted shifts (val ||| ((b &&& 0x7F).toUInt32 <<< shift))
          (Script.open ⟨[], bytes⟩)
      else (val ||| ((b &&& 0x7F).toUInt32 <<< shift), Script.open ⟨[], bytes⟩) := rfl

theorem exists_cons_of_take_eq {n : ℕ} {b : UInt8} {bytes others : List UInt8}
    (h : others.take (n + 1) = (b :: bytes).take (n + 1)) :
    ∃ rest, others = b :: rest ∧ rest.take n = bytes.take n := by
  cases others with
  | nil => simp at h
  | cons first rest =>
    rw [List.take_succ_cons, List.take_succ_cons] at h
    obtain ⟨rfl, hrest⟩ := List.cons.inj h
    exact ⟨rest, rfl, hrest⟩

/-- `recv_remlen` takes at most as many bytes as it has rounds, and a value that it returns depends
on these bytes alone. -/
theorem recvRemlenRounds_scripted (shifts : List UInt32) (val : UInt32) (bytes : List UInt8) :
    ∃ result, ∃ count ≤ shifts.length, count ≤ bytes.length ∧
      recvRemlenRounds scripted shifts val (Script.open ⟨[], bytes⟩) =
        (result, Script.open ⟨[], bytes.drop count⟩) ∧
      (result ≠ 0xFFFFFFFF → ∀ others, others.take count = bytes.take count →
        recvRemlenRounds scripted shifts val (Script.open ⟨[], others⟩) =
          (result, Script.open ⟨[], others.drop count⟩)) := by
  induction shifts generalizing val bytes with
  | nil => exact ⟨val, 0, le_rfl, Nat.zero_le _, rfl, fun _ others _ ↦ rfl⟩
  | cons shift shifts ih =>
    cases bytes with
    | nil => exact ⟨0xFFFFFFFF, 0, Nat.zero_le _, le_rfl, rfl, fun hvalid ↦ absurd rfl hvalid⟩
    | cons b bytes =>
      by_cases hmore : b &&& 0x80 ≠ 0
      · obtain ⟨result, count, hcount, hlength, hread, hsame⟩ :=
          ih (val ||| ((b &&& 0x7F).toUInt32 <<< shift)) bytes
        refine ⟨result, count + 1, Nat.succ_le_succ hcount, Nat.succ_le_succ hlength, ?_, ?_⟩
        · rw [recvRemlenRounds_scripted_cons, if_pos hmore, hread, List.drop_succ_cons]
        · intro hvalid others hothers
          obtain ⟨rest, rfl, hrest⟩ := exists_cons_of_take_eq hothers
          rw [recvRemlenRounds_scripted_cons, if_pos hmore, hsame hvalid rest hrest,
            List.drop_succ_cons]
      · refine ⟨val ||| ((b &&& 0x7F).toUInt32 <<< shift), 1, Nat.succ_le_succ (Nat.zero_le _),
          Nat.succ_le_succ (Nat.zero_le _), ?_, ?_⟩
        · rw [recvRemlenRounds_scripted_cons, if_neg hmore]
          rfl
        · intro _ others hothers
          obtain ⟨rest, rfl, -⟩ := exists_cons_of_take_eq hothers
          rw [recvRemlenRounds_scripted_cons, if_neg hmore]
          rfl

/-- The bytes of a remaining length. -/
theorem remlenOf_spec (bytes : List UInt8) :
    ∃ count ≤ 4, count ≤ bytes.length ∧ (remlenOf bytes).2 = bytes.drop count ∧
      recvRemlen scripted (Script.open ⟨[], bytes⟩) =
        ((remlenOf bytes).1, Script.open ⟨[], bytes.drop count⟩) ∧
      ((remlenOf bytes).1 ≠ 0xFFFFFFFF → ∀ others, others.take count = bytes.take count →
        (remlenOf others).1 = (remlenOf bytes).1 ∧ (remlenOf others).2 = others.drop count) := by
  obtain ⟨result, count, hcount, hlength, hread, hsame⟩ :=
    recvRemlenRounds_scripted [0, 7, 14, 21] 0 bytes
  have hremlen {others : List UInt8}
      (h : recvRemlen scripted (Script.open ⟨[], others⟩) =
        (result, Script.open ⟨[], others.drop count⟩)) :
      (remlenOf others).1 = result ∧ (remlenOf others).2 = others.drop count := by
    unfold remlenOf
    rw [h]
    exact ⟨rfl, rfl⟩
  obtain ⟨hresult, hrest⟩ := hremlen hread
  refine ⟨count, hcount, hlength, hrest, hresult ▸ hread, fun hvalid others hothers ↦ ?_⟩
  rw [hresult] at hvalid ⊢
  exact hremlen (hsame hvalid others hothers)

theorem drain_scripted (n : ℕ) (bytes : List UInt8) :
    drain scripted (Script.open ⟨[], bytes⟩) n =
      (decide (n ≤ bytes.length), Script.open ⟨[], bytes.drop n⟩) := by
  induction n using Nat.strong_induction_on generalizing bytes with
  | _ n ih =>
    by_cases hn : n = 0
    · rw [drain, if_pos hn, hn]
      simp
    have hread : tlsRead scripted (Script.open ⟨[], bytes⟩) (min n 32) =
        (bytes.take (min n 32), Script.open ⟨[], bytes.drop (min n 32)⟩) := rfl
    rw [drain, if_neg hn, hread]
    dsimp only
    by_cases hempty : bytes = []
    · rw [hempty]
      simp [hn]
    have hlength := List.length_pos_iff.mpr hempty
    have htaken : (bytes.take (min n 32)).length = min (min n 32) bytes.length := List.length_take
    have hpos : bytes.take (min n 32) ≠ [] := List.length_pos_iff.mp (by omega)
    rw [if_neg hpos, ih _ (by omega), List.drop_drop, List.length_drop, htaken]
    by_cases henough : n ≤ bytes.length
    · have hrest : n - min (min n 32) bytes.length = n - min n 32 := by omega
      rw [hrest, decide_eq_true henough, decide_eq_true (by omega), Nat.add_sub_cancel' (by omega)]
    · rw [decide_eq_false henough, decide_eq_false (by omega), List.drop_of_length_le (by omega),
        List.drop_of_length_le (by omega)]

theorem toNat_sub_two {rlen : UInt32} (h : 2 ≤ rlen) : (rlen - 2).toNat = rlen.toNat - 2 :=
  UInt32.toNat_sub_of_le rlen 2 h

theorem drainBody_scripted {rlen : UInt32} (h : 2 ≤ rlen) (bytes : List UInt8) :
    drainBody scripted rlen (Script.open ⟨[], bytes⟩) =
      (decide (rlen.toNat - 2 ≤ bytes.length), Script.open ⟨[], bytes.drop (rlen.toNat - 2)⟩) := by
  unfold drainBody
  by_cases hlong : rlen > 2
  · rw [if_pos hlong, drain_scripted, toNat_sub_two h]
  · have hexact : rlen.toNat - 2 = 0 := by
      have hnot : ¬2 < rlen.toNat := fun hlt ↦ hlong (UInt32.lt_iff_toNat_lt.mpr hlt)
      omega
    rw [if_neg hlong, hexact]
    simp

/-- The verdict on a script whose body has at least two bytes. -/
theorem readConnackBody_scripted {rlen : UInt32} (h : 2 ≤ rlen) (first code : UInt8)
    (bytes : List UInt8) :
    readConnackBody scripted (Script.open ⟨[], first :: code :: bytes⟩) rlen =
      (connackResult code (decide (rlen.toNat ≤ (first :: code :: bytes).length)),
        Script.open ⟨[], (first :: code :: bytes).drop rlen.toNat⟩) := by
  have hle : 2 ≤ rlen.toNat := UInt32.le_iff_toNat_le.mp h
  have hbody := congrFun (readConnackBody_eq scripted rlen)
    (Script.open ⟨[], first :: code :: bytes⟩)
  have hread : tlsRead scripted (Script.open ⟨[], first :: code :: bytes⟩) 2 =
      ([first, code], Script.open ⟨[], bytes⟩) := rfl
  obtain ⟨more, hmore⟩ := Nat.exists_eq_add_of_le' hle
  have hdrain := drainBody_scripted h bytes
  rw [hmore, Nat.add_sub_cancel] at hdrain
  refine hbody.trans ?_
  rw [andThen, hread]
  dsimp only
  rw [andThen, hdrain, hmore]
  simp

theorem readConnackBody_scripted_short {bytes : List UInt8} (h : bytes.length < 2) (rlen : UInt32) :
    (readConnackBody scripted (Script.open ⟨[], bytes⟩) rlen).1 = .error errMqttPacket := by
  match bytes with
  | [] => rfl
  | [_] => rfl
  | _ :: _ :: _ => exact absurd h (by simp)

theorem readConnack_scripted_cons (bytes : List UInt8) :
    readConnack scripted (Script.open ⟨[], pktConnack :: bytes⟩) =
      if (remlenOf bytes).1 = 0xFFFFFFFF ∨ (remlenOf bytes).1 < 2 then
        (.error errMqttPacket, Script.open ⟨[], (remlenOf bytes).2⟩)
      else readConnackBody scripted (Script.open ⟨[], (remlenOf bytes).2⟩) (remlenOf bytes).1 := by
  obtain ⟨count, -, -, hrest, hread, -⟩ := remlenOf_spec bytes
  have htype : recvByte scripted (Script.open ⟨[], pktConnack :: bytes⟩) =
      (some pktConnack, Script.open ⟨[], bytes⟩) := rfl
  unfold readConnack
  rw [htype]
  dsimp only
  rw [if_neg (not_not.mpr rfl), hread, hrest]

namespace WholeConnack

variable {stream : List UInt8} {count : ℕ} {code : UInt8}

theorem exists_tail (h : WholeConnack stream count code) :
    ∃ bytes, stream = pktConnack :: bytes := by
  cases stream with
  | nil => exact absurd h.type_eq (by simp)
  | cons first bytes => exact ⟨bytes, congrArg (· :: bytes) (Option.some.inj h.type_eq)⟩

/-- The bytes of the packet: its type, `lengthBytes` bytes of remaining length, and the body. -/
theorem exists_lengthBytes (h : WholeConnack stream count code) :
    ∃ lengthBytes ≤ 4, (remlenOf stream.tail).2 = stream.tail.drop lengthBytes ∧
      (∀ others, others.take lengthBytes = stream.tail.take lengthBytes →
        (remlenOf others).1 = (remlenOf stream.tail).1 ∧
          (remlenOf others).2 = others.drop lengthBytes) ∧
      count = 1 + lengthBytes + (remlenOf stream.tail).1.toNat ∧ count ≤ stream.length := by
  obtain ⟨bytes, rfl⟩ := h.exists_tail
  obtain ⟨lengthBytes, hfour, hlength, hrest, -, hsame⟩ := remlenOf_spec bytes
  have hcount := h.count_eq
  have hbody := h.body
  rw [List.tail_cons, hrest, List.length_drop] at hcount hbody
  refine ⟨lengthBytes, hfour, hrest, hsame h.valid, ?_, ?_⟩
  · rw [List.tail_cons]
    omega
  · rw [List.length_cons]
    omega

theorem count_le (h : WholeConnack stream count code) : count ≤ stream.length := by
  obtain ⟨lengthBytes, -, -, -, -, hle⟩ := h.exists_lengthBytes
  exact hle

/-- A stream that starts like a whole CONNACK and is long enough starts with a whole CONNACK. -/
theorem of_take (h : WholeConnack stream count code) {other : List UInt8}
    (hsame : other.take (min 7 count) = stream.take (min 7 count))
    (hlength : count ≤ other.length) :
    WholeConnack other count code := by
  obtain ⟨bytes, rfl⟩ := h.exists_tail
  obtain ⟨lengthBytes, hfour, hdrop, hremlen, hcount, -⟩ := h.exists_lengthBytes
  have htwo : 2 ≤ (remlenOf bytes).1.toNat := UInt32.le_iff_toNat_le.mp h.two_le
  have hcode := h.code_eq
  rw [List.tail_cons] at hdrop hremlen hcount hcode
  obtain ⟨header, hheader⟩ : ∃ header, min 7 count = header + 1 :=
    Nat.exists_eq_succ_of_ne_zero (by omega)
  rw [hheader] at hsame
  obtain ⟨others, rfl, hothers⟩ := exists_cons_of_take_eq hsame
  have hshort : others.take lengthBytes = bytes.take lengthBytes := by
    have htake := congrArg (List.take lengthBytes) hothers
    rwa [List.take_take, List.take_take, Nat.min_eq_left (by omega)] at htake
  obtain ⟨hvalue, hrest⟩ := hremlen others hshort
  rw [List.length_cons] at hlength
  refine ⟨rfl, ?_, ?_, ?_, ?_, ?_⟩ <;> simp only [List.tail_cons, hvalue, hrest]
  · exact h.valid
  · exact h.two_le
  · rw [hdrop, List.getElem?_drop] at hcode
    have hat : (others.take header)[lengthBytes + 1]? = (bytes.take header)[lengthBytes + 1]? := by
      rw [hothers]
    rw [List.getElem?_take_of_lt (by omega), List.getElem?_take_of_lt (by omega)] at hat
    rw [List.getElem?_drop, hat, hcode]
  · rw [List.length_drop]
    omega
  · rw [List.length_drop, hcount]
    omega

/-- The client accepts or refuses a whole CONNACK by its return code, and leaves what follows. -/
theorem readConnack_eq (h : WholeConnack stream count code) :
    readConnack scripted (Script.open ⟨[], stream⟩) =
      (connackResult code true, Script.open ⟨[], stream.drop count⟩) := by
  obtain ⟨bytes, rfl⟩ := h.exists_tail
  obtain ⟨lengthBytes, -, hdrop, -, hcount, -⟩ := h.exists_lengthBytes
  have hvalid := h.valid
  have htwo := h.two_le
  have hcode := h.code_eq
  have hbody := h.body
  rw [List.tail_cons] at hdrop hcount hvalid htwo hcode hbody
  obtain ⟨first, second, rest, hrest⟩ : ∃ first second rest,
      (remlenOf bytes).2 = first :: second :: rest := by
    match hlist : (remlenOf bytes).2 with
    | [] => simp [hlist] at hcode
    | [_] => simp [hlist] at hcode
    | first :: second :: rest => exact ⟨first, second, rest, rfl⟩
  rw [hrest] at hcode hbody
  obtain rfl : second = code := by simpa using hcode
  have hleft : (first :: second :: rest).drop (remlenOf bytes).1.toNat =
      (pktConnack :: bytes).drop count := by
    calc
      (first :: second :: rest).drop (remlenOf bytes).1.toNat
          = bytes.drop (lengthBytes + (remlenOf bytes).1.toNat) := by
        rw [← hrest, hdrop, List.drop_drop]
      _ = (pktConnack :: bytes).drop (lengthBytes + (remlenOf bytes).1.toNat + 1) :=
        List.drop_succ_cons.symm
      _ = (pktConnack :: bytes).drop count := by
        rw [hcount, Nat.add_assoc 1, Nat.add_comm 1]
  rw [readConnack_scripted_cons, if_neg (not_or.mpr ⟨hvalid, UInt32.not_lt.mpr htwo⟩), hrest,
    readConnackBody_scripted htwo, decide_eq_true hbody, hleft]

end WholeConnack

theorem readConnack_of_not_wholeConnack {stream : List UInt8}
    (h : ∀ count code, ¬WholeConnack stream count code) :
    (readConnack scripted (Script.open ⟨[], stream⟩)).1 = .error errMqttPacket := by
  cases stream with
  | nil => rfl
  | cons first bytes =>
    by_cases htype : first = pktConnack
    · rw [htype] at h ⊢
      rw [readConnack_scripted_cons]
      by_cases hbad : (remlenOf bytes).1 = 0xFFFFFFFF ∨ (remlenOf bytes).1 < 2
      · rw [if_pos hbad]
      rw [if_neg hbad]
      obtain ⟨hvalid, hnot⟩ := not_or.mp hbad
      have htwo : 2 ≤ (remlenOf bytes).1 := UInt32.not_lt.mp hnot
      match hlist : (remlenOf bytes).2 with
      | [] => exact readConnackBody_scripted_short (by simp) _
      | [_] => exact readConnackBody_scripted_short (by simp) _
      | first :: code :: rest =>
        have hcut : ¬(remlenOf bytes).1.toNat ≤ (first :: code :: rest).length := by
          intro hbody
          exact h _ code ⟨rfl, hvalid, htwo, by rw [List.tail_cons, hlist]; rfl,
            by rw [List.tail_cons, hlist]; exact hbody, rfl⟩
        rw [readConnackBody_scripted htwo, decide_eq_false hcut]
        rfl
    · have hbyte : recvByte scripted (Script.open ⟨[], first :: bytes⟩) =
          (some first, Script.open ⟨[], bytes⟩) := rfl
      unfold readConnack
      rw [hbyte]
      dsimp only
      rw [if_pos (fun heq ↦ htype (Option.some.inj heq))]

theorem connackResult_true_eq_ok_iff (code : UInt8) :
    connackResult code true = .ok () ↔ code = 0x00 := by
  unfold connackResult
  by_cases hcode : code = 0x00 <;> simp [hcode]

/-- The streams that the client accepts. -/
theorem readConnack_scripted_ok_iff (stream : List UInt8) :
    (readConnack scripted (Script.open ⟨[], stream⟩)).1 = .ok () ↔
      ∃ count, WholeConnack stream count 0x00 := by
  constructor
  · intro haccepted
    by_contra hnone
    have hnot : ∀ count code, ¬WholeConnack stream count code := by
      intro count code hwhole
      rw [hwhole.readConnack_eq] at haccepted
      rw [(connackResult_true_eq_ok_iff code).mp haccepted] at hwhole
      exact hnone ⟨count, hwhole⟩
    rw [readConnack_of_not_wholeConnack hnot] at haccepted
    simp at haccepted
  · intro ⟨count, hwhole⟩
    rw [hwhole.readConnack_eq]
    exact (connackResult_true_eq_ok_iff 0x00).mpr rfl

end PqMqtt.Mqtt
