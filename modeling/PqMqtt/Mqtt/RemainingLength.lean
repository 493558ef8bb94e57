import PqMqtt.Mqtt.Wire

/-!
# The remaining length

`recv_remlen` reads one byte at a time, so what it sees of an inbound stream are the bytes that
successive calls of `recv_byte` deliver, up to the first call that fails.  Its loop ends at a byte
without the continuation bit or after four bytes.
-/

namespace PqMqtt.Mqtt

section Delivery

variable {σ : Type*} (api : TlsApi σ)

/-- The bytes that `count` calls of `recv_byte` deliver, up to the first one that fails. -/
def recvBytes : ℕ → Conn σ → List UInt8 × Conn σ
  | 0, conn => ([], conn)
  | count + 1, conn =>
    let outcome := recvByte api conn
    match outcome.1 with
    | none => ([], outcome.2)
    | some byte =>
      let rest := recvBytes count outcome.2
      (byte :: rest.1, rest.2)

/-- The bytes that a connection still delivers when it is read one byte at a time. -/
def Delivers (conn : Conn σ) (bytes : List UInt8) : Prop :=
  ∀ count, (recvBytes api count conn).1 = bytes.take count

variable {api} {conn : Conn σ}

theorem recvBytes_of_none (h : (recvByte api conn).1 = none) (count : ℕ) :
    recvBytes api (count + 1) conn = ([], (recvByte api conn).2) := by
  simp only [recvBytes, h]

theorem recvBytes_of_some {byte : UInt8} (h : (recvByte api conn).1 = some byte) (count : ℕ) :
    recvBytes api (count + 1) conn =
      (byte :: (recvBytes api count (recvByte api conn).2).1,
        (recvBytes api count (recvByte api conn).2).2) := by
  simp only [recvBytes, h]

theorem length_recvBytes_le (count : ℕ) (conn : Conn σ) :
    (recvBytes api count conn).1.length ≤ count := by
  induction count generalizing conn with
  | zero => rfl
  | succ count ih =>
    cases h : (recvByte api conn).1 with
    | none => simp [recvBytes_of_none h]
    | some byte => simpa [recvBytes_of_some h] using ih _

/-- After some bytes the rest is delivered. -/
theorem Delivers.drop {bytes : List UInt8} (h : Delivers api conn bytes) {count : ℕ}
    (hcount : count ≤ bytes.length) :
    Delivers api (recvBytes api count conn).2 (bytes.drop count) := by
  induction count generalizing conn bytes with
  | zero => exact h
  | succ count ih =>
    obtain ⟨byte, bytes, rfl⟩ : ∃ byte rest, bytes = byte :: rest :=
      List.exists_cons_of_length_pos (by omega)
    have hone := h 1
    cases hbyte : (recvByte api conn).1 with
    | none =>
      rw [recvBytes_of_none hbyte] at hone
      simp at hone
    | some first =>
      have hrest : Delivers api (recvByte api conn).2 bytes := by
        intro more
        have hmore := h (more + 1)
        rw [recvBytes_of_some hbyte, List.take_succ_cons] at hmore
        exact (List.cons.inj hmore).2
      rw [recvBytes_of_some hbyte, List.drop_succ_cons]
      exact ih hrest (Nat.le_of_succ_le_succ hcount)

end Delivery

/-! ## The loop of `recv_remlen` -/

/-- The shifts of `rounds` rounds, the first of which reads group `group`. -/
def shiftsFrom : ℕ → ℕ → List UInt32
  | _, 0 => []
  | group, rounds + 1 => UInt32.ofNat (7 * group) :: shiftsFrom (group + 1) rounds

theorem recvRemlen_eq {σ : Type*} (api : TlsApi σ) (conn : Conn σ) :
    recvRemlen api conn = recvRemlenRounds api (shiftsFrom 0 remainingLengthBytes) 0 conn := rfl

/-- A round adds the next group of seven bits to a value below it. -/
theorem toNat_or_shift {group : ℕ} (hgroup : group ≤ 3) {val : UInt32}
    (hval : val.toNat < 128 ^ group) (b : UInt8) :
    (val ||| ((b &&& 0x7F).toUInt32 <<< UInt32.ofNat (7 * group))).toNat =
      val.toNat + 128 ^ group * (b.toNat % 128) := by
  have hmask : (b &&& 0x7F).toUInt32.toNat = b.toNat % 128 := by
    rw [UInt8.toNat_toUInt32, Base128.toNat_and_0x7F]
  have hpow : (128 : ℕ) ^ group = 2 ^ (7 * group) := by
    rw [pow_mul]
    norm_num
  have hshift : (UInt32.ofNat (7 * group)).toNat % 32 = 7 * group := by
    rw [UInt32.toNat_ofNat_of_lt' (lt_of_le_of_lt (by omega : 7 * group ≤ 21) (by norm_num))]
    omega
  have hsmall : 2 ^ (7 * group) * (b.toNat % 128) < 2 ^ 32 := by
    have hle : 2 ^ (7 * group) ≤ 2 ^ 21 := Nat.pow_le_pow_right (by norm_num) (by omega)
    have hlt : b.toNat % 128 < 128 := Nat.mod_lt _ (by norm_num)
    calc 2 ^ (7 * group) * (b.toNat % 128) ≤ 2 ^ 21 * 127 := Nat.mul_le_mul hle (by omega)
      _ < 2 ^ 32 := by norm_num
  rw [UInt32.toNat_or, UInt32.toNat_shiftLeft, hmask, hshift, Nat.shiftLeft_eq, hpow,
    Nat.mul_comm (b.toNat % 128), Nat.mod_eq_of_lt hsmall, Nat.add_comm, Nat.or_comm]
  exact (Nat.two_pow_add_eq_or_of_lt (hpow ▸ hval) _).symm

theorem or_shift_lt {group : ℕ} (hgroup : group ≤ 3) {val : UInt32}
    (hval : val.toNat < 128 ^ group) (b : UInt8) :
    (val ||| ((b &&& 0x7F).toUInt32 <<< UInt32.ofNat (7 * group))).toNat < 128 ^ (group + 1) := by
  have hlt : b.toNat % 128 ≤ 127 := by omega
  rw [toNat_or_shift hgroup hval, pow_succ]
  calc val.toNat + 128 ^ group * (b.toNat % 128) < 128 ^ group + 128 ^ group * 127 :=
        Nat.add_lt_add_of_lt_of_le hval (Nat.mul_le_mul_left _ hlt)
    _ = 128 ^ group * 128 := by ring

section Loop

variable {σ : Type*} {api : TlsApi σ}

theorem recvRemlenRounds_of_none {conn : Conn σ} (h : (recvByte api conn).1 = none)
    (group rounds : ℕ) (val : UInt32) :
    recvRemlenRounds api (shiftsFrom group (rounds + 1)) val conn =
      (0xFFFFFFFF, (recvByte api conn).2) := by
  simp only [shiftsFrom, recvRemlenRounds, h]

theorem recvRemlenRounds_of_some {conn : Conn σ} {b : UInt8} (h : (recvByte api conn).1 = some b)
    (group rounds : ℕ) (val : UInt32) :
    recvRemlenRounds api (shiftsFrom group (rounds + 1)) val conn =
      if 128 ≤ b.toNat then
        recvRemlenRounds api (shiftsFrom (group + 1) rounds)
          (val ||| ((b &&& 0x7F).toUInt32 <<< UInt32.ofNat (7 * group))) (recvByte api conn).2
      else (val ||| ((b &&& 0x7F).toUInt32 <<< UInt32.ofNat (7 * group)), (recvByte api conn).2)
    := by
  simp only [shiftsFrom, recvRemlenRounds, h, Base128.and_0x80_ne_zero_iff]

/-- A number that arrives is read, and nothing after it. -/
theorem recvRemlenRounds_of_isNumber {rounds group : ℕ} (hgroup : group + rounds ≤ 4)
    {val : UInt32} (hval : val.toNat < 128 ^ group) {conn : Conn σ} {number : List UInt8}
    (hnumber : Base128.IsNumber rounds number)
    (harrives : number <+: (recvBytes api rounds conn).1) :
    (recvRemlenRounds api (shiftsFrom group rounds) val conn).1.toNat =
        val.toNat + 128 ^ group * Base128.value number ∧
      (recvRemlenRounds api (shiftsFrom group rounds) val conn).2 =
        (recvBytes api number.length conn).2 := by
  induction rounds generalizing group val conn number with
  | zero =>
    have hlength := hnumber.length_le
    exact absurd (List.length_eq_zero_iff.mp (Nat.le_zero.mp hlength)) hnumber.ne_nil
  | succ rounds ih =>
    obtain ⟨b, number, rfl⟩ := List.exists_cons_of_ne_nil hnumber.ne_nil
    have hthree : group ≤ 3 := by omega
    cases hbyte : (recvByte api conn).1 with
    | none =>
      rw [recvBytes_of_none hbyte] at harrives
      exact absurd (List.prefix_nil.mp harrives) (List.cons_ne_nil b number)
    | some first =>
      rw [recvBytes_of_some hbyte, List.cons_prefix_cons] at harrives
      obtain ⟨rfl, harrives⟩ := harrives
      rw [List.length_cons, recvBytes_of_some hbyte, recvRemlenRounds_of_some hbyte]
      by_cases h : 128 ≤ b.toNat
      · have hrest := ih (by omega) (or_shift_lt hthree hval b)
          ((Base128.isNumber_cons_of_le h number).mp hnumber) harrives
        rw [if_pos h, hrest.1, hrest.2, toNat_or_shift hthree hval, Base128.value, pow_succ]
        exact ⟨by ring, rfl⟩
      · have hlt : b.toNat < 128 := Nat.lt_of_not_le h
        obtain rfl := (Base128.isNumber_cons_of_lt hlt number).mp hnumber
        rw [if_neg h, toNat_or_shift hthree hval]
        simp [Base128.value, recvBytes]

/-- When every byte has the continuation bit, the loop fails if the bytes run out and otherwise
ends after its last round with the value of what it read. -/
theorem recvRemlenRounds_of_continued {rounds group : ℕ} (hgroup : group + rounds ≤ 4)
    {val : UInt32} (hval : val.toNat < 128 ^ group) {conn : Conn σ}
    (hcontinued : ∀ byte ∈ (recvBytes api rounds conn).1, 128 ≤ byte.toNat) :
    if (recvBytes api rounds conn).1.length = rounds then
      (recvRemlenRounds api (shiftsFrom group rounds) val conn).1.toNat < 128 ^ (group + rounds)
    else (recvRemlenRounds api (shiftsFrom group rounds) val conn).1 = 0xFFFFFFFF := by
  induction rounds generalizing group val conn with
  | zero => simpa [recvBytes, shiftsFrom, recvRemlenRounds] using hval
  | succ rounds ih =>
    cases hbyte : (recvByte api conn).1 with
    | none => simp [recvBytes_of_none hbyte, recvRemlenRounds_of_none hbyte]
    | some b =>
      rw [recvBytes_of_some hbyte, List.forall_mem_cons] at hcontinued
      have hrest := ih (by omega : group + 1 + rounds ≤ 4) (or_shift_lt (by omega) hval b)
        hcontinued.2
      rw [recvBytes_of_some hbyte, recvRemlenRounds_of_some hbyte, if_pos hcontinued.1,
        List.length_cons]
      simpa only [Nat.succ_inj, Nat.add_assoc, Nat.add_comm 1 rounds] using hrest

end Loop

/-! ## What `recv_remlen` accepts -/

section Reader

variable {σ : Type*} {api : TlsApi σ} {conn : Conn σ}

theorem recvRemlen_of_isNumber {number : List UInt8} (hnumber : Base128.IsNumber 4 number)
    (harrives : number <+: (recvBytes api 4 conn).1) :
    (recvRemlen api conn).1.toNat = Base128.value number ∧
      (recvRemlen api conn).2 = (recvBytes api number.length conn).2 := by
  have hread := recvRemlenRounds_of_isNumber (by norm_num : 0 + 4 ≤ 4)
    (by norm_num : (0 : UInt32).toNat < 128 ^ 0) hnumber harrives
  rw [recvRemlen_eq]
  exact ⟨by rw [remainingLengthBytes, hread.1]; simp, hread.2⟩

/-- A value of four groups is not the error value. -/
theorem ne_error_of_lt {val : UInt32} (h : val.toNat < 128 ^ 4) : val ≠ 0xFFFFFFFF := by
  rintro rfl
  exact absurd h (by decide)

theorem recvRemlen_ne_error_of_isNumber {number : List UInt8}
    (hnumber : Base128.IsNumber 4 number) (harrives : number <+: (recvBytes api 4 conn).1) :
    (recvRemlen api conn).1 ≠ 0xFFFFFFFF := by
  apply ne_error_of_lt
  rw [(recvRemlen_of_isNumber hnumber harrives).1]
  calc Base128.value number < 128 ^ number.length := Base128.value_lt number
    _ ≤ 128 ^ 4 := Nat.pow_le_pow_right (by norm_num) hnumber.length_le

/-- Bytes that all have the continuation bit are an error when there are fewer than four of them,
and only then. -/
theorem recvRemlen_of_continued
    (hcontinued : ∀ byte ∈ (recvBytes api 4 conn).1, 128 ≤ byte.toNat) :
    (recvRemlen api conn).1 = 0xFFFFFFFF ↔ (recvBytes api 4 conn).1.length ≠ 4 := by
  have hread := recvRemlenRounds_of_continued (by norm_num : 0 + 4 ≤ 4)
    (by norm_num : (0 : UInt32).toNat < 128 ^ 0) hcontinued
  change if _ then (recvRemlen api conn).1.toNat < 128 ^ 4 else _ at hread
  by_cases hfour : (recvBytes api 4 conn).1.length = 4
  · rw [if_pos hfour] at hread
    exact iff_of_false (ne_error_of_lt hread) (not_not_intro hfour)
  · rw [if_neg hfour] at hread
    exact iff_of_true hread hfour

end Reader

/-- `recv_remlen` returns a value exactly when the inbound bytes start with a number of at most
four bytes, and then it returns that number and consumes exactly its bytes. -/
structure ReadsGrammar {σ : Type*} (api : TlsApi σ) (conn : Conn σ) : Prop where
  accepts : (recvRemlen api conn).1 ≠ 0xFFFFFFFF ↔
    ∃ number, Base128.IsNumber 4 number ∧ number <+: (recvBytes api 4 conn).1
  reads : ∀ number, Base128.IsNumber 4 number → number <+: (recvBytes api 4 conn).1 →
    (recvRemlen api conn).1.toNat = Base128.value number ∧
      (recvRemlen api conn).2 = (recvBytes api number.length conn).2

/-- The grammar is followed on every inbound stream but those whose first four bytes all have the
continuation bit: the loop ends after the fourth byte without looking at that bit. -/
theorem recvRemlen_grammar_iff {σ : Type*} (api : TlsApi σ) (conn : Conn σ) :
    ReadsGrammar api conn ↔
      ¬((recvBytes api 4 conn).1.length = 4 ∧
        ∀ byte ∈ (recvBytes api 4 conn).1, 128 ≤ byte.toNat) := by
  constructor
  · intro hgrammar ⟨hfour, hcontinued⟩
    have hvalue : (recvRemlen api conn).1 ≠ 0xFFFFFFFF := fun herror ↦
      (recvRemlen_of_continued hcontinued).mp herror hfour
    obtain ⟨number, hnumber, harrives⟩ := hgrammar.accepts.mp hvalue
    exact Base128.not_isNumber_of_continued hcontinued harrives hnumber
  · intro hnot
    refine ⟨⟨?_, ?_⟩, fun number ↦ recvRemlen_of_isNumber⟩
    · intro hvalue
      rcases Base128.exists_isNumber_or_continued 4 (recvBytes api 4 conn).1 with
        hnumber | hcontinued
      · exact hnumber
      · rw [List.take_of_length_le (length_recvBytes_le 4 conn)] at hcontinued
        have hfour : (recvBytes api 4 conn).1.length = 4 := by
          by_contra hshort
          exact hvalue ((recvRemlen_of_continued hcontinued).mpr hshort)
        exact absurd ⟨hfour, hcontinued⟩ hnot
    · intro ⟨number, hnumber, harrives⟩
      exact recvRemlen_ne_error_of_isNumber hnumber harrives

/-- Four bytes with the continuation bit are read as 268435455. -/
theorem recvRemlen_accepts_continued_fourth_byte :
    ¬ReadsGrammar scripted (Script.open ⟨[], [0xFF, 0xFF, 0xFF, 0xFF]⟩) := by
  intro hgrammar
  have hvalue : (recvRemlen scripted (Script.open ⟨[], [0xFF, 0xFF, 0xFF, 0xFF]⟩)).1 =
      268435455 := by decide
  obtain ⟨number, hnumber, harrives⟩ := hgrammar.accepts.mp (by rw [hvalue]; decide)
  have harrived : (recvBytes scripted 4 (Script.open ⟨[], [0xFF, 0xFF, 0xFF, 0xFF]⟩)).1 =
      [0xFF, 0xFF, 0xFF, 0xFF] := rfl
  have hbits : ∀ byte ∈ List.replicate 4 (0xFF : UInt8), 128 ≤ byte.toNat := by
    intro byte hmem
    rw [List.eq_of_mem_replicate hmem]
    decide
  rw [harrived] at harrives
  exact Base128.not_isNumber_of_continued hbits harrives hnumber

/-! ## Reading what `encode_remlen` writes -/

/-- The number of bytes of a value, at the boundaries of seven bits. -/
theorem length_encodeRemlen (v : UInt32) :
    (encodeRemlen v).length =
      if v.toNat < 128 then 1 else if v.toNat < 16384 then 2
      else if v.toNat < 2097152 then 3 else 4 := by
  have hzero : (v.toNat / 128 = 0 ↔ v.toNat < 128) ∧
      (v.toNat / 128 / 128 = 0 ↔ v.toNat < 16384) ∧
      (v.toNat / 128 / 128 / 128 = 0 ↔ v.toNat < 2097152) := by omega
  rw [encodeRemlen_eq, remainingLengthBytes]
  simp only [Base128.encode, hzero]
  split_ifs <;> rfl

theorem isNumber_encodeRemlen {v : UInt32} (hv : v.toNat < 2 ^ 28) :
    Base128.IsNumber 4 (encodeRemlen v) ∧ Base128.value (encodeRemlen v) = v.toNat := by
  rw [encodeRemlen_eq]
  exact Base128.isNumber_encode 3 (by simpa using hv)

/-- `encode_remlen` writes the fewest bytes, and `recv_remlen` reads the value back and leaves
exactly what follows, for every value below `2 ^ 28`. -/
theorem recvRemlen_encodeRemlen {σ : Type*} (api : TlsApi σ) (conn : Conn σ) (v : UInt32)
    (rest : List UInt8) (hv : v.toNat < 2 ^ 28)
    (hdelivers : Delivers api conn (encodeRemlen v ++ rest)) :
    ((encodeRemlen v).length =
        if v.toNat < 128 then 1 else if v.toNat < 16384 then 2
        else if v.toNat < 2097152 then 3 else 4) ∧
      (∀ number, Base128.IsNumber 4 number → Base128.value number = v.toNat →
        (encodeRemlen v).length ≤ number.length) ∧
      (recvRemlen api conn).1 = v ∧ Delivers api (recvRemlen api conn).2 rest := by
  obtain ⟨hnumber, hvalue⟩ := isNumber_encodeRemlen hv
  have harrives : encodeRemlen v <+: (recvBytes api 4 conn).1 := by
    rw [hdelivers 4, List.prefix_take_iff]
    exact ⟨List.prefix_append _ _, hnumber.length_le⟩
  obtain ⟨hread, hleft⟩ := recvRemlen_of_isNumber hnumber harrives
  refine ⟨length_encodeRemlen v, ?_, ?_, ?_⟩
  · intro number hother hsame
    rw [encodeRemlen_eq, ← hsame]
    exact Base128.length_encode_le_of_value remainingLengthBytes hother.ne_nil
  · exact UInt32.toNat_inj.mp (hread.trans hvalue)
  · have hlength : (encodeRemlen v).length ≤ (encodeRemlen v ++ rest).length := by simp
    have hdrop := hdelivers.drop hlength
    rwa [List.drop_left, ← hleft] at hdrop

theorem delivers_scripted (conn : Conn Script) :
    Delivers scripted conn conn.device.inbound := by
  intro count
  induction count generalizing conn with
  | zero => rfl
  | succ count ih =>
    obtain ⟨⟨outcomes, inbound⟩, writes⟩ := conn
    cases inbound with
    | nil => exact congrArg Prod.fst (recvBytes_of_none rfl count)
    | cons byte inbound =>
      have hrest := ih ⟨⟨outcomes, inbound⟩, writes⟩
      exact (congrArg Prod.fst (recvBytes_of_some rfl count)).trans
        (congrArg (byte :: ·) hrest)

/-- The length 300 before a packet that follows it. -/
theorem recvRemlen_encodeRemlen_three_hundred :
    (recvRemlen scripted (Script.open ⟨[], encodeRemlen 300 ++ [0x20, 0x02]⟩)).1 = 300 ∧
      Delivers scripted
        (recvRemlen scripted (Script.open ⟨[], encodeRemlen 300 ++ [0x20, 0x02]⟩)).2
        [0x20, 0x02] :=
  (recvRemlen_encodeRemlen scripted _ 300 [0x20, 0x02] (by decide)
    (delivers_scripted (Script.open ⟨[], _⟩))).2.2

end PqMqtt.Mqtt
