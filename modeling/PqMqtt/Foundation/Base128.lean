import Mathlib.Tactic

/-!
# Numbers in groups of seven bits

A natural number is written least significant group first; every byte but the last has its
top bit set.  A writer stops after a fixed number of bytes, and a reader refuses a number that
does not end within as many.  Reading undoes writing for every number the bytes can hold, and
leaves what follows untouched.
-/

namespace PqMqtt.Base128

/-- The first `rounds` bytes of a number. -/
def encode : ℕ → ℕ → List UInt8
  | 0, _ => []
  | rounds + 1, value =>
      if value / 128 = 0 then [UInt8.ofNat (value % 128)]
      else UInt8.ofNat (value % 128 + 128) :: encode rounds (value / 128)

/-- The number at the front of the bytes, at most `rounds` bytes long, and what follows it. -/
def decode : ℕ → List UInt8 → Option (ℕ × List UInt8)
  | 0, _ => none
  | _ + 1, [] => none
  | rounds + 1, byte :: rest =>
      if byte.toNat < 128 then some (byte.toNat, rest)
      else (decode rounds rest).map fun (value, unread) ↦
        (byte.toNat - 128 + 128 * value, unread)

theorem toNat_ofNat {n : ℕ} (h : n < 256) : (UInt8.ofNat n).toNat = n :=
  UInt8.toNat_ofNat_of_lt h

/-- The top bit tells the bytes from 128 on. -/
theorem and_0x80_ne_zero_iff (b : UInt8) : b &&& 0x80 ≠ 0 ↔ 128 ≤ b.toNat := by
  have hall : ∀ n : Fin 256, (UInt8.ofNat n.val &&& 0x80 ≠ 0) ↔ 128 ≤ n.val := by
    decide +kernel
  have hbyte := hall ⟨b.toNat, b.toNat_lt⟩
  rwa [UInt8.ofNat_toNat] at hbyte

theorem toNat_and_0x7F (b : UInt8) : (b &&& 0x7F).toNat = b.toNat % 128 := by
  rw [UInt8.toNat_and]
  exact Nat.and_two_pow_sub_one_eq_mod b.toNat 7

/-- A number below 128 is its own single byte. -/
theorem encode_of_lt (rounds : ℕ) {value : ℕ} (h : value < 128) :
    encode (rounds + 1) value = [UInt8.ofNat value] := by
  rw [encode, if_pos (Nat.div_eq_of_lt h), Nat.mod_eq_of_lt h]

theorem encode_of_le (rounds : ℕ) {value : ℕ} (h : 128 ≤ value) :
    encode (rounds + 1) value =
      UInt8.ofNat (value % 128 + 128) :: encode rounds (value / 128) := by
  have hpositive : 0 < value / 128 := Nat.div_pos h (by norm_num)
  rw [encode, if_neg hpositive.ne']

theorem length_encode_le (rounds value : ℕ) : (encode rounds value).length ≤ rounds := by
  induction rounds generalizing value with
  | zero => simp [encode]
  | succ rounds ih =>
    by_cases h : value < 128
    · simp [encode_of_lt rounds h]
    · simpa [encode_of_le rounds (Nat.le_of_not_lt h)] using ih (value / 128)

theorem decode_cons_of_lt (rounds : ℕ) {byte : UInt8} (h : byte.toNat < 128)
    (rest : List UInt8) :
    decode (rounds + 1) (byte :: rest) = some (byte.toNat, rest) := by
  rw [decode, if_pos h]

theorem decode_cons_of_le (rounds : ℕ) {byte : UInt8} (h : 128 ≤ byte.toNat)
    (rest : List UInt8) :
    decode (rounds + 1) (byte :: rest) =
      (decode rounds rest).map fun (value, unread) ↦
        (byte.toNat - 128 + 128 * value, unread) := by
  rw [decode, if_neg (Nat.not_lt.mpr h)]

/-- Reading undoes writing for every number that `rounds + 1` bytes can hold. -/
theorem decode_encode (rounds : ℕ) {value : ℕ} (hvalue : value < 128 ^ (rounds + 1))
    (rest : List UInt8) :
    decode (rounds + 1) (encode (rounds + 1) value ++ rest) = some (value, rest) := by
  induction rounds generalizing value with
  | zero =>
    have hbyte : (UInt8.ofNat value).toNat = value := toNat_ofNat (by omega)
    rw [encode_of_lt 0 hvalue, List.singleton_append, decode_cons_of_lt 0 (by rwa [hbyte]),
      hbyte]
  | succ rounds ih =>
    by_cases h : value < 128
    · have hbyte : (UInt8.ofNat value).toNat = value := toNat_ofNat (by omega)
      rw [encode_of_lt _ h, List.singleton_append, decode_cons_of_lt _ (by rwa [hbyte]), hbyte]
    · have hle : 128 ≤ value := Nat.le_of_not_lt h
      have hbyte : (UInt8.ofNat (value % 128 + 128)).toNat = value % 128 + 128 :=
        toNat_ofNat (by omega)
      have hquotient : value / 128 < 128 ^ (rounds + 1) := by
        rw [pow_succ, Nat.mul_comm] at hvalue
        exact Nat.div_lt_of_lt_mul hvalue
      have hwhole : value % 128 + 128 * (value / 128) = value := Nat.mod_add_div value 128
      rw [encode_of_le _ hle, List.cons_append,
        decode_cons_of_le _ (by rw [hbyte]; exact Nat.le_add_left 128 _), ih hquotient]
      simp only [Option.map_some, hbyte, Nat.add_sub_cancel, hwhole]

/-! ## The grammar -/

/-- The number that bytes denote, whatever their top bits. -/
def value : List UInt8 → ℕ
  | [] => 0
  | byte :: rest => byte.toNat % 128 + 128 * value rest

/-- A number of at most `rounds` bytes: the top bit is set in all bytes but the last. -/
structure IsNumber (rounds : ℕ) (bytes : List UInt8) : Prop where
  ne_nil : bytes ≠ []
  length_le : bytes.length ≤ rounds
  continued : ∀ byte ∈ bytes.dropLast, 128 ≤ byte.toNat
  ended : ∀ byte ∈ bytes.getLast?, byte.toNat < 128

theorem isNumber_cons_of_lt {rounds : ℕ} {byte : UInt8} (h : byte.toNat < 128)
    (bytes : List UInt8) : IsNumber (rounds + 1) (byte :: bytes) ↔ bytes = [] := by
  constructor
  · intro hnumber
    by_contra hne
    have hcontinued := hnumber.continued byte (by
      rw [List.dropLast_cons_of_ne_nil hne]
      exact List.mem_cons_self)
    omega
  · rintro rfl
    exact ⟨List.cons_ne_nil _ _, by simp, by simp, by simpa using h⟩

theorem isNumber_cons_of_le {rounds : ℕ} {byte : UInt8} (h : 128 ≤ byte.toNat)
    (bytes : List UInt8) : IsNumber (rounds + 1) (byte :: bytes) ↔ IsNumber rounds bytes := by
  rcases eq_or_ne bytes [] with rfl | hne
  · constructor
    · intro hnumber
      have hended := hnumber.ended byte rfl
      omega
    · intro hnumber
      exact absurd rfl hnumber.ne_nil
  have hlast : (byte :: bytes).getLast? = bytes.getLast? := by
    rw [List.getLast?_cons_of_ne_nil hne]
  have hdrop : (byte :: bytes).dropLast = byte :: bytes.dropLast :=
    List.dropLast_cons_of_ne_nil hne
  constructor
  · intro hnumber
    refine ⟨hne, Nat.le_of_succ_le_succ hnumber.length_le, ?_, ?_⟩
    · intro other hother
      exact hnumber.continued other (hdrop ▸ List.mem_cons_of_mem byte hother)
    · exact hlast ▸ hnumber.ended
  · intro hnumber
    refine ⟨List.cons_ne_nil _ _, Nat.succ_le_succ hnumber.length_le, ?_, hlast ▸ hnumber.ended⟩
    rw [hdrop, List.forall_mem_cons]
    exact ⟨h, hnumber.continued⟩

/-- What is read is a number at the front, its value, and what follows it. -/
theorem decode_eq_some_iff {rounds : ℕ} {bytes rest : List UInt8} {n : ℕ} :
    decode rounds bytes = some (n, rest) ↔
      ∃ number, IsNumber rounds number ∧ value number = n ∧ bytes = number ++ rest := by
  induction rounds generalizing bytes n with
  | zero =>
    refine iff_of_false (by simp [decode]) ?_
    rintro ⟨number, hnumber, -, -⟩
    exact hnumber.ne_nil (List.length_eq_zero_iff.mp (Nat.le_zero.mp hnumber.length_le))
  | succ rounds ih =>
    cases bytes with
    | nil =>
      refine iff_of_false (by simp [decode]) ?_
      rintro ⟨number, hnumber, -, heq⟩
      exact hnumber.ne_nil (List.append_eq_nil_iff.mp heq.symm).1
    | cons byte bytes =>
      by_cases h : byte.toNat < 128
      · rw [decode_cons_of_lt rounds h, Option.some.injEq, Prod.mk.injEq]
        constructor
        · rintro ⟨rfl, rfl⟩
          refine ⟨[byte], (isNumber_cons_of_lt h []).mpr rfl, ?_, rfl⟩
          simp [value, Nat.mod_eq_of_lt h]
        · rintro ⟨number, hnumber, rfl, heq⟩
          obtain ⟨first, number, rfl⟩ := List.exists_cons_of_ne_nil hnumber.ne_nil
          obtain ⟨rfl, rfl⟩ := List.cons.inj heq
          obtain rfl := (isNumber_cons_of_lt h number).mp hnumber
          simp [value, Nat.mod_eq_of_lt h]
      · have hle : 128 ≤ byte.toNat := Nat.le_of_not_lt h
        have hlt : byte.toNat < 256 := byte.toNat_lt
        have hgroup : byte.toNat % 128 = byte.toNat - 128 := by omega
        rw [decode_cons_of_le rounds hle, Option.map_eq_some_iff]
        constructor
        · rintro ⟨⟨higher, unread⟩, hdecode, heq⟩
          obtain ⟨rfl, rfl⟩ := Prod.mk.inj heq
          obtain ⟨number, hnumber, rfl, rfl⟩ := ih.mp hdecode
          exact ⟨byte :: number, (isNumber_cons_of_le hle number).mpr hnumber,
            by rw [value, hgroup], rfl⟩
        · rintro ⟨number, hnumber, rfl, heq⟩
          obtain ⟨first, number, rfl⟩ := List.exists_cons_of_ne_nil hnumber.ne_nil
          obtain ⟨rfl, rfl⟩ := List.cons.inj heq
          refine ⟨(value number, rest), ih.mpr ⟨number, ?_, rfl, rfl⟩, ?_⟩
          · exact (isNumber_cons_of_le hle number).mp hnumber
          · rw [value, hgroup]

/-- Bytes start with a number of at most `rounds` bytes, or their first `rounds` bytes all have the
top bit set. -/
theorem exists_isNumber_or_continued (rounds : ℕ) (bytes : List UInt8) :
    (∃ number, IsNumber rounds number ∧ number <+: bytes) ∨
      ∀ byte ∈ bytes.take rounds, 128 ≤ byte.toNat := by
  induction rounds generalizing bytes with
  | zero => simp
  | succ rounds ih =>
    cases bytes with
    | nil => simp
    | cons byte bytes =>
      by_cases h : byte.toNat < 128
      · exact Or.inl ⟨[byte], (isNumber_cons_of_lt h []).mpr rfl, List.prefix_append [byte] bytes⟩
      · have hle : 128 ≤ byte.toNat := Nat.le_of_not_lt h
        rcases ih bytes with ⟨number, hnumber, hinitial⟩ | hcontinued
        · exact Or.inl ⟨byte :: number, (isNumber_cons_of_le hle number).mpr hnumber,
            (List.prefix_cons_inj byte).mpr hinitial⟩
        · rw [List.take_succ_cons, List.forall_mem_cons]
          exact Or.inr ⟨hle, hcontinued⟩

/-- Bytes that all have the top bit set do not start with a number. -/
theorem not_isNumber_of_continued {rounds : ℕ} {bytes number : List UInt8}
    (h : ∀ byte ∈ bytes, 128 ≤ byte.toNat) (hinitial : number <+: bytes) :
    ¬IsNumber rounds number := by
  intro hnumber
  have hlast := List.getLast?_eq_some_getLast hnumber.ne_nil
  have hended := hnumber.ended _ hlast
  have hcontinued := h _ (hinitial.subset (List.getLast_mem hnumber.ne_nil))
  omega

/-- A number of `rounds` bytes is below `128 ^ rounds`. -/
theorem value_lt (bytes : List UInt8) : value bytes < 128 ^ bytes.length := by
  induction bytes with
  | nil => simp [value]
  | cons byte bytes ih =>
    rw [value, List.length_cons, pow_succ]
    omega

/-- What is written is a number with the value. -/
theorem isNumber_encode (rounds : ℕ) {n : ℕ} (h : n < 128 ^ (rounds + 1)) :
    IsNumber (rounds + 1) (encode (rounds + 1) n) ∧ value (encode (rounds + 1) n) = n := by
  obtain ⟨number, hnumber, hvalue, heq⟩ := decode_eq_some_iff.mp (decode_encode rounds h [])
  rw [List.append_nil, List.append_nil] at heq
  exact heq ▸ ⟨hnumber, hvalue⟩

/-- No number with the value is shorter than the one that is written. -/
theorem length_encode_le_of_value (rounds : ℕ) {bytes : List UInt8} (hne : bytes ≠ []) :
    (encode rounds (value bytes)).length ≤ bytes.length := by
  induction bytes generalizing rounds with
  | nil => exact absurd rfl hne
  | cons byte bytes ih =>
    cases rounds with
    | zero => simp [encode]
    | succ rounds =>
      have hquotient : value (byte :: bytes) / 128 = value bytes := by
        rw [value]
        omega
      by_cases h : value (byte :: bytes) < 128
      · simp [encode_of_lt rounds h]
      · have hle : 128 ≤ value (byte :: bytes) := Nat.le_of_not_lt h
        have hmore : bytes ≠ [] := by
          rintro rfl
          rw [value, value] at h
          omega
        rw [encode_of_le rounds hle, hquotient]
        exact Nat.succ_le_succ (ih rounds hmore)

end PqMqtt.Base128
