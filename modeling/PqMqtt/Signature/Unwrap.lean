import PqMqtt.Foundation.Base128
import PqMqtt.Foundation.Der
import PqMqtt.Signature.KeyShim

/-!
# Unwrapping private keys

`wc_Mayo1_UnwrapPrivateKeyData` and `wc_Snova2454_UnwrapPrivateKeyData` find the key pair `sk||pk`
in the content of a PKCS#8 private key, where it stands raw or in an inner OCTET STRING.  The two
functions are one up to the size.  A read of the input is a partial operation here: a read past
the end would leave the model without a result.
-/

namespace PqMqtt.Signature

/-! ## The functions -/

/-- The codes that the unwrapping functions return. -/
structure ParseCodes extends WolfCodes where
  asnParseE : ℤ
  asnParseE_neg : asnParseE < 0

/-- What a caller passes as `input` and `inputLen`: an address and the bytes from there on. -/
structure Input where
  address : ℕ
  bytes : List UInt8
  length_lt : bytes.length < 2 ^ 32

namespace Input

/-- `inputLen` -/
def len (input : Input) : UInt32 := UInt32.ofNat input.bytes.length

/-- `input[idx]`, which is nothing at `inputLen` and beyond. -/
def read (input : Input) (idx : UInt32) : Option UInt8 := input.bytes[idx.toNat]?

/-- The bytes of the input from an address on. -/
def slice (input : Input) (address len : ℕ) : List UInt8 :=
  (input.bytes.drop (address - input.address)).take len

@[simp]
theorem toNat_len (input : Input) : input.len.toNat = input.bytes.length :=
  UInt32.toNat_ofNat_of_lt' input.length_lt

/-- `while (lenBytes-- > 0u) { len = (len << 8) | input[idx++]; }`: `len` and `idx` at the end.
The last test decrements the counter once more, to 255, and nothing reads it again. -/
def lengthLoop (input : Input) (lenBytes : UInt8) (len idx : UInt32) : Option (UInt32 × UInt32) :=
  if lenBytes > 0 then do
    let octet ← input.read idx
    lengthLoop input (lenBytes - 1) (len <<< 8 ||| octet.toUInt32) (idx + 1)
  else some (len, idx)
termination_by lenBytes.toNat
decreasing_by
  rename_i hpos
  have hpos : 0 < lenBytes.toNat := UInt8.lt_iff_toNat_lt.mp hpos
  have hone : (1 : UInt8) ≤ lenBytes := UInt8.le_iff_toNat_le.mpr hpos
  rw [UInt8.toNat_sub_of_le _ _ hone]
  exact Nat.sub_lt hpos Nat.one_pos

/-- The length that `lenByte` starts, and the index after it.  The inner `none` is the parse
error. -/
def lengthAt (input : Input) (lenByte : UInt8) (idx : UInt32) : Option (Option (UInt32 × UInt32)) :=
  if lenByte &&& 0x80 = 0 then some (some (lenByte.toUInt32, idx))
  else
    let lenBytes := lenByte &&& 0x7F
    if lenBytes = 0 ∨ lenBytes > 4 ∨ idx + lenBytes.toUInt32 > input.len then some none
    else (input.lengthLoop lenBytes 0 idx).map some

/-- The length and the beginning of the content of an OCTET STRING that holds `size` bytes and
ends the input. -/
def octetString (input : Input) (size : UInt32) : Option (Option (UInt32 × UInt32)) :=
  if input.len < 2 then some none
  else do
    let tag ← input.read 0
    if tag ≠ 0x04 then some none
    else do
      let lenByte ← input.read 1
      (input.lengthAt lenByte 2).map fun
        | none => none
        | some (len, idx) =>
          if len ≠ size ∨ idx + len ≠ input.len then none else some (len, idx)

end Input

/-- The common body of the two functions.  Returns the return value, `*keyPair` and
`*keyPairLen`; arguments that are `none` are NULL pointers. -/
def unwrapPrivateKeyData (codes : ParseCodes) (size : UInt32) (input : Option Input)
    (keyPair : Option ℕ) (keyPairLen : Option UInt32) : Option (ℤ × Option ℕ × Option UInt32) :=
  match input, keyPair, keyPairLen with
  | some input, some keyPair, some keyPairLen =>
      if input.len = size then some (0, some input.address, some input.len)
      else
        (input.octetString size).map fun
          | none => (codes.asnParseE, some keyPair, some keyPairLen)
          | some (len, idx) => (0, some (input.address + idx.toNat), some len)
  | _, keyPair, keyPairLen => some (codes.badFuncArg, keyPair, keyPairLen)

/-- `wc_Mayo1_UnwrapPrivateKeyData` -/
def wcMayo1UnwrapPrivateKeyData (codes : ParseCodes) :=
  unwrapPrivateKeyData codes (UInt32.ofNat Scheme.mayo1.keypairSize)

/-- `wc_Snova2454_UnwrapPrivateKeyData` -/
def wcSnova2454UnwrapPrivateKeyData (codes : ParseCodes) :=
  unwrapPrivateKeyData codes (UInt32.ofNat Scheme.snova2454.keypairSize)

/-! ## Lengths in the long form -/

/-- One more octet of a number that fits 32 bits. -/
theorem toNat_shiftLeft_or {len : UInt32} (hlen : len.toNat < 2 ^ 24) (octet : UInt8) :
    (len <<< 8 ||| octet.toUInt32).toNat = len.toNat * 256 + octet.toNat := by
  have hlt : len.toNat * 2 ^ 8 < 2 ^ 32 := by omega
  have height : (8 : UInt32).toNat % 32 = 8 := by decide
  rw [UInt32.toNat_or, UInt32.toNat_shiftLeft, UInt8.toNat_toUInt32, height, Nat.shiftLeft_eq,
    Nat.mod_eq_of_lt hlt, Nat.mul_comm, ← Nat.two_pow_add_eq_or_of_lt octet.toNat_lt]
  ring

namespace Input

variable (input : Input)

/-- The loop reads the digits of the length, most significant first. -/
theorem lengthLoop_eq {octets rest : List UInt8} :
    ∀ {lenBytes : UInt8} {len idx : UInt32}, input.bytes.drop idx.toNat = octets ++ rest →
      octets.length = lenBytes.toNat → idx.toNat + octets.length < 2 ^ 32 →
      len.toNat * 256 ^ octets.length + Der.ofOctets octets < 2 ^ 32 →
      ∃ value next : UInt32, input.lengthLoop lenBytes len idx = some (value, next) ∧
        value.toNat = len.toNat * 256 ^ octets.length + Der.ofOctets octets ∧
        next.toNat = idx.toNat + octets.length := by
  induction octets with
  | nil =>
    intro lenBytes len idx _ hcount _ _
    have hstop : ¬lenBytes > 0 := by
      intro hpos
      have hlt : 0 < lenBytes.toNat := UInt8.lt_iff_toNat_lt.mp hpos
      exact hlt.ne hcount
    refine ⟨len, idx, ?_, ?_, rfl⟩
    · rw [lengthLoop, if_neg hstop]
    · simp [Der.ofOctets]
  | cons octet octets ih =>
    intro lenBytes len idx hdrop hcount hidx hvalue
    rw [List.length_cons] at hcount hidx hvalue ⊢
    rw [Der.ofOctets_cons] at hvalue ⊢
    have hpos : lenBytes > 0 := UInt8.lt_iff_toNat_lt.mpr (hcount ▸ Nat.succ_pos _)
    have hone : (1 : UInt8) ≤ lenBytes := UInt8.le_iff_toNat_le.mpr (hcount ▸ Nat.succ_pos _)
    have hread : input.read idx = some octet := by
      rw [read, ← List.head?_drop, hdrop]
      rfl
    have hcount' : octets.length = (lenBytes - 1).toNat := by
      rw [UInt8.toNat_sub_of_le _ _ hone, ← hcount]
      rfl
    have hnext : (idx + 1).toNat = idx.toNat + 1 := by
      rw [UInt32.toNat_add]
      exact Nat.mod_eq_of_lt (by change idx.toNat + 1 < 2 ^ 32; omega)
    have hdrop' : input.bytes.drop (idx + 1).toNat = octets ++ rest := by
      rw [hnext, ← List.drop_drop, hdrop]
      rfl
    have hscale : len.toNat * 256 ≤ len.toNat * 256 ^ (octets.length + 1) :=
      Nat.mul_le_mul_left _ (Nat.le_self_pow (Nat.succ_ne_zero _) 256)
    have hlen : len.toNat < 2 ^ 24 := by omega
    have hvalue' : (len.toNat * 256 + octet.toNat) * 256 ^ octets.length + Der.ofOctets octets
        = len.toNat * 256 ^ (octets.length + 1)
          + (octet.toNat * 256 ^ octets.length + Der.ofOctets octets) := by ring
    have hstep := toNat_shiftLeft_or hlen octet
    obtain ⟨value, next, hloop, hresult, hend⟩ := ih hdrop' hcount' (by omega)
      (by rw [hstep, hvalue']; exact hvalue)
    refine ⟨value, next, ?_, ?_, by omega⟩
    · rw [lengthLoop, if_pos hpos, hread]
      exact hloop
    · rw [hresult, hstep, hvalue']

/-- A length in the short form is its byte; in the long form the byte counts the digits. -/
theorem lengthAt_of_lt {lenByte : UInt8} (h : lenByte.toNat < 128) (idx : UInt32) :
    input.lengthAt lenByte idx = some (some (lenByte.toUInt32, idx)) := by
  have hbit : lenByte &&& 0x80 = 0 := by
    by_contra hne
    exact absurd ((Base128.and_0x80_ne_zero_iff lenByte).mp hne) (Nat.not_le.mpr h)
  rw [lengthAt, if_pos hbit]

/-- Digits that are none, too many or not all there are a parse error. -/
theorem lengthAt_eq_parseError {tag lenByte : UInt8} {rest : List UInt8}
    (hbytes : input.bytes = tag :: lenByte :: rest) (h : 128 ≤ lenByte.toNat)
    (hcount : lenByte.toNat = 128 ∨ 132 < lenByte.toNat ∨ rest.length < lenByte.toNat - 128) :
    input.lengthAt lenByte 2 = some none := by
  have hmask := Base128.toNat_and_0x7F lenByte
  have hlt := lenByte.toNat_lt
  have hlength := congrArg List.length hbytes
  rw [List.length_cons, List.length_cons] at hlength
  rw [lengthAt, if_neg ((Base128.and_0x80_ne_zero_iff lenByte).mpr h)]
  apply if_pos
  by_cases hzero : lenByte.toNat = 128
  · refine Or.inl (UInt8.toNat_inj.mp ?_)
    rw [hmask, hzero]
    rfl
  by_cases hmany : 132 < lenByte.toNat
  · refine Or.inr (Or.inl (UInt8.lt_iff_toNat_lt.mpr ?_))
    change 4 < (lenByte &&& 0x7F).toNat
    omega
  · have hend : (2 + (lenByte &&& 0x7F).toUInt32).toNat = 2 + (lenByte.toNat - 128) := by
      rw [UInt32.toNat_add, UInt8.toNat_toUInt32, hmask]
      change (2 + lenByte.toNat % 128) % 2 ^ 32 = _
      omega
    refine Or.inr (Or.inr (UInt32.lt_iff_toNat_lt.mpr ?_))
    rw [hend, toNat_len]
    omega

/-- One to four digits that are there are read. -/
theorem lengthAt_eq {tag lenByte : UInt8} {octets rest : List UInt8}
    (hbytes : input.bytes = tag :: lenByte :: (octets ++ rest))
    (hcount : lenByte.toNat = 128 + octets.length) (hne : octets ≠ []) (hle : octets.length ≤ 4) :
    ∃ value next : UInt32, input.lengthAt lenByte 2 = some (some (value, next)) ∧
      value.toNat = Der.ofOctets octets ∧ next.toNat = 2 + octets.length := by
  have hpos : 0 < octets.length := List.length_pos_iff.mpr hne
  have hmask : (lenByte &&& 0x7F).toNat = octets.length := by
    rw [Base128.toNat_and_0x7F]
    omega
  have hlength := congrArg List.length hbytes
  rw [List.length_cons, List.length_cons, List.length_append] at hlength
  have hend : (2 + (lenByte &&& 0x7F).toUInt32).toNat = 2 + octets.length := by
    rw [UInt32.toNat_add, UInt8.toNat_toUInt32, hmask]
    change (2 + octets.length) % 2 ^ 32 = _
    omega
  have haccepted : ¬(lenByte &&& 0x7F = 0 ∨ lenByte &&& 0x7F > 4 ∨
      2 + (lenByte &&& 0x7F).toUInt32 > input.len) := by
    rintro (hzero | hmany | hover)
    · have hvalue := congrArg UInt8.toNat hzero
      rw [hmask] at hvalue
      exact hpos.ne' hvalue
    · have hvalue : 4 < (lenByte &&& 0x7F).toNat := UInt8.lt_iff_toNat_lt.mp hmany
      omega
    · have hvalue := UInt32.lt_iff_toNat_lt.mp hover
      rw [hend, toNat_len] at hvalue
      omega
  have hvalue : Der.ofOctets octets < 2 ^ 32 :=
    calc Der.ofOctets octets < 256 ^ octets.length := Der.ofOctets_lt octets
      _ ≤ 256 ^ 4 := Nat.pow_le_pow_right (by norm_num) hle
      _ = 2 ^ 32 := by norm_num
  have hdrop : input.bytes.drop (2 : UInt32).toNat = octets ++ rest := by
    rw [hbytes]
    rfl
  have hbound : (2 : UInt32).toNat + octets.length < 2 ^ 32 := by
    change 2 + octets.length < 2 ^ 32
    omega
  obtain ⟨value, next, hloop, hresult, hnext⟩ := input.lengthLoop_eq hdrop hmask.symm hbound
    (by rw [UInt32.toNat_zero, Nat.zero_mul, Nat.zero_add]; exact hvalue)
  refine ⟨value, next, ?_, ?_, hnext⟩
  · rw [lengthAt, if_neg ((Base128.and_0x80_ne_zero_iff lenByte).mpr (by omega)),
      if_neg haccepted, hloop]
    rfl
  · rw [hresult, UInt32.toNat_zero, Nat.zero_mul, Nat.zero_add]

end Input

/-! ## Wrapped key pairs -/

/-- An OCTET STRING with this content is the whole of the bytes, its length written in one to four
octets. -/
def Wraps (content bytes : List UInt8) : Prop :=
  ∃ (lenByte : UInt8) (octets : List UInt8), bytes = 0x04 :: lenByte :: (octets ++ content) ∧
    lenByte.toNat = 128 + octets.length ∧ octets ≠ [] ∧ octets.length ≤ 4 ∧
    Der.ofOctets octets = content.length

/-- The octets after the first two are split by the first of them. -/
theorem Wraps.eq_of_append {content : List UInt8} {tag lenByte : UInt8} {octets rest : List UInt8}
    (h : Wraps content (tag :: lenByte :: (octets ++ rest)))
    (hcount : lenByte.toNat = 128 + octets.length) :
    tag = 0x04 ∧ rest = content ∧ Der.ofOctets octets = content.length := by
  obtain ⟨lenByte', octets', hbytes, hcount', -, -, hvalue⟩ := h
  obtain ⟨htag, htail⟩ := List.cons.inj hbytes
  obtain ⟨hlenByte, happend⟩ := List.cons.inj htail
  have hlength : octets.length = octets'.length := by
    rw [hlenByte] at hcount
    omega
  obtain ⟨hoctets, hrest⟩ := List.append_inj happend hlength
  exact ⟨htag, hrest, hoctets ▸ hvalue⟩

/-- The shortest form of the length is one of the forms. -/
theorem wraps_element {content : List UInt8} (hlong : 128 ≤ content.length)
    (hlt : content.length < 2 ^ 32) : Wraps content (Der.element 0x04 content) := by
  have hle : (Der.toOctets content.length).length ≤ 4 :=
    Der.length_toOctets_le (hlt.trans_eq (by norm_num))
  refine ⟨UInt8.ofNat (128 + (Der.toOctets content.length).length), Der.toOctets content.length,
    ?_, ?_, ?_, hle, Der.ofOctets_toOctets _⟩
  · rw [Der.element, Der.lengthOctets, if_neg (Nat.not_lt.mpr hlong)]
    rfl
  · exact UInt8.toNat_ofNat_of_lt' (by change _ < 256; omega)
  · intro hnil
    have hvalue := Der.ofOctets_toOctets content.length
    rw [hnil] at hvalue
    change 0 = content.length at hvalue
    omega

namespace Input

variable (input : Input) {size : UInt32}

theorem octetString_of_length_lt (h : input.bytes.length < 2) :
    input.octetString size = some none := by
  refine if_pos (UInt32.lt_iff_toNat_lt.mpr ?_)
  rw [toNat_len]
  exact h

/-- The tag and the first byte of the length are there. -/
theorem octetString_of_cons {tag lenByte : UInt8} {rest : List UInt8}
    (hbytes : input.bytes = tag :: lenByte :: rest) :
    input.octetString size =
      if tag ≠ 0x04 then some none
      else
        (input.lengthAt lenByte 2).map fun
          | none => none
          | some (len, idx) =>
            if len ≠ size ∨ idx + len ≠ input.len then none else some (len, idx) := by
  have hlength : ¬input.len < 2 := by
    intro hlt
    have hvalue := UInt32.lt_iff_toNat_lt.mp hlt
    rw [toNat_len, hbytes] at hvalue
    simp at hvalue
  have htag : input.read 0 = some tag := by
    rw [read, hbytes]
    rfl
  have hlenByte : input.read 1 = some lenByte := by
    rw [read, hbytes]
    rfl
  rw [octetString, if_neg hlength, htag, hlenByte]
  rfl

theorem octetString_eq_parseError {lenByte : UInt8} {rest : List UInt8}
    (hbytes : input.bytes = 0x04 :: lenByte :: rest) (h : input.lengthAt lenByte 2 = some none) :
    input.octetString size = some none := by
  rw [octetString_of_cons input hbytes, if_neg (not_not.mpr rfl), h]
  rfl

/-- A length that was read decides. -/
theorem octetString_of_lengthAt {lenByte : UInt8} {rest : List UInt8} {len idx : UInt32}
    (hbytes : input.bytes = 0x04 :: lenByte :: rest)
    (h : input.lengthAt lenByte 2 = some (some (len, idx))) :
    input.octetString size =
      some (if len ≠ size ∨ idx + len ≠ input.len then none else some (len, idx)) := by
  rw [octetString_of_cons input hbytes, if_neg (not_not.mpr rfl), h]
  rfl

/-- When the digits of the length are there, the length they give decides. -/
theorem octetString_cases_of_digits {lenByte : UInt8} {octets content : List UInt8}
    (hbytes : input.bytes = 0x04 :: lenByte :: (octets ++ content))
    (hlenByte : lenByte.toNat = 128 + octets.length) (hne : octets ≠ []) (hle : octets.length ≤ 4)
    (hsize : size.toNat < 2 ^ 31) :
    (∃ idx : UInt32, Wraps content input.bytes ∧ content.length = size.toNat ∧
        input.octetString size = some (some (size, idx)) ∧
        idx.toNat + size.toNat = input.bytes.length) ∨
      ((∀ content, Wraps content input.bytes → content.length ≠ size.toNat) ∧
        input.octetString size = some none) := by
  have hlength := congrArg List.length hbytes
  rw [List.length_cons, List.length_cons, List.length_append] at hlength
  obtain ⟨len, idx, hread, hvalue, hidx⟩ := input.lengthAt_eq hbytes hlenByte hne hle
  have hresult : input.octetString size =
      some (if len ≠ size ∨ idx + len ≠ input.len then none else some (len, idx)) :=
    input.octetString_of_lengthAt hbytes hread
  by_cases hwraps : len = size ∧ content.length = size.toNat
  · obtain ⟨rfl, hcontent⟩ := hwraps
    have hend : idx + len = input.len := by
      apply UInt32.toNat_inj.mp
      rw [UInt32.toNat_add, toNat_len]
      omega
    refine Or.inl ⟨idx, ⟨lenByte, octets, hbytes, hlenByte, hne, hle, ?_⟩, hcontent,
      ?_, ?_⟩
    · rw [hcontent, hvalue]
    · rw [hresult, if_neg]
      rintro (hlen | hover)
      · exact hlen rfl
      · exact hover hend
    · omega
  · refine Or.inr ⟨?_, ?_⟩
    · intro content' hcontent' hsize'
      rw [hbytes] at hcontent'
      obtain ⟨-, rfl, hdigits⟩ := hcontent'.eq_of_append hlenByte
      refine hwraps ⟨UInt32.toNat_inj.mp ?_, hsize'⟩
      rw [hvalue, hdigits, hsize']
    · rw [hresult, if_pos]
      by_contra hboth
      rw [not_or, not_not, not_not] at hboth
      obtain ⟨rfl, hend⟩ := hboth
      refine hwraps ⟨rfl, ?_⟩
      have hsum := congrArg UInt32.toNat hend
      rw [UInt32.toNat_add, toNat_len] at hsum
      omega

/-- The octets are parsed as an OCTET STRING of the size if and only if they are one, and the
content is at its end. -/
theorem octetString_cases (hlong : 128 ≤ size.toNat) (hsize : size.toNat < 2 ^ 31) :
    (∃ (content : List UInt8) (idx : UInt32), Wraps content input.bytes ∧
        content.length = size.toNat ∧ input.octetString size = some (some (size, idx)) ∧
        idx.toNat + size.toNat = input.bytes.length) ∨
      ((∀ content, Wraps content input.bytes → content.length ≠ size.toNat) ∧
        input.octetString size = some none) := by
  by_cases hshort : input.bytes.length < 2
  · refine Or.inr ⟨?_, input.octetString_of_length_lt hshort⟩
    rintro content ⟨lenByte, octets, hbytes, -⟩
    rw [hbytes] at hshort
    simp at hshort
  obtain ⟨tag, tail, htail⟩ := List.exists_cons_of_length_pos
    (Nat.lt_of_lt_of_le Nat.two_pos (Nat.not_lt.mp hshort))
  have hpos : 0 < tail.length := by
    rw [htail, List.length_cons] at hshort
    omega
  obtain ⟨lenByte, rest, rfl⟩ := List.exists_cons_of_length_pos hpos
  have hbytes : input.bytes = tag :: lenByte :: rest := htail
  by_cases htag : tag = 0x04
  swap
  · refine Or.inr ⟨?_, ?_⟩
    · rintro content ⟨lenByte', octets, hwraps, -⟩
      rw [hbytes] at hwraps
      exact absurd (List.cons.inj hwraps).1 htag
    · rw [octetString_of_cons input hbytes, if_pos htag]
  subst htag
  by_cases hform : lenByte.toNat < 128
  · refine Or.inr ⟨?_, ?_⟩
    · rintro content ⟨lenByte', octets, hwraps, hcount, -⟩
      rw [hbytes] at hwraps
      rw [← (List.cons.inj (List.cons.inj hwraps).2).1] at hcount
      omega
    · have hne : lenByte.toUInt32 ≠ size := by
        intro heq
        have hvalue := congrArg UInt32.toNat heq
        rw [UInt8.toNat_toUInt32] at hvalue
        omega
      rw [octetString_of_lengthAt input hbytes (input.lengthAt_of_lt hform 2), if_pos (Or.inl hne)]
  by_cases hcount : lenByte.toNat = 128 ∨ 132 < lenByte.toNat ∨ rest.length < lenByte.toNat - 128
  · refine Or.inr ⟨?_, ?_⟩
    · rintro content ⟨lenByte', octets, hwraps, hoctets, hne, hle, -⟩
      have hpos : 0 < octets.length := List.length_pos_iff.mpr hne
      rw [hbytes] at hwraps
      obtain ⟨hlenByte, hrest⟩ := List.cons.inj (List.cons.inj hwraps).2
      have hlength := congrArg List.length hrest
      rw [List.length_append] at hlength
      rw [hlenByte] at hcount
      omega
    · exact input.octetString_eq_parseError hbytes
        (input.lengthAt_eq_parseError hbytes (Nat.not_lt.mp hform) hcount)
  -- The digits are there and are split off.
  · have htake : (rest.take (lenByte.toNat - 128)).length = lenByte.toNat - 128 := by
      rw [List.length_take]
      omega
    obtain ⟨octets, content, rfl, hoctets⟩ :
        ∃ octets content, rest = octets ++ content ∧ octets.length = lenByte.toNat - 128 :=
      ⟨_, _, (List.take_append_drop (lenByte.toNat - 128) rest).symm, htake⟩
    have hlenByte : lenByte.toNat = 128 + octets.length := by omega
    have hne : octets ≠ [] := by
      rintro rfl
      rw [List.length_nil] at hoctets
      omega
    have hle : octets.length ≤ 4 := by omega
    exact (input.octetString_cases_of_digits hbytes hlenByte hne hle hsize).imp_left
      fun ⟨idx, hwraps⟩ ↦ ⟨content, idx, hwraps⟩

end Input

/-! ## What is accepted -/

/-- The forms in which a key pair of a size is accepted. -/
def Accepted (size : ℕ) (bytes : List UInt8) : Prop :=
  bytes.length = size ∨ ∃ content, content.length = size ∧ Wraps content bytes

/-- An unwrapping function accepts exactly these forms, stays inside the input and answers with
its last `size` bytes. -/
structure UnwrapsExactly (size : ℕ) (unwrap : Option Input → Option ℕ → Option UInt32 →
    Option (ℤ × Option ℕ × Option UInt32)) : Prop where
  in_bounds : ∀ input keyPair keyPairLen, (unwrap input keyPair keyPairLen).isSome
  succeeds_iff : ∀ input keyPair keyPairLen,
    (unwrap (some input) (some keyPair) (some keyPairLen)).map Prod.fst = some 0 ↔
      Accepted size input.bytes
  succeeds : ∀ input keyPair keyPairLen outputs,
    unwrap (some input) keyPair keyPairLen = some (0, outputs) →
    ∃ (address : ℕ) (len : UInt32), outputs = (some address, some len) ∧ len.toNat = size ∧
      input.address ≤ address ∧ address + size = input.address + input.bytes.length
  fails : ∀ input keyPair keyPairLen ret outputs,
    unwrap input keyPair keyPairLen = some (ret, outputs) → ret ≠ 0 →
    outputs = (keyPair, keyPairLen)
  gives_back : ∀ input keyPair keyPairLen sk pk, (sk ++ pk).length = size →
    input.bytes = sk ++ pk ∨ Wraps (sk ++ pk) input.bytes ∨
      input.bytes = Der.element 0x04 (sk ++ pk) →
    ∃ address : ℕ, unwrap (some input) (some keyPair) (some keyPairLen) =
        some (0, some address, some (UInt32.ofNat size)) ∧
      input.slice address size = sk ++ pk

section Classification

variable (codes : ParseCodes) {size : UInt32} (input : Input)

theorem unwrapPrivateKeyData_of_raw (h : input.bytes.length = size.toNat) (keyPair : ℕ)
    (keyPairLen : UInt32) :
    unwrapPrivateKeyData codes size (some input) (some keyPair) (some keyPairLen)
      = some (0, some input.address, some size) := by
  have hlen : input.len = size := by
    apply UInt32.toNat_inj.mp
    rw [Input.toNat_len, h]
  rw [unwrapPrivateKeyData, if_pos hlen, hlen]

/-- An input of another size is an OCTET STRING or a parse error. -/
theorem unwrapPrivateKeyData_of_ne (h : input.bytes.length ≠ size.toNat) (keyPair : ℕ)
    (keyPairLen : UInt32) :
    unwrapPrivateKeyData codes size (some input) (some keyPair) (some keyPairLen)
      = (input.octetString size).map fun
          | none => (codes.asnParseE, some keyPair, some keyPairLen)
          | some (len, idx) => (0, some (input.address + idx.toNat), some len) := by
  have hlen : input.len ≠ size := by
    rintro rfl
    exact h input.toNat_len.symm
  rw [unwrapPrivateKeyData, if_neg hlen]

/-- A call succeeds with the last bytes of an accepted input, or reports a parse error. -/
theorem unwrapPrivateKeyData_cases (hlong : 128 ≤ size.toNat) (hsize : size.toNat < 2 ^ 31)
    (keyPair : ℕ) (keyPairLen : UInt32) :
    (∃ address : ℕ, Accepted size.toNat input.bytes ∧
        unwrapPrivateKeyData codes size (some input) (some keyPair) (some keyPairLen)
          = some (0, some address, some size) ∧
        input.address ≤ address ∧
        address + size.toNat = input.address + input.bytes.length) ∨
      (¬Accepted size.toNat input.bytes ∧
        unwrapPrivateKeyData codes size (some input) (some keyPair) (some keyPairLen)
          = some (codes.asnParseE, some keyPair, some keyPairLen)) := by
  by_cases hraw : input.bytes.length = size.toNat
  · refine Or.inl ⟨input.address, Or.inl hraw, ?_, le_refl _, ?_⟩
    · exact unwrapPrivateKeyData_of_raw codes input hraw keyPair keyPairLen
    · rw [hraw]
  rw [unwrapPrivateKeyData_of_ne codes input hraw]
  rcases input.octetString_cases hlong hsize with
    ⟨content, idx, hwraps, hcontent, hparsed, hend⟩ | ⟨hwraps, hparsed⟩
  · refine Or.inl ⟨input.address + idx.toNat, Or.inr ⟨content, hcontent, hwraps⟩, ?_,
      Nat.le_add_right _ _, ?_⟩
    · rw [hparsed]
      rfl
    · rw [Nat.add_assoc, hend]
  · refine Or.inr ⟨?_, ?_⟩
    · rintro (hlength | ⟨content, hcontent, hcontentWraps⟩)
      · exact hraw hlength
      · exact hwraps content hcontentWraps hcontent
    · rw [hparsed]
      rfl

/-- The slice that ends with the input is what stands at the end of the bytes. -/
theorem slice_of_end {address : ℕ} {front content : List UInt8}
    (hbytes : input.bytes = front ++ content) (haddress : input.address ≤ address)
    (hend : address + content.length = input.address + input.bytes.length) :
    input.slice address content.length = content := by
  rw [hbytes, List.length_append] at hend
  have hfront : address - input.address = front.length := by omega
  calc
    input.slice address content.length
        = (input.bytes.drop (address - input.address)).take content.length := rfl
    _ = content.take content.length := by rw [hbytes, hfront, List.drop_left]
    _ = content := List.take_length

/-- NULL arguments are an error that leaves the outputs alone. -/
theorem unwrapPrivateKeyData_null {input : Option Input} {keyPair : Option ℕ}
    {keyPairLen : Option UInt32} (h : input = none ∨ keyPair = none ∨ keyPairLen = none) :
    unwrapPrivateKeyData codes size input keyPair keyPairLen
      = some (codes.badFuncArg, keyPair, keyPairLen) := by
  rcases h with rfl | rfl | rfl
  · rfl
  · cases input <;> rfl
  · cases input <;> cases keyPair <;> rfl

/-- What a call does, NULL arguments included. -/
theorem unwrapPrivateKeyData_outcomes (hlong : 128 ≤ size.toNat) (hsize : size.toNat < 2 ^ 31)
    (input : Option Input) (keyPair : Option ℕ) (keyPairLen : Option UInt32) :
    (∃ (object : Input) (address : ℕ), input = some object ∧
        Accepted size.toNat object.bytes ∧
        unwrapPrivateKeyData codes size input keyPair keyPairLen
          = some (0, some address, some size) ∧
        object.address ≤ address ∧
        address + size.toNat = object.address + object.bytes.length) ∨
      ∃ ret, ret < 0 ∧
        unwrapPrivateKeyData codes size input keyPair keyPairLen
          = some (ret, keyPair, keyPairLen) := by
  by_cases hnull : input = none ∨ keyPair = none ∨ keyPairLen = none
  · exact Or.inr ⟨codes.badFuncArg, codes.badFuncArg_neg, unwrapPrivateKeyData_null codes hnull⟩
  rw [not_or, not_or] at hnull
  obtain ⟨hinput, hkeyPair, hkeyPairLen⟩ := hnull
  obtain ⟨object, rfl⟩ := Option.ne_none_iff_exists'.mp hinput
  obtain ⟨start, rfl⟩ := Option.ne_none_iff_exists'.mp hkeyPair
  obtain ⟨startLen, rfl⟩ := Option.ne_none_iff_exists'.mp hkeyPairLen
  rcases unwrapPrivateKeyData_cases codes object hlong hsize start startLen with
    ⟨address, haccepted, hresult, hstart, hend⟩ | ⟨-, hresult⟩
  · exact Or.inl ⟨object, address, rfl, haccepted, hresult, hstart, hend⟩
  · exact Or.inr ⟨codes.asnParseE, codes.asnParseE_neg, hresult⟩

/-- An accepted input whose end is the key pair gives back the key pair. -/
theorem unwrapPrivateKeyData_gives (hlong : 128 ≤ size.toNat) (hsize : size.toNat < 2 ^ 31)
    {front content : List UInt8} (haccepted : Accepted size.toNat input.bytes)
    (hbytes : input.bytes = front ++ content) (hcontent : content.length = size.toNat)
    (keyPair : ℕ) (keyPairLen : UInt32) :
    ∃ address : ℕ, unwrapPrivateKeyData codes size (some input) (some keyPair) (some keyPairLen)
        = some (0, some address, some (UInt32.ofNat size.toNat)) ∧
      input.slice address size.toNat = content := by
  rcases unwrapPrivateKeyData_cases codes input hlong hsize keyPair keyPairLen with
    ⟨address, -, hresult, hstart, hend⟩ | ⟨hrefused, -⟩
  · refine ⟨address, ?_, ?_⟩
    · rw [hresult, UInt32.ofNat_toNat]
    · rw [← hcontent] at hend ⊢
      exact slice_of_end input hbytes hstart hend
  · exact absurd haccepted hrefused

theorem unwrapPrivateKeyData_of_wraps (hlong : 128 ≤ size.toNat) (hsize : size.toNat < 2 ^ 31)
    {content : List UInt8} (h : Wraps content input.bytes) (hcontent : content.length = size.toNat)
    (keyPair : ℕ) (keyPairLen : UInt32) :
    ∃ address : ℕ, unwrapPrivateKeyData codes size (some input) (some keyPair) (some keyPairLen)
        = some (0, some address, some (UInt32.ofNat size.toNat)) ∧
      input.slice address size.toNat = content := by
  obtain ⟨lenByte, octets, hbytes, -⟩ := id h
  have hsplit : input.bytes = (0x04 :: lenByte :: octets) ++ content := hbytes
  exact unwrapPrivateKeyData_gives codes input hlong hsize (Or.inr ⟨content, hcontent, h⟩) hsplit
    hcontent keyPair keyPairLen

theorem unwrapsExactly_of_size (size : UInt32) (hlong : 128 ≤ size.toNat)
    (hsize : size.toNat < 2 ^ 31) :
    UnwrapsExactly size.toNat (unwrapPrivateKeyData codes size) where
  in_bounds input keyPair keyPairLen := by
    rcases unwrapPrivateKeyData_outcomes codes hlong hsize input keyPair keyPairLen with
      ⟨object, address, -, -, hresult, -⟩ | ⟨ret, -, hresult⟩
    · rw [hresult]
      rfl
    · rw [hresult]
      rfl
  succeeds_iff input keyPair keyPairLen := by
    rcases unwrapPrivateKeyData_cases codes input hlong hsize keyPair keyPairLen with
      ⟨address, haccepted, hresult, -⟩ | ⟨hrefused, hresult⟩
    · rw [hresult]
      exact iff_of_true rfl haccepted
    · rw [hresult]
      refine iff_of_false ?_ hrefused
      intro hzero
      exact codes.asnParseE_neg.ne (Option.some.inj hzero)
  succeeds input keyPair keyPairLen outputs h := by
    rcases unwrapPrivateKeyData_outcomes codes hlong hsize (some input) keyPair keyPairLen with
      ⟨object, address, hinput, -, hresult, hstart, hend⟩ | ⟨ret, hneg, hresult⟩
    · obtain rfl := Option.some.inj hinput
      rw [hresult] at h
      exact ⟨address, size, (Prod.mk.inj (Option.some.inj h)).2.symm, rfl, hstart, hend⟩
    · rw [hresult] at h
      exact absurd (Prod.mk.inj (Option.some.inj h)).1 hneg.ne
  fails input keyPair keyPairLen ret outputs h hret := by
    rcases unwrapPrivateKeyData_outcomes codes hlong hsize input keyPair keyPairLen with
      ⟨object, address, -, -, hresult, -⟩ | ⟨ret', -, hresult⟩
    · rw [hresult] at h
      exact absurd (Prod.mk.inj (Option.some.inj h)).1.symm hret
    · rw [hresult] at h
      exact (Prod.mk.inj (Option.some.inj h)).2.symm
  gives_back input keyPair keyPairLen sk pk hcontent h := by
    have hwraps : Wraps (sk ++ pk) (Der.element 0x04 (sk ++ pk)) :=
      wraps_element (hcontent ▸ hlong) (hcontent ▸ size.toNat_lt)
    rcases h with hraw | hwrapped | helement
    · have hsplit : input.bytes = [] ++ (sk ++ pk) := hraw
      exact unwrapPrivateKeyData_gives codes input hlong hsize (Or.inl (hraw ▸ hcontent)) hsplit
        hcontent keyPair keyPairLen
    · exact unwrapPrivateKeyData_of_wraps codes input hlong hsize hwrapped hcontent keyPair
        keyPairLen
    · exact unwrapPrivateKeyData_of_wraps codes input hlong hsize (helement ▸ hwraps) hcontent
        keyPair keyPairLen

end Classification

/-- Both functions accept exactly a raw key pair or one in an OCTET STRING. -/
theorem key_data_unwraps_exactly (codes : ParseCodes) :
    UnwrapsExactly Scheme.mayo1.keypairSize (wcMayo1UnwrapPrivateKeyData codes) ∧
      UnwrapsExactly Scheme.snova2454.keypairSize (wcSnova2454UnwrapPrivateKeyData codes) := by
  constructor
  · exact unwrapsExactly_of_size codes (UInt32.ofNat Scheme.mayo1.keypairSize) (by decide)
      (by decide)
  · exact unwrapsExactly_of_size codes (UInt32.ofNat Scheme.snova2454.keypairSize) (by decide)
      (by decide)

end PqMqtt.Signature
