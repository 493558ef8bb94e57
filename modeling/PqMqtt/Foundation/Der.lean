import Mathlib.Data.Nat.Digits.Lemmas
import Mathlib.Data.UInt

/-!
# Elements in the distinguished encoding

An element is a tag, the number of its content octets and the content.  The distinguished
encoding writes the number in the shortest way: in one octet below 128, otherwise as the count of
its base-256 digits and the digits, most significant first and without a leading zero.  The
readers here accept that way only, so an element that is read is the element that was written.
-/

namespace PqMqtt.Der

/-! ## Base 256 -/

/-- The base-256 digits of a number, most significant first. -/
def toOctets (n : ℕ) : List UInt8 := ((Nat.digits 256 n).map UInt8.ofNat).reverse

def ofOctets (octets : List UInt8) : ℕ := Nat.ofDigits 256 (octets.reverse.map UInt8.toNat)

theorem map_toNat_map_ofNat {digits : List ℕ} (h : ∀ digit ∈ digits, digit < 256) :
    (digits.map UInt8.ofNat).map UInt8.toNat = digits := by
  rw [List.map_map]
  refine (List.map_congr_left fun digit hdigit ↦ ?_).trans (List.map_id digits)
  exact UInt8.toNat_ofNat_of_lt' (h digit hdigit)

@[simp]
theorem ofOctets_toOctets (n : ℕ) : ofOctets (toOctets n) = n := by
  have hdigits : ∀ digit ∈ Nat.digits 256 n, digit < 256 :=
    fun digit hdigit ↦ Nat.digits_lt_base (by norm_num) hdigit
  rw [ofOctets, toOctets, List.reverse_reverse, map_toNat_map_ofNat hdigits, Nat.ofDigits_digits]

theorem digit_lt (octets : List UInt8) : ∀ digit ∈ octets.map UInt8.toNat, digit < 256 := by
  intro digit hdigit
  obtain ⟨octet, -, rfl⟩ := List.mem_map.mp hdigit
  exact octet.toNat_lt

/-- Digits without a leading zero are the digits of their number. -/
theorem toOctets_ofOctets {octets : List UInt8} (h : octets.head? ≠ some 0) :
    toOctets (ofOctets octets) = octets := by
  have hleading : ∀ hne : octets.reverse.map UInt8.toNat ≠ [],
      (octets.reverse.map UInt8.toNat).getLast hne ≠ 0 := by
    intro hne
    have hoctets : octets ≠ [] := by
      rintro rfl
      exact hne rfl
    rw [List.getLast_map, List.getLast_reverse]
    intro hzero
    apply h
    rw [List.head?_eq_some_head hoctets]
    exact congrArg some (UInt8.toNat_inj.mp hzero)
  rw [toOctets, ofOctets, Nat.digits_ofDigits 256 (by norm_num) _ (digit_lt _) hleading,
    List.map_map, ← List.map_reverse, List.reverse_reverse]
  exact (List.map_congr_left fun octet _ ↦ UInt8.ofNat_toNat).trans (List.map_id octets)

theorem toOctets_eq {n : ℕ} {octets : List UInt8} (hvalue : ofOctets octets = n)
    (hhead : octets.head? ≠ some 0) : toOctets n = octets := by
  rw [← hvalue, toOctets_ofOctets hhead]

theorem head?_toOctets_ne (n : ℕ) : (toOctets n).head? ≠ some 0 := by
  rcases Nat.eq_zero_or_pos n with rfl | hpos
  · simp [toOctets]
  have hne : Nat.digits 256 n ≠ [] := Nat.digits_ne_nil_iff_ne_zero.mpr hpos.ne'
  have hlast := Nat.getLast_digit_ne_zero 256 hpos.ne'
  have hlt : (Nat.digits 256 n).getLast hne < 256 :=
    Nat.digits_lt_base (by norm_num) (List.getLast_mem hne)
  rw [toOctets, List.head?_reverse, List.getLast?_map, List.getLast?_eq_some_getLast hne]
  intro hzero
  have hoctet : UInt8.ofNat ((Nat.digits 256 n).getLast hne) = 0 := Option.some.inj hzero
  apply hlast
  rw [← UInt8.toNat_ofNat_of_lt' hlt, hoctet]
  rfl

theorem toOctets_of_lt {n : ℕ} (hpos : 0 < n) (h : n < 0x100) : toOctets n = [UInt8.ofNat n] := by
  have hvalue : (UInt8.ofNat n).toNat = n := UInt8.toNat_ofNat_of_lt' h
  apply toOctets_eq
  · simp [ofOctets, hvalue]
  · intro hzero
    have hhead : UInt8.ofNat n = 0 := Option.some.inj hzero
    rw [hhead] at hvalue
    simp at hvalue
    omega

theorem toOctets_of_lt_of_le {n : ℕ} (hle : 0x100 ≤ n) (h : n < 0x10000) :
    toOctets n = [UInt8.ofNat (n / 256), UInt8.ofNat n] := by
  have hlow : (UInt8.ofNat n).toNat = n % 256 := UInt8.toNat_ofNat'
  have hhigh : (UInt8.ofNat (n / 256)).toNat = n / 256 :=
    UInt8.toNat_ofNat_of_lt' (Nat.div_lt_of_lt_mul h)
  apply toOctets_eq
  · simp only [ofOctets, List.reverse_cons, List.reverse_nil, List.nil_append,
      List.cons_append, List.map_cons, List.map_nil, hlow, hhigh, Nat.ofDigits_cons,
      Nat.ofDigits_nil]
    push_cast
    omega
  · intro hzero
    have hhead : UInt8.ofNat (n / 256) = 0 := Option.some.inj hzero
    rw [hhead] at hhigh
    simp at hhigh
    omega

theorem length_toOctets_le {n k : ℕ} (h : n < 256 ^ k) : (toOctets n).length ≤ k := by
  rw [toOctets, List.length_reverse, List.length_map]
  exact (Nat.digits_length_le_iff (by norm_num) n).mpr h

theorem ofOctets_cons (octet : UInt8) (octets : List UInt8) :
    ofOctets (octet :: octets) = octet.toNat * 256 ^ octets.length + ofOctets octets := by
  rw [ofOctets, List.reverse_cons, List.map_append, Nat.ofDigits_append, List.length_map,
    List.length_reverse, List.map_singleton, Nat.ofDigits_singleton, ← ofOctets]
  ring

theorem ofOctets_lt (octets : List UInt8) : ofOctets octets < 256 ^ octets.length := by
  have hvalue := Nat.ofDigits_lt_base_pow_length (by norm_num) (digit_lt octets.reverse)
  rwa [List.length_map, List.length_reverse] at hvalue

/-! ## Lengths -/

/-- The octets that say how long an element is. -/
def lengthOctets (n : ℕ) : List UInt8 :=
  if n < 128 then [UInt8.ofNat n]
  else UInt8.ofNat (128 + (toOctets n).length) :: toOctets n

/-- Reads a length in its shortest form, and what follows it. -/
def readLength : List UInt8 → Option (ℕ × List UInt8)
  | [] => none
  | first :: rest =>
    if first.toNat < 128 then some (first.toNat, rest)
    else
      let count := first.toNat - 128
      let octets := rest.take count
      if count = 127 ∨ rest.length < count ∨ octets.head? = some 0 ∨ ofOctets octets < 128 then none
      else some (ofOctets octets, rest.drop count)

/-- A length has at most 126 digits. -/
def ShortLength (n : ℕ) : Prop := (toOctets n).length ≤ 126

theorem shortLength_of_lt {n : ℕ} (h : n < 2 ^ 32) : ShortLength n :=
  (length_toOctets_le (k := 4) (h.trans_eq (by norm_num))).trans (by norm_num)

theorem readLength_lengthOctets {n : ℕ} (h : ShortLength n) (rest : List UInt8) :
    readLength (lengthOctets n ++ rest) = some (n, rest) := by
  unfold lengthOctets
  split_ifs with hshort
  · have hvalue : (UInt8.ofNat n).toNat = n :=
      UInt8.toNat_ofNat_of_lt' (hshort.trans (by decide))
    rw [List.singleton_append, readLength, hvalue, if_pos hshort]
  · unfold ShortLength at h
    have hsize : 128 + (toOctets n).length < UInt8.size := by
      change 128 + (toOctets n).length < 256
      omega
    have hvalue : (UInt8.ofNat (128 + (toOctets n).length)).toNat = 128 + (toOctets n).length :=
      UInt8.toNat_ofNat_of_lt' hsize
    have hcount : 128 + (toOctets n).length - 128 = (toOctets n).length := by omega
    have haccepted : ¬((toOctets n).length = 127 ∨
        (toOctets n ++ rest).length < (toOctets n).length ∨
        (toOctets n).head? = some 0 ∨ n < 128) := by
      have hhead := head?_toOctets_ne n
      rw [List.length_append]
      simp only [hhead, false_or]
      omega
    rw [List.cons_append, readLength, hvalue, if_neg (by omega), hcount]
    simp only [List.take_left, List.drop_left, ofOctets_toOctets]
    exact if_neg haccepted

/-- Every length that is read has been written in its shortest form. -/
theorem eq_of_readLength {bytes rest : List UInt8} {n : ℕ}
    (h : readLength bytes = some (n, rest)) : bytes = lengthOctets n ++ rest := by
  cases bytes with
  | nil => simp [readLength] at h
  | cons first tail =>
    rw [readLength] at h
    split_ifs at h with hshort
    · obtain ⟨rfl, rfl⟩ := Prod.mk.inj (Option.some.inj h)
      rw [lengthOctets, if_pos hshort, UInt8.ofNat_toNat]
      rfl
    · dsimp only at h
      split_ifs at h with hrejected
      obtain ⟨rfl, rfl⟩ := Prod.mk.inj (Option.some.inj h)
      simp only [not_or] at hrejected
      obtain ⟨-, hlength, hhead, hlong⟩ := hrejected
      have htake : (tail.take (first.toNat - 128)).length = first.toNat - 128 := by
        rw [List.length_take]
        omega
      have hfirst : UInt8.ofNat (128 + (first.toNat - 128)) = first := by
        rw [Nat.add_sub_cancel' (by omega), UInt8.ofNat_toNat]
      rw [lengthOctets, if_neg hlong, toOctets_ofOctets hhead, htake, hfirst, List.cons_append,
        List.take_append_drop]

/-! ## Elements -/

def element (tag : UInt8) (content : List UInt8) : List UInt8 :=
  tag :: lengthOctets content.length ++ content

/-- Reads an element with a given tag: its content, and what follows it. -/
def readElement (tag : UInt8) : List UInt8 → Option (List UInt8 × List UInt8)
  | [] => none
  | first :: bytes =>
    if first ≠ tag then none
    else do
      let (length, rest) ← readLength bytes
      if rest.length < length then none else some (rest.take length, rest.drop length)

theorem readElement_element {content : List UInt8} (h : ShortLength content.length) (tag : UInt8)
    (rest : List UInt8) : readElement tag (element tag content ++ rest) = some (content, rest) := by
  have hlength : ¬(content ++ rest).length < content.length := by
    rw [List.length_append]
    omega
  rw [element, List.cons_append, List.cons_append, readElement, if_neg (not_not.mpr rfl),
    List.append_assoc, readLength_lengthOctets h]
  simp only [Option.bind_eq_bind, Option.bind_some, if_neg hlength, List.take_left,
    List.drop_left]

/-- Every element that is read has been written in the distinguished encoding. -/
theorem eq_of_readElement {tag : UInt8} {bytes content rest : List UInt8}
    (h : readElement tag bytes = some (content, rest)) : bytes = element tag content ++ rest := by
  cases bytes with
  | nil => simp [readElement] at h
  | cons first bytes =>
    rw [readElement] at h
    split_ifs at h with htag
    · rw [not_not] at htag
      obtain ⟨⟨length, following⟩, hread, hcontent⟩ := Option.bind_eq_some_iff.mp h
      dsimp only at hcontent
      split_ifs at hcontent with hshort
      obtain ⟨rfl, rfl⟩ := Prod.mk.inj (Option.some.inj hcontent)
      have hlength : (following.take length).length = length := by
        rw [List.length_take]
        omega
      rw [element, hlength, eq_of_readLength hread, htag, List.cons_append, List.cons_append,
        List.append_assoc, List.take_append_drop]

theorem length_element (tag : UInt8) (content : List UInt8) :
    (element tag content).length
      = (lengthOctets content.length).length + 1 + content.length := by
  rw [element, List.length_append, List.length_cons]

/-- The content is a part of the element. -/
theorem length_content_le (tag : UInt8) (content : List UInt8) :
    content.length ≤ (element tag content).length := by
  rw [length_element]
  omega

/-- Elements of one tag with different contents differ. -/
theorem element_inj {tag : UInt8} {first second : List UInt8}
    (hlength : (element tag first).length < 2 ^ 32) (h : element tag first = element tag second) :
    first = second := by
  have hread {content : List UInt8} (heq : element tag first = element tag content) :
      readElement tag (element tag first) = some (content, []) := by
    have hcontent := length_content_le tag content
    rw [← heq] at hcontent
    have hshort := shortLength_of_lt (hcontent.trans_lt hlength)
    simpa only [heq, List.append_nil] using readElement_element hshort tag []
  have hpair := Option.some.inj ((hread rfl).symm.trans (hread h))
  exact congrArg Prod.fst hpair

end PqMqtt.Der
