import Mathlib.Data.List.Basic
import Mathlib.Data.UInt

/-!
# Base 64

Three octets are written as four digits of six bits each; one or two octets at the end are filled
up with zero bits, and padding fills up the digits.  The decoder takes padding only at the end and
only after bits that are zero.  An encoded text is decoded to the octets it was made from, for
every alphabet whose digits can be told apart.
-/

namespace PqMqtt.Base64

/-- Digits that can be told from each other and from the padding. -/
structure Alphabet where
  digit : Fin 64 → Char
  value : Char → Option (Fin 64)
  padding : Char
  value_digit : ∀ digitValue, value (digit digitValue) = some digitValue
  value_padding : value padding = none

/-- Letters, decimal digits, plus and slash, padded with equals signs. -/
def standard : Alphabet where
  digit v :=
    if v.val < 26 then Char.ofNat (v.val + 65)
    else if v.val < 52 then Char.ofNat (v.val + 71)
    else if v.val < 62 then Char.ofNat (v.val - 4)
    else if v.val = 62 then '+' else '/'
  value c :=
    if 65 ≤ c.toNat ∧ c.toNat ≤ 90 then some (Fin.ofNat 64 (c.toNat - 65))
    else if 97 ≤ c.toNat ∧ c.toNat ≤ 122 then some (Fin.ofNat 64 (c.toNat - 71))
    else if 48 ≤ c.toNat ∧ c.toNat ≤ 57 then some (Fin.ofNat 64 (c.toNat + 4))
    else if c = '+' then some 62 else if c = '/' then some 63 else none
  padding := '='
  value_digit := by decide
  value_padding := by decide

/-! ## Groups -/

section Groups

variable (alphabet : Alphabet)

/-- The digit of a number below 64. -/
def digitOf (n : ℕ) : Char := alphabet.digit (Fin.ofNat 64 n)

/-- The digits of one to three octets. -/
def encodeGroup : List UInt8 → List Char
  | [] => []
  | [a] => [digitOf alphabet (a.toNat / 4), digitOf alphabet (a.toNat % 4 * 16),
      alphabet.padding, alphabet.padding]
  | [a, b] => [digitOf alphabet (a.toNat / 4), digitOf alphabet (a.toNat % 4 * 16 + b.toNat / 16),
      digitOf alphabet (b.toNat % 16 * 4), alphabet.padding]
  | a :: b :: c :: _ => [digitOf alphabet (a.toNat / 4),
      digitOf alphabet (a.toNat % 4 * 16 + b.toNat / 16),
      digitOf alphabet (b.toNat % 16 * 4 + c.toNat / 64), digitOf alphabet (c.toNat % 64)]

def encode : List UInt8 → List Char
  | a :: b :: c :: rest => encodeGroup alphabet [a, b, c] ++ encode rest
  | octets => encodeGroup alphabet octets

/-- The first, the second and the third octet of four digits. -/
def firstOctet (x y : Fin 64) : UInt8 := UInt8.ofNat (x.val * 4 + y.val / 16)

def secondOctet (y z : Fin 64) : UInt8 := UInt8.ofNat (y.val % 16 * 16 + z.val / 4)

def thirdOctet (z w : Fin 64) : UInt8 := UInt8.ofNat (z.val % 4 * 64 + w.val)

/-- The octets of a text without breaks; padding ends the text and stands for zero bits. -/
def decode : List Char → Option (List UInt8)
  | [] => some []
  | a :: b :: c :: d :: rest =>
    match alphabet.value a, alphabet.value b, alphabet.value c, alphabet.value d with
    | some x, some y, some z, some w =>
      (decode rest).map ([firstOctet x y, secondOctet y z, thirdOctet z w] ++ ·)
    | some x, some y, some z, none =>
      if d = alphabet.padding ∧ rest = [] ∧ z.val % 4 = 0 then
        some [firstOctet x y, secondOctet y z]
      else none
    | some x, some y, none, none =>
      if c = alphabet.padding ∧ d = alphabet.padding ∧ rest = [] ∧ y.val % 16 = 0 then
        some [firstOctet x y]
      else none
    | _, _, _, _ => none
  | _ => none

end Groups

/-- The characters of an encoded text are digits and padding. -/
theorem forall_mem_encode {alphabet : Alphabet} {p : Char → Prop}
    (hdigit : ∀ v, p (alphabet.digit v)) (hpadding : p alphabet.padding) (octets : List UInt8) :
    ∀ c ∈ encode alphabet octets, p c := by
  have hgroup : ∀ group, ∀ c ∈ encodeGroup alphabet group, p c := by
    intro group
    rcases group with _ | ⟨a, _ | ⟨b, _ | ⟨c, rest⟩⟩⟩ <;>
      simp [encodeGroup, digitOf, hdigit, hpadding]
  induction octets using encode.induct with
  | case1 a b c rest ih =>
    intro character hmem
    rw [encode] at hmem
    rcases List.mem_append.mp hmem with hfirst | hrest
    · exact hgroup _ character hfirst
    · exact ih character hrest
  | case2 octets hshort =>
    intro character hmem
    rw [encode] at hmem
    · exact hgroup octets character hmem
    · exact hshort

/-! ## Round trip -/

section RoundTrip

variable {alphabet : Alphabet}

@[simp]
theorem value_digitOf (n : ℕ) : alphabet.value (digitOf alphabet n) = some (Fin.ofNat 64 n) :=
  alphabet.value_digit _

theorem val_ofNat {n : ℕ} (h : n < 64) : (Fin.ofNat 64 n).val = n := Nat.mod_eq_of_lt h

theorem octet_eq {octet : UInt8} {n : ℕ} (h : n = octet.toNat) : UInt8.ofNat n = octet := by
  rw [h, UInt8.ofNat_toNat]

theorem firstOctet_eq {a : UInt8} {x y : Fin 64} (hx : x.val = a.toNat / 4)
    (hy : y.val / 16 = a.toNat % 4) : firstOctet x y = a := by
  apply octet_eq
  rw [hx, hy]
  exact Nat.div_add_mod' _ _

theorem secondOctet_eq {b : UInt8} {y z : Fin 64} (hy : y.val % 16 = b.toNat / 16)
    (hz : z.val / 4 = b.toNat % 16) : secondOctet y z = b := by
  apply octet_eq
  rw [hy, hz]
  exact Nat.div_add_mod' _ _

theorem thirdOctet_eq {c : UInt8} {z w : Fin 64} (hz : z.val % 4 = c.toNat / 64)
    (hw : w.val = c.toNat % 64) : thirdOctet z w = c := by
  apply octet_eq
  rw [hz, hw]
  exact Nat.div_add_mod' _ _

/-- Decoding an encoded text gives the octets back. -/
theorem decode_encode (octets : List UInt8) :
    decode alphabet (encode alphabet octets) = some octets := by
  induction octets using encode.induct with
  | case1 a b c rest ih =>
    have ha := a.toNat_lt
    have hb := b.toNat_lt
    have hc := c.toNat_lt
    have hx : (Fin.ofNat 64 (a.toNat / 4)).val = a.toNat / 4 := val_ofNat (by omega)
    have hy := val_ofNat (n := a.toNat % 4 * 16 + b.toNat / 16) (by omega)
    have hz := val_ofNat (n := b.toNat % 16 * 4 + c.toNat / 64) (by omega)
    have hw := val_ofNat (n := c.toNat % 64) (by omega)
    rw [encode, encodeGroup]
    simp only [List.cons_append, List.nil_append, decode, value_digitOf, ih, Option.map_some]
    rw [firstOctet_eq hx (by omega), secondOctet_eq (b := b) (by omega) (by omega),
      thirdOctet_eq (by omega) hw]
  | case2 octets hshort =>
    rcases octets with _ | ⟨a, _ | ⟨b, _ | ⟨c, rest⟩⟩⟩
    · rfl
    · have ha := a.toNat_lt
      have hx : (Fin.ofNat 64 (a.toNat / 4)).val = a.toNat / 4 := val_ofNat (by omega)
      have hy := val_ofNat (n := a.toNat % 4 * 16) (by omega)
      rw [encode, encodeGroup, decode]
      simp only [value_digitOf, alphabet.value_padding, true_and]
      rw [if_pos (by omega), firstOctet_eq hx (by omega)]
      · exact hshort
    · have ha := a.toNat_lt
      have hb := b.toNat_lt
      have hx : (Fin.ofNat 64 (a.toNat / 4)).val = a.toNat / 4 := val_ofNat (by omega)
      have hy := val_ofNat (n := a.toNat % 4 * 16 + b.toNat / 16) (by omega)
      have hz := val_ofNat (n := b.toNat % 16 * 4) (by omega)
      rw [encode, encodeGroup, decode]
      simp only [value_digitOf, alphabet.value_padding, true_and]
      rw [if_pos (by omega), firstOctet_eq hx (by omega),
        secondOctet_eq (b := b) (by omega) (by omega)]
      · exact hshort
    · exact absurd rfl (hshort a b c rest)

end RoundTrip

end PqMqtt.Base64
