import PqMqtt.Foundation.Base64
import PqMqtt.Foundation.LineWrapping

/-!
# PEM files

`write_pem` of `gen_hawk_pki.c` writes a DER file as base 64 in lines of 64 characters between a
BEGIN and an END line.
-/

namespace PqMqtt.Signature

open LineWrapping

/-! ## The writer -/

def b64tab : List Char :=
  "ABCDEFGHIJKLMNOPQRSTUVWXYZabcdefghijklmnopqrstuvwxyz0123456789+/".toList

/-- `b64tab[six & 0x3f]` -/
def b64char (six : UInt32) : Char := b64tab.getD (six &&& 0x3f).toNat '='

/-- The octets of `der` from `i` on as `v`, with their number `n`, at most three. -/
def pemOctets (der : List UInt8) (i : ℕ) : UInt32 × ℕ :=
  let v := (der.getD i 0).toUInt32 <<< 16
  let n := 1
  let (v, n) :=
    if i + 1 < der.length then (v ||| (der.getD (i + 1) 0).toUInt32 <<< 8, n + 1) else (v, n)
  if i + 2 < der.length then (v ||| (der.getD (i + 2) 0).toUInt32, n + 1) else (v, n)

/-- `out` -/
def pemGroup (der : List UInt8) (i : ℕ) : List Char :=
  let (v, n) := pemOctets der i
  [b64char (v >>> 18), b64char (v >>> 12), if n > 1 then b64char (v >>> 6) else '=',
    if n > 2 then b64char v else '=']

/-- The loop over `i`; the column of the writer is `col`. -/
def pemLoop (der : List UInt8) (i : ℕ) (file : Writer Char) : Writer Char :=
  if i < der.length then pemLoop der (i + 3) ((pemGroup der i).foldl (Writer.put '\n' 64) file)
  else file
termination_by der.length - i

/-- What `write_pem` writes between its first and its last line. -/
def pemBody (der : List UInt8) : List Char := (pemLoop der 0 Writer.empty).finish '\n'

/-- `write_pem` -/
def writePem (type : List Char) (der : List UInt8) : List Char :=
  "-----BEGIN ".toList ++ type ++ "-----\n".toList ++ pemBody der ++
    "-----END ".toList ++ type ++ "-----\n".toList

/-! ## Groups -/

theorem b64tab_getD : ∀ v : Fin 64, b64tab.getD v.val '=' = Base64.standard.digit v := by
  decide +kernel

theorem b64char_eq (six : UInt32) : b64char six = Base64.digitOf Base64.standard six.toNat := by
  have hmask : (six &&& 0x3f).toNat = six.toNat % 64 := by
    rw [UInt32.toNat_and]
    exact Nat.and_two_pow_sub_one_eq_mod _ 6
  rw [b64char, hmask]
  exact b64tab_getD (Fin.ofNat 64 six.toNat)

theorem digitOf_congr {n m : ℕ} (h : n % 64 = m % 64) :
    Base64.digitOf Base64.standard n = Base64.digitOf Base64.standard m := by
  have hdigit : Fin.ofNat 64 n = Fin.ofNat 64 m := Fin.ext h
  rw [Base64.digitOf, hdigit, Base64.digitOf]

theorem toNat_shiftRight {v shift : UInt32} (h : shift.toNat < 32) :
    (v >>> shift).toNat = v.toNat / 2 ^ shift.toNat := by
  rw [UInt32.toNat_shiftRight, Nat.mod_eq_of_lt h, Nat.shiftRight_eq_div_pow]

/-- Octets put side by side. -/
theorem toNat_or_of_lt {high low : UInt32} {place value : ℕ}
    (hhigh : high.toNat = 2 ^ place * value) (hlow : low.toNat < 2 ^ place) :
    (high ||| low).toNat = high.toNat + low.toNat := by
  rw [UInt32.toNat_or, hhigh, Nat.two_pow_add_eq_or_of_lt hlow]

theorem toNat_first (a : UInt8) : (a.toUInt32 <<< 16).toNat = 2 ^ 16 * a.toNat := by
  have ha := a.toNat_lt
  have hshift : (16 : UInt32).toNat % 32 = 16 := by decide
  rw [UInt32.toNat_shiftLeft, UInt8.toNat_toUInt32, hshift, Nat.shiftLeft_eq]
  omega

theorem toNat_second (a b : UInt8) :
    (a.toUInt32 <<< 16 ||| b.toUInt32 <<< 8).toNat = 2 ^ 8 * (2 ^ 8 * a.toNat + b.toNat) := by
  have hb := b.toNat_lt
  have hshift : (8 : UInt32).toNat % 32 = 8 := by decide
  have hsecond : (b.toUInt32 <<< 8).toNat = 2 ^ 8 * b.toNat := by
    rw [UInt32.toNat_shiftLeft, UInt8.toNat_toUInt32, hshift, Nat.shiftLeft_eq]
    omega
  rw [toNat_or_of_lt (toNat_first a) (by omega), toNat_first, hsecond]
  omega

theorem toNat_third (a b c : UInt8) :
    (a.toUInt32 <<< 16 ||| b.toUInt32 <<< 8 ||| c.toUInt32).toNat =
      2 ^ 16 * a.toNat + 2 ^ 8 * b.toNat + c.toNat := by
  have hc : c.toUInt32.toNat < 2 ^ 8 := by
    rw [UInt8.toNat_toUInt32]
    exact c.toNat_lt
  rw [toNat_or_of_lt (toNat_second a b) hc, toNat_second, UInt8.toNat_toUInt32]
  omega

theorem getD_of_drop {der octets : List UInt8} {i : ℕ} (h : der.drop i = octets) (k : ℕ) :
    der.getD (i + k) 0 = octets.getD k 0 := by
  rw [← h, List.getD_eq_getElem?_getD, List.getD_eq_getElem?_getD, List.getElem?_drop]

section Octets

variable {der : List UInt8} {i : ℕ}

theorem pemOctets_one {a : UInt8} (h : der.drop i = [a]) :
    pemOctets der i = (a.toUInt32 <<< 16, 1) := by
  have hlength : der.length - i = 1 := by rw [← List.length_drop, h]; rfl
  have hfirst : der.getD i 0 = a := getD_of_drop h 0
  have hone : ¬i + 1 < der.length := by omega
  have htwo : ¬i + 2 < der.length := by omega
  simp only [pemOctets, hfirst, if_neg hone, if_neg htwo]

theorem pemOctets_two {a b : UInt8} (h : der.drop i = [a, b]) :
    pemOctets der i = (a.toUInt32 <<< 16 ||| b.toUInt32 <<< 8, 2) := by
  have hlength : der.length - i = 2 := by rw [← List.length_drop, h]; rfl
  have hfirst : der.getD i 0 = a := getD_of_drop h 0
  have hsecond : der.getD (i + 1) 0 = b := getD_of_drop h 1
  have hone : i + 1 < der.length := by omega
  have htwo : ¬i + 2 < der.length := by omega
  simp only [pemOctets, hfirst, hsecond, if_pos hone, if_neg htwo]

theorem pemOctets_three {a b c : UInt8} {rest : List UInt8} (h : der.drop i = a :: b :: c :: rest) :
    pemOctets der i = (a.toUInt32 <<< 16 ||| b.toUInt32 <<< 8 ||| c.toUInt32, 3) := by
  have hlength : der.length - i = rest.length + 3 := by rw [← List.length_drop, h]; rfl
  have hfirst : der.getD i 0 = a := getD_of_drop h 0
  have hsecond : der.getD (i + 1) 0 = b := getD_of_drop h 1
  have hthird : der.getD (i + 2) 0 = c := getD_of_drop h 2
  have hone : i + 1 < der.length := by omega
  have htwo : i + 2 < der.length := by omega
  simp only [pemOctets, hfirst, hsecond, hthird, if_pos hone, if_pos htwo]

/-- A character of a group is the digit of its six bits. -/
theorem b64char_shiftRight {v shift : UInt32} {n : ℕ} (hshift : shift.toNat < 32)
    (hn : v.toNat / 2 ^ shift.toNat % 64 = n % 64) :
    b64char (v >>> shift) = Base64.digitOf Base64.standard n := by
  rw [b64char_eq, toNat_shiftRight hshift]
  exact digitOf_congr hn

/-- A group of characters encodes the next three octets, or as many as are left. -/
theorem pemGroup_eq (h : i < der.length) :
    pemGroup der i = Base64.encodeGroup Base64.standard (der.drop i) := by
  have height : (18 : UInt32).toNat = 18 := rfl
  have htwelve : (12 : UInt32).toNat = 12 := rfl
  have hsix : (6 : UInt32).toNat = 6 := rfl
  rcases hdrop : der.drop i with _ | ⟨a, _ | ⟨b, _ | ⟨c, rest⟩⟩⟩
  · exact absurd (List.drop_eq_nil_iff.mp hdrop) (Nat.not_le.mpr h)
  · have hv := toNat_first a
    rw [pemGroup, pemOctets_one hdrop, Base64.encodeGroup]
    dsimp only
    rw [b64char_shiftRight (n := a.toNat / 4) (by decide) (by rw [height]; omega),
      b64char_shiftRight (n := a.toNat % 4 * 16) (by decide) (by rw [htwelve]; omega)]
    rfl
  · have hv := toNat_second a b
    have hb := b.toNat_lt
    rw [pemGroup, pemOctets_two hdrop, Base64.encodeGroup]
    dsimp only
    rw [b64char_shiftRight (n := a.toNat / 4) (by decide) (by rw [height]; omega),
      b64char_shiftRight (n := a.toNat % 4 * 16 + b.toNat / 16) (by decide)
        (by rw [htwelve]; omega),
      b64char_shiftRight (n := b.toNat % 16 * 4) (by decide) (by rw [hsix]; omega)]
    rfl
  · have hv := toNat_third a b c
    have hb := b.toNat_lt
    have hc := c.toNat_lt
    have hlast : b64char (a.toUInt32 <<< 16 ||| b.toUInt32 <<< 8 ||| c.toUInt32) =
        Base64.digitOf Base64.standard (c.toNat % 64) := by
      rw [b64char_eq, hv]
      exact digitOf_congr (by omega)
    rw [pemGroup, pemOctets_three hdrop, Base64.encodeGroup]
    dsimp only
    rw [b64char_shiftRight (n := a.toNat / 4) (by decide) (by rw [height]; omega),
      b64char_shiftRight (n := a.toNat % 4 * 16 + b.toNat / 16) (by decide)
        (by rw [htwelve]; omega),
      b64char_shiftRight (n := b.toNat % 16 * 4 + c.toNat / 64) (by decide)
        (by rw [hsix]; omega), hlast]
    rfl

end Octets

/-! ## The file -/

/-- The loop writes the encoding of what is left. -/
theorem pemLoop_eq (der : List UInt8) (i : ℕ) (file : Writer Char) :
    pemLoop der i file =
      (Base64.encode Base64.standard (der.drop i)).foldl (Writer.put '\n' 64) file := by
  induction i, file using pemLoop.induct der with
  | case1 i file h ih =>
    rw [pemLoop, if_pos h, ih, pemGroup_eq h, ← List.foldl_append, ← List.drop_drop]
    rcases der.drop i with _ | ⟨a, _ | ⟨b, _ | ⟨c, rest⟩⟩⟩ <;> rfl
  | case2 i file h =>
    rw [pemLoop, if_neg h, List.drop_eq_nil_of_le (Nat.not_lt.mp h)]
    rfl

theorem newline_notMem_encode (der : List UInt8) :
    '\n' ∉ Base64.encode Base64.standard der := by
  have hdigits : ∀ v, Base64.standard.digit v ≠ '\n' := by decide
  have hpadding : Base64.standard.padding ≠ '\n' := by decide
  have hall := Base64.forall_mem_encode (p := (· ≠ '\n')) hdigits hpadding der
  intro hmem
  exact hall '\n' hmem rfl

/-- Between its first and its last line, the file without line breaks is the base 64 of the octets,
which decodes to them; all lines but the last have 64 characters, and no line is empty. -/
theorem pem_body (type : List Char) (der : List UInt8) :
    ∃ body lines, writePem type der = "-----BEGIN ".toList ++ type ++ "-----\n".toList ++ body ++
        "-----END ".toList ++ type ++ "-----\n".toList ∧
      body.filter (· ≠ '\n') = Base64.encode Base64.standard der ∧
      Base64.decode Base64.standard (body.filter (· ≠ '\n')) = some der ∧
      body = Delimited.unlines '\n' lines ∧ (∀ line ∈ lines, '\n' ∉ line) ∧
      (∀ line ∈ lines.dropLast, line.length = 64) ∧
      ∀ line ∈ lines, 1 ≤ line.length ∧ line.length ≤ 64 := by
  have hempty : Wrapped '\n' 64 [] Writer.empty := wrapped_empty (by decide)
  obtain ⟨lines, hfinish, hflatten, hfull, hlengths⟩ :=
    (hempty.foldl_put (Base64.encode Base64.standard der)).finish
  have hbody : pemBody der = Delimited.unlines '\n' lines := by
    rw [pemBody, pemLoop_eq, List.drop_zero, hfinish]
  have hbreaks : ∀ line ∈ lines, '\n' ∉ line := by
    intro line hline hbreak
    apply newline_notMem_encode der
    rw [← List.nil_append (Base64.encode Base64.standard der), ← hflatten]
    exact List.mem_flatten.mpr ⟨line, hline, hbreak⟩
  have hfilter : (pemBody der).filter (· ≠ '\n') = Base64.encode Base64.standard der := by
    rw [hbody, filter_unlines hbreaks, hflatten, List.nil_append]
  refine ⟨pemBody der, lines, rfl, hfilter, ?_, hbody, hbreaks, hfull, hlengths⟩
  rw [hfilter]
  exact Base64.decode_encode der

end PqMqtt.Signature
