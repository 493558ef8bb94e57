import Mathlib.Tactic.IntervalCases
import PqMqtt.Analysis.PyText

/-!
# Numbers printed by the firmware and read by the analyzers

The `printf` conversions of the attempt log, and what `int` and `float` read from the text they
print, whole or cut.
-/

namespace PqMqtt.Analysis

/-! ## Conversions -/

/-- `%u` and `%PRIu64` -/
def formatU (n : ℕ) : Text := Nat.toDigits 10 n

/-- `%d` -/
def formatD (n : ℤ) : Text := if n < 0 then '-' :: formatU n.natAbs else formatU n.natAbs

/-- The number of thousandths that `%.3f` prints for a number that is not negative. -/
def thousandths (q : ℚ) : ℕ := (Binary64.roundHalfEven (q * 1000)).toNat

/-- The three digits after the point. -/
def formatFraction (n : ℕ) : Text :=
  [(n / 100 % 10).digitChar, (n / 10 % 10).digitChar, (n % 10).digitChar]

/-- `%.3f` of a number that is not negative, from its number of thousandths. -/
def formatThousandths (n : ℕ) : Text := formatU (n / 1000) ++ '.' :: formatFraction n

/-- `(double)us / 1000.0` -/
def msOfUs (us : ℕ) : ℚ := Binary64.round (Binary64.round us / 1000)

/-- `%.3f` of `(double)us / 1000.0` -/
def formatMs (us : ℕ) : Text := formatThousandths (thousandths (msOfUs us))

/-! ## Exact milliseconds -/

/-- Below `1000 * 2 ^ 43` microseconds, the double that is printed is within half a thousandth of
the milliseconds. -/
theorem thousandths_msOfUs {us : ℕ} (h : us < 1000 * 2 ^ 43) : thousandths (msOfUs us) = us := by
  rcases Nat.eq_zero_or_pos us with rfl | hpos
  · simp [thousandths, msOfUs, Binary64.round, Binary64.roundHalfEven]
  have hround : Binary64.round (us : ℚ) = us := by
    have hint : |(us : ℤ)| < 2 ^ 53 := by
      rw [Nat.abs_cast]
      norm_num
      omega
    exact_mod_cast Binary64.round_intCast hint
  have hms : (0 : ℚ) < us / 1000 := by positivity
  have hbound : (us / 1000 : ℚ) < 2 ^ (43 : ℤ) := by
    have hcast : (us : ℚ) < 1000 * 2 ^ 43 := by exact_mod_cast h
    rw [div_lt_iff₀ (by norm_num), mul_comm]
    exact_mod_cast hcast
  have hulp : (2 : ℚ) ^ Binary64.ulpExponent (us / 1000) ≤ 2 ^ (-10 : ℤ) :=
    zpow_le_zpow_right₀ (by norm_num) (Binary64.ulpExponent_le (by norm_num) hms hbound)
  have herror : |msOfUs us - us / 1000| ≤ 1 / 2048 := by
    rw [msOfUs, hround]
    calc |Binary64.round (us / 1000) - us / 1000|
        ≤ 1 / 2 * 2 ^ Binary64.ulpExponent (us / 1000) := Binary64.abs_round_sub_le_half _
      _ ≤ 1 / 2 * 2 ^ (-10 : ℤ) := by gcongr
      _ = 1 / 2048 := by norm_num
  have hnear : |msOfUs us * 1000 - (us : ℤ)| < 1 / 2 := by
    have hscale : msOfUs us * 1000 - (us : ℤ) = (msOfUs us - us / 1000) * 1000 := by
      push_cast
      ring
    rw [hscale, abs_mul]
    calc |msOfUs us - us / 1000| * |1000| ≤ 1 / 2048 * |1000| := by gcongr
      _ < 1 / 2 := by norm_num
  rw [thousandths, Binary64.roundHalfEven_eq hnear, Int.toNat_natCast]

/-- Milliseconds from a 64-bit counter are far from any limit. -/
theorem thousandths_lt {us : ℕ} (h : us < 2 ^ 64) : thousandths (msOfUs us) < 10 ^ 30 := by
  have hus : |(us : ℚ)| ≤ 2 ^ 64 := by
    rw [abs_of_nonneg (Nat.cast_nonneg us)]
    exact_mod_cast h.le
  have hfirst := Binary64.abs_round_le (us : ℚ)
  have hsecond := Binary64.abs_round_le (Binary64.round us / 1000)
  rw [abs_div, abs_of_pos (by norm_num : (0 : ℚ) < 1000)] at hsecond
  have hnonneg : 0 ≤ msOfUs us :=
    Binary64.round_nonneg (div_nonneg (Binary64.round_nonneg (Nat.cast_nonneg us)) (by norm_num))
  have hround := Binary64.abs_roundHalfEven_sub_le (msOfUs us * 1000)
  have hms : msOfUs us ≤ 2 ^ 68 := by
    have habs : |msOfUs us| ≤ 2 * (|Binary64.round us| / 1000) + 1 := hsecond
    rw [abs_of_nonneg hnonneg] at habs
    linarith
  have hcount : ((Binary64.roundHalfEven (msOfUs us * 1000) : ℤ) : ℚ) < 10 ^ 30 := by
    have hupper := (abs_le.mp hround).2
    linarith
  have hint : Binary64.roundHalfEven (msOfUs us * 1000) < 10 ^ 30 := by exact_mod_cast hcount
  rw [thousandths]
  omega

/-! ## Digits -/

/-- The ten digits. -/
def digits : Text := ['0', '1', '2', '3', '4', '5', '6', '7', '8', '9']

theorem mem_digits_of_isDigit {c : Char} (h : c.isDigit = true) : c ∈ digits := by
  obtain ⟨hlow, hhigh⟩ := Char.isDigit_iff_toNat.mp h
  have hcode : 48 ≤ c.toNat ∧ c.toNat ≤ 57 := ⟨hlow, hhigh⟩
  obtain ⟨hlow, hhigh⟩ := hcode
  rw [← Char.ofNat_toNat c]
  interval_cases c.toNat <;> decide

/-- What holds of the ten digits holds of every digit. -/
theorem forall_isDigit {p : Char → Prop} (h : digits.Forall p) {c : Char}
    (hc : c.isDigit = true) : p c :=
  List.forall_iff_forall_mem.mp h c (mem_digits_of_isDigit hc)

theorem formatU_isDigit (n : ℕ) : ∀ c ∈ formatU n, c.isDigit = true :=
  fun _ hc ↦ Nat.isDigit_of_mem_toDigits (by norm_num) (by norm_num) hc

theorem formatU_ne_nil (n : ℕ) : formatU n ≠ [] := Nat.toDigits_ne_nil

theorem formatFraction_isDigit (n : ℕ) : ∀ c ∈ formatFraction n, c.isDigit = true := by
  intro c hc
  simp only [formatFraction, List.mem_cons, List.not_mem_nil, or_false] at hc
  rcases hc with rfl | rfl | rfl <;> simp [Nat.mod_lt]

theorem ofDigitChars_formatU (n : ℕ) : Nat.ofDigitChars 10 (formatU n) 0 = n :=
  Nat.ofDigitChars_ten_toDigits

theorem ofDigitChars_formatThousandths (n : ℕ) :
    Nat.ofDigitChars 10 (formatU (n / 1000) ++ formatFraction n) 0 = n := by
  rw [Nat.ofDigitChars_append, ofDigitChars_formatU]
  simp only [formatFraction]
  rw [Nat.ofDigitChars_cons_digitChar_of_lt_ten (Nat.mod_lt _ (by norm_num)),
    Nat.ofDigitChars_cons_digitChar_of_lt_ten (Nat.mod_lt _ (by norm_num)),
    Nat.ofDigitChars_cons_digitChar_of_lt_ten (Nat.mod_lt _ (by norm_num)), Nat.ofDigitChars_nil]
  omega

theorem digitPart_of_isDigit {text : Text} (hne : text ≠ [])
    (h : ∀ c ∈ text, c.isDigit = true) : digitPart text = some text := by
  induction text with
  | nil => exact absurd rfl hne
  | cons c rest ih =>
    rw [List.forall_mem_cons] at h
    cases rest with
    | nil => simp [digitPart, h.1]
    | cons next rest =>
      have hnext : ¬next = '_' :=
        forall_isDigit (p := fun c ↦ ¬c = '_') (by decide) (h.2 next (List.mem_cons_self ..))
      rw [digitPart, if_pos h.1, ih (by simp) h.2]
      · rfl
      · simp
      · rintro other ⟨rfl, -⟩
        exact hnext rfl

/-! ## Reading numbers -/

/-- The unsigned numbers of the log, and what is left of them when the line is cut. -/
structure Numeral (text : Text) (whole fraction : Text) : Prop where
  whole_ne_nil : whole ≠ []
  whole_isDigit : ∀ c ∈ whole, c.isDigit = true
  fraction_isDigit : ∀ c ∈ fraction, c.isDigit = true
  eq_or_eq : text = whole ∧ fraction = [] ∨ text = whole ++ '.' :: fraction

theorem formatU_numeral (n : ℕ) : Numeral (formatU n) (formatU n) [] :=
  ⟨formatU_ne_nil n, formatU_isDigit n, by simp, Or.inl ⟨rfl, rfl⟩⟩

theorem formatThousandths_numeral (n : ℕ) :
    Numeral (formatThousandths n) (formatU (n / 1000)) (formatFraction n) :=
  ⟨formatU_ne_nil _, formatU_isDigit _, formatFraction_isDigit n, Or.inr rfl⟩

namespace Numeral

variable {text whole fraction : Text}

/-- What is left of a number when it is cut is empty or a number. -/
theorem of_prefix (h : Numeral text whole fraction) {piece : Text} (hpiece : piece <+: text) :
    piece = [] ∨ ∃ whole fraction, Numeral piece whole fraction := by
  have hwhole {piece : Text} (hbegins : piece <+: whole) :
      piece = [] ∨ ∃ whole fraction, Numeral piece whole fraction := by
    rcases eq_or_ne piece [] with hempty | hne
    · exact Or.inl hempty
    · exact Or.inr ⟨piece, [], hne, fun c hc ↦ h.whole_isDigit c (hbegins.subset hc), by simp,
        Or.inl ⟨rfl, rfl⟩⟩
  rcases h.eq_or_eq with ⟨rfl, -⟩ | rfl
  · exact hwhole hpiece
  rcases List.prefix_or_prefix_of_prefix hpiece (List.prefix_append whole _) with hin | hbeyond
  · exact hwhole hin
  obtain ⟨beyond, rfl⟩ := hbeyond
  rw [List.prefix_append_right_inj] at hpiece
  cases beyond with
  | nil =>
    rw [List.append_nil]
    exact hwhole (List.prefix_refl whole)
  | cons c beyond =>
    obtain ⟨rfl, hfraction⟩ := List.cons_prefix_cons.mp hpiece
    exact Or.inr ⟨whole, beyond, h.whole_ne_nil, h.whole_isDigit,
      fun d hd ↦ h.fraction_isDigit d (hfraction.subset hd), Or.inr rfl⟩

/-- The characters of a number are digits and points. -/
theorem isDigit_or_eq (h : Numeral text whole fraction) :
    ∀ c ∈ text, c.isDigit = true ∨ c = '.' := by
  intro c hc
  rcases h.eq_or_eq with ⟨rfl, -⟩ | rfl
  · exact Or.inl (h.whole_isDigit c hc)
  · rcases List.mem_append.mp hc with hwhole | hrest
    · exact Or.inl (h.whole_isDigit c hwhole)
    · rcases List.mem_cons.mp hrest with rfl | hfraction
      · exact Or.inr rfl
      · exact Or.inl (h.fraction_isDigit c hfraction)

theorem ne_nil (h : Numeral text whole fraction) : text ≠ [] := by
  have hne := h.whole_ne_nil
  rcases h.eq_or_eq with ⟨rfl, -⟩ | rfl
  · exact hne
  · simp

/-- What holds of the digits and the point holds of every character of a number. -/
theorem forall_mem (h : Numeral text whole fraction) {p : Char → Prop}
    (hp : digits.Forall p) (hpoint : p '.') : ∀ c ∈ text, p c := by
  intro c hc
  rcases h.isDigit_or_eq c hc with hdigit | rfl
  · exact forall_isDigit hp hdigit
  · exact hpoint

theorem decimalLiteral_eq (h : Numeral text whole fraction) :
    decimalLiteral text
      = some ((Nat.ofDigitChars 10 (whole ++ fraction) 0 : ℚ) * 10 ^ (-(fraction.length : ℤ))) := by
  have hexponent : text.span (· ≠ 'e') = (text, []) := by
    have hall : ∀ c ∈ text, decide (c ≠ 'e') = true :=
      h.forall_mem (p := fun c ↦ decide (c ≠ 'e') = true) (by decide) (by decide)
    rw [List.span_eq_takeWhile_dropWhile, List.takeWhile_eq_self_iff.mpr hall,
      List.dropWhile_eq_nil_iff.mpr hall]
  have hwhole : ∀ c ∈ whole, decide (c ≠ '.') = true :=
    fun c hc ↦
      forall_isDigit (p := fun c ↦ decide (c ≠ '.') = true) (by decide) (h.whole_isDigit c hc)
  obtain ⟨rest, hspan, hrest⟩ : ∃ rest, text.span (· ≠ '.') = (whole, rest) ∧
      rest.tail = fraction := by
    rcases h.eq_or_eq with ⟨rfl, rfl⟩ | rfl
    · exact ⟨[], by rw [List.span_eq_takeWhile_dropWhile, List.takeWhile_eq_self_iff.mpr hwhole,
        List.dropWhile_eq_nil_iff.mpr hwhole], rfl⟩
    · refine ⟨'.' :: fraction, ?_, rfl⟩
      rw [List.span_eq_takeWhile_dropWhile, List.takeWhile_append_of_pos hwhole,
        List.dropWhile_append_of_pos hwhole]
      simp
  have hreadWhole : optionalDigits whole = some whole := by
    rw [optionalDigits, if_neg h.whole_ne_nil,
      digitPart_of_isDigit h.whole_ne_nil h.whole_isDigit]
  have hreadFraction : optionalDigits fraction = some fraction := by
    rcases eq_or_ne fraction [] with rfl | hne
    · rfl
    · rw [optionalDigits, if_neg hne, digitPart_of_isDigit hne h.fraction_isDigit]
  have hdigits : whole ++ fraction ≠ [] := by simp [h.whole_ne_nil]
  simp only [decimalLiteral, hexponent, hspan, hrest, hreadWhole, hreadFraction, bind,
    Option.bind_some, if_neg hdigits, zero_sub]

theorem numberText_eq (h : Numeral text whole fraction) : numberText text = text :=
  numberText_of_forall
    (h.forall_mem (p := fun c ↦ asciiNumeral c = c ∧ isAsciiSpace c = false) (by decide)
      (by decide))

theorem map_toLower (h : Numeral text whole fraction) : text.map Char.toLower = text :=
  (List.map_congr_left (h.forall_mem (p := fun c ↦ c.toLower = c) (by decide) (by decide))).trans
    (List.map_id text)

/-- A number begins with a digit. -/
theorem ne_cons (h : Numeral text whole fraction) {c : Char} {rest : Text}
    (hc : c.isDigit = false) : text ≠ c :: rest := by
  rintro rfl
  obtain ⟨d, others, hwhole⟩ := List.exists_cons_of_ne_nil h.whole_ne_nil
  have hd : d.isDigit = true := h.whole_isDigit d (by simp [hwhole])
  have hcd : c = d := by
    rcases h.eq_or_eq with ⟨heq, -⟩ | heq
    · rw [hwhole] at heq
      exact (List.cons.inj heq).1
    · rw [hwhole, List.cons_append] at heq
      exact (List.cons.inj heq).1
  rw [hcd, hd] at hc
  exact absurd hc (by decide)

theorem splitSign_eq (h : Numeral text whole fraction) : splitSign text = (false, text) := by
  unfold splitSign
  split
  · exact absurd rfl (h.ne_cons (by decide))
  · exact absurd rfl (h.ne_cons (by decide))
  · rfl

/-- `float` of a text that is a number after its sign. -/
theorem pyFloat_of_splitSign {signed : Text} {negative : Bool} (h : Numeral text whole fraction)
    (hsign : splitSign ((numberText signed).map Char.toLower) = (negative, text)) :
    pyFloat signed = .ok (Binary64.ofRat (negateIf negative
      ((Nat.ofDigitChars 10 (whole ++ fraction) 0 : ℚ) * 10 ^ (-(fraction.length : ℤ))))) := by
  have hinf : ¬(text = "inf".toList ∨ text = "infinity".toList) := by
    rintro (hname | hname)
    · exact h.ne_cons (by decide) hname
    · exact h.ne_cons (by decide) hname
  have hnan : text ≠ "nan".toList := h.ne_cons (by decide)
  simp only [pyFloat, hsign, if_neg hinf, if_neg hnan, h.decimalLiteral_eq]

theorem numberText_minus (h : Numeral text whole fraction) :
    numberText ('-' :: text) = '-' :: text := by
  apply numberText_of_forall
  intro c hc
  rcases List.mem_cons.mp hc with rfl | htext
  · decide
  · exact h.forall_mem (p := fun c ↦ asciiNumeral c = c ∧ isAsciiSpace c = false) (by decide)
      (by decide) c htext

/-- `float` of a number after a minus sign. -/
theorem pyFloat_minus (h : Numeral text whole fraction) :
    pyFloat ('-' :: text) = .ok (Binary64.ofRat
      (-((Nat.ofDigitChars 10 (whole ++ fraction) 0 : ℚ) * 10 ^ (-(fraction.length : ℤ))))) := by
  have hsign : splitSign ((numberText ('-' :: text)).map Char.toLower) = (true, text) := by
    rw [h.numberText_minus, List.map_cons, h.map_toLower]
    rfl
  rw [h.pyFloat_of_splitSign hsign]
  rfl

/-- `float` reads every number. -/
theorem pyFloat_eq (h : Numeral text whole fraction) :
    pyFloat text = .ok (Binary64.ofRat
      ((Nat.ofDigitChars 10 (whole ++ fraction) 0 : ℚ) * 10 ^ (-(fraction.length : ℤ)))) := by
  rw [h.pyFloat_of_splitSign (by rw [h.numberText_eq, h.map_toLower, h.splitSign_eq])]
  rfl

end Numeral

/-! ## Round trips -/

theorem pyFloat_formatU (n : ℕ) : pyFloat (formatU n) = .ok (Binary64.ofRat n) := by
  rw [(formatU_numeral n).pyFloat_eq, List.append_nil, ofDigitChars_formatU]
  simp

theorem pyFloat_formatThousandths (n : ℕ) :
    pyFloat (formatThousandths n) = .ok (Binary64.ofRat (n / 1000)) := by
  have hlength : (formatFraction n).length = 3 := rfl
  rw [(formatThousandths_numeral n).pyFloat_eq, ofDigitChars_formatThousandths, hlength]
  norm_num [div_eq_mul_inv]

theorem formatD_natCast (n : ℕ) : formatD n = formatU n := by
  simp [formatD]

theorem formatD_neg {n : ℤ} (h : n < 0) : formatD n = '-' :: formatU n.natAbs := if_pos h

theorem pyFloat_formatD (n : ℤ) : pyFloat (formatD n) = .ok (Binary64.ofRat n) := by
  rcases lt_or_ge n 0 with hneg | hnonneg
  · have hvalue : -((n.natAbs : ℕ) : ℚ) = n := by
      have hint : -((n.natAbs : ℕ) : ℤ) = n := by omega
      exact_mod_cast hint
    rw [formatD_neg hneg, (formatU_numeral n.natAbs).pyFloat_minus, List.append_nil,
      ofDigitChars_formatU]
    simp only [List.length_nil, Nat.cast_zero, neg_zero, zpow_zero, mul_one, hvalue]
  · lift n to ℕ using hnonneg
    rw [formatD_natCast, pyFloat_formatU]
    rfl

/-- A 64-bit number has at most twenty digits. -/
theorem formatU_length_le {n : ℕ} (h : n < 2 ^ 64) : (formatU n).length ≤ 20 :=
  (Nat.length_toDigits_le_iff (by norm_num) (by norm_num)).mpr (h.trans (by norm_num))

theorem countP_isDigit_formatU {n : ℕ} (h : n < 2 ^ 64) :
    (formatU n).countP Char.isDigit ≤ maxStrDigits := by
  have hlength := formatU_length_le h
  have hcount := List.countP_le_length (p := Char.isDigit) (l := formatU n)
  simp only [maxStrDigits]
  omega

theorem pyInt_formatU {n : ℕ} (h : n < 2 ^ 64) : pyInt (formatU n) = .ok (n : ℤ) := by
  have hliteral : integerLiteral (formatU n) = some (n : ℤ) := by
    simp only [integerLiteral, (formatU_numeral n).splitSign_eq,
      digitPart_of_isDigit (formatU_ne_nil n) (formatU_isDigit n), Option.map_some,
      ofDigitChars_formatU, Bool.false_eq_true, if_false]
  simp only [pyInt, (formatU_numeral n).numberText_eq, hliteral,
    if_neg (countP_isDigit_formatU h).not_gt]

theorem pyInt_formatD {n : ℤ} (h : n.natAbs < 2 ^ 64) : pyInt (formatD n) = .ok n := by
  rcases lt_or_ge n 0 with hneg | hnonneg
  · have hsign : splitSign ('-' :: formatU n.natAbs) = (true, formatU n.natAbs) := rfl
    have hliteral : integerLiteral ('-' :: formatU n.natAbs) = some n := by
      simp only [integerLiteral, hsign, digitPart_of_isDigit (formatU_ne_nil _) (formatU_isDigit _),
        Option.map_some, ofDigitChars_formatU, if_true]
      exact congrArg some (by omega)
    have hcount : ('-' :: formatU n.natAbs).countP Char.isDigit ≤ maxStrDigits := by
      rw [List.countP_cons_of_neg (by decide)]
      exact countP_isDigit_formatU h
    rw [formatD_neg hneg]
    simp only [pyInt, (formatU_numeral _).numberText_minus, hliteral, if_neg hcount.not_gt]
  · lift n to ℕ using hnonneg
    rw [Int.natAbs_natCast] at h
    rw [formatD_natCast, pyInt_formatU h]

theorem natAbs_toInt_lt (value : Int32) : value.toInt.natAbs < 2 ^ 64 := by
  have hlow := value.le_toInt
  have hhigh := value.toInt_lt
  omega

/-- `int(float(text))` of an integer below `2 ^ 53` is exact. -/
theorem intOfFloat_ofRat {n : ℤ} (h : |n| < 2 ^ 53) : intOfFloat (Binary64.ofRat n) = .ok n := by
  rw [Binary64.ofRat_intCast h, intOfFloat]
  simp

end PqMqtt.Analysis
