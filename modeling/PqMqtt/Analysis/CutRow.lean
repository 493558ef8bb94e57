import PqMqtt.Analysis.RowReading

/-!
# Cut rows

A row that is cut is told from a complete one by its number of fields alone.  With 17 fields it
is taken for an old row and rejected, since the failure stage stands where the old layout has a
number.  With 13 fields it is taken for an old row, and with all of its fields for a complete row
whose last number may be cut; both are accepted.
-/

namespace PqMqtt.Analysis

/-! ## Texts that are numbers -/

/-- `float` reads the text, or zero for an empty one, as a number with the property. -/
def ReadsIn (p : ℚ → Prop) (text : Text) : Prop :=
  ∃ q, p q ∧ pyFloat (if text = [] then "0".toList else text) = .ok (Binary64.ofRat q)

/-- No overflow. -/
def Small (q : ℚ) : Prop := |q| < 2 ^ 1022

theorem small_of_lt {q : ℚ} (h : |q| < 2 ^ 100) : Small q :=
  h.trans_le (pow_le_pow_right₀ (by norm_num) (by norm_num))

theorem pyFloat_zero : pyFloat "0".toList = .ok (Binary64.ofRat 0) := by
  have hzero := pyFloat_formatU 0
  rw [Nat.cast_zero] at hzero
  exact hzero

theorem ReadsIn.of_pyFloat {p : ℚ → Prop} {text : Text} {q : ℚ} (hne : text ≠ []) (hq : p q)
    (h : pyFloat text = .ok (Binary64.ofRat q)) : ReadsIn p text :=
  ⟨q, hq, by rw [if_neg hne, h]⟩

theorem ReadsIn.nil {p : ℚ → Prop} (hzero : p 0) : ReadsIn p [] := ⟨0, hzero, pyFloat_zero⟩

theorem formatMs_ne_nil (us : ℕ) : formatMs us ≠ [] := (formatThousandths_numeral _).ne_nil

/-- Milliseconds from a 64-bit counter are far from overflow. -/
theorem thousandths_small {us : ℕ} (h : us < 2 ^ 64) :
    Small ((thousandths (msOfUs us) : ℚ) / 1000) := by
  have hlt : (thousandths (msOfUs us) : ℚ) < 10 ^ 30 := by exact_mod_cast thousandths_lt h
  apply small_of_lt
  rw [abs_of_nonneg (by positivity), div_lt_iff₀ (by norm_num)]
  exact hlt.trans (by norm_num)

/-- Every numeric field prints a number. -/
theorem Field.reads {field : Field} (h : field.kind ≠ .text) : ReadsIn Small field.format := by
  cases field with
  | name text => exact absurd rfl h
  | milliseconds us =>
    exact ReadsIn.of_pyFloat (formatMs_ne_nil _) (thousandths_small us.toNat_lt)
      (pyFloat_formatMs us.toNat)
  | flag value =>
    have hflag (n : ℕ) (hn : n < 2) : ReadsIn Small (formatU n) := by
      apply ReadsIn.of_pyFloat (formatU_ne_nil n) _ (pyFloat_formatU n)
      apply small_of_lt
      rw [abs_of_nonneg (Nat.cast_nonneg n)]
      calc (n : ℚ) < 2 := by exact_mod_cast hn
        _ ≤ 2 ^ 100 := by norm_num
    cases value with
    | false => exact hflag 0 (by norm_num)
    | true => exact hflag 1 (by norm_num)
  | unsigned value =>
    apply ReadsIn.of_pyFloat (formatU_ne_nil _) _ (pyFloat_formatU _)
    apply small_of_lt
    rw [abs_of_nonneg (Nat.cast_nonneg _)]
    calc (value.toNat : ℚ) < 2 ^ 64 := by exact_mod_cast value.toNat_lt
      _ ≤ 2 ^ 100 := by norm_num
  | signed value =>
    apply ReadsIn.of_pyFloat (formatD_ne_nil _) _ (pyFloat_formatD _)
    apply small_of_lt
    have hlow := value.le_toInt
    have hhigh := value.toInt_lt
    have habs : |value.toInt| ≤ 2 ^ 31 := by
      rw [abs_le]
      omega
    calc |(value.toInt : ℚ)| ≤ 2 ^ 31 := by exact_mod_cast habs
      _ < 2 ^ 100 := by norm_num

/-- What is left of a number when it is cut is read as a number. -/
theorem Numeral.reads_piece {text whole fraction piece : Text} (h : Numeral text whole fraction)
    (hpiece : piece <+: text) : ReadsIn (fun _ ↦ True) piece := by
  rcases h.of_prefix hpiece with rfl | ⟨wholePiece, fractionPiece, hnumeral⟩
  · exact ReadsIn.nil trivial
  · exact ReadsIn.of_pyFloat hnumeral.ne_nil trivial hnumeral.pyFloat_eq

theorem ReadsIn.mono {p r : ℚ → Prop} {text : Text} (h : ReadsIn p text) (hpr : ∀ q, p q → r q) :
    ReadsIn r text := by
  obtain ⟨q, hq, hread⟩ := h
  exact ⟨q, hpr q hq, hread⟩

/-! ## Conversions that succeed -/

theorem intOfFloat_ofRat_ne (q : ℚ) : intOfFloat (Binary64.ofRat q) ≠ .error .valueError := by
  unfold Binary64.ofRat
  split <;> simp [intOfFloat]

theorem exists_intOfFloat_ofRat {q : ℚ} (h : Small q) :
    ∃ n, intOfFloat (Binary64.ofRat q) = .ok n := by
  rw [Binary64.ofRat_eq_fin h]
  exact ⟨_, rfl⟩

section Conversions

variable {p : ℚ → Prop} {texts : Dict Text} {column : String}

/-- A numeric field that is absent is read as zero. -/
theorem pyFloat_numericText (hzero : p 0)
    (h : ∀ text, texts column = some text → ReadsIn p text) :
    ∃ q, p q ∧ pyFloat (numericText texts column) = .ok (Binary64.ofRat q) := by
  cases htext : texts column with
  | none =>
    have hdefault : numericText texts column = "0".toList := by
      simp only [numericText, htext, Option.getD_none, ite_self]
    exact ⟨0, hzero, by rw [hdefault, pyFloat_zero]⟩
  | some text =>
    have hvalue : numericText texts column = if text = [] then "0".toList else text := by
      simp only [numericText, htext, Option.getD_some]
    rw [hvalue]
    exact h text htext

theorem exists_latencyValue (hzero : p 0)
    (h : ∀ text, texts column = some text → ReadsIn p text) :
    ∃ value, latencyValue texts column = .ok value := by
  obtain ⟨q, -, hread⟩ := pyFloat_numericText hzero h
  exact ⟨_, by rw [latencyValue, hread]; rfl⟩

theorem integerValue_ne_valueError (hzero : p 0)
    (h : ∀ text, texts column = some text → ReadsIn p text) :
    integerValue texts column ≠ .error .valueError := by
  obtain ⟨q, -, hread⟩ := pyFloat_numericText hzero h
  have hint := intOfFloat_ofRat_ne q
  unfold integerValue
  split
  · simp
  dsimp only
  split
  · simp
  · cases hvalue : intOfFloat (Binary64.ofRat q) with
    | ok n => simp [hread, bind, Except.bind, hvalue]
    | error error =>
      simp only [hread, bind, Except.bind, hvalue]
      intro hcontra
      apply hint
      rw [hvalue, Except.error.inj hcontra]

theorem exists_integerValue (hzero : Small 0)
    (h : ∀ text, texts column = some text → ReadsIn Small text) :
    ∃ value, integerValue texts column = .ok value := by
  obtain ⟨q, hq, hread⟩ := pyFloat_numericText hzero h
  obtain ⟨n, hint⟩ := exists_intOfFloat_ofRat hq
  unfold integerValue
  split
  · exact ⟨_, rfl⟩
  dsimp only
  split
  · exact ⟨_, rfl⟩
  · exact ⟨.int n, by simp only [hread, bind, Except.bind, hint]⟩

end Conversions

theorem small_zero : Small 0 := small_of_lt (by norm_num)

/-! ## The file name as campaign -/

/-- A file name that passes for a number and is none: `float` does not read a second dash, nor a
digit that is no decimal digit. -/
def FalseNumber (name : Text) : Prop :=
  isDigits (name.dropWhile (· = '-')) = true ∧ pyFloat name = .error .valueError

instance (name : Text) : Decidable (FalseNumber name) := inferInstanceAs (Decidable (_ ∧ _))

theorem ofDigitChars_lt {text : Text} (h : ∀ c ∈ text, c.isDigit = true) (init : ℕ) :
    Nat.ofDigitChars 10 text init < (init + 1) * 10 ^ text.length := by
  induction text generalizing init with
  | nil => simp [Nat.ofDigitChars_nil]
  | cons c text ih =>
    rw [List.forall_mem_cons] at h
    obtain ⟨-, hhigh⟩ := Char.isDigit_iff_toNat.mp h.1
    have hdigit : c.toNat - '0'.toNat ≤ 9 := by
      have hnine : c.toNat ≤ 57 := hhigh
      have hzero : '0'.toNat = 48 := rfl
      omega
    rw [Nat.ofDigitChars_cons, List.length_cons, pow_succ]
    calc Nat.ofDigitChars 10 text (10 * init + (c.toNat - '0'.toNat))
        < (10 * init + (c.toNat - '0'.toNat) + 1) * 10 ^ text.length := ih h.2 _
      _ ≤ (10 * init + 10) * 10 ^ text.length := Nat.mul_le_mul_right _ (by omega)
      _ = (init + 1) * (10 ^ text.length * 10) := by ring

/-- The digits of a file name do not overflow. -/
theorem ofDigitChars_small {text : Text} (h : ∀ c ∈ text, c.isDigit = true)
    (hlength : text.length ≤ 255) : |((Nat.ofDigitChars 10 text 0 : ℕ) : ℚ)| < 2 ^ 1022 := by
  have hlt := ofDigitChars_lt h 0
  rw [zero_add, one_mul] at hlt
  have hbound : 10 ^ text.length ≤ 2 ^ 1022 :=
    calc 10 ^ text.length ≤ (2 ^ 4) ^ text.length := Nat.pow_le_pow_left (by norm_num) _
      _ = 2 ^ (4 * text.length) := (pow_mul 2 4 text.length).symm
      _ ≤ 2 ^ 1022 := pow_le_pow_right₀ one_le_two (by omega)
  have hnat : Nat.ofDigitChars 10 text 0 < 2 ^ 1022 := hlt.trans_le hbound
  rw [abs_of_nonneg (Nat.cast_nonneg _)]
  exact_mod_cast hnat

theorem digitPart_eq_some {text digits : Text} (h : digitPart text = some digits) :
    (∀ c ∈ digits, c.isDigit = true) ∧ digits.length ≤ text.length := by
  induction text using digitPart.induct generalizing digits with
  | case1 => simp [digitPart] at h
  | case2 c hc =>
    rw [digitPart, if_pos hc] at h
    obtain rfl := Option.some.inj h
    simpa using hc
  | case3 c hc => simp [digitPart, hc] at h
  | case4 c rest hc ih =>
    rw [digitPart, if_pos hc] at h
    obtain ⟨others, hothers, rfl⟩ := Option.map_eq_some_iff.mp h
    obtain ⟨hdigits, hlength⟩ := ih hothers
    refine ⟨List.forall_mem_cons.mpr ⟨hc, hdigits⟩, ?_⟩
    simp only [List.length_cons]
    omega
  | case5 c rest hc => simp [digitPart, hc] at h
  | case6 c rest hsingle hunderscore hc ih =>
    rw [digitPart, if_pos hc] at h
    · obtain ⟨others, hothers, rfl⟩ := Option.map_eq_some_iff.mp h
      obtain ⟨hdigits, hlength⟩ := ih hothers
      refine ⟨List.forall_mem_cons.mpr ⟨hc, hdigits⟩, ?_⟩
      simp only [List.length_cons]
      omega
    · exact hsingle
    · exact hunderscore
  | case7 c rest hsingle hunderscore hc =>
    rw [digitPart, if_neg hc] at h
    · cases h
    · exact hsingle
    · exact hunderscore

/-- A character that occurs in no name for a number and in no number but an integer. -/
def Integral (c : Char) : Prop := c ≠ 'e' ∧ c ≠ '.' ∧ c ≠ 'i' ∧ c ≠ 'n'

instance (c : Char) : Decidable (Integral c) := inferInstanceAs (Decidable (_ ∧ _))

theorem isDigit_of_isDigitChar {c : Char} (h : isDigitChar c = true) (hascii : c.toNat < 127) :
    c.isDigit = true := by
  have hfirst : ∀ first ∈ decimalZeros, first = 0x30 ∨ 127 ≤ first := by decide
  have hothers : ∀ range ∈ otherDigits, 127 ≤ range.1 := by decide
  rcases Bool.or_eq_true_iff.mp h with hdecimal | hother
  · obtain ⟨value, hvalue⟩ := Option.isSome_iff_exists.mp hdecimal
    obtain ⟨first, hfind, -⟩ := Option.map_eq_some_iff.mp hvalue
    have hrange := List.find?_some hfind
    simp only [decide_eq_true_eq] at hrange
    rcases hfirst first (List.mem_of_find?_eq_some hfind) with rfl | hlarge
    · exact Char.isDigit_iff_toNat.mpr hrange
    · omega
  · obtain ⟨range, hmem, hrange⟩ := List.any_eq_true.mp hother
    have hlarge := hothers range hmem
    simp only [decide_eq_true_eq] at hrange
    omega

theorem digitChar_isDigit {value : ℕ} (h : value ≤ 9) : value.digitChar.isDigit = true := by
  interval_cases value <;> decide

/-- The digits and dashes of a name are not read as anything but an integer. -/
theorem integral_of_isDigitChar {c : Char} (h : c = '-' ∨ isDigitChar c = true) :
    Integral (asciiNumeral c).toLower := by
  by_cases hascii : c.toNat < 127
  · rw [asciiNumeral, if_pos hascii]
    rcases h with rfl | hdigit
    · decide
    · exact forall_isDigit (p := fun c ↦ Integral c.toLower) (by decide)
        (isDigit_of_isDigitChar hdigit hascii)
  rw [asciiNumeral, if_neg hascii]
  split
  · decide
  cases hvalue : decimal c with
  | some value =>
    obtain ⟨first, hfind, rfl⟩ := Option.map_eq_some_iff.mp hvalue
    have hrange := List.find?_some hfind
    simp only [decide_eq_true_eq] at hrange
    exact forall_isDigit (p := fun c ↦ Integral c.toLower) (by decide)
      (digitChar_isDigit (by omega))
  | none =>
    have hlower : c.toLower = c := by
      have hupper : ¬(c.val ≥ 'A'.val ∧ c.val ≤ 'Z'.val) := by
        rintro ⟨-, hle⟩
        have hcode : c.toNat ≤ 90 := UInt32.le_iff_toNat_le.mp hle
        omega
      exact dif_neg hupper
    dsimp only
    rw [hlower]
    refine ⟨?_, ?_, ?_, ?_⟩ <;> rintro rfl <;> exact hascii (by decide)

/-- An integer without sign is read from its digits, if at all. -/
theorem decimalLiteral_integral {text : Text} (h : ∀ c ∈ text, Integral c) :
    decimalLiteral text = none ∨ ∃ digits : Text, (∀ c ∈ digits, c.isDigit = true) ∧
      digits.length ≤ text.length ∧
      decimalLiteral text = some ((Nat.ofDigitChars 10 digits 0 : ℕ) : ℚ) := by
  have hexponent : text.span (· ≠ 'e') = (text, []) := by
    have hall : ∀ c ∈ text, decide (c ≠ 'e') = true := fun c hc ↦ by simpa using (h c hc).1
    rw [List.span_eq_takeWhile_dropWhile, List.takeWhile_eq_self_iff.mpr hall,
      List.dropWhile_eq_nil_iff.mpr hall]
  have hfraction : text.span (· ≠ '.') = (text, []) := by
    have hall : ∀ c ∈ text, decide (c ≠ '.') = true := fun c hc ↦ by simpa using (h c hc).2.1
    rw [List.span_eq_takeWhile_dropWhile, List.takeWhile_eq_self_iff.mpr hall,
      List.dropWhile_eq_nil_iff.mpr hall]
  have hempty : optionalDigits [] = some [] := rfl
  cases hwhole : optionalDigits text with
  | none =>
    left
    simp only [decimalLiteral, hexponent, hfraction, hwhole, bind, Option.bind_some,
      Option.bind_none]
  | some digits =>
    rcases eq_or_ne digits [] with rfl | hne
    · left
      simp only [decimalLiteral, hexponent, hfraction, hwhole, hempty, List.tail_nil, bind,
        Option.bind_some, List.append_nil, if_true]
    · right
      have hpart : digitPart text = some digits := by
        have htext : text ≠ [] := by
          rintro rfl
          exact hne (Option.some.inj hwhole).symm
        rwa [optionalDigits, if_neg htext] at hwhole
      obtain ⟨hdigits, hlength⟩ := digitPart_eq_some hpart
      refine ⟨digits, hdigits, hlength, ?_⟩
      simp only [decimalLiteral, hexponent, hfraction, hwhole, hempty, List.tail_nil, bind,
        Option.bind_some, List.append_nil, if_neg hne, List.length_nil, Nat.cast_zero, sub_zero,
        zpow_zero, mul_one]

theorem splitSign_sublist (text : Text) : (splitSign text).2.Sublist text := by
  unfold splitSign
  split
  · exact List.sublist_cons_self _ _
  · exact List.sublist_cons_self _ _
  · exact List.Sublist.refl _

/-- A name of digits is no number, or one that does not overflow. -/
theorem pyFloat_of_isDigits {name : Text} (hlength : name.length ≤ 255)
    (h : isDigits (name.dropWhile (· = '-')) = true) :
    pyFloat name = .error .valueError ∨
      ∃ q, Small q ∧ pyFloat name = .ok (Binary64.ofRat q) := by
  have hchars : ∀ c ∈ name, c = '-' ∨ isDigitChar c = true := by
    intro c hc
    rw [← List.takeWhile_append_dropWhile (p := fun c ↦ decide (c = '-')) (l := name)] at hc
    rcases List.mem_append.mp hc with hdash | hdigit
    · exact Or.inl (by simpa using List.mem_takeWhile_imp hdash)
    · rw [isDigits, Bool.and_eq_true, List.all_eq_true] at h
      exact Or.inr (h.2 c hdigit)
  set body := (splitSign ((numberText name).map Char.toLower)).2 with hbody
  set negative := (splitSign ((numberText name).map Char.toLower)).1 with hnegative
  have hsublist : body.Sublist ((name.map asciiNumeral).map Char.toLower) :=
    (splitSign_sublist _).trans
      (((List.rdropWhile_prefix _ _).sublist.trans (List.dropWhile_sublist _)).map _)
  have hintegral : ∀ c ∈ body, Integral c := by
    intro c hc
    obtain ⟨d, hd, rfl⟩ := List.mem_map.mp (hsublist.subset hc)
    obtain ⟨original, horiginal, rfl⟩ := List.mem_map.mp hd
    exact integral_of_isDigitChar (hchars original horiginal)
  have hbodyLength : body.length ≤ 255 := by
    have hle := hsublist.length_le
    rw [List.length_map, List.length_map] at hle
    omega
  have hinf : ¬(body = "inf".toList ∨ body = "infinity".toList) := by
    rintro (hname | hname)
    · exact (hintegral 'i' (by rw [hname]; decide)).2.2.1 rfl
    · exact (hintegral 'i' (by rw [hname]; decide)).2.2.1 rfl
  have hnan : body ≠ "nan".toList := by
    intro hname
    exact (hintegral 'n' (by rw [hname]; decide)).2.2.2 rfl
  rcases decimalLiteral_integral hintegral with hnone | ⟨digits, hdigits, hle, hsome⟩
  · left
    simp only [pyFloat, ← hbody, if_neg hinf, if_neg hnan, hnone]
  · right
    refine ⟨negateIf negative ((Nat.ofDigitChars 10 digits 0 : ℕ) : ℚ), ?_, ?_⟩
    · have hsmall := ofDigitChars_small hdigits (hle.trans hbodyLength)
      unfold Small negateIf
      split
      · rwa [abs_neg]
      · exact hsmall
    · simp only [pyFloat, ← hbody, ← hnegative, if_neg hinf, if_neg hnan, hsome]

theorem campaign_not_flag : "campaign" ∉ flagFields := by decide

theorem integerValue_campaign_str {texts : Dict Text}
    (h : isDigits ((numericText texts "campaign").dropWhile (· = '-')) = false) :
    integerValue texts "campaign" = .ok (.str (numericText texts "campaign")) := by
  simp [integerValue, campaign_not_flag, h]

/-- A file name becomes the campaign, unless it is a false number. -/
theorem exists_campaign {texts : Dict Text} {name : Text} (htext : texts "campaign" = some name)
    (hlength : name.length ≤ 255) (h : ¬FalseNumber name) :
    ∃ value, integerValue texts "campaign" = .ok value := by
  rcases eq_or_ne name [] with rfl | hne
  · exact exists_integerValue small_zero fun text hsome ↦ by
      rw [htext] at hsome
      exact Option.some.inj hsome ▸ ReadsIn.nil small_zero
  have hvalue : numericText texts "campaign" = name := numericText_eq htext hne
  cases hdigits : isDigits (name.dropWhile (· = '-')) with
  | false =>
    exact ⟨_, integerValue_campaign_str (by rw [hvalue, hdigits])⟩
  | true =>
    obtain ⟨q, hq, hread⟩ := (pyFloat_of_isDigits hlength hdigits).resolve_left
      fun herror ↦ h ⟨hdigits, herror⟩
    apply exists_integerValue small_zero
    intro text hsome
    obtain rfl : name = text := Option.some.inj (htext.symm.trans hsome)
    exact ReadsIn.of_pyFloat hne hq hread

theorem campaign_falseNumber {texts : Dict Text} {name : Text}
    (htext : texts "campaign" = some name) (h : FalseNumber name) :
    integerValue texts "campaign" = .error .valueError := by
  have hne : name ≠ [] := by
    rintro rfl
    exact absurd h.1 (by decide)
  have hvalue : numericText texts "campaign" = name := numericText_eq htext hne
  simp only [integerValue, if_neg campaign_not_flag, hvalue, h.1, Bool.true_eq_false, and_false,
    if_false, h.2, bind, Except.bind]

/-! ## Texts of cut rows -/

/-- The defaults that are no numbers, or the file name. -/
def unreadDefaults : List String := ["campaign", "failure_stage", "alloc_failure_stage"]

theorem readsIn_formatU {p : ℚ → Prop} {n : ℕ} (h : p n) : ReadsIn p (formatU n) :=
  ReadsIn.of_pyFloat (formatU_ne_nil n) h (pyFloat_formatU n)

/-- A row whose fields are numbers, but for skipped columns, has such texts. -/
theorem textsOf_reads {p : ℚ → Prop} (hzero : p 0) (hone : p 1) {skipped : List String}
    (hskipped : ∀ column ∈ unreadDefaults, column ∈ skipped) {raw : List (String × Text)}
    (hraw : ∀ pair ∈ raw, aliases pair.1 ∈ skipped ∨ ReadsIn p pair.2) (path : Text)
    (legacy : Bool) :
    ∀ column text, textsOf raw path legacy column = some text →
      column ∈ skipped ∨ ReadsIn p text := by
  have hzeroText : ReadsIn p "0".toList := by
    have hread : ReadsIn p (formatU 0) := readsIn_formatU (by simpa using hzero)
    exact hread
  have honeText : ReadsIn p "1".toList := by
    have hread : ReadsIn p (formatU 1) := readsIn_formatU (by simpa using hone)
    exact hread
  apply Dict.setdefaults_forall (p := fun column text ↦ column ∈ skipped ∨ ReadsIn p text)
  · apply Dict.ofPairs_forall (p := fun column text ↦ column ∈ skipped ∨ ReadsIn p text)
    intro pair hpair
    obtain ⟨original, hmem, rfl⟩ := List.mem_map.mp hpair
    exact hraw original (Dict.mem_of_mem_items original hmem)
  · simp only [defaults, List.forall_mem_cons, List.not_mem_nil, false_imp_iff, implies_true,
      and_true]
    exact ⟨Or.inl (hskipped _ (by decide)), Or.inr honeText, Or.inl (hskipped _ (by decide)),
      Or.inr hzeroText, Or.inr hzeroText, Or.inr hzeroText, Or.inl (hskipped _ (by decide))⟩

namespace Benchmark

variable (benchmark : Benchmark) (measured : MeasuredRun)

/-- The columns of a cut row are numbers where its fields are, and where its last piece is. -/
theorem reads_cut {p : ℚ → Prop} (hp : ∀ q, Small q → p q) {count : ℕ} {names : List String}
    {last : String} {skipped : List String} {piece : Text}
    (hlength : names.length = ((benchmark.fields measured).take count).length)
    (hkinds : ∀ pair ∈ names.zip (rowKinds.take count),
      aliases pair.1 ∈ skipped ∨ pair.2 ≠ .text)
    (hlast : aliases last ∈ skipped ∨ ReadsIn p piece) :
    ∀ pair ∈ (names ++ [last]).zip
        (((benchmark.fields measured).map Field.format).take count ++ [piece]),
      aliases pair.1 ∈ skipped ∨ ReadsIn p pair.2 := by
  rw [← List.map_take, List.zip_append (by rw [List.length_map, hlength])]
  intro pair hpair
  rcases List.mem_append.mp hpair with hearlier | hend
  · rw [List.zip_map_right] at hearlier
    obtain ⟨⟨name, field⟩, hmem, rfl⟩ := List.mem_map.mp hearlier
    have hkind : (name, field.kind) ∈ names.zip (rowKinds.take count) := by
      rw [← benchmark.map_kind_fields measured, ← List.map_take, List.zip_map_right]
      exact List.mem_map_of_mem (f := Prod.map id Field.kind) hmem
    rcases hkinds _ hkind with hskip | hnumeric
    · exact Or.inl hskip
    · exact Or.inr ((Field.reads hnumeric).mono hp)
  · obtain rfl : pair = (last, piece) := by simpa using hend
    exact hlast

end Benchmark

/-- An old row takes its campaign from the file name. -/
theorem textsOf_campaign {names : List String} (h : ∀ name ∈ names, aliases name ≠ "campaign")
    (parts : List Text) (path : Text) :
    textsOf (names.zip parts) path true "campaign" = some (basename path) := by
  apply Dict.setdefaults_cons_of_eq_none
  apply Dict.ofPairs_eq_none
  intro pair hpair
  obtain ⟨original, hmem, rfl⟩ := List.mem_map.mp hpair
  exact h original.1 (List.of_mem_zip (Dict.mem_of_mem_items original hmem)).1

/-- A column of a layout has its text. -/
theorem textsOf_of_mem {names : List String} (haliases : ∀ name ∈ names, aliases name = name)
    (hnodup : names.Nodup) {parts : List Text} (hlength : names.length ≤ parts.length)
    {column : String} {text : Text} (h : (column, text) ∈ names.zip parts) (path : Text)
    (legacy : Bool) : textsOf (names.zip parts) path legacy column = some text := by
  have hmap : (names.zip parts).map (fun pair ↦ (aliases pair.1, pair.2)) = names.zip parts := by
    apply (List.map_congr_left _).trans (List.map_id _)
    rintro ⟨name, other⟩ hmem
    exact congrArg (·, other) (haliases name (List.of_mem_zip hmem).1)
  have hkeys : ((names.zip parts).map Prod.fst).Nodup := by rwa [List.map_fst_zip hlength]
  apply Dict.setdefaults_of_eq_some
  rw [Dict.items_of_nodup hkeys, hmap]
  exact Dict.ofPairs_eq_some hkeys h

/-! ## normalize of cut rows -/

section Normalize

variable {p : ℚ → Prop} {raw : List (String × Text)} {path : Text} {legacy : Bool}
  {skipped : List String}

theorem exists_latency_of_reads (hzero : p 0)
    (htexts : ∀ column text, textsOf raw path legacy column = some text →
      column ∈ skipped ∨ ReadsIn p text)
    (hdisjoint : ∀ column ∈ latencyFields, column ∉ skipped) :
    ∀ column ∈ latencyFields, ∃ value, latencyValue (textsOf raw path legacy) column = .ok value :=
  fun column hcolumn ↦ exists_latencyValue hzero fun text htext ↦
    (htexts column text htext).resolve_left (hdisjoint column hcolumn)

/-- A row whose numeric columns are numbers is not skipped. -/
theorem normalize_ne_valueError (hzero : p 0)
    (htexts : ∀ column text, textsOf raw path legacy column = some text →
      column ∈ skipped ∨ ReadsIn p text)
    (hlatency : ∀ column ∈ latencyFields, column ∉ skipped)
    (hinteger : ∀ column ∈ integerFields, column = "campaign" ∨ column ∉ skipped)
    (hcampaign : ∃ value, integerValue (textsOf raw path legacy) "campaign" = .ok value) :
    normalize raw path legacy ≠ .error .valueError := by
  intro h
  rcases exists_of_normalize_eq_error h with ⟨column, hcolumn, herror⟩ | ⟨column, hcolumn, herror⟩
  · obtain ⟨value, hvalue⟩ := exists_latency_of_reads hzero htexts hlatency column hcolumn
    rw [hvalue] at herror
    cases herror
  · rcases hinteger column hcolumn with rfl | hread
    · obtain ⟨value, hvalue⟩ := hcampaign
      rw [hvalue] at herror
      cases herror
    · exact integerValue_ne_valueError hzero
        (fun text htext ↦ (htexts column text htext).resolve_left hread) herror

/-- The first integer field that cannot be converted decides the error. -/
theorem normalize_eq_error (earlier : List String) {later : List String} {column : String}
    {error : PyError}
    (hlatency : ∀ column ∈ latencyFields,
      ∃ value, latencyValue (textsOf raw path legacy) column = .ok value)
    (hsplit : integerFields = earlier ++ column :: later)
    (hearlier : ∀ column ∈ earlier,
      ∃ value, integerValue (textsOf raw path legacy) column = .ok value)
    (hcolumn : integerValue (textsOf raw path legacy) column = .error error) :
    normalize raw path legacy = .error error := by
  exact (normalize_eq_error_iff ..).mpr
    (Or.inr ⟨hlatency, earlier, column, later, hsplit, hearlier, hcolumn⟩)

end Normalize

namespace Benchmark

variable (benchmark : Benchmark) (measured : MeasuredRun)

/-- The columns of a row of 13 fields that are no numbers. -/
def skipped13 : List String := "record" :: "scheme" :: "board" :: unreadDefaults

/-- The columns of a row of 17 fields that need not be numbers. -/
def skipped17 : List String := "total_tx_bytes" :: "total_rx_bytes" :: skipped13

theorem texts13 {piece : Text} (hpiece : ReadsIn (fun _ ↦ True) piece) (path : Text) :
    ∀ column text,
      textsOf (legacyFields13.zip ((benchmark.rowLine measured).take 12 ++ [piece])) path true
        column = some text → column ∈ skipped13 ∨ ReadsIn (fun _ ↦ True) text := by
  apply textsOf_reads trivial trivial (by decide)
  have hline : (benchmark.rowLine measured).take 12 ++ [piece]
      = "csv_hs".toList :: (((benchmark.fields measured).map Field.format).take 11 ++ [piece]) :=
    rfl
  have hnames : legacyFields13 = "record" :: (legacyFields13.tail.dropLast ++ ["hs_rx_reads"]) :=
    rfl
  rw [hline, hnames, List.zip_cons_cons, List.forall_mem_cons]
  refine ⟨Or.inl (by decide), ?_⟩
  exact benchmark.reads_cut measured (fun _ _ ↦ trivial) rfl (by decide) (Or.inr hpiece)

/-- A row that is cut in its 13th field passes for an old row. -/
theorem normalize_13 {piece : Text} (hpiece : ReadsIn (fun _ ↦ True) piece) {path : Text}
    (hlength : (basename path).length ≤ 255) (h : ¬FalseNumber (basename path)) :
    normalize (legacyFields13.zip ((benchmark.rowLine measured).take 12 ++ [piece])) path true
      ≠ .error .valueError := by
  apply normalize_ne_valueError trivial (benchmark.texts13 measured hpiece path)
  · decide
  · decide
  · exact exists_campaign (textsOf_campaign (by decide) _ path) hlength h

theorem normalize_13_falseNumber {piece : Text} (hpiece : ReadsIn (fun _ ↦ True) piece)
    {path : Text} (h : FalseNumber (basename path)) :
    normalize (legacyFields13.zip ((benchmark.rowLine measured).take 12 ++ [piece])) path true
      = .error .valueError := by
  apply normalize_eq_error [] _ rfl (by simp)
  · exact campaign_falseNumber (textsOf_campaign (by decide) _ path) h
  · exact exists_latency_of_reads trivial (benchmark.texts13 measured hpiece path)
      (by decide)

theorem texts17 (piece path : Text) :
    ∀ column text,
      textsOf (legacyFields17.zip ((benchmark.rowLine measured).take 16 ++ [piece])) path true
        column = some text → column ∈ skipped17 ∨ ReadsIn Small text := by
  apply textsOf_reads small_zero (small_of_lt (by norm_num)) (by decide)
  have hline : (benchmark.rowLine measured).take 16 ++ [piece]
      = "csv_hs".toList :: (((benchmark.fields measured).map Field.format).take 15 ++ [piece]) :=
    rfl
  have hnames : legacyFields17 = "record" :: (legacyFields17.tail.dropLast ++ ["total_rx_bytes"]) :=
    rfl
  rw [hline, hnames, List.zip_cons_cons, List.forall_mem_cons]
  refine ⟨Or.inl (by decide), ?_⟩
  exact benchmark.reads_cut measured (fun _ hq ↦ hq) rfl (by decide)
    (Or.inl (by decide))

theorem pyFloat_failureStage (stage : FailureStage) :
    pyFloat stage.name.toList = .error .valueError := by
  cases stage <;> rfl

/-- The failure stage stands where an old row of 17 fields has a number. -/
theorem totalTxBytes_17 (piece path : Text) :
    integerValue
      (textsOf (legacyFields17.zip ((benchmark.rowLine measured).take 16 ++ [piece])) path true)
      "total_tx_bytes" = .error .valueError := by
  have hmem : ("total_tx_bytes", measured.attempt.result.failureStage.name.toList)
      ∈ legacyFields17.zip ((benchmark.rowLine measured).take 16 ++ [piece]) :=
    List.mem_of_getElem? (i := 15) rfl
  have htext := textsOf_of_mem (by decide) (by decide) (by rfl) hmem path true
  have hne : measured.attempt.result.failureStage.name.toList ≠ [] := by
    cases measured.attempt.result.failureStage <;> decide
  have hflag : "total_tx_bytes" ∉ flagFields := by decide
  have hcampaign : "total_tx_bytes" ≠ "campaign" := by decide
  simp [integerValue, hflag, hcampaign, numericText_eq htext hne, pyFloat_failureStage, bind,
    Except.bind]

/-- A row that is cut in its 17th field is rejected. -/
theorem normalize_17 (piece : Text) {path : Text} (hlength : (basename path).length ≤ 255) :
    normalize (legacyFields17.zip ((benchmark.rowLine measured).take 16 ++ [piece])) path true
      = .error .valueError := by
  have htexts := benchmark.texts17 measured piece path
  have hlatency := exists_latency_of_reads small_zero htexts (by decide)
  have hcampaign :
      textsOf (legacyFields17.zip ((benchmark.rowLine measured).take 16 ++ [piece])) path true
        "campaign" = some (basename path) :=
    textsOf_campaign (by decide) _ path
  by_cases hfalse : FalseNumber (basename path)
  · exact normalize_eq_error [] hlatency rfl (by simp)
      (campaign_falseNumber hcampaign hfalse)
  apply normalize_eq_error (integerFields.take 30) hlatency rfl
  · intro column hcolumn
    have hdisjoint : ∀ column ∈ integerFields.take 30,
        column = "campaign" ∨ column ∉ skipped17 := by
      decide
    rcases hdisjoint column hcolumn with rfl | hread
    · exact exists_campaign hcampaign hlength hfalse
    · exact exists_integerValue small_zero fun text htext ↦
        (htexts column text htext).resolve_left hread
  · exact benchmark.totalTxBytes_17 measured piece path

/-- The last column may be cut without a change in the number of fields. -/
def cutRawRow (piece : Text) : List (String × Text) :=
  columnNames.zip (((benchmark.fields measured).map Field.format).take 42 ++ [piece])

theorem textsOf_cutRawRow {index : ℕ} {column : String} {field : Field} (piece path : Text)
    (h : (benchmark.cutRawRow measured piece)[index]? = some (column, field.format)) :
    textsOf (benchmark.cutRawRow measured piece) path false column = some field.format :=
  textsOf_of_mem aliases_columnNames columnNames_nodup (by rfl) (List.mem_of_getElem? h) path false

theorem texts43 {piece : Text} (hpiece : ReadsIn (fun _ ↦ True) piece) (path : Text) :
    ∀ column text, textsOf (benchmark.cutRawRow measured piece) path false column = some text →
      column ∈ skipped13 ∨ ReadsIn (fun _ ↦ True) text := by
  apply textsOf_reads trivial trivial (by decide)
  have hnames : columnNames = columnNames.dropLast ++ ["total_rx_bytes"] := rfl
  rw [cutRawRow, hnames]
  exact benchmark.reads_cut measured (fun _ _ ↦ trivial) rfl (by decide) (Or.inr hpiece)

/-- A row that is cut in its last field passes for a complete one. -/
theorem normalize_43 {piece : Text} (hpiece : ReadsIn (fun _ ↦ True) piece) (path : Text) :
    normalize (benchmark.cutRawRow measured piece) path false ≠ .error .valueError := by
  have hcampaign : (benchmark.cutRawRow measured piece)[2]?
      = some ("campaign", Field.format (.signed benchmark.campaign)) := rfl
  apply normalize_ne_valueError trivial (benchmark.texts43 measured hpiece path)
  · decide
  · decide
  · exact ⟨_, integerValue_eq (by decide)
      (benchmark.textsOf_cutRawRow measured piece path hcampaign)
      (by decide : Kind.integer = kindOf "campaign")⟩

/-- The cut row has the run of its attempt. -/
theorem run_of_normalize_43 {piece path : Text} {row : Dict Value}
    (h : normalize (benchmark.cutRawRow measured piece) path false = .ok row) :
    row "run" = some (.int (Int32.ofNat measured.run).toInt) := by
  have hrun : (benchmark.cutRawRow measured piece)[3]?
      = some ("run", Field.format (.signed (Int32.ofNat measured.run))) := rfl
  have hvalue := integerValue_eq (by decide)
    (benchmark.textsOf_cutRawRow measured piece path hrun)
    (by decide : Kind.integer = kindOf "run")
  obtain ⟨-, -, rfl⟩ := (normalize_eq_ok_iff ..).mp h
  have hinteger : "run" ∈ integerFields := by decide
  rw [normalizedRow, if_neg (by decide), if_neg (by decide), if_pos hinteger, hvalue]
  rfl

/-- A legacy row says so. -/
theorem legacy_of_normalize {raw : List (String × Text)} {path : Text} {row : Dict Value}
    (h : normalize raw path true = .ok row) : row "legacy_success_only" = some (.int 1) := by
  obtain ⟨-, -, rfl⟩ := (normalize_eq_ok_iff ..).mp h
  rw [normalizedRow, if_neg (by decide), if_pos rfl]
  rfl

/-- The 13th field of a row is `crypto_ms`. -/
theorem reads_piece13 {piece field : Text} (hfield : (benchmark.rowLine measured)[12]? = some field)
    (hpiece : piece <+: field) : ReadsIn (fun _ ↦ True) piece := by
  have hcrypto : (benchmark.rowLine measured)[12]?
      = some (formatMs measured.attempt.result.timings.tlsCryptoUs.toNat) := rfl
  obtain rfl := Option.some.inj (hcrypto.symm.trans hfield)
  exact (formatThousandths_numeral _).reads_piece hpiece

/-- The last field of a row is `total_rx_bytes`. -/
theorem reads_piece43 {piece field : Text} (hfield : (benchmark.rowLine measured)[43]? = some field)
    (hpiece : piece <+: field) : ReadsIn (fun _ ↦ True) piece := by
  have htotal : (benchmark.rowLine measured)[43]? = some
      (formatU measured.attempt.result.bandwidth.totalRxBytes.toUInt32.toUInt64.toNat) := rfl
  obtain rfl := Option.some.inj (htotal.symm.trans hfield)
  exact (formatU_numeral _).reads_piece hpiece

end Benchmark

end PqMqtt.Analysis
