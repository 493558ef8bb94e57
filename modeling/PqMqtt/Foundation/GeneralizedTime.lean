import PqMqtt.Foundation.CivilTime
import PqMqtt.Foundation.DerReader

/-!
# Generalized time

The text of a date and a time of day in the distinguished encoding: four digits for the year, two
for every other field and a `Z` at the end.  The reader accepts dates of the calendar only.
-/

namespace PqMqtt.Der

open Civil

/-! ## Numbers of a fixed width -/

/-- The decimal digits of a number, after as many zeros as the width asks for. -/
def paddedDigits (width n : ℕ) : List ℕ :=
  List.replicate (width - (Nat.digits 10 n).length) 0 ++ (Nat.digits 10 n).reverse

def decimal (width n : ℕ) : List UInt8 :=
  (paddedDigits width n).map fun digit ↦ UInt8.ofNat (0x30 + digit)

/-- The value of a decimal digit. -/
def digitValue (octet : UInt8) : Option ℕ :=
  if 0x30 ≤ octet.toNat ∧ octet.toNat ≤ 0x39 then some (octet.toNat - 0x30) else none

/-- A number of as many digits as the width says. -/
def number (width : ℕ) : Reader ℕ := fun octets ↦
  if octets.length < width then none
  else ((octets.take width).mapM digitValue).map fun digits ↦
    (Nat.ofDigits 10 digits.reverse, octets.drop width)

theorem paddedDigits_lt (width n : ℕ) : ∀ digit ∈ paddedDigits width n, digit < 10 := by
  intro digit hdigit
  rw [paddedDigits, List.mem_append, List.mem_reverse] at hdigit
  cases hdigit with
  | inl hzero =>
    rw [List.eq_of_mem_replicate hzero]
    norm_num
  | inr hdigit => exact Nat.digits_lt_base (by norm_num) hdigit

theorem length_decimal {width n : ℕ} (h : n < 10 ^ width) : (decimal width n).length = width := by
  have hlength : (Nat.digits 10 n).length ≤ width :=
    (Nat.digits_length_le_iff (by norm_num) n).mpr h
  rw [decimal, List.length_map, paddedDigits, List.length_append, List.length_replicate,
    List.length_reverse]
  omega

theorem ofDigits_paddedDigits (width n : ℕ) :
    Nat.ofDigits 10 (paddedDigits width n).reverse = n := by
  rw [paddedDigits, List.reverse_append, List.reverse_reverse, List.reverse_replicate,
    Nat.ofDigits_append, Nat.ofDigits_replicate_zero, Nat.mul_zero, Nat.add_zero,
    Nat.ofDigits_digits]

theorem mapM_digitValue {digits : List ℕ} (h : ∀ digit ∈ digits, digit < 10) :
    (digits.map fun digit ↦ UInt8.ofNat (0x30 + digit)).mapM digitValue = some digits := by
  induction digits with
  | nil => rfl
  | cons digit digits ih =>
    rw [List.forall_mem_cons] at h
    have hsize : 0x30 + digit < UInt8.size := by
      change 0x30 + digit < 256
      omega
    have hvalue : digitValue (UInt8.ofNat (0x30 + digit)) = some digit := by
      rw [digitValue, UInt8.toNat_ofNat_of_lt' hsize, if_pos (by omega), Nat.add_sub_cancel_left]
    rw [List.map_cons, List.mapM_cons, hvalue, ih h.2]
    rfl

theorem reads_number {width n : ℕ} (h : n < 10 ^ width) :
    Reads (number width) (decimal width n) n := by
  intro _ rest
  have hlength := length_decimal h
  have hnot : ¬(decimal width n ++ rest).length < width := by
    rw [List.length_append]
    omega
  change number width (decimal width n ++ rest) = _
  rw [number, if_neg hnot, List.take_left' hlength, List.drop_left' hlength, decimal,
    mapM_digitValue (paddedDigits_lt width n), Option.map_some, ofDigits_paddedDigits]

/-! ## Dates -/

def timeText (time : CivilTime) : List UInt8 :=
  decimal 4 time.year.toNat ++ (decimal 2 time.month ++ (decimal 2 time.day ++
    (decimal 2 time.hour ++ (decimal 2 time.minute ++ (decimal 2 time.second ++ [0x5a])))))

/-- An octet that has to be there. -/
def expect (octet : UInt8) : Reader Unit := fun octets ↦
  if octets.head? = some octet then some ((), octets.tail) else none

def timeFields : Reader CivilTime := do
  let year ← number 4
  let month ← number 2
  let day ← number 2
  let hour ← number 2
  let minute ← number 2
  let second ← number 2
  let _ ← expect 0x5a
  pure ⟨year, month, day, hour, minute, second⟩

/-- The seconds of a date of the calendar. -/
def readTime (text : List UInt8) : Option ℤ := do
  let time ← readWhole timeFields text
  if time.Valid then some time.toSeconds else none

theorem reads_expect (octet : UInt8) : Reads (expect octet) [octet] () := by
  intro _ rest
  exact if_pos rfl

theorem day_le_of_valid {time : CivilTime} (h : time.Valid) : time.day ≤ 31 := by
  have hlengths : ∀ leap : Bool, ∀ index < 12, (monthLengths leap).getD index 0 ≤ 31 := by decide
  have hmonth := h.month
  exact h.day.2.trans (hlengths _ (time.month - 1) (by omega))

theorem length_timeText {time : CivilTime} (h : time.Valid) (hdigits : time.year ≤ 9999) :
    (timeText time).length = 15 := by
  have hmonth := h.month
  have hday := day_le_of_valid h
  have hclock := h.clock
  have htwo {n : ℕ} (hn : n < 100) : (decimal 2 n).length = 2 := length_decimal hn
  have hyear : (decimal 4 time.year.toNat).length = 4 := length_decimal (by omega)
  simp only [timeText, List.length_append, hyear, htwo (show time.month < 100 by omega),
    htwo (show time.day < 100 by omega), htwo (show time.hour < 100 by omega),
    htwo (show time.minute < 100 by omega), htwo (show time.second < 100 by omega),
    List.length_singleton]

theorem reads_timeFields {time : CivilTime} (h : time.Valid) (hyear : 0 ≤ time.year)
    (hdigits : time.year ≤ 9999) : Reads timeFields (timeText time) time := by
  have hmonth := h.month
  have hday := day_le_of_valid h
  have hclock := h.clock
  have hnat : (time.year.toNat : ℤ) = time.year := Int.toNat_of_nonneg hyear
  have hfields : Reads timeFields (timeText time)
      ⟨time.year.toNat, time.month, time.day, time.hour, time.minute, time.second⟩ := by
    apply (reads_number (show time.year.toNat < 10 ^ 4 by omega)).bind
    apply (reads_number (show time.month < 10 ^ 2 by omega)).bind
    apply (reads_number (show time.day < 10 ^ 2 by omega)).bind
    apply (reads_number (show time.hour < 10 ^ 2 by omega)).bind
    apply (reads_number (show time.minute < 10 ^ 2 by omega)).bind
    apply (reads_number (show time.second < 10 ^ 2 by omega)).bind
    exact (reads_expect 0x5a).map
  rwa [hnat] at hfields

/-- The seconds of a date with a year of four digits are read back from its text. -/
theorem readTime_timeText {t : ℤ} (hyear : 0 ≤ (ofSeconds t).year)
    (hdigits : (ofSeconds t).year ≤ 9999) : readTime (timeText (ofSeconds t)) = some t := by
  have hfields := reads_timeFields (valid_ofSeconds t) hyear hdigits
  have hlength : (timeText (ofSeconds t)).length < 2 ^ 32 := by
    rw [length_timeText (valid_ofSeconds t) hdigits]
    norm_num
  rw [readTime, hfields.readWhole hlength, Option.bind_eq_bind, Option.bind_some,
    if_pos (valid_ofSeconds t), toSeconds_ofSeconds]

end PqMqtt.Der
