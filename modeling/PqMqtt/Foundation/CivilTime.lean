import Mathlib.Data.Int.Basic
import Mathlib.Data.List.Basic
import Mathlib.Tactic.Linarith

/-!
# Civil time

Seconds since the beginning of 1970 as a date and a time of day, by the Gregorian calendar without
leap seconds.  Years are counted off in periods of 400, 100, 4 and 1 years, the last of which may
be a day longer than the others; the date that results is one of the calendar, and its number of
days gives the seconds back.
-/

namespace PqMqtt.Civil

/-! ## The calendar -/

structure CivilTime where
  year : ℤ
  month : ℕ
  day : ℕ
  hour : ℕ
  minute : ℕ
  second : ℕ
deriving DecidableEq

def IsLeap (year : ℤ) : Prop := 4 ∣ year ∧ (¬ 100 ∣ year ∨ 400 ∣ year)

instance (year : ℤ) : Decidable (IsLeap year) :=
  inferInstanceAs (Decidable (_ ∧ _))

/-- The lengths of the months. -/
def monthLengths (leap : Bool) : List ℕ :=
  [31, if leap then 29 else 28, 31, 30, 31, 30, 31, 31, 30, 31, 30, 31]

/-- The days of the year before a month. -/
def daysBeforeMonth (leap : Bool) (month : ℕ) : ℕ := ((monthLengths leap).take (month - 1)).sum

/-- The days from the beginning of the year 1 to the beginning of a year. -/
def daysBeforeYear (year : ℤ) : ℤ :=
  365 * (year - 1) + (year - 1) / 4 - (year - 1) / 100 + (year - 1) / 400

/-- The days from the beginning of the year 1 to that of 1970. -/
def epochDay : ℤ := 719162

namespace CivilTime

/-- A date of the calendar and a time of day. -/
structure Valid (time : CivilTime) : Prop where
  month : 1 ≤ time.month ∧ time.month ≤ 12
  day : 1 ≤ time.day ∧ time.day ≤ (monthLengths (IsLeap time.year)).getD (time.month - 1) 0
  clock : time.hour < 24 ∧ time.minute < 60 ∧ time.second < 60

instance (time : CivilTime) : Decidable time.Valid :=
  decidable_of_iff ((1 ≤ time.month ∧ time.month ≤ 12) ∧
    (1 ≤ time.day ∧ time.day ≤ (monthLengths (IsLeap time.year)).getD (time.month - 1) 0) ∧
    time.hour < 24 ∧ time.minute < 60 ∧ time.second < 60)
    ⟨fun h ↦ ⟨h.1, h.2.1, h.2.2⟩, fun h ↦ ⟨h.month, h.day, h.clock⟩⟩

/-- The seconds from the beginning of 1970. -/
def toSeconds (time : CivilTime) : ℤ :=
  (daysBeforeYear time.year + daysBeforeMonth (IsLeap time.year) time.month + time.day - 1
    - epochDay) * 86400 + time.hour * 3600 + time.minute * 60 + time.second

end CivilTime

/-! ## Counting off -/

/-- The year and the day of the year, from 0, of a day counted from the beginning of the year 1. -/
def yearAndDay (n : ℤ) : ℤ × ℕ :=
  let n400 := n / 146097
  let r400 := n % 146097
  let n100 := min (r400 / 36524) 3
  let r100 := r400 - 36524 * n100
  let n4 := r100 / 1461
  let r4 := r100 % 1461
  let n1 := min (r4 / 365) 3
  (400 * n400 + 100 * n100 + 4 * n4 + n1 + 1, (r4 - 365 * n1).toNat)

/-- The month of a day of the year. -/
def monthOfDay (leap : Bool) (dayOfYear : ℕ) : ℕ :=
  (List.range 12).countP fun month ↦ daysBeforeMonth leap (month + 1) ≤ dayOfYear

def ofSeconds (t : ℤ) : CivilTime :=
  let (year, dayOfYear) := yearAndDay (t / 86400 + epochDay)
  let month := monthOfDay (IsLeap year) dayOfYear
  let second := (t % 86400).toNat
  ⟨year, month, dayOfYear - daysBeforeMonth (IsLeap year) month + 1, second / 3600,
    second % 3600 / 60, second % 60⟩

/-! ## The date is right -/

/-- Whole periods of years before a day: only the last of a period may be a day longer. -/
structure Periods (n a b c d doy : ℤ) : Prop where
  days : n = 146097 * a + 36524 * b + 1461 * c + 365 * d + doy
  centuries : 0 ≤ b ∧ b ≤ 3
  fours : 0 ≤ c ∧ c ≤ 24
  years : 0 ≤ d ∧ d ≤ 3
  day : 0 ≤ doy ∧ doy ≤ 365
  last : doy = 365 → d = 3 ∧ (c ≠ 24 ∨ b = 3)

theorem Periods.daysBeforeYear {n a b c d doy : ℤ} (h : Periods n a b c d doy) :
    daysBeforeYear (400 * a + 100 * b + 4 * c + d + 1) + doy = n := by
  obtain ⟨hdays, hb, hc, hd, -, -⟩ := h
  unfold Civil.daysBeforeYear
  omega

theorem Periods.isLeap_iff {n a b c d doy : ℤ} (h : Periods n a b c d doy) :
    IsLeap (400 * a + 100 * b + 4 * c + d + 1) ↔ d = 3 ∧ (c ≠ 24 ∨ b = 3) := by
  obtain ⟨-, hb, hc, hd, -, -⟩ := h
  unfold IsLeap
  omega

theorem exists_periods (n : ℤ) : ∃ a b c d doy : ℤ, Periods n a b c d doy ∧
    yearAndDay n = (400 * a + 100 * b + 4 * c + d + 1, doy.toNat) := by
  obtain ⟨r400, hr400⟩ : ∃ r400, r400 = n % 146097 := ⟨_, rfl⟩
  obtain ⟨b, hb⟩ : ∃ b, b = min (r400 / 36524) 3 := ⟨_, rfl⟩
  obtain ⟨r100, hr100⟩ : ∃ r100, r100 = r400 - 36524 * b := ⟨_, rfl⟩
  obtain ⟨r4, hr4⟩ : ∃ r4, r4 = r100 % 1461 := ⟨_, rfl⟩
  obtain ⟨d, hd⟩ : ∃ d, d = min (r4 / 365) 3 := ⟨_, rfl⟩
  have hcentury : 0 ≤ r100 ∧ (r100 < 36524 ∨ r100 = 36524 ∧ b = 3) := by omega
  refine ⟨n / 146097, b, r100 / 1461, d, r4 - 365 * d, ?_, ?_⟩
  · constructor
    all_goals omega
  · subst hd hr4 hr100 hb hr400
    rfl

/-- The day of the year is within the year, and the days before the year make up the rest. -/
theorem yearAndDay_spec (n : ℤ) :
    daysBeforeYear (yearAndDay n).1 + (yearAndDay n).2 = n ∧
      (yearAndDay n).2 < if IsLeap (yearAndDay n).1 then 366 else 365 := by
  obtain ⟨a, b, c, d, doy, hperiods, hresult⟩ := exists_periods n
  have hdoy := hperiods.day
  have hday : (doy.toNat : ℤ) = doy := Int.toNat_of_nonneg hdoy.1
  rw [hresult]
  constructor
  · rw [hday]
    exact hperiods.daysBeforeYear
  · have hlast := hperiods.last
    rw [← hperiods.isLeap_iff] at hlast
    dsimp only
    split
    · omega
    · rename_i hcommon
      have hne : doy ≠ 365 := fun heq ↦ hcommon (hlast heq)
      omega

/-- The month that is found contains the day. -/
theorem monthOfDay_spec : ∀ leap : Bool, ∀ dayOfYear < if leap then 366 else 365,
    (1 ≤ monthOfDay leap dayOfYear ∧ monthOfDay leap dayOfYear ≤ 12) ∧
      daysBeforeMonth leap (monthOfDay leap dayOfYear) ≤ dayOfYear ∧
      dayOfYear - daysBeforeMonth leap (monthOfDay leap dayOfYear) + 1 ≤
        (monthLengths leap).getD (monthOfDay leap dayOfYear - 1) 0 := by
  decide +kernel

/-- The date is one of the calendar. -/
theorem valid_ofSeconds (t : ℤ) : (ofSeconds t).Valid := by
  obtain ⟨-, hlt⟩ := yearAndDay_spec (t / 86400 + epochDay)
  have hclock : (t % 86400).toNat / 3600 < 24 ∧ (t % 86400).toNat % 3600 / 60 < 60 ∧
      (t % 86400).toNat % 60 < 60 := by omega
  unfold ofSeconds
  generalize yearAndDay (t / 86400 + epochDay) = date at hlt ⊢
  obtain ⟨year, dayOfYear⟩ := date
  have hmonth := monthOfDay_spec (IsLeap year) dayOfYear (by simpa using hlt)
  exact ⟨hmonth.1, ⟨Nat.succ_pos _, hmonth.2.2⟩, hclock⟩

/-- The date and the time of day give the seconds back. -/
theorem toSeconds_ofSeconds (t : ℤ) : (ofSeconds t).toSeconds = t := by
  obtain ⟨hdays, hlt⟩ := yearAndDay_spec (t / 86400 + epochDay)
  unfold ofSeconds CivilTime.toSeconds
  generalize yearAndDay (t / 86400 + epochDay) = date at hdays hlt ⊢
  obtain ⟨year, dayOfYear⟩ := date
  obtain ⟨-, hbefore, -⟩ := monthOfDay_spec (IsLeap year) dayOfYear (by simpa using hlt)
  dsimp only at hdays hbefore ⊢
  generalize daysBeforeMonth (IsLeap year) (monthOfDay (IsLeap year) dayOfYear) = before
    at hbefore ⊢
  push_cast [Nat.cast_sub hbefore]
  omega

end PqMqtt.Civil
