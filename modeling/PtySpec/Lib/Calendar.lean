import Mathlib

/-!
# Years and months that start in March

Days are counted from 1 March of year 0 of the Gregorian calendar, so that a leap day is the
last of its year. A day is in one year, in one month of it, and days compare as year, month
and day of the month do.
-/

namespace PtySpec.Lib

/-- A leap year. -/
def Leap (y : Int) : Prop := y % 4 = 0 ∧ (y % 100 ≠ 0 ∨ y % 400 = 0)

instance (y : Int) : Decidable (Leap y) := inferInstanceAs (Decidable (_ ∧ _))

/-- The days before 1 March of a year. -/
def yearStart (y : Int) : Int := 365 * y + y / 4 - y / 100 + y / 400

/-- The calendar repeats after 400 years. -/
theorem yearStart_add_eras (y era : Int) :
    yearStart (y + era * 400) = yearStart y + era * 146097 := by
  unfold yearStart
  omega

/-- A year that starts in March has the leap day of the February it ends with. -/
theorem yearStart_add_one (y : Int) :
    yearStart (y + 1) = yearStart y + if Leap (y + 1) then 366 else 365 := by
  unfold yearStart
  split
  · next h =>
    obtain ⟨h4, h100 | h400⟩ := h
    · omega
    · omega
  · next h =>
    unfold Leap at h
    omega

theorem yearStart_lt_add_one (y : Int) : yearStart y < yearStart (y + 1) := by
  rw [yearStart_add_one]
  split <;> omega

theorem yearStart_strictMono : StrictMono yearStart :=
  strictMono_int_of_lt_succ yearStart_lt_add_one

/-- The days of a year before one of its months, March being month 0. -/
def monthStart (m : Int) : Int := (153 * m + 2) / 5

/-- A day with its year, the month in it and the day of the month, both from 0. -/
structure DayIn (n y m d : Int) : Prop where
  day : n = yearStart y + monthStart m + d
  year_le : yearStart y ≤ n
  lt_year : n < yearStart (y + 1)
  month_le : 0 ≤ m
  le_month : m ≤ 11
  day_le : 0 ≤ d
  lt_day : monthStart m + d < monthStart (m + 1)

namespace DayIn

variable {n y m d n' y' m' d' : Int}

/-- Days of different years compare as the years do. -/
private theorem lt_of_year (h : DayIn n y m d) (h' : DayIn n' y' m' d') (hy : y < y') : n < n' :=
  calc
    n < yearStart (y + 1) := h.lt_year
    _ ≤ yearStart y' := yearStart_strictMono.monotone hy
    _ ≤ n' := h'.year_le

/-- Days of different months of a year compare as the months do. -/
private theorem lt_of_month (h : DayIn n y m d) (h' : DayIn n' y m' d') (hm : m < m') :
    n < n' := by
  have hd := h.lt_day
  have hd' := h'.day_le
  rw [h.day, h'.day]
  unfold monthStart at hd ⊢
  omega

/-- Days compare as their years, their months and the days of the month do. -/
theorem lt_iff (h : DayIn n y m d) (h' : DayIn n' y' m' d') :
    n < n' ↔ y < y' ∨ y = y' ∧ (m < m' ∨ m = m' ∧ d < d') := by
  rcases Int.lt_trichotomy y y' with hy | rfl | hy
  · exact iff_of_true (h.lt_of_year h' hy) (.inl hy)
  · rcases Int.lt_trichotomy m m' with hm | rfl | hm
    · exact iff_of_true (h.lt_of_month h' hm) (.inr ⟨rfl, .inl hm⟩)
    · rw [h.day, h'.day]
      omega
    · have hlt := h'.lt_of_month h hm
      omega
  · have hlt := h'.lt_of_year h hy
    omega

end DayIn

/-! ### The year of a day -/

/-- The year within the cycle of 400 years, from the day within it. -/
def yearOfEra (doe : Int) : Int := (doe - doe / 1460 + doe / 36524 - doe / 146096) / 365

/-- The year `t` of the four-year period `q` of the century `c`. -/
private theorem yearStart_parts {c q t : Int} (hc0 : 0 ≤ c) (hc : c ≤ 3) (hq0 : 0 ≤ q)
    (hq : q ≤ 24) (ht0 : 0 ≤ t) (ht : t ≤ 3) :
    yearStart (100 * c + 4 * q + t) = 36524 * c + 1461 * q + 365 * t ∧
      yearStart (100 * c + 4 * q + t + 1) = 36524 * c + 1461 * q + 365 * t + 365 +
        if t = 3 ∧ (q < 24 ∨ c = 3) then 1 else 0 := by
  unfold yearStart
  constructor
  · omega
  · split <;> omega

/-- The day lies in that year. The last day of the cycle is the only one whose century is
cut short, and is looked at apart; of any other day, the last of four years may be counted
a day early, which changes no year. -/
theorem yearOfEra_spec {doe : Int} (h0 : 0 ≤ doe) (h1 : doe < 146097) :
    0 ≤ yearOfEra doe ∧ yearOfEra doe ≤ 399 ∧ yearStart (yearOfEra doe) ≤ doe ∧
      doe < yearStart (yearOfEra doe + 1) := by
  by_cases hl : doe = 146096
  · subst hl
    decide
  obtain ⟨c, r, hd, hc0, hc, hr0, hr⟩ :
      ∃ c r : Int, doe = 36524 * c + r ∧ 0 ≤ c ∧ c ≤ 3 ∧ 0 ≤ r ∧ r < 36524 :=
    ⟨doe / 36524, doe % 36524, by omega, by omega, by omega, by omega, by omega⟩
  obtain ⟨q, s, hrq, hq0, hq, hs0, hs⟩ :
      ∃ q s : Int, r = 1461 * q + s ∧ 0 ≤ q ∧ q ≤ 24 ∧ 0 ≤ s ∧ s < 1461 :=
    ⟨r / 1461, r % 1461, by omega, by omega, by omega, by omega, by omega⟩
  have hcentury : doe / 36524 = c := by omega
  have hcycle : doe / 146096 = 0 := by omega
  obtain ⟨e, hfour, he⟩ :
      ∃ e : Int, doe / 1460 = 25 * c + q + e ∧ (e = 0 ∧ s < 1460 ∨ e = 1 ∧ 1364 ≤ s) :=
    ⟨doe / 1460 - 25 * c - q, by omega, by omega⟩
  obtain ⟨t, ht, ht0, ht3, hst, hts⟩ : ∃ t : Int, yearOfEra doe = 100 * c + 4 * q + t ∧ 0 ≤ t ∧
      t ≤ 3 ∧ 365 * t ≤ s ∧ (s < 365 * t + 365 ∨ t = 3) := by
    unfold yearOfEra
    exact ⟨(s - e) / 365, by omega, by omega, by omega, by omega, by omega⟩
  obtain ⟨hstart, hnext⟩ := yearStart_parts hc0 hc hq0 hq ht0 ht3
  rw [ht, hstart, hnext]
  refine ⟨by omega, by omega, by omega, ?_⟩
  split <;> omega

/-! ### Dates -/

/-- The days of a month, January being month 1. -/
def monthLength (y m : Int) : Int :=
  if m = 2 then if Leap y then 29 else 28
  else if m = 4 ∨ m = 6 ∨ m = 9 ∨ m = 11 then 30 else 31

theorem monthLength_pos (y m : Int) : 0 < monthLength y m := by
  unfold monthLength
  split <;> split <;> decide

/-- A date of the calendar, January being month 1. -/
structure IsDate (y m d : Int) : Prop where
  month : 1 ≤ m ∧ m ≤ 12
  day : 1 ≤ d ∧ d ≤ monthLength y m

instance (y m d : Int) : Decidable (IsDate y m d) :=
  decidable_of_iff ((1 ≤ m ∧ m ≤ 12) ∧ 1 ≤ d ∧ d ≤ monthLength y m)
    ⟨fun h ↦ ⟨h.1, h.2⟩, fun h ↦ ⟨h.1, h.2⟩⟩

/-- The year of a month that starts in March. -/
def marchYear (y m : Int) : Int := if m ≤ 2 then y - 1 else y

/-- A month other than February is as long as its place in the year says. -/
theorem monthLength_eq {y m : Int} (hm : 1 ≤ m ∧ m ≤ 12) (h2 : m ≠ 2) :
    monthLength y m = monthStart ((m + 9) % 12 + 1) - monthStart ((m + 9) % 12) := by
  obtain ⟨h1, h12⟩ := hm
  unfold monthLength
  rw [if_neg h2]
  interval_cases m <;> first | rfl | exact absurd rfl h2

/-- February is what its year has left. -/
theorem monthLength_february (y : Int) :
    monthLength y 2 = yearStart y - yearStart (y - 1) - monthStart 11 := by
  have hnext := yearStart_add_one (y - 1)
  rw [Int.sub_add_cancel] at hnext
  have hstart : monthStart 11 = 337 := rfl
  unfold monthLength
  rw [hnext, hstart, if_pos rfl]
  split <;> omega

/-- A day of the year and month of a date, and of a day of the month that the month has. -/
theorem dayIn_iff_isDate {n y m d : Int} (hm : 1 ≤ m ∧ m ≤ 12) :
    DayIn n (marchYear y m) ((m + 9) % 12) (d - 1) ↔
      IsDate y m d ∧ n = yearStart (marchYear y m) + monthStart ((m + 9) % 12) + (d - 1) := by
  have hlong := yearStart_add_one (marchYear y m)
  by_cases h2 : m = 2
  · subst h2
    have hlen := monthLength_february y
    have hyear : marchYear y 2 = y - 1 := rfl
    have hmonth : ((2 : Int) + 9) % 12 = 11 := rfl
    have hstart : monthStart 11 = 337 ∧ monthStart (11 + 1) = 367 := ⟨rfl, rfl⟩
    rw [hyear, Int.sub_add_cancel] at hlong
    constructor
    · intro h
      rw [hyear, hmonth] at h ⊢
      have hday := h.day
      have hlt := h.lt_year
      have hle := h.day_le
      rw [Int.sub_add_cancel] at hlt
      exact ⟨⟨hm, by omega, by omega⟩, hday⟩
    · rintro ⟨h, hn⟩
      rw [hyear, hmonth] at hn ⊢
      have hday := h.day
      refine ⟨hn, by omega, ?_, by decide, by decide, by omega, ?_⟩
      · rw [Int.sub_add_cancel]
        omega
      · split at hlong <;> omega
  · have hlen := monthLength_eq (y := y) hm h2
    constructor
    · intro h
      have hle := h.day_le
      have hlt := h.lt_day
      exact ⟨⟨hm, by omega, by omega⟩, h.day⟩
    · rintro ⟨h, hn⟩
      have hday := h.day
      have hbound : 0 ≤ monthStart ((m + 9) % 12) ∧ monthStart ((m + 9) % 12 + 1) ≤ 337 := by
        unfold monthStart
        omega
      refine ⟨hn, by omega, ?_, by omega, by omega, by omega, by omega⟩
      split at hlong <;> omega

end PtySpec.Lib
