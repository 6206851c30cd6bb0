import DocStore.Text.Decimal

/-!
Days of the proleptic Gregorian calendar, numbered from 1970-01-01.

Both directions count years from the first of March, so that a leap day is the last day of its year
(`YearDay`). A day number is split into spans of 400, 100, 4 and 1 years, and the day of the year
into months of 31, 30, 31, 30, 31 days. `Date.dayNumber_ofDayNumber` says that a day number survives
the way to a date and back.
-/

namespace DocStore.Calendar

/-- A day as the year that began on the first of March before it, and the days since then. -/
structure YearDay where
  year : Int
  day : Int
deriving DecidableEq, Repr

/-- A day named by year, month and day of the month. -/
structure Date where
  year : Int
  month : Nat
  day : Nat
deriving DecidableEq, Repr

/-- Whether February has twenty-nine days. -/
def isLeapYear (year : Int) : Bool :=
  year % 4 = 0 && (year % 100 ≠ 0 || year % 400 = 0)

/-- The number of days in a month. -/
def daysInMonth (year : Int) (month : Nat) : Nat :=
  if month = 2 then (if isLeapYear year then 29 else 28)
  else if month = 4 ∨ month = 6 ∨ month = 9 ∨ month = 11 then 30
  else 31

namespace YearDay

/-- Days since the first of March of year 0. -/
def dayNumber (position : YearDay) : Int :=
  365 * position.year + position.year / 4 - position.year / 100 + position.year / 400 + position.day

/-- The days of a span of 4 years, split into single years. -/
def ofCycle (firstYear day : Int) : YearDay :=
  let year := min (day / 365) 3
  ⟨firstYear + year, day - 365 * year⟩

/-- The days of a span of 100 years, split into spans of 4. -/
def ofCentury (firstYear day : Int) : YearDay :=
  ofCycle (firstYear + 4 * (day / 1461)) (day % 1461)

/-- The days of a span of 400 years, split into spans of 100. -/
def ofEra (firstYear day : Int) : YearDay :=
  let century := min (day / 36524) 3
  ofCentury (firstYear + 100 * century) (day - 36524 * century)

/-- The day that lies `n` days after the first of March of year 0. -/
def ofDayNumber (n : Int) : YearDay :=
  ofEra (400 * (n / 146097)) (n % 146097)

theorem ofDayNumber_spec (n : Int) :
    (ofDayNumber n).dayNumber = n ∧ 0 ≤ (ofDayNumber n).day ∧ (ofDayNumber n).day ≤ 365 := by
  simp only [ofDayNumber, ofEra, ofCentury, ofCycle, dayNumber]
  have hd : 0 ≤ n % 146097 ∧ n % 146097 < 146097 := by omega
  have hn : n = 146097 * (n / 146097) + n % 146097 := by omega
  generalize n / 146097 = era at hn ⊢
  generalize n % 146097 = dayOfEra at hn hd ⊢
  have hc : 0 ≤ min (dayOfEra / 36524) 3 ∧ min (dayOfEra / 36524) 3 ≤ 3 := by omega
  have hdc : 0 ≤ dayOfEra - 36524 * min (dayOfEra / 36524) 3 ∧
      dayOfEra - 36524 * min (dayOfEra / 36524) 3 ≤ 36524 ∧
      (min (dayOfEra / 36524) 3 < 3 → dayOfEra - 36524 * min (dayOfEra / 36524) 3 < 36524) := by
    omega
  generalize min (dayOfEra / 36524) 3 = century at hc hdc ⊢
  have hce : dayOfEra = 36524 * century + (dayOfEra - 36524 * century) := by omega
  generalize dayOfEra - 36524 * century = dayOfCentury at hdc hce ⊢
  have hq : 0 ≤ dayOfCentury / 1461 ∧ dayOfCentury / 1461 ≤ 24 ∧ 0 ≤ dayOfCentury % 1461 ∧
      dayOfCentury % 1461 < 1461 ∧
      (century < 3 → dayOfCentury / 1461 = 24 → dayOfCentury % 1461 < 1460) := by omega
  have hqe : dayOfCentury = 1461 * (dayOfCentury / 1461) + dayOfCentury % 1461 := by omega
  generalize dayOfCentury / 1461 = cycle at hq hqe ⊢
  generalize dayOfCentury % 1461 = dayOfCycle at hq hqe ⊢
  have hy : 0 ≤ min (dayOfCycle / 365) 3 ∧ min (dayOfCycle / 365) 3 ≤ 3 ∧
      0 ≤ dayOfCycle - 365 * min (dayOfCycle / 365) 3 ∧
      dayOfCycle - 365 * min (dayOfCycle / 365) 3 ≤ 365 := by omega
  generalize min (dayOfCycle / 365) 3 = yearOfCycle at hy ⊢
  have h400 : (400 * era + 100 * century + 4 * cycle + yearOfCycle) / 400 = era := by omega
  have h100 : (400 * era + 100 * century + 4 * cycle + yearOfCycle) / 100 =
      4 * era + century := by omega
  have h4 : (400 * era + 100 * century + 4 * cycle + yearOfCycle) / 4 =
      100 * era + 25 * century + cycle := by omega
  rw [h400, h100, h4]
  omega

end YearDay

namespace Date

/-- Whether the calendar has this day. -/
def inCalendar (date : Date) : Bool :=
  1 ≤ date.month && date.month ≤ 12 && 1 ≤ date.day && date.day ≤ daysInMonth date.year date.month

/-- The day as a day of the year that began in March. -/
def toYearDay (date : Date) : YearDay :=
  if date.month ≤ 2 then ⟨date.year - 1, (153 * (date.month + 9 : Int) + 2) / 5 + date.day - 1⟩
  else ⟨date.year, (153 * (date.month - 3 : Int) + 2) / 5 + date.day - 1⟩

/-- The date of a day of the year that began in March. -/
def ofYearDay (position : YearDay) : Date :=
  let month := (5 * position.day + 2) / 153
  let day := (position.day - (153 * month + 2) / 5 + 1).toNat
  if month < 10 then ⟨position.year, (month + 3).toNat, day⟩
  else ⟨position.year + 1, (month - 9).toNat, day⟩

/-- The number of the day, counted from 1970-01-01. -/
def dayNumber (date : Date) : Int :=
  date.toYearDay.dayNumber - 719468

/-- The day with a given number. -/
def ofDayNumber (n : Int) : Date :=
  ofYearDay (YearDay.ofDayNumber (n + 719468))

theorem toYearDay_ofYearDay {position : YearDay} (h0 : 0 ≤ position.day) (h1 : position.day ≤ 365) :
    (ofYearDay position).toYearDay = position := by
  obtain ⟨year, day⟩ := position
  simp only at h0 h1
  simp only [ofYearDay]
  have hm : 0 ≤ (5 * day + 2) / 153 ∧ (5 * day + 2) / 153 ≤ 11 ∧
      0 ≤ day - (153 * ((5 * day + 2) / 153) + 2) / 5 := by omega
  generalize (5 * day + 2) / 153 = month at hm ⊢
  split
  · rename_i hmonth
    have e1 : ¬ (month + 3).toNat ≤ 2 := by omega
    have e2 : (((month + 3).toNat : Nat) : Int) - 3 = month := by omega
    simp only [toYearDay, e1, if_false, e2, YearDay.mk.injEq, true_and]
    omega
  · rename_i hmonth
    have e1 : (month - 9).toNat ≤ 2 := by omega
    have e2 : (((month - 9).toNat : Nat) : Int) + 9 = month := by omega
    simp only [toYearDay, e1, if_true, e2, YearDay.mk.injEq]
    omega

/-- A day number survives the way to a date and back. -/
theorem dayNumber_ofDayNumber (n : Int) : (ofDayNumber n).dayNumber = n := by
  obtain ⟨h, h0, h1⟩ := YearDay.ofDayNumber_spec (n + 719468)
  rw [dayNumber, ofDayNumber, toYearDay_ofYearDay h0 h1, h]
  omega

/-- The text `YYYY-MM-DD`; a year outside `0` to `9999` has a sign and at least four digits. -/
def text (date : Date) : String :=
  let year :=
    if 0 ≤ date.year ∧ date.year ≤ 9999 then Decimal.padded 4 date.year.toNat
    else if date.year < 0 then "-" ++ Decimal.padded 4 (-date.year).toNat
    else "+" ++ Decimal.padded 4 date.year.toNat
  year ++ "-" ++ Decimal.padded 2 date.month ++ "-" ++ Decimal.padded 2 date.day

end Date

end DocStore.Calendar
