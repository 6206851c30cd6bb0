import DocStore.Calendar.Instant
import DocStore.Proofs.Text.Decimal
import DocStore.Proofs.Text.Runs

/-!
Instants written as text and read back.

The text of an instant shows its day and its time to the last nanosecond, so reading it gives the
instant itself, leap seconds included (`Instant.ofText?_text`). There are two exceptions. The nanoseconds
of a leap second that is not in its place are written as one second more, so what is read is another
instant (`Instant.settled`). And the year has to have four digits: any other year is written with a sign,
which the reader does not take (`Instant.ofText?_text_eq_none`).
-/

namespace DocStore.Calendar

/-! ### Days -/

namespace YearDay

/-- The last day of a leap year that began in March is the last one of four such years. -/
theorem ofCycle_of_lastDay {firstYear day : Int} (hday : day ≤ 1460)
    (hlast : (ofCycle firstYear day).day = 365) :
    (ofCycle firstYear day).year = firstYear + 3 ∧ day = 1460 := by
  simp only [ofCycle] at hlast ⊢
  omega

theorem ofCentury_of_lastDay {firstYear day : Int}
    (hlast : (ofCentury firstYear day).day = 365) :
    (ofCentury firstYear day).year = firstYear + 4 * (day / 1461) + 3 ∧ day % 1461 = 1460 := by
  exact ofCycle_of_lastDay (by omega) hlast

/-- A year that began in March has a day 365 only if the February in it has twenty-nine days. -/
theorem isLeapYear_of_lastDay {n : Int} (hlast : (ofDayNumber n).day = 365) :
    isLeapYear ((ofDayNumber n).year + 1) = true := by
  have hera : 0 ≤ n % 146097 ∧ n % 146097 < 146097 := by omega
  simp only [ofDayNumber, ofEra] at hlast ⊢
  generalize n % 146097 = dayOfEra at hera hlast ⊢
  -- Only the last of four centuries is as long as its last span of four years needs.
  have hcentury : 0 ≤ min (dayOfEra / 36524) 3 ∧ min (dayOfEra / 36524) 3 ≤ 3 ∧
      0 ≤ dayOfEra - 36524 * min (dayOfEra / 36524) 3 ∧
      dayOfEra - 36524 * min (dayOfEra / 36524) 3 ≤ 36524 ∧
      (min (dayOfEra / 36524) 3 < 3 → dayOfEra - 36524 * min (dayOfEra / 36524) 3 < 36524) := by
    omega
  generalize min (dayOfEra / 36524) 3 = century at hcentury hlast ⊢
  generalize dayOfEra - 36524 * century = dayOfCentury at hcentury hlast ⊢
  obtain ⟨h0, h3, hday0, hday, hshort⟩ := hcentury
  obtain ⟨hyear, hcycle⟩ := ofCentury_of_lastDay hlast
  rw [hyear]
  simp only [isLeapYear, Bool.and_eq_true, Bool.or_eq_true, decide_eq_true_eq, ne_eq]
  omega

end YearDay

namespace Date

theorem inCalendar_ofYearDay {position : YearDay} (h0 : 0 ≤ position.day) (h1 : position.day ≤ 365)
    (hleap : position.day = 365 → isLeapYear (position.year + 1) = true) :
    (ofYearDay position).inCalendar = true := by
  obtain ⟨year, day⟩ := position
  simp only at h0 h1 hleap
  have hmonth : 0 ≤ (5 * day + 2) / 153 ∧ (5 * day + 2) / 153 ≤ 11 := by omega
  have hday : 153 * ((5 * day + 2) / 153) ≤ 5 * day + 2 ∧
      5 * day + 2 < 153 * ((5 * day + 2) / 153) + 153 := by omega
  simp only [ofYearDay]
  generalize (5 * day + 2) / 153 = month at hmonth hday ⊢
  have hcases : month = 0 ∨ month = 1 ∨ month = 2 ∨ month = 3 ∨ month = 4 ∨ month = 5 ∨ month = 6 ∨
      month = 7 ∨ month = 8 ∨ month = 9 ∨ month = 10 ∨ month = 11 := by omega
  rcases hcases with rfl | rfl | rfl | rfl | rfl | rfl | rfl | rfl | rfl | rfl | rfl | rfl
  case inr.inr.inr.inr.inr.inr.inr.inr.inr.inr.inr =>
    -- February is the last month of a year that begins in March.
    by_cases hlast : day = 365
    · subst hlast
      simp [inCalendar, daysInMonth, hleap rfl]
    · have hshort : 28 ≤ daysInMonth (year + 1) 2 := by
        rw [daysInMonth, if_pos rfl]
        split <;> omega
      simp [inCalendar]
      omega
  all_goals
    simp [inCalendar, daysInMonth]
    omega

/-- The day with a given number is a day of the calendar. -/
theorem inCalendar_ofDayNumber (n : Int) : (ofDayNumber n).inCalendar = true := by
  obtain ⟨-, h0, h1⟩ := YearDay.ofDayNumber_spec (n + 719468)
  exact inCalendar_ofYearDay h0 h1 YearDay.isLeapYear_of_lastDay

/-- Months and days have two digits at most. -/
theorem lt_hundred {date : Date} (h : date.inCalendar = true) : date.month < 10 ^ 2 ∧ date.day < 10 ^ 2 := by
  simp only [inCalendar, Bool.and_eq_true, decide_eq_true_eq] at h
  have hlongest : daysInMonth date.year date.month ≤ 31 := by
    unfold daysInMonth
    split <;> split <;> decide
  omega

/-- Whether the year is written with four digits and no sign. -/
def HasPlainYear (date : Date) : Prop :=
  0 ≤ date.year ∧ date.year ≤ 9999

instance (date : Date) : Decidable date.HasPlainYear :=
  inferInstanceAs (Decidable (_ ∧ _))

end Date

/-- A second that does not end its minute is followed by another one. -/
theorem Representable.succ {seconds : Int} {nanos : Nat} (hrange : Representable seconds nanos)
    (hleap : ¬LeapInPlace seconds nanos) : Representable (seconds + 1) (nanos - 1000000000) := by
  obtain ⟨hfirst, hlast, hnanos⟩ := hrange
  have hminute : lastSecond % 60 = 59 := by decide
  simp only [LeapInPlace, Classical.not_imp] at hleap
  exact ⟨by omega, by omega, by omega⟩

namespace Instant

variable {instant : Instant} {rest : List Char}

/-! ### Reading what was written, piece by piece -/

theorem takeDigits?_padded {width n : Nat} (h : n < 10 ^ (width + 1)) :
    takeDigits? (width + 1) ((Decimal.padded (width + 1) n).toList ++ rest) = some (n, rest) := by
  have hlength : (Decimal.padded (width + 1) n).toList.length = width + 1 := Decimal.length_padded h
  rw [takeDigits?, List.take_left' hlength, List.drop_left' hlength, if_pos hlength, Decimal.nat?_padded]
  rfl

theorem takeDigits?_eq_none {width : Nat} {c : Char} (h : Decimal.isDigit c = false) :
    takeDigits? (width + 1) (c :: rest) = none := by
  rw [takeDigits?, List.take_succ_cons, Decimal.nat?_eq_none List.mem_cons_self h]
  split <;> rfl

theorem takeChar?_cons (c : Char) : takeChar? c (c :: rest) = some rest := by
  rw [takeChar?, if_pos rfl]

theorem takeDate?_text {date : Date} (hin : date.inCalendar = true) (hyear : date.HasPlainYear) :
    takeDate? (date.text.toList ++ rest) = some (date, rest) := by
  obtain ⟨hmonth, hday⟩ := Date.lt_hundred hin
  obtain ⟨year, month, day⟩ := date
  have hplain : 0 ≤ year ∧ year ≤ 9999 := hyear
  have hwritten : (Date.text ⟨year, month, day⟩).toList ++ rest =
      (Decimal.padded 4 year.toNat).toList ++ '-' :: ((Decimal.padded 2 month).toList ++
        '-' :: ((Decimal.padded 2 day).toList ++ rest)) := by
    simp only [Date.text]
    rw [if_pos hplain]
    simp
  have hcast : ((year.toNat : Nat) : Int) = year := by omega
  have hfour : year.toNat < 10 ^ 4 := by omega
  rw [hwritten]
  simp [takeDate?, takeDigits?_padded hfour, takeDigits?_padded hmonth, takeDigits?_padded hday,
    takeChar?_cons, hcast, hin]

/-- A fraction shows as many of nine digits as are needed, so the ones left out are zeros. -/
theorem fractionText_eq (nanos : Nat) : ∃ shown hidden, shown + 1 + hidden = 9 ∧
    nanos = nanos / 10 ^ hidden * 10 ^ hidden ∧
      fractionText nanos = Decimal.padded (shown + 1) (nanos / 10 ^ hidden) := by
  unfold fractionText
  split
  · exact ⟨2, 6, rfl, by omega, rfl⟩
  · split
    · exact ⟨5, 3, rfl, by omega, rfl⟩
    · exact ⟨8, 0, rfl, by omega, by rw [Nat.pow_zero, Nat.div_one]⟩

theorem takeFraction?_fractionText {nanos : Nat} (h : nanos < 1000000000)
    (hstop : ∀ c ∈ rest.head?, Decimal.isDigit c = false) :
    takeFraction? ('.' :: ((fractionText nanos).toList ++ rest)) = some (nanos, rest) := by
  obtain ⟨shown, hidden, hnine, hnanos, htext⟩ := fractionText_eq nanos
  have hfew : nanos / 10 ^ hidden < 10 ^ (shown + 1) := by
    rw [Nat.div_lt_iff_lt_mul (Nat.pow_pos (by omega)), ← Nat.pow_add, hnine]
    exact h
  have hlength : (fractionText nanos).toList.length = shown + 1 := by
    rw [htext, Decimal.length_padded hfew]
  have hdigits : ∀ c ∈ (fractionText nanos).toList, Decimal.isDigit c = true := by
    rw [htext]
    intro c hc
    exact Decimal.isDigit_of_mem_padded hc
  have hfill : ((fractionText nanos).toList ++ List.replicate 9 '0').take 9 =
      (fractionText nanos).toList ++ List.replicate hidden '0' := by
    rw [List.take_append, List.take_of_length_le (by omega), List.take_replicate, hlength]
    congr 2
    omega
  have hne : (fractionText nanos).toList ≠ [] := by
    intro hnil
    rw [hnil] at hlength
    cases hlength
  simp only [takeFraction?, Text.takeWhile_append_of_stop hdigits hstop,
    Text.dropWhile_append_of_stop hdigits hstop, hfill]
  rw [htext, Decimal.nat?_padded_append, ← hnanos, ← htext]
  simp [hne]

theorem takeTime?_text {time : TimeOfDay} (hhour : time.hour < 24) (hminute : time.minute < 60)
    (hsecond : time.second ≤ 60) (hnanos : time.nanos < 1000000000)
    (hstop : ∀ c ∈ rest.head?, Decimal.isDigit c = false) :
    takeTime? ((Decimal.padded 2 time.hour).toList ++ ':' :: ((Decimal.padded 2 time.minute).toList ++
      ':' :: ((Decimal.padded 2 time.second).toList ++ '.' :: ((fractionText time.nanos).toList ++ rest)))) =
      some (time, rest) := by
  have htwo : ∀ {n : Nat}, n ≤ 60 → n < 10 ^ 2 := by
    intro n hn
    omega
  simp [takeTime?, takeDigits?_padded (htwo (n := time.hour) (by omega)),
    takeDigits?_padded (htwo (n := time.minute) (by omega)), takeDigits?_padded (htwo hsecond),
    takeChar?_cons, takeFraction?_fractionText hnanos hstop, hhour, hminute, hsecond]

/-! ### Instants -/

/-- The time of day is one that a clock shows. -/
theorem timeOfDay_lt (instant : Instant) : instant.timeOfDay.hour < 24 ∧ instant.timeOfDay.minute < 60 ∧
    instant.timeOfDay.second ≤ 60 ∧ instant.timeOfDay.nanos < 1000000000 := by
  obtain ⟨seconds, nanos, hrange⟩ := instant
  obtain ⟨-, -, hnanos⟩ := hrange
  simp only [timeOfDay]
  omega

/-- The instant whose text it is: nanoseconds of a leap second that is not in its place are counted as
one second more. -/
def settled (instant : Instant) : Instant :=
  if h : LeapInPlace instant.seconds instant.nanos then instant
  else ⟨instant.seconds + 1, instant.nanos - 1000000000, instant.representable.succ h⟩

theorem settled_of_leapInPlace (h : LeapInPlace instant.seconds instant.nanos) : instant.settled = instant :=
  dif_pos h

theorem leapInPlace_settled (instant : Instant) :
    LeapInPlace instant.settled.seconds instant.settled.nanos := by
  by_cases h : LeapInPlace instant.seconds instant.nanos
  · rw [settled_of_leapInPlace h]
    exact h
  · have hnanos : instant.nanos < 2000000000 := instant.representable.2.2
    rw [settled, dif_neg h]
    intro hleap
    dsimp only at hleap
    omega

theorem date_settled (instant : Instant) : instant.settled.date = instant.date := by
  by_cases h : LeapInPlace instant.seconds instant.nanos
  · rw [settled_of_leapInPlace h]
  · rw [settled, dif_neg h]
    simp only [LeapInPlace, Classical.not_imp] at h
    have hday : (instant.seconds + 1) / 86400 = instant.seconds / 86400 := by omega
    simp only [date, hday]

theorem timeOfDay_settled (instant : Instant) : instant.settled.timeOfDay = instant.timeOfDay := by
  by_cases h : LeapInPlace instant.seconds instant.nanos
  · rw [settled_of_leapInPlace h]
  · have hnanos : instant.nanos < 2000000000 := instant.representable.2.2
    rw [settled, dif_neg h]
    simp only [LeapInPlace, Classical.not_imp] at h
    -- The second does not end its minute, so one more changes neither minute nor hour.
    simp only [timeOfDay, TimeOfDay.mk.injEq]
    omega

/-- An instant and the one it is counted as have the same text. -/
theorem text_settled (instant : Instant) : instant.settled.text = instant.text := by
  simp only [text, secondText, date_settled, timeOfDay_settled]

theorem toMillis_settled (instant : Instant) : instant.settled.toMillis = instant.toMillis := by
  by_cases h : LeapInPlace instant.seconds instant.nanos
  · rw [settled_of_leapInPlace h]
  · rw [settled, dif_neg h]
    simp only [LeapInPlace, Classical.not_imp] at h
    simp only [toMillis]
    omega

/-- Day and time of day determine an instant whose leap second is in its place. -/
theorem ofLocal?_timeOfDay_of_leapInPlace (hleap : LeapInPlace instant.seconds instant.nanos) :
    ofLocal? instant.date instant.timeOfDay 0 = some instant := by
  obtain ⟨seconds, nanos, hrange⟩ := instant
  have hnanos : nanos < 2000000000 := hrange.2.2
  have hmoment : Representable seconds nanos ∧ LeapInPlace seconds nanos := ⟨hrange, hleap⟩
  simp only [LeapInPlace] at hleap
  simp only [ofLocal?, date, timeOfDay, Date.dayNumber_ofDayNumber]
  have hday : 0 ≤ seconds % 86400 ∧ seconds % 86400 < 86400 := by omega
  have hseconds : seconds = 86400 * (seconds / 86400) + seconds % 86400 := by omega
  have hsecond : ((seconds % 86400).toNat % 60 : Nat) = seconds % 60 := by omega
  have hcarry : ((seconds % 86400).toNat % 60 + nanos / 1000000000) / 60 = nanos / 1000000000 := by
    omega
  rw [hcarry]
  have hback : seconds / 86400 * 86400 + (((seconds % 86400).toNat / 3600 * 3600 +
      (seconds % 86400).toNat / 60 % 60 * 60 : Nat) : Int) +
      (((seconds % 86400).toNat % 60 + nanos / 1000000000 - nanos / 1000000000 : Nat) : Int) - 0 =
        seconds := by
    omega
  have hfraction : nanos % 1000000000 + nanos / 1000000000 * 1000000000 = nanos := by omega
  rw [hback, hfraction, ofEpoch?, dif_pos hmoment]

/-- Day and time of day are those of the instant that is counted. -/
theorem ofLocal?_timeOfDay (instant : Instant) :
    ofLocal? instant.date instant.timeOfDay 0 = some instant.settled := by
  rw [← date_settled, ← timeOfDay_settled]
  exact ofLocal?_timeOfDay_of_leapInPlace instant.leapInPlace_settled

theorem toList_text (instant : Instant) : instant.text.toList = instant.date.text.toList ++
    'T' :: ((Decimal.padded 2 instant.timeOfDay.hour).toList ++
      ':' :: ((Decimal.padded 2 instant.timeOfDay.minute).toList ++
        ':' :: ((Decimal.padded 2 instant.timeOfDay.second).toList ++
          '.' :: ((fractionText instant.timeOfDay.nanos).toList ++ ['Z'])))) := by
  simp [text, secondText]

/-- In a year of four digits, the instant that is counted is read back from the text. -/
theorem ofText?_text (hyear : instant.date.HasPlainYear) : ofText? instant.text = some instant.settled := by
  obtain ⟨hhour, hminute, hsecond, hnanos⟩ := instant.timeOfDay_lt
  have hdate : ∀ rest, takeDate? (instant.date.text.toList ++ rest) = some (instant.date, rest) := by
    intro rest
    exact takeDate?_text (Date.inCalendar_ofDayNumber _) hyear
  have hstop : ∀ c ∈ ['Z'].head?, Decimal.isDigit c = false := by
    intro c hc
    cases hc
    decide
  have htime := takeTime?_text hhour hminute hsecond hnanos hstop
  unfold ofText?
  rw [toList_text, hdate]
  simp only [Option.bind_eq_bind, Option.bind_some, true_or, if_true, htime, offset?,
    List.isEmpty_nil]
  exact ofLocal?_timeOfDay instant

/-- Any other year is written with a sign in front, and such a text is not read. -/
theorem ofText?_text_eq_none (hyear : ¬instant.date.HasPlainYear) : ofText? instant.text = none := by
  have hsign : ∃ sign more, Decimal.isDigit sign = false ∧ instant.date.text.toList = sign :: more := by
    have hsigned : ¬(0 ≤ instant.date.year ∧ instant.date.year ≤ 9999) := hyear
    simp only [Date.text]
    rw [if_neg hsigned]
    split
    · exact ⟨'-', _, by decide, by simp; rfl⟩
    · exact ⟨'+', _, by decide, by simp; rfl⟩
  obtain ⟨sign, more, hdigit, hdate⟩ := hsign
  unfold ofText?
  rw [toList_text, hdate, List.cons_append, takeDate?, takeDigits?_eq_none hdigit]
  rfl

/-- Milliseconds since the epoch fit in 64 bits. -/
theorem inInt64_toMillis (instant : Instant) : Decimal.InInt64 instant.toMillis := by
  obtain ⟨seconds, nanos, hrange⟩ := instant
  obtain ⟨hfirst, hlast, hnanos⟩ := hrange
  have hbounds : firstSecond = -8334601228800 ∧ lastSecond = 8210266876799 := by decide
  rw [hbounds.1] at hfirst
  rw [hbounds.2] at hlast
  simp only [Decimal.InInt64, toMillis]
  omega

end Instant

end DocStore.Calendar
