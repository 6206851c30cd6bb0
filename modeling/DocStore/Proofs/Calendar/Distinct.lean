import DocStore.Proofs.Calendar.RoundTrip
import DocStore.Proofs.Layout.Slots

/-!
Different instants have different texts.

A text with a year of any other form than four digits is not read back, but it still shows everything: the
year with its sign can be read as an integer, month and day have two digits each, and what stands behind the
`T` is read as the time of day. So the text of an instant determines the instant over the whole calendar, as
long as leap seconds are in their places (`Instant.text_eq_iff_settled_eq`).
-/

namespace DocStore.Calendar

namespace Date

/-- The year as it is written: with a sign unless it has four digits. -/
def yearText (year : Int) : String :=
  if 0 ≤ year ∧ year ≤ 9999 then Decimal.padded 4 year.toNat
  else if year < 0 then "-" ++ Decimal.padded 4 (-year).toNat
  else "+" ++ Decimal.padded 4 year.toNat

theorem text_eq (date : Date) :
    date.text = yearText date.year ++ "-" ++ Decimal.padded 2 date.month ++ "-" ++ Decimal.padded 2 date.day :=
  rfl

/-- With or without a sign, the year is an integer in base ten. -/
theorem int?_yearText (year : Int) : Decimal.int? (yearText year) = some year := by
  unfold yearText
  split
  · rw [Decimal.int?_padded]
    congr 1
    omega
  · split
    · simp [Decimal.int?, Decimal.nat?_padded]
      omega
    · simp [Decimal.int?, Decimal.nat?_padded]
      omega

theorem yearText_injective {year other : Int} (h : yearText year = yearText other) : year = other := by
  have hread := int?_yearText year
  rw [h, int?_yearText] at hread
  exact (Option.some.inj hread).symm

theorem text_injective {date other : Date} (hdate : date.inCalendar = true) (hother : other.inCalendar = true)
    (h : date.text = other.text) : date = other := by
  obtain ⟨hmonth, hday⟩ := lt_hundred hdate
  obtain ⟨hmonth', hday'⟩ := lt_hundred hother
  have hlists := congrArg String.toList h
  simp only [text_eq, String.toList_append] at hlists
  -- Month and day are as wide in both texts, so what stands in front of them is equal too.
  obtain ⟨hfront, hdays⟩ := List.append_inj' hlists (by rw [Decimal.length_padded hday, Decimal.length_padded hday'])
  obtain ⟨hfront, -⟩ := List.append_inj' hfront rfl
  obtain ⟨hfront, hmonths⟩ :=
    List.append_inj' hfront (by rw [Decimal.length_padded hmonth, Decimal.length_padded hmonth'])
  obtain ⟨hyears, -⟩ := List.append_inj' hfront rfl
  obtain ⟨year, month, day⟩ := date
  obtain ⟨year', month', day'⟩ := other
  have hyear : year = year' := yearText_injective (String.toList_inj.1 hyears)
  have hmonth : month = month' := Decimal.padded_injective (String.toList_inj.1 hmonths)
  have hday : day = day' := Decimal.padded_injective (String.toList_inj.1 hdays)
  rw [hyear, hmonth, hday]

/-- The text of a day is made of digits and signs. -/
theorem mem_text {date : Date} {c : Char} (h : c ∈ date.text.toList) :
    Decimal.isDigit c = true ∨ c = '-' ∨ c = '+' := by
  have hyear : ∀ c ∈ (yearText date.year).toList, Decimal.isDigit c = true ∨ c = '-' ∨ c = '+' := by
    intro c hc
    unfold yearText at hc
    split at hc
    · exact .inl (Decimal.isDigit_of_mem_padded hc)
    · split at hc
      all_goals
        rw [String.toList_append, List.mem_append] at hc
        rcases hc with hsign | hdigit
        · simp at hsign
          simp [hsign]
        · exact .inl (Decimal.isDigit_of_mem_padded hdigit)
  simp only [text_eq, String.toList_append, List.mem_append] at h
  rcases h with (((hyears | hdash) | hmonth) | hdash) | hday
  · exact hyear c hyears
  · exact .inr (.inl (by simpa using hdash))
  · exact .inl (Decimal.isDigit_of_mem_padded hmonth)
  · exact .inr (.inl (by simpa using hdash))
  · exact .inl (Decimal.isDigit_of_mem_padded hday)

end Date

/-- Instants have the same text exactly if they are counted as the same, leap seconds and years of any size
included. -/
theorem Instant.text_eq_iff_settled_eq {instant other : Instant} :
    instant.text = other.text ↔ instant.settled = other.settled := by
  constructor
  · intro h
    have hletter : ∀ date : Date, 'T' ∉ date.text.toList := by
      intro date hmem
      rcases Date.mem_text hmem with hdigit | hsign | hsign
      · exact absurd hdigit (by decide)
      · cases hsign
      · cases hsign
    have hstop : ∀ c ∈ ['Z'].head?, Decimal.isDigit c = false := by
      intro c hc
      cases hc
      decide
    have hlists := congrArg String.toList h
    rw [toList_text, toList_text] at hlists
    obtain ⟨hdates, htimes⟩ := Layout.eq_of_append_cons_eq (hletter _) (hletter _) hlists
    have hdate : instant.date = other.date :=
      Date.text_injective (Date.inCalendar_ofDayNumber _) (Date.inCalendar_ofDayNumber _)
        (String.toList_inj.1 hdates)
    obtain ⟨hhour, hminute, hsecond, hnanos⟩ := instant.timeOfDay_lt
    obtain ⟨hhour', hminute', hsecond', hnanos'⟩ := other.timeOfDay_lt
    have hread := takeTime?_text hhour hminute hsecond hnanos hstop
    rw [htimes, takeTime?_text hhour' hminute' hsecond' hnanos' hstop] at hread
    have htime : other.timeOfDay = instant.timeOfDay := congrArg Prod.fst (Option.some.inj hread)
    have hback := ofLocal?_timeOfDay instant
    rw [hdate, ← htime, ofLocal?_timeOfDay] at hback
    exact (Option.some.inj hback).symm
  · intro h
    rw [← text_settled instant, h, text_settled]

end DocStore.Calendar
