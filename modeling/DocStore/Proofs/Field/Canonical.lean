import DocStore.Proofs.Calendar.Distinct
import DocStore.Proofs.Field.RoundTrip

/-!
Stored texts are canonical.

A field stores what a value denotes, in whatever form it was given (`FieldKind.Denotes.encode?_eq`), and
different values that denote themselves have different texts (`FieldKind.Denotes.settled_eq_of_encode?`), with one
exception: a date with a leap second that is not in its place has the text of another date. So to compare stored
texts, as indices do, is to compare values as they are counted (`FieldType.encode_eq_iff`).
-/

namespace DocStore

open Calendar

section Kinds

variable {kind : FieldKind} {type : FieldType} {value other denoted otherDenoted : FieldValue}
  {text otherText : String}

theorem escapeNullRun_injective {s t : String} (h : escapeNullRun s = escapeNullRun t) : s = t := by
  rw [← unescapeNullRun_escapeNullRun s, h, unescapeNullRun_escapeNullRun]

namespace FieldKind.Denotes

/-- A value is stored as what it denotes. -/
theorem encode?_eq (h : kind.Denotes value denoted) : kind.encode? value = kind.encode? denoted := by
  cases h with
  | null | string | int | boolean | date | timestamp => rfl
  | dateOfText hread => simp only [encode?, instant?, hread]
  | dateOfMillis hread => simp only [encode?, instant?, hread]
  | timestampOfDate hmillis => simp only [encode?, millis?, hmillis]
  | timestampOfText hread hmillis => simp only [encode?, millis?, hread, hmillis, Option.map_some]

theorem isNull_eq (h : kind.Denotes value denoted) : value.isNull = denoted.isNull := by
  cases h <;> rfl

/-- What is denoted denotes itself. -/
theorem self (h : kind.Denotes value denoted) : kind.Denotes denoted denoted := by
  cases h with
  | null => exact .null
  | string s => exact .string s
  | int i => exact .int i
  | boolean b => exact .boolean b
  | date instant | dateOfText | dateOfMillis => exact .date _
  | timestamp millis | timestampOfDate | timestampOfText => exact .timestamp _

/-- Values that denote themselves are stored under different texts, unless they are counted as the same. -/
theorem settled_eq_of_encode? (h : kind.Denotes denoted denoted) (hother : kind.Denotes otherDenoted otherDenoted)
    (htext : kind.encode? denoted = some text) (hotherText : kind.encode? otherDenoted = some text) :
    denoted.settled = otherDenoted.settled := by
  cases h with
  | @null kind => cases kind <;> cases htext
  | string s =>
    cases hother with
    | null => cases hotherText
    | string t =>
      have hsame := htext.trans hotherText.symm
      rw [escapeNullRun_injective (Option.some.inj hsame)]
  | int i =>
    cases hother with
    | null => cases hotherText
    | int j =>
      have hsame := htext.trans hotherText.symm
      rw [Int64.toInt_inj.1 (Decimal.ofInt_injective (Option.some.inj hsame))]
  | boolean b =>
    cases hother with
    | null => cases hotherText
    | boolean c =>
      have hsame := htext.trans hotherText.symm
      revert hsame
      cases b <;> cases c <;> decide
  | date instant =>
    cases hother with
    | null => cases hotherText
    | date another =>
      have hsame := htext.trans hotherText.symm
      rw [FieldValue.settled, FieldValue.settled, Instant.text_eq_iff_settled_eq.1 (Option.some.inj hsame)]
  | timestamp millis =>
    cases hother with
    | null => cases hotherText
    | timestamp another =>
      have hsame := htext.trans hotherText.symm
      rw [Int64.toInt_inj.1 (Decimal.ofInt_injective (Option.some.inj hsame))]

end FieldKind.Denotes

namespace FieldType

/-- A value other than `null` is stored as its kind says. -/
theorem encode?_of_encode (h : type.encode value = .ok text) (hvalue : value ≠ .null) :
    type.kind.encode? value = some text := by
  unfold encode at h
  split at h
  · rename_i hnull
    cases value with
    | null => exact absurd rfl hvalue
    | bool | int | text | date => cases hnull
  · split at h
    · rename_i found hfound
      cases h
      exact hfound
    · cases h

/-- The text of `null` is stored for `null` only. -/
theorem encode_eq_null_iff (h : type.encode value = .ok text) : text = nullText ↔ value = .null := by
  constructor
  · rintro rfl
    exact encode_eq_null h
  · rintro rfl
    exact encode_null h

/-- Whatever a field takes denotes a value. -/
theorem exists_denotes (h : type.encode value = .ok text) : ∃ denoted, type.kind.Denotes value denoted := by
  by_cases hvalue : value = .null
  · rw [hvalue]
    exact ⟨.null, .null⟩
  · obtain ⟨denoted, hdenotes, -⟩ := FieldKind.decode?_encode? (encode?_of_encode h hvalue)
    exact ⟨denoted, hdenotes⟩

/-- A field stores a value as what it denotes. -/
theorem encode_of_denotes (h : type.kind.Denotes value denoted) : type.encode value = type.encode denoted := by
  rw [encode, encode, h.isNull_eq, h.encode?_eq]

/-- A field stores a value as it is counted. -/
theorem encode_settled (value : FieldValue) : type.encode value.settled = type.encode value := by
  cases value with
  | date instant =>
    obtain ⟨kind, allowNull, foldCase⟩ := type
    have hmillis : instant.settled.toMillis = instant.toMillis := instant.toMillis_settled
    cases kind <;> simp [encode, FieldValue.settled, FieldValue.isNull, FieldKind.encode?, FieldKind.instant?,
      FieldKind.millis?, Instant.text_settled, hmillis]
  | null | bool | int | text => rfl

/-- A field stores values that denote themselves under different texts, unless they are counted as the same. -/
theorem settled_eq_of_encode (h : type.kind.Denotes denoted denoted)
    (hother : type.kind.Denotes otherDenoted otherDenoted) (htext : type.encode denoted = .ok text)
    (hotherText : type.encode otherDenoted = .ok text) : denoted.settled = otherDenoted.settled := by
  by_cases hnull : text = nullText
  · rw [(encode_eq_null_iff htext).1 hnull, (encode_eq_null_iff hotherText).1 hnull]
  · have hdenoted : denoted ≠ .null := fun heq => hnull ((encode_eq_null_iff htext).2 heq)
    have hotherDenoted : otherDenoted ≠ .null := fun heq => hnull ((encode_eq_null_iff hotherText).2 heq)
    exact h.settled_eq_of_encode? hother (encode?_of_encode htext hdenoted) (encode?_of_encode hotherText hotherDenoted)

/-- Stored texts are canonical: two values, in whatever form they are given, are stored under the same text
exactly if they denote values that are counted as the same, which are the same values if every leap second is in
its place; and under the text of `null` exactly if they are `null`. -/
theorem encode_eq_iff (h : type.encode value = .ok text) (hother : type.encode other = .ok otherText) :
    ∃ denoted otherDenoted, type.kind.Denotes value denoted ∧ type.kind.Denotes other otherDenoted ∧
      (text = otherText ↔ denoted.settled = otherDenoted.settled) ∧
      (denoted.LeapInPlace → otherDenoted.LeapInPlace → (text = otherText ↔ denoted = otherDenoted)) ∧
      (text = nullText ↔ value = .null) := by
  obtain ⟨denoted, hdenotes⟩ := exists_denotes h
  obtain ⟨otherDenoted, hotherDenotes⟩ := exists_denotes hother
  have hnull : text = nullText ↔ value = .null := encode_eq_null_iff h
  have hcounted : text = otherText ↔ denoted.settled = otherDenoted.settled := by
    rw [encode_of_denotes hdenotes] at h
    rw [encode_of_denotes hotherDenotes] at hother
    constructor
    · rintro rfl
      exact settled_eq_of_encode hdenotes.self hotherDenotes.self h hother
    · intro hsame
      rw [← encode_settled, hsame, encode_settled, hother] at h
      exact (Except.ok.inj h).symm
  refine ⟨denoted, otherDenoted, hdenotes, hotherDenotes, hcounted, ?_, hnull⟩
  intro hplace hotherPlace
  rw [hcounted, FieldValue.settled_of_leapInPlace hplace, FieldValue.settled_of_leapInPlace hotherPlace]

/-- The last second of the year 9999 by a clock one hour behind UTC is a leap second here, and given as an instant
of the year 10000 it is stored under the same text. -/
theorem encode_eq_iff_afterYear9999 :
    FieldType.encode ⟨.date, true, false⟩ (.text "9999-12-31T23:59:60-01:00") = .ok "+10000-01-01T00:59:60.000Z" ∧
      FieldType.encode ⟨.date, true, false⟩ (.date ⟨253402304399, 1000000000, by decide⟩) =
        .ok "+10000-01-01T00:59:60.000Z" ∧
      ∃ denoted otherDenoted, FieldKind.Denotes .date (.text "9999-12-31T23:59:60-01:00") denoted ∧
        FieldKind.Denotes .date (.date ⟨253402304399, 1000000000, by decide⟩) otherDenoted ∧
          denoted.settled = otherDenoted.settled := by
  have htext : FieldType.encode ⟨.date, true, false⟩ (.text "9999-12-31T23:59:60-01:00") =
      .ok "+10000-01-01T00:59:60.000Z" := by decide +kernel
  have hinstant : FieldType.encode ⟨.date, true, false⟩ (.date ⟨253402304399, 1000000000, by decide⟩) =
      .ok "+10000-01-01T00:59:60.000Z" := by decide +kernel
  obtain ⟨denoted, otherDenoted, hdenotes, hotherDenotes, hcounted, -, -⟩ := encode_eq_iff htext hinstant
  exact ⟨htext, hinstant, denoted, otherDenoted, hdenotes, hotherDenotes, hcounted.1 rfl⟩

/-- Not all dates have texts of their own: these two are different, and are stored under the same text. -/
theorem encode_fourSeconds :
    FieldType.encode ⟨.date, false, false⟩ (.date fourSeconds) = .ok "1970-01-01T00:00:05.500Z" ∧
      FieldType.encode ⟨.date, false, false⟩ (.date fiveSeconds) = .ok "1970-01-01T00:00:05.500Z" ∧
      ¬∃ denoted, FieldKind.Denotes .date (.date fourSeconds) denoted ∧
        FieldKind.Denotes .date (.date fiveSeconds) denoted := by
  refine ⟨by with_unfolding_all rfl, by with_unfolding_all rfl, ?_⟩
  rintro ⟨denoted, hfour, hfive⟩
  cases hfour
  cases hfive

end FieldType

end Kinds

end DocStore
