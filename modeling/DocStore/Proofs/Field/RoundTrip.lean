import DocStore.Proofs.Calendar.RoundTrip
import DocStore.Proofs.Field.Shapes

/-!
Stored texts read back.

A field may take one value in several forms: a date also as a text or as milliseconds, a timestamp also
as a date. `FieldKind.Denotes` says which value each form stands for, and that value is what the stored
text gives back (`FieldType.decode_encode`), with two exceptions, both of them dates. The calendar reaches
beyond the year 9999 and below the year 0, the texts of such days are stored, and no reader takes them.
And the nanoseconds of a leap second that is not in its place are stored as one second more, so that
another date is read.
-/

namespace DocStore

open Calendar

/-- The value that a field of some kind holds after it was given a value. -/
inductive FieldKind.Denotes : FieldKind → FieldValue → FieldValue → Prop where
  | null {kind : FieldKind} : Denotes kind .null .null
  | string (s : String) : Denotes .string (.text s) (.text s)
  | int (i : Int64) : Denotes .int (.int i) (.int i)
  | boolean (b : Bool) : Denotes .boolean (.bool b) (.bool b)
  | date (instant : Instant) : Denotes .date (.date instant) (.date instant)
  | dateOfText {s : String} {instant : Instant} (h : Instant.ofText? s = some instant) :
    Denotes .date (.text s) (.date instant)
  | dateOfMillis {millis : Int64} {instant : Instant} (h : Instant.ofMillis? millis.toInt = some instant) :
    Denotes .date (.int millis) (.date instant)
  | timestamp (millis : Int64) : Denotes .timestamp (.int millis) (.int millis)
  | timestampOfDate {instant : Instant} {millis : Int64} (h : millis.toInt = instant.toMillis) :
    Denotes .timestamp (.date instant) (.int millis)
  | timestampOfText {s : String} {instant : Instant} {millis : Int64}
    (hread : Instant.ofText? s = some instant) (h : millis.toInt = instant.toMillis) :
    Denotes .timestamp (.text s) (.int millis)

/-- Whether the value is no date, or a date whose year has four digits. -/
def FieldValue.HasPlainYear : FieldValue → Prop
  | .date instant => instant.date.HasPlainYear
  | _ => True

instance (value : FieldValue) : Decidable value.HasPlainYear := by
  cases value with
  | date instant => exact inferInstanceAs (Decidable instant.date.HasPlainYear)
  | null | bool | int | text => exact inferInstanceAs (Decidable True)

/-- Whether the value is no date, or a date whose leap second, if it has one, is in its place. -/
def FieldValue.LeapInPlace : FieldValue → Prop
  | .date instant => Calendar.LeapInPlace instant.seconds instant.nanos
  | _ => True

instance (value : FieldValue) : Decidable value.LeapInPlace := by
  cases value with
  | date instant => exact inferInstanceAs (Decidable (Calendar.LeapInPlace instant.seconds instant.nanos))
  | null | bool | int | text => exact inferInstanceAs (Decidable True)

/-- The value that is counted: a date is the one whose text it is. -/
def FieldValue.settled : FieldValue → FieldValue
  | .date instant => .date instant.settled
  | value => value

theorem FieldValue.settled_of_leapInPlace {value : FieldValue} (h : value.LeapInPlace) : value.settled = value := by
  cases value with
  | date instant => rw [settled, Instant.settled_of_leapInPlace h]
  | null | bool | int | text => rfl

section Kinds

variable {kind : FieldKind} {type : FieldType} {value denoted other : FieldValue} {text : String}

/-- A value stands for one value at most. -/
theorem FieldKind.Denotes.unique (h : kind.Denotes value denoted) (hother : kind.Denotes value other) :
    other = denoted := by
  cases h with
  | null | string | int | boolean | date | timestamp =>
    cases hother
    rfl
  | dateOfText hread =>
    cases hother with
    | dateOfText hagain => rw [Option.some.inj (hagain.symm.trans hread)]
  | dateOfMillis hread =>
    cases hother with
    | dateOfMillis hagain => rw [Option.some.inj (hagain.symm.trans hread)]
  | timestampOfDate hmillis =>
    cases hother with
    | timestampOfDate hagain => rw [Int64.toInt_inj.1 (hagain.trans hmillis.symm)]
  | timestampOfText hread hmillis =>
    cases hother with
    | timestampOfText hreadAgain hagain =>
      rw [Option.some.inj (hreadAgain.symm.trans hread)] at hagain
      rw [Int64.toInt_inj.1 (hagain.trans hmillis.symm)]

/-- Only a text of `~` alone is stored with one more, and only such a text loses one. -/
theorem unescapeNullRun_escapeNullRun (s : String) : unescapeNullRun (escapeNullRun s) = s := by
  unfold escapeNullRun
  split
  · rename_i hrun
    have hlonger : isNullRun (nullText ++ s) = true := by
      rw [isNullRun, Bool.and_eq_true] at hrun
      simp [isNullRun, nullText, nullChar]
      simpa [nullChar] using hrun.2
    have hlist : (nullText ++ s).toList = '~' :: s.toList := by simp [nullText]
    rw [unescapeNullRun, if_pos hlonger, hlist]
    simp
  · rename_i hrun
    rw [unescapeNullRun, if_neg hrun]

/-- What a kind stores is read back as the value that is counted, unless a year stands in the way. -/
theorem FieldKind.decode?_encode? (h : kind.encode? value = some text) :
    ∃ denoted, kind.Denotes value denoted ∧
      kind.decode? text = if denoted.HasPlainYear then some denoted.settled else none := by
  have hdate : ∀ instant : Instant, FieldKind.decode? .date instant.text =
      if FieldValue.HasPlainYear (.date instant) then some (.date instant.settled) else none := by
    intro instant
    rw [FieldKind.decode?]
    split
    · rename_i hyear
      rw [Instant.ofText?_text hyear]
      rfl
    · rename_i hyear
      rw [Instant.ofText?_text_eq_none hyear]
      rfl
  have hmillis : ∀ i : Int, Decimal.InInt64 i →
      FieldKind.decode? .timestamp (Decimal.ofInt i) = some (.int (Int64.ofInt i)) := by
    intro i hrange
    rw [FieldKind.decode?, Decimal.int64?_ofInt hrange]
    rfl
  cases kind with
  | string =>
    cases value with
    | text s =>
      cases h
      refine ⟨_, .string s, ?_⟩
      rw [FieldKind.decode?, unescapeNullRun_escapeNullRun]
      exact (if_pos trivial).symm
    | null | bool | int | date => cases h
  | int =>
    cases value with
    | int i =>
      cases h
      have hread := hmillis i.toInt (Decimal.inInt64_toInt i)
      rw [Int64.ofInt_toInt] at hread
      exact ⟨_, .int i, hread.trans (if_pos trivial).symm⟩
    | null | bool | text | date => cases h
  | boolean =>
    cases value with
    | bool b =>
      cases h
      exact ⟨_, .boolean b, by cases b <;> rfl⟩
    | null | int | text | date => cases h
  | date =>
    obtain ⟨instant, hinstant, rfl⟩ := Option.map_eq_some_iff.1 h
    cases value with
    | date given =>
      rw [Option.some.inj hinstant]
      exact ⟨_, .date instant, hdate instant⟩
    | text s => exact ⟨_, .dateOfText hinstant, hdate instant⟩
    | int millis => exact ⟨_, .dateOfMillis hinstant, hdate instant⟩
    | null | bool => cases hinstant
  | timestamp =>
    obtain ⟨millis, hstored, rfl⟩ := Option.map_eq_some_iff.1 h
    cases value with
    | int given =>
      cases hstored
      have hread := hmillis given.toInt (Decimal.inInt64_toInt given)
      rw [Int64.ofInt_toInt] at hread
      exact ⟨_, .timestamp given, hread.trans (if_pos trivial).symm⟩
    | date instant =>
      cases hstored
      have hrange := instant.inInt64_toMillis
      exact ⟨_, .timestampOfDate (Decimal.wrapped_of_inInt64 hrange),
        (hmillis _ hrange).trans (if_pos trivial).symm⟩
    | text s =>
      obtain ⟨instant, hread, rfl⟩ := Option.map_eq_some_iff.1 hstored
      have hrange := instant.inInt64_toMillis
      exact ⟨_, .timestampOfText hread (Decimal.wrapped_of_inInt64 hrange),
        (hmillis _ hrange).trans (if_pos trivial).symm⟩
    | null | bool => cases hstored

/-- Whatever a field takes, its stored text gives back the one value that it stands for, but for two kinds of
dates: one whose year has a sign or more than four digits is stored and refused, and one whose leap second is not
in its place is read as the date that is counted. -/
theorem FieldType.decode_encode (h : type.encode value = .ok text) :
    ∃ denoted, type.kind.Denotes value denoted ∧ (∀ other, type.kind.Denotes value other → other = denoted) ∧
      (type.decode text = if denoted.HasPlainYear then .ok denoted.settled else .error ⟨text, type.kind⟩) ∧
      (denoted.LeapInPlace → denoted.settled = denoted) := by
  rcases type.null_or_writes h with ⟨rfl, rfl⟩ | hwrites
  · exact ⟨.null, .null, fun other hother => FieldKind.Denotes.null.unique hother, rfl, fun _ => rfl⟩
  · have hencode : type.kind.encode? value = some text := by
      unfold FieldType.encode at h
      split at h
      · split at h
        · cases h
          exact absurd rfl hwrites.ne_null
        · cases h
      · split at h
        · rename_i found hfound
          cases h
          exact hfound
        · cases h
    obtain ⟨denoted, hdenotes, hdecode⟩ := FieldKind.decode?_encode? hencode
    refine ⟨denoted, hdenotes, fun other hother => hdenotes.unique hother, ?_, FieldValue.settled_of_leapInPlace⟩
    rw [FieldType.decode, if_neg hwrites.ne_null, hdecode]
    by_cases hyear : denoted.HasPlainYear
    · rw [if_pos hyear, if_pos hyear]
    · rw [if_neg hyear, if_neg hyear]

/-- Ten thirty UTC on a leap day. -/
def leapMorning : Instant := ⟨1709202600, 250000000, by decide⟩

/-- A text with an offset is stored in UTC and read back as the instant that it names. -/
theorem FieldType.decode_encode_leapMorning :
    FieldType.encode ⟨.date, false, false⟩ (.text "2024-02-29T12:30:00.25+02:00") =
        .ok "2024-02-29T10:30:00.250Z" ∧
      FieldType.decode ⟨.date, false, false⟩ "2024-02-29T10:30:00.250Z" = .ok (.date leapMorning) := by
  have hencode : FieldType.encode ⟨.date, false, false⟩ (.text "2024-02-29T12:30:00.25+02:00") =
      .ok "2024-02-29T10:30:00.250Z" := by decide +kernel
  have hread : Instant.ofText? "2024-02-29T12:30:00.25+02:00" = some leapMorning := by decide +kernel
  obtain ⟨denoted, -, hunique, hdecode, hsettled⟩ := FieldType.decode_encode hencode
  have hdenoted : .date leapMorning = denoted := hunique _ (.dateOfText hread)
  subst hdenoted
  have hyear : (FieldValue.date leapMorning).HasPlainYear := by decide
  rw [if_pos hyear, hsettled (by decide)] at hdecode
  exact ⟨hencode, hdecode⟩

/-- Not every text that is stored can be read: with its offset, this one lies in the year 10000. -/
theorem FieldType.decode_encode_afterYear9999 :
    FieldType.encode ⟨.date, false, false⟩ (.text "9999-12-31T23:59:59-01:00") =
        .ok "+10000-01-01T00:59:59.000Z" ∧
      FieldType.decode ⟨.date, false, false⟩ "+10000-01-01T00:59:59.000Z" =
        .error ⟨"+10000-01-01T00:59:59.000Z", .date⟩ := by
  decide +kernel

/-- Four seconds and one and a half more, given in nanoseconds. -/
def fourSeconds : Instant := ⟨4, 1500000000, by decide⟩

/-- Five seconds and a half. -/
def fiveSeconds : Instant := ⟨5, 500000000, by decide⟩

-- And not every text is read as the date that it was stored for.
example : FieldType.encode ⟨.date, false, false⟩ (.date fourSeconds) = .ok "1970-01-01T00:00:05.500Z" ∧
    FieldType.decode ⟨.date, false, false⟩ "1970-01-01T00:00:05.500Z" = .ok (.date fiveSeconds) := by
  constructor <;> with_unfolding_all rfl

end Kinds

end DocStore
