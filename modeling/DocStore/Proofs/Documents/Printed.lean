import DocStore.CommandLine.Dispatch
import DocStore.Proofs.Documents.Encoded
import DocStore.Proofs.Field.Canonical
import DocStore.Proofs.Schema.RoundTrip

/-!
What is printed of a record can be read again, and is stored under the same texts.

A printed record is read as the same values, but for dates, which come back as their texts
(`FieldValues.recordOfText_toJson`). A field that takes a date also takes its text, and a date that could be
printed has one that can be read, so each field encodes what is read as the text that it was decoded from
(`FieldType.encode_reread`).
-/

namespace DocStore

open Calendar DocStore.Json

/-- The value that is read where this one is printed: a date comes back as its text. -/
def FieldValue.reread : FieldValue → FieldValue
  | .date instant => .text instant.text
  | value => value

theorem FieldValue.ofJson_toJson (value : FieldValue) : ofJson value.toJson = .ok value.reread := by
  cases value with
  | int i =>
    rw [toJson, ofJson, if_pos (Decimal.inInt64_toInt i), Int64.ofInt_toInt]
    rfl
  | null | bool | text | date => rfl

theorem FieldValue.plain_toJson {depth : Nat} (value : FieldValue) : Plain depth value.toJson := by
  cases value with
  | null => exact .null
  | bool b => exact .bool b
  | int i =>
    have hlow := i.le_toInt
    have hhigh := i.toInt_lt
    apply Plain.int
    constructor
    · omega
    · rw [Decimal.maxWord64]
      omega
  | text s => exact .str s
  | date instant => exact .str _

theorem FieldValue.normalised_toJson (value : FieldValue) : value.toJson.normalised = value.toJson := by
  cases value <;> rfl

section Field

variable {type : FieldType} {value found : FieldValue} {text : String}

/-- What is read where a value was printed denotes the value as it is counted, if its year is one that can be
read. -/
theorem FieldKind.Denotes.reread {kind : FieldKind} (h : kind.Denotes value found) (hyear : found.HasPlainYear) :
    kind.Denotes found.settled.reread found.settled := by
  cases h with
  | null => exact .null
  | string s => exact .string s
  | int i => exact .int i
  | boolean b => exact .boolean b
  | @date instant | @dateOfText _ instant | @dateOfMillis _ instant =>
    apply Denotes.dateOfText
    rw [Instant.text_settled]
    exact Instant.ofText?_text hyear
  | timestamp millis | timestampOfDate | timestampOfText => exact .timestamp _

/-- What a stored text is decoded as is what the stored value denotes, as it is counted, and its year is one that
can be read. -/
theorem FieldType.denotes_of_decode (h : type.encode value = .ok text) (hfound : type.decode text = .ok found) :
    ∃ denoted, type.kind.Denotes value denoted ∧ denoted.HasPlainYear ∧ found = denoted.settled := by
  by_cases hnull : text = nullText
  · rw [decode, if_pos hnull] at hfound
    rw [(encode_eq_null_iff h).1 hnull]
    cases hfound
    exact ⟨_, .null, trivial, rfl⟩
  · have hvalue : value ≠ .null := fun heq => hnull ((encode_eq_null_iff h).2 heq)
    obtain ⟨denoted, hdenotes, hdecode⟩ := FieldKind.decode?_encode? (encode?_of_encode h hvalue)
    rw [decode, if_neg hnull, hdecode] at hfound
    by_cases hyear : denoted.HasPlainYear
    · rw [if_pos hyear] at hfound
      cases hfound
      exact ⟨denoted, hdenotes, hyear, rfl⟩
    · rw [if_neg hyear] at hfound
      cases hfound

/-- What is read where a decoded value was printed is stored under the same text. -/
theorem FieldType.encode_reread (h : type.encode value = .ok text) (hfound : type.decode text = .ok found) :
    type.encode found.reread = .ok text := by
  obtain ⟨denoted, hdenotes, hyear, rfl⟩ := denotes_of_decode h hfound
  rw [encode_of_denotes (hdenotes.reread hyear), encode_settled, ← encode_of_denotes hdenotes]
  exact h

end Field

namespace FieldValues

/-- The record that is read where this one is printed. -/
def reread (values : FieldValues) : FieldValues where
  entries := values.entries.map fun entry => (entry.1, entry.2.reread)
  ascending := by
    rw [Assoc.Ascending, List.pairwise_map]
    exact values.ascending

theorem keys_reread (values : FieldValues) : values.reread.keys = values.keys :=
  List.map_map

theorem ofMembers_toJson (entries : List (String × FieldValue)) :
    ofMembers FieldValue.ofJson (entries.map fun entry => (entry.1, entry.2.toJson)) =
      .ok (entries.map fun entry => (entry.1, entry.2.reread)) := by
  induction entries with
  | nil => rfl
  | cons entry rest ih =>
    simp only [List.map_cons, ofMembers, FieldValue.ofJson_toJson, ih]
    rfl

/-- The text of a printed record is read. -/
theorem recordOfText_toJson (values : FieldValues) :
    Client.recordOfText values.toJson.text = .ok values.reread := by
  have hplain : Plain 1 values.toJson :=
    SortedMap.plain_toJson (fun value _ => value.plain_toJson)
  have hnormalised : values.toJson.normalised = values.toJson := by
    have hmap := @SortedMap.normalised_toJson _ FieldValue.toJson values
    simp only [FieldValue.normalised_toJson] at hmap
    exact hmap
  rw [Client.recordOfText, hplain.ofText?_text (by decide), hnormalised, toJson]
  simp only [Client.recordOfJson, ofMembers_toJson]
  exact congrArg Except.ok (SortedMap.ofList_entries values.reread)

end FieldValues

namespace Collection

variable {coll : Collection} {values : FieldValues}

/-- Decoding adds the declared fields, each with what its text is decoded as. -/
theorem find?_decodeFlat {entries : List (String × String)} (hnodup : (entries.map Prod.fst).Nodup)
    {done : FieldValues} (hdone : ∀ name ∈ entries.map Prod.fst, done.find? name = none)
    (h : coll.decodeFlat done (entries.flatMap fun entry => [entry.1, entry.2]) = .ok values) (name : String)
    (value : FieldValue) :
    values.find? name = some value ↔ done.find? name = some value ∨ ∃ type text,
      coll.field? name = some type ∧ (name, text) ∈ entries ∧ type.decode text = .ok value := by
  induction entries generalizing done with
  | nil =>
    cases h
    simp
  | cons entry rest ih =>
    obtain ⟨first, stored⟩ := entry
    rw [List.map_cons, List.nodup_cons] at hnodup
    have hrest : ∀ other ∈ rest.map Prod.fst, done.find? other = none := fun other hother =>
      hdone other (List.mem_cons_of_mem _ hother)
    rw [List.flatMap_cons, List.cons_append, List.cons_append, List.nil_append, decodeFlat] at h
    split at h
    · rename_i hundeclared
      rw [ih hnodup.2 hrest h]
      refine or_congr_right (exists_congr fun type => exists_congr fun text => ?_)
      refine and_congr_right fun htype => and_congr_left fun _ => ?_
      have hne : (name, text) ≠ (first, stored) := by
        rintro heq
        cases heq
        rw [hundeclared] at htype
        cases htype
      simp [hne]
    · rename_i type htype
      split at h
      · cases h
      · rename_i decoded hdecoded
        have hfirst : done.find? first = none := hdone first List.mem_cons_self
        have hinsert : ∀ other ∈ rest.map Prod.fst, (done.insert first decoded).find? other = none := by
          intro other hother
          have hne : other ≠ first := by
            rintro rfl
            exact hnodup.1 hother
          rw [SortedMap.find?_insert, if_neg hne]
          exact hrest other hother
        rw [ih hnodup.2 hinsert h, SortedMap.find?_insert]
        by_cases hname : name = first
        · subst hname
          have hnotMem : ∀ text, (name, text) ∉ rest := fun text hmem =>
            hnodup.1 (List.mem_map.2 ⟨_, hmem, rfl⟩)
          simp [hfirst, htype, hnotMem, hdecoded]
        · simp [hname]

/-- Every text of a declared field is decoded. -/
theorem exists_of_decodeFlat {entries : List (String × String)} {done : FieldValues}
    (h : coll.decodeFlat done (entries.flatMap fun entry => [entry.1, entry.2]) = .ok values) {name text : String}
    {type : FieldType} (hmem : (name, text) ∈ entries) (htype : coll.field? name = some type) :
    ∃ value, type.decode text = .ok value := by
  induction entries generalizing done with
  | nil => cases hmem
  | cons entry rest ih =>
    obtain ⟨first, stored⟩ := entry
    rw [List.flatMap_cons, List.cons_append, List.cons_append, List.nil_append, decodeFlat] at h
    rcases List.mem_cons.1 hmem with heq | hmem
    · cases heq
      rw [htype] at h
      dsimp only at h
      split at h
      · cases h
      · exact ⟨_, ‹_›⟩
    · split at h
      · exact ih h hmem
      · split at h
        · cases h
        · exact ih h hmem

theorem find?_decodeRecord {row : Row} (h : coll.decodeRecord row.flat = .ok values) (name : String)
    (value : FieldValue) :
    values.find? name = some value ↔
      ∃ type text, coll.field? name = some type ∧ row.find? name = some text ∧ type.decode text = .ok value := by
  rw [find?_decodeFlat row.keys_nodup (fun _ _ => rfl) h]
  simp [SortedMap.find?_eq_some_iff]

/-- A decoded record has the fields of the stored one, if these are the declared ones. -/
theorem mem_keys_decodeRecord {row : Row} (h : coll.decodeRecord row.flat = .ok values)
    (hrow : ∀ name, row.contains name = true ↔ coll.definition.contains name = true) (name : String) :
    name ∈ values.keys ↔ name ∈ row.keys := by
  rw [SortedMap.mem_keys_iff, SortedMap.mem_keys_iff, SortedMap.contains_iff]
  constructor
  · rintro ⟨value, hvalue⟩
    obtain ⟨type, text, -, htext, -⟩ := (find?_decodeRecord h name value).1 hvalue
    exact SortedMap.contains_iff.2 ⟨text, htext⟩
  · intro hcontains
    obtain ⟨type, htype⟩ := SortedMap.contains_iff.1 ((hrow name).1 hcontains)
    obtain ⟨text, htext⟩ := SortedMap.contains_iff.1 hcontains
    obtain ⟨value, hvalue⟩ := exists_of_decodeFlat h (SortedMap.find?_eq_some_iff.1 htext) htype
    exact ⟨value, (find?_decodeRecord h name value).2 ⟨type, text, htype, htext, hvalue⟩⟩

end Collection

/-- The stored texts of some fields. -/
def Row.pick (row : Row) (names : List String) : List (String × String) :=
  names.filterMap fun name => (row.find? name).map fun text => (name, text)

theorem Row.find?_of_mem_pick {row : Row} {names : List String} {entry : String × String}
    (h : entry ∈ row.pick names) : row.find? entry.1 = some entry.2 := by
  obtain ⟨name, -, hname⟩ := List.mem_filterMap.1 h
  obtain ⟨text, htext, rfl⟩ := Option.map_eq_some_iff.1 hname
  exact htext

theorem Row.mem_pick {row : Row} {names : List String} {name text : String} (hname : name ∈ names)
    (htext : row.find? name = some text) : (name, text) ∈ row.pick names :=
  List.mem_filterMap.2 ⟨name, hname, by rw [htext]; rfl⟩

/-- Fields that were decoded from a record and read again are encoded as the texts that the record holds. -/
theorem Operation.encodeFields_reread {coll : Collection} {row : Row} (hrow : row.Encoded coll) (method : Method)
    {fields : List (String × FieldValue)}
    (h : ∀ entry ∈ fields, ∃ type text, coll.field? entry.1 = some type ∧ row.find? entry.1 = some text ∧
      type.decode text = .ok entry.2) :
    encodeFields method coll (fields.map fun entry => (entry.1, entry.2.reread)) =
      .ok (row.pick (fields.map Prod.fst)) := by
  induction fields with
  | nil => rfl
  | cons entry rest ih =>
    obtain ⟨type, text, htype, htext, hdecode⟩ := h entry List.mem_cons_self
    obtain ⟨value, hvalue⟩ := hrow entry.1 type text htype htext
    have hrest := ih fun other hother => h other (List.mem_cons_of_mem _ hother)
    rw [List.map_cons, encodeFields]
    simp only [htype, FieldType.encode_reread hvalue hdecode, hrest]
    simp [Row.pick, htext, Except.map]

end DocStore
