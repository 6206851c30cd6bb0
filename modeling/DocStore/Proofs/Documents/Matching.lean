import DocStore.Proofs.Documents.Encoded
import DocStore.Proofs.Field.Shapes

/-!
Equal composite values are equal fields, where at most one field of the index is free text.

Records with encoded texts have composite values that can be told apart again (`eq_of_joined`). So the ids
that an index holds under the composite value of a probe are those of the records that match the probe field
by field. A unique index holds no record with a `null`, and so none for a probe that has one.
-/

namespace DocStore

open DocStore.Script

namespace Index

/-- In every field of the index the record holds the text that the probe gives, as the index takes it. -/
def Matches (index : Index) (row probe : Row) : Prop :=
  ∀ field ∈ index.fields,
    (row.find? field.name).map field.cased = (probe.find? field.name).map field.cased

instance (index : Index) (row probe : Row) : Decidable (index.Matches row probe) :=
  inferInstanceAs (Decidable (∀ field ∈ index.fields, _ = _))

/-- At most one field of the index is free text. -/
def FreeAtMostOnce (index : Index) (coll : Collection) : Prop :=
  (index.fields.filter fun field =>
    (coll.field? field.name).any fun type => type.kind = .string).length ≤ 1

instance (index : Index) (coll : Collection) : Decidable (index.FreeAtMostOnce coll) :=
  inferInstanceAs (Decidable (_ ≤ 1))

/-- The record has a text in every field of the index. -/
def CoveredBy (index : Index) (row : Row) : Prop :=
  ∀ field ∈ index.fields, row.contains field.name = true

instance (index : Index) (row : Row) : Decidable (index.CoveredBy row) :=
  inferInstanceAs (Decidable (∀ field ∈ index.fields, _ = true))

variable {index : Index} {coll : Collection} {row probe : Row}

/-- The kind of a field; what is not declared counts as no text. -/
def kindOf (coll : Collection) (field : IndexField) : FieldKind :=
  ((coll.field? field.name).map FieldType.kind).getD .int

theorem FreeAtMostOnce.kinds (h : index.FreeAtMostOnce coll) :
    (index.fields.filter fun field => kindOf coll field = .string).length ≤ 1 := by
  have hsame : ∀ field : IndexField, decide (kindOf coll field = .string) =
      (coll.field? field.name).any fun type => type.kind = .string := by
    intro field
    unfold kindOf
    cases coll.field? field.name <;> simp
  simp only [hsame]
  exact h

theorem partOf_eq {field : IndexField} {text : String} (htext : row.find? field.name = some text) :
    partOf row field = Value.doubled (field.cased text) := by
  rw [partOf, htext]
  rfl

/-- The part of an encoded record in a composite value looks as the kind of its field says. -/
theorem shapes_partOf (hencoded : row.Encoded coll) {field : IndexField}
    (hdeclared : coll.definition.contains field.name = true)
    (hcontains : row.contains field.name = true) :
    (kindOf coll field).Shapes [':', ':'] (partOf row field).toList := by
  obtain ⟨type, htype⟩ := SortedMap.contains_iff.1 hdeclared
  obtain ⟨text, htext⟩ := SortedMap.contains_iff.1 hcontains
  have hkind : kindOf coll field = type.kind := by
    rw [kindOf, show coll.field? field.name = some type from htype]
    rfl
  obtain ⟨value, hvalue⟩ := hencoded field.name type text htype htext
  rw [partOf_eq htext, hkind]
  exact ((FieldKind.Shapes.of_encode hvalue).cased field).doubled

/-- Parts are equal where the texts are, as the index takes them. -/
theorem partOf_eq_iff {field : IndexField} (hrow : row.contains field.name = true)
    (hprobe : probe.contains field.name = true) : partOf row field = partOf probe field ↔
      (row.find? field.name).map field.cased = (probe.find? field.name).map field.cased := by
  obtain ⟨text, htext⟩ := SortedMap.contains_iff.1 hrow
  obtain ⟨wanted, hwanted⟩ := SortedMap.contains_iff.1 hprobe
  rw [partOf_eq htext, partOf_eq hwanted, htext, hwanted, Option.map_some, Option.map_some, Option.some_inj]
  exact ⟨doubled_injective, congrArg Value.doubled⟩

/-- Composite values tell apart what differs in a field. -/
theorem compositeOf_eq_iff (hfits : index.Fits coll.definition) (hfree : index.FreeAtMostOnce coll)
    (hrow : row.Encoded coll) (hprobe : probe.Encoded coll) (hcovers : index.CoveredBy row)
    (hcovers' : index.CoveredBy probe) :
    index.compositeOf row = index.compositeOf probe ↔ index.Matches row probe := by
  constructor
  · intro h field hfield
    refine (partOf_eq_iff (hcovers field hfield) (hcovers' field hfield)).1 ?_
    exact eq_of_joined index.fields hfree.kinds
      (fun other hother => shapes_partOf hrow (hfits.2.1 other hother) (hcovers other hother))
      (fun other hother => shapes_partOf hprobe (hfits.2.1 other hother) (hcovers' other hother)) h field hfield
  · intro h
    have hparts : index.fields.map (partOf row) = index.fields.map (partOf probe) :=
      List.map_congr_left fun field hfield =>
        (partOf_eq_iff (hcovers field hfield) (hcovers' field hfield)).2 (h field hfield)
    rw [compositeOf, compositeOf, hparts]

end Index

/-- Case does not matter for the text of `null`. -/
theorem IndexField.cased_eq_null {field : IndexField} {text : String} :
    field.cased text = nullText ↔ text = nullText := by
  have hlists : text.toList.map Char.toLower = [nullChar] ↔ text.toList = [nullChar] := by
    rw [List.map_eq_singleton_iff]
    simp [toLower_eq_iff (by decide : nullChar.isAlpha = false)]
  unfold IndexField.cased
  split
  · have hnull : nullText.toList = [nullChar] := by decide
    rw [Text.lowercase, ← String.toList_inj, String.toList_ofList, hnull, hlists, ← hnull, String.toList_inj]
  · rfl

namespace Index

variable {index : Index} {coll : Collection} {row probe : Row}

/-- Records that match hold `null` in the same fields. -/
theorem Matches.complete_eq (h : index.Matches row probe) : index.complete row = index.complete probe := by
  have hnull : ∀ (found : Row) (field : IndexField), found.find? field.name = some nullText ↔
      (found.find? field.name).map field.cased = some nullText := by
    intro found field
    simp [IndexField.cased_eq_null]
  unfold complete
  rw [Bool.eq_iff_iff, List.all_eq_true, List.all_eq_true]
  refine forall₂_congr fun field hfield => ?_
  rw [decide_eq_true_iff, decide_eq_true_iff, ne_eq, ne_eq, hnull row field, hnull probe field,
    h field hfield]

end Index

/-- The index holds, under the composite value of a probe, the records that match it. -/
theorem Documents.mem_holders_iff {docs : Documents} {coll : Collection} {index : Index} {probe : Row}
    {id : Int} (hsound : docs.Sound coll) (hencoded : docs.Encoded coll)
    (hfits : index.Fits coll.definition) (hfree : index.FreeAtMostOnce coll) (hprobe : probe.Encoded coll)
    (hcovers : index.CoveredBy probe) :
    id ∈ docs.holders index (index.compositeOf probe) ↔
      index.enters probe = true ∧ ∃ row, docs.rows id = some row ∧ index.Matches row probe := by
  have hmatches : ∀ row, docs.rows id = some row →
      (index.compositeOf row = index.compositeOf probe ↔ index.Matches row probe) := fun row hrow =>
    Index.compositeOf_eq_iff hfits hfree (hencoded id row hrow) hprobe
      (fun field hfield => (hsound.fields id row hrow field.name).2 (hfits.2.1 field hfield)) hcovers
  rw [mem_holders hsound.bounded]
  constructor
  · rintro ⟨row, hrow, henters, hcomposite⟩
    have hmatch := (hmatches row hrow).1 hcomposite
    rw [Index.enters, hmatch.complete_eq] at henters
    exact ⟨henters, row, hrow, hmatch⟩
  · rintro ⟨henters, row, hrow, hmatch⟩
    refine ⟨row, hrow, ?_, (hmatches row hrow).2 hmatch⟩
    rw [Index.enters, hmatch.complete_eq]
    exact henters

end DocStore
