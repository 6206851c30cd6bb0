import DocStore.Proofs.Json.Text
import DocStore.Proofs.Schema.Reader
import DocStore.Schema.Printer

/-!
A schema is read back from its JSON and from its text.

Each part is read from what it is written as, its members in order. What is written has no numbers and is
nested six deep, so its text is read as the same value. Only well formed schemas are read, so reading and writing
are inverse to each other on just these (`Schema.closed_roundTrip`).
-/

namespace DocStore

open DocStore.Json

theorem FieldType.plain_toJson {depth : Nat} (type : FieldType) : Plain (depth + 1) type.toJson := by
  apply Plain.obj
  simp only [List.forall_mem_cons, List.not_mem_nil, false_imp_iff, implies_true, and_true]
  exact ⟨.str _, .bool _, .bool _⟩

theorem FieldType.read_toJson (name : String) (type : FieldType) :
    FieldType.read name type.toJson.normalised = .ok type := by
  obtain ⟨kind, allowNull, allowMulti⟩ := type
  have hkind : FieldKind.read kind.name = .ok kind := by
    rw [FieldKind.read, FieldKind.ofName?_name]
    rfl
  simp [FieldType.toJson, normalised, normalisedMembers, FieldType.read, FieldType.readFlag, Json.given?,
    Json.member?, Assoc.ofPairs, Assoc.find?_insert, Json.str?, hkind, bind, Except.bind]

theorem IndexField.plain_toJson {depth : Nat} (field : IndexField) : Plain (depth + 1) field.toJson := by
  apply Plain.obj
  simp only [List.forall_mem_cons, List.not_mem_nil, false_imp_iff, implies_true, and_true]
  exact ⟨.str _, .bool _⟩

theorem IndexField.read_toJson (field : IndexField) : IndexField.read field.toJson.normalised = .ok field := by
  obtain ⟨name, caseInsensitive⟩ := field
  have hmembers : Assoc.ofPairs [("name", Json.str name), ("caseInsensitive", .bool caseInsensitive)] =
      [("caseInsensitive", .bool caseInsensitive), ("name", .str name)] := by
    have hlt : "caseInsensitive" < "name" := by decide
    simp [Assoc.ofPairs, Assoc.insert, hlt]
  simp [IndexField.toJson, normalised, normalisedMembers, hmembers, IndexField.read, Json.member?, Assoc.find?,
    Json.str?]

namespace SortedMap

variable {β : Type} {toJson : β → Json} {map : SortedMap β}

theorem plain_toJson {depth : Nat} (h : ∀ value ∈ map.values, Plain depth (toJson value)) :
    Plain (depth + 1) (map.toJson toJson) := by
  apply Plain.obj
  intro member hmember
  obtain ⟨entry, hentry, rfl⟩ := List.mem_map.1 hmember
  exact h entry.2 (List.mem_map.2 ⟨entry, hentry, rfl⟩)

/-- The members of a map are in order. -/
theorem normalised_toJson (map : SortedMap β) : (map.toJson toJson).normalised =
    .obj (map.entries.map fun entry => (entry.1, (toJson entry.2).normalised)) := by
  have hascending : Assoc.Ascending
      (map.entries.map fun entry => (entry.1, (toJson entry.2).normalised)) :=
    List.pairwise_map.2 map.ascending
  rw [SortedMap.toJson, normalised, normalisedMembers_eq_map, List.map_map]
  exact congrArg Json.obj (ofPairs_of_ascending hascending)

/-- A map is read back if each of its values is. -/
theorem readNamed_toJson (badName : String → SchemaError) (read : String → Json → Except SchemaError β)
    (hnames : ∀ name ∈ map.keys, isValidName name = true)
    (h : ∀ value ∈ map.values, ∀ name, read name (toJson value).normalised = .ok value) :
    readNamed badName read (map.entries.map fun entry => (entry.1, (toJson entry.2).normalised)) =
      .ok map.entries := by
  have hentries : ∀ entry ∈ map.entries, isValidName entry.1 = true ∧
      ∀ name, read name (toJson entry.2).normalised = .ok entry.2 := fun entry hentry =>
    ⟨hnames _ (List.mem_map.2 ⟨entry, hentry, rfl⟩), h _ (List.mem_map.2 ⟨entry, hentry, rfl⟩)⟩
  generalize map.entries = entries at hentries ⊢
  induction entries with
  | nil => rfl
  | cons entry rest ih =>
    obtain ⟨hname, hread⟩ := hentries entry List.mem_cons_self
    have hrest := ih fun other hother => hentries other (List.mem_cons_of_mem _ hother)
    simp [readNamed, hname, hread, hrest, bind, Except.bind]

end SortedMap

namespace Index

variable {definition : SortedMap FieldType}

/-- Fields that are declared and all different are read one after another. -/
theorem readFields_of_read {values : List Json} {fields : List IndexField}
    (h : List.Forall₂ (fun value field => IndexField.read value = .ok field) values fields)
    {done : List IndexField}
    (hdeclared : ∀ field ∈ fields, definition.contains field.name = true)
    (hdistinct : (done ++ fields).Pairwise fun a b => a.name ≠ b.name) :
    readFields definition done values = .ok (done ++ fields) := by
  induction h generalizing done with
  | nil => rw [List.append_nil]; rfl
  | @cons value field values fields hfield _ ih =>
    have hnew : (done.any fun other => other.name = field.name) = false := by
      rw [List.any_eq_false]
      intro other hother
      simpa using (List.pairwise_append.1 hdistinct).2.2 other hother field List.mem_cons_self
    have hrest := (@ih (done ++ [field]))
      (fun other hother => hdeclared other (List.mem_cons_of_mem _ hother)) (by simpa using hdistinct)
    rw [readFields, hfield]
    simp only [bind, Except.bind, hdeclared field List.mem_cons_self, hnew, Bool.not_true, if_neg Bool.false_ne_true]
    rw [hrest]
    simp

theorem sortFields_of_ascending {fields : List IndexField}
    (h : fields.Pairwise fun a b => a.name < b.name) : sortFields fields = fields := by
  refine List.mergeSort_of_pairwise (h.imp fun {a b} hab => ?_)
  exact decide_eq_true (String.not_lt.1 (String.lt_asymm hab))

theorem plain_toJson {depth : Nat} (index : Index) : Plain (depth + 3) index.toJson := by
  apply Plain.obj
  simp only [List.forall_mem_cons, List.not_mem_nil, false_imp_iff, implies_true, and_true]
  constructor
  · exact .bool _
  · apply Plain.arr
    intro item hitem
    obtain ⟨field, -, rfl⟩ := List.mem_map.1 hitem
    exact field.plain_toJson

theorem read_toJson {index : Index} (h : index.Fits definition) :
    Index.read definition index.toJson.normalised = .ok index := by
  obtain ⟨unique, fields⟩ := index
  obtain ⟨hne, hdeclared, hascending⟩ := h
  have hreads : List.Forall₂ (fun value field => IndexField.read value = .ok field)
      (fields.map fun field => field.toJson.normalised) fields := by
    rw [List.forall₂_map_left_iff, List.forall₂_same]
    exact fun field _ => field.read_toJson
  have hdistinct : ([] ++ fields).Pairwise fun a b : IndexField => a.name ≠ b.name := by
    refine hascending.imp fun {a b} hab heq => ?_
    rw [heq] at hab
    exact String.lt_irrefl _ hab
  have hfields := readFields_of_read hreads hdeclared hdistinct
  cases fields with
  | nil => exact absurd rfl hne
  | cons field fields =>
    rw [List.map_cons] at hfields
    simp [Index.toJson, normalised, normalisedMembers, normalisedItems_eq_map, Index.read, Json.member?,
      Assoc.ofPairs, Assoc.find?_insert, Json.bool?, Json.arr?, SchemaError.orElse, hfields,
      sortFields_of_ascending hascending, bind, Except.bind, Function.comp_def]

end Index

namespace Collection

theorem checkDistinct_of_distinct {seen : List NameSet} {entries : List (String × Index)}
    (hnew : ∀ entry ∈ entries, entry.2.names ∉ seen)
    (h : entries.Pairwise fun a b => a.2.names ≠ b.2.names) : checkDistinct seen entries = .ok () := by
  induction entries generalizing seen with
  | nil => rfl
  | cons entry rest ih =>
    obtain ⟨name, index⟩ := entry
    obtain ⟨hfirst, hrest⟩ := List.pairwise_cons.1 h
    have hunseen : seen.contains index.names = false := by
      simpa using hnew (name, index) List.mem_cons_self
    rw [checkDistinct, hunseen, if_neg Bool.false_ne_true]
    refine ih (fun other hother hmem => ?_) hrest
    rcases List.mem_cons.1 hmem with heq | hmem
    · exact hfirst other hother heq.symm
    · exact hnew other (List.mem_cons_of_mem _ hother) hmem

theorem plain_toJson {depth : Nat} (coll : Collection) : Plain (depth + 5) coll.toJson := by
  apply Plain.obj
  simp only [List.forall_mem_cons, List.not_mem_nil, false_imp_iff, implies_true, and_true]
  constructor
  · exact SortedMap.plain_toJson fun type _ => type.plain_toJson
  · exact SortedMap.plain_toJson fun index _ => index.plain_toJson

/-- A collection with fields is read field by field, then index by index. -/
theorem read_of_fields {value : Json} {members : List (String × Json)}
    (hmembers : value.member? "definition" = some (.obj members)) (hne : members ≠ []) :
    Collection.read value = (do
      let definition := SortedMap.ofList (← readNamed .fieldName FieldType.read members)
      let indices := SortedMap.ofList (← readIndices definition value)
      checkDistinct [] indices.entries
      .ok ⟨definition, indices⟩) := by
  rw [Collection.read, hmembers]
  cases members with
  | nil => exact absurd rfl hne
  | cons member rest => rfl

theorem read_toJson {coll : Collection} (h : coll.WellFormed) :
    Collection.read coll.toJson.normalised = .ok coll := by
  obtain ⟨definition, indices⟩ := coll
  obtain ⟨hne, hfields, hnames, hfits, hdistinct⟩ := h
  have hdefinition := SortedMap.readNamed_toJson .fieldName FieldType.read hfields fun type _ name =>
    FieldType.read_toJson name type
  have hindices := SortedMap.readNamed_toJson .indexName (fun _ => Index.read definition)
    hnames fun index hindex _ => Index.read_toJson (hfits index hindex)
  have hmember : ∀ name, (Collection.toJson ⟨definition, indices⟩).normalised.member? name =
      if name = "indices" then some (indices.toJson Index.toJson).normalised
      else if name = "definition" then some (definition.toJson FieldType.toJson).normalised else none := by
    intro name
    simp [Collection.toJson, normalised, normalisedMembers, Json.member?, Assoc.ofPairs, Assoc.find?_insert,
      Assoc.find?]
  simp only [SortedMap.normalised_toJson] at hmember
  have hread : readIndices definition (Collection.toJson ⟨definition, indices⟩).normalised =
      .ok indices.entries := by
    simp [readIndices, Json.given?, hmember, hindices]
  have hnonempty : (definition.entries.map fun entry => (entry.1, entry.2.toJson.normalised)) ≠ [] := by
    intro hnil
    simp [SortedMap.isEmpty, List.map_eq_nil_iff.1 hnil] at hne
  rw [read_of_fields (hmember "definition") hnonempty, hdefinition]
  simp [bind, Except.bind, SortedMap.ofList_entries, hread,
    checkDistinct_of_distinct (fun _ _ => List.not_mem_nil) hdistinct]

end Collection

instance (index : Index) (definition : SortedMap FieldType) : Decidable (index.Fits definition) :=
  inferInstanceAs (Decidable (_ ∧ _ ∧ _))

instance (coll : Collection) : Decidable coll.WellFormed :=
  inferInstanceAs (Decidable (_ ∧ _ ∧ _ ∧ _ ∧ _))

instance (schema : Schema) : Decidable schema.WellFormed :=
  inferInstanceAs (Decidable (_ ∧ _ ∧ _))

namespace Schema

variable {schema : Schema}

theorem plain_toJson (schema : Schema) : Plain 6 schema.toJson :=
  SortedMap.plain_toJson fun coll _ => coll.plain_toJson

/-- A schema is read back from its JSON. -/
theorem ofJson_toJson (h : schema.WellFormed) : ofJson schema.toJson.normalised = .ok schema := by
  obtain ⟨collections⟩ := schema
  obtain ⟨hne, hnames, hwell⟩ := h
  have hread := SortedMap.readNamed_toJson .collectionName (fun _ => Collection.read)
    hnames fun coll hcoll _ => Collection.read_toJson (hwell coll hcoll)
  rw [Schema.toJson, SortedMap.normalised_toJson]
  cases hentries : collections.entries with
  | nil => simp [SortedMap.isEmpty, hentries] at hne
  | cons entry rest =>
    rw [hentries, List.map_cons, ← hentries] at hread
    simp [ofJson, hread, bind, Except.bind, SortedMap.ofList_entries]

/-- A schema is read back from its text. -/
theorem ofText_text (h : schema.WellFormed) : ofText schema.text = .ok schema := by
  have htext : Json.ofText? schema.text = some schema.toJson.normalised :=
    schema.plain_toJson.ofText?_text (by decide)
  rw [ofText, htext]
  exact ofJson_toJson h

/-- Different schemas have different texts. -/
theorem eq_of_text_eq {other : Schema} (h : schema.WellFormed) (hother : other.WellFormed)
    (htext : schema.text = other.text) : schema = other := by
  have hread := ofText_text h
  rw [htext, ofText_text hother] at hread
  exact (Except.ok.inj hread).symm

/-- The schemas that are read are just the well formed ones; each is read back from its JSON and from its text,
and so its text, from which its digest is made, is that of no other. -/
theorem closed_roundTrip (schema : Schema) :
    ((∃ value, ofJson value = .ok schema) ↔ schema.WellFormed) ∧
      (schema.WellFormed → ofJson schema.toJson.normalised = .ok schema ∧ ofText schema.text = .ok schema ∧
        ∀ other : Schema, other.WellFormed → schema.text = other.text → schema = other) := by
  constructor
  · constructor
    · rintro ⟨value, hvalue⟩
      exact wellFormed_of_ofJson hvalue
    · intro h
      exact ⟨schema.toJson.normalised, ofJson_toJson h⟩
  · intro h
    exact ⟨ofJson_toJson h, ofText_text h, fun other hother htext => eq_of_text_eq h hother htext⟩

/-- A collection that is called like the mark of index keys, with fields that are called like parts of keys. -/
def crossedFields : Collection :=
  ⟨.ofList [("i", ⟨.string, true, false⟩), ("ids", ⟨.date, false, false⟩)],
    .ofList [("both", ⟨false, [⟨"i", true⟩, ⟨"ids", false⟩]⟩), ("one", ⟨true, [⟨"i", false⟩]⟩)]⟩

/-- The schema of that collection. -/
def crossed : Schema :=
  ⟨.ofList [("i", crossedFields)]⟩

theorem wellFormed_crossed : crossed.WellFormed := by
  decide +kernel

theorem closed_roundTrip_crossed :
    (∃ value, ofJson value = .ok crossed) ∧ ofJson crossed.toJson.normalised = .ok crossed ∧
      ofText crossed.text = .ok crossed := by
  obtain ⟨hread, hround⟩ := closed_roundTrip crossed
  obtain ⟨hjson, htext, -⟩ := hround wellFormed_crossed
  exact ⟨hread.2 wellFormed_crossed, hjson, htext⟩

end Schema

end DocStore
