import DocStore.Proofs.Documents.Answers
import DocStore.Proofs.Documents.Sound
import DocStore.Proofs.Layout.Slots
import DocStore.Proofs.Script.Journal

/-!
How the documents of a collection are kept under its keys.

`Keeps` names every key of a collection and what it holds. The rest of the module says which keys are
different from which: counters from data, indices from each other, one collection from another.
-/

namespace DocStore

open DocStore.Script DocStore.Layout

/-- The keys of a collection hold these documents. -/
structure Keeps (ns collection : String) (coll : Collection) (docs : Documents) (space : Keyspace) :
    Prop where
  counter : space.find? (nextIdKey ns collection) =
    if docs.drawn = 0 then none else some (.text (Decimal.ofInt docs.drawn))
  ids : space.find? (idsKey ns collection) = (Entry.scored (scores docs.ids)).kept
  rows : ∀ id, space.find? (recordKey ns collection (Decimal.ofInt id)) =
    (docs.rows id).map Entry.hash
  index : ∀ entry ∈ coll.indices.entries,
    Files space (indexKey ns collection entry.2) (docs.Holds entry.2)

/-- The keys of a collection other than its counter. -/
def DataKey (ns collection : String) (coll : Collection) (key : String) : Prop :=
  key = idsKey ns collection ∨ (∃ id, key = recordKey ns collection (Decimal.ofInt id)) ∨
    ∃ entry ∈ coll.indices.entries, IndexKey (indexKey ns collection entry.2) key

/-- The counters of a namespace. -/
def CounterKey (ns key : String) : Prop :=
  ∃ collection, isValidName collection = true ∧ key = nextIdKey ns collection

section Keys

variable {ns collection : String} {coll : Collection} {index : Index}

theorem names_legal (hcoll : coll.WellFormed) (hindex : index.Fits coll.definition) :
    index.names.keys ≠ [] ∧ ∀ name ∈ index.names.keys, isValidName name = true := by
  have hmem : ∀ name, name ∈ index.names.keys ↔ ∃ field ∈ index.fields, field.name = name := by
    intro name
    rw [SortedMap.mem_keys_iff, Index.names, NameSet.contains_ofList, List.mem_map]
  refine ⟨fun hnil => ?_, fun name hname => ?_⟩
  · obtain ⟨field, hfield⟩ := List.exists_mem_of_ne_nil _ hindex.1
    have hkey := (hmem field.name).2 ⟨field, hfield, rfl⟩
    rw [hnil] at hkey
    cases hkey
  · obtain ⟨field, hfield, rfl⟩ := (hmem name).1 hname
    exact hcoll.2.1 _ (SortedMap.mem_keys_iff.2 (hindex.2.1 field hfield))

theorem fits_of_mem (hcoll : coll.WellFormed) {entry : String × Index}
    (hentry : entry ∈ coll.indices.entries) : entry.2.Fits coll.definition :=
  hcoll.2.2.2.1 entry.2 (List.mem_map.2 ⟨entry, hentry, rfl⟩)

theorem place_of_indexKey {probe : String} (h : IndexKey (indexKey ns collection index) probe) :
    ∃ place : Place, (place = .index index.names.keys ∨
      ∃ composite, place = .holders index.names.keys composite) ∧
        probe = (Slot.of collection place).key ns := by
  rcases h with rfl | ⟨composite, rfl⟩
  · exact ⟨_, .inl rfl, (key_index ns collection index).symm⟩
  · exact ⟨_, .inr ⟨composite, rfl⟩, (key_holders ns collection index composite).symm⟩

theorem place_of_data (hcoll : coll.WellFormed) {key : String} (h : DataKey ns collection coll key) :
    ∃ place : Place, place ≠ .nextId ∧ place.Legal ∧ key = (Slot.of collection place).key ns := by
  rcases h with rfl | ⟨id, rfl⟩ | ⟨entry, hentry, hprobe⟩
  · exact ⟨.ids, by decide, trivial, (key_ids ns collection).symm⟩
  · exact ⟨.record id, by simp, trivial, (key_record ns collection id).symm⟩
  · have hlegal := names_legal hcoll (fits_of_mem hcoll hentry)
    obtain ⟨place, hplace | ⟨composite, hplace⟩, hkey⟩ := place_of_indexKey hprobe
    · exact ⟨place, by simp [hplace], by rw [hplace]; exact hlegal, hkey⟩
    · exact ⟨place, by simp [hplace], by rw [hplace]; exact hlegal, hkey⟩

theorem key_ne {a b : Place} (hname : isValidName collection = true) (ha : a.Legal) (hb : b.Legal)
    (h : a ≠ b) : (Slot.of collection a).key ns ≠ (Slot.of collection b).key ns := by
  intro heq
  have hslot := Slot.key_injective (a := .of collection a) (b := .of collection b) ⟨hname, ha⟩
    ⟨hname, hb⟩ heq
  exact h (Slot.of.inj hslot).2

/-- The data of a collection is no counter. -/
theorem not_counter_of_data (hname : isValidName collection = true) (hcoll : coll.WellFormed)
    {key : String} (h : DataKey ns collection coll key) : ¬CounterKey ns key := by
  obtain ⟨place, hplace, hlegal, rfl⟩ := place_of_data hcoll h
  rintro ⟨other, hother, heq⟩
  rw [← key_nextId] at heq
  have hslot := Slot.key_injective (a := .of collection place) (b := .of other .nextId) ⟨hname, hlegal⟩
    ⟨hother, trivial⟩ heq
  exact hplace (Slot.of.inj hslot).2

/-- Different collections have different keys. -/
theorem collection_of_data {other key : String} (hname : isValidName collection = true)
    (hcoll : coll.WellFormed) (hother : isValidName other = true) (h : DataKey ns collection coll key)
    {place : Place} (hlegal : place.Legal) (heq : key = (Slot.of other place).key ns) :
    collection = other := by
  obtain ⟨found, -, hfound, rfl⟩ := place_of_data hcoll h
  have hslot := Slot.key_injective (a := .of collection found) (b := .of other place) ⟨hname, hfound⟩
    ⟨hother, hlegal⟩ heq
  exact (Slot.of.inj hslot).1

/-- Indices over different fields have different keys. -/
theorem indexKey_apart (hname : isValidName collection = true) (hcoll : coll.WellFormed)
    {other : Index} (hindex : index.Fits coll.definition) (hother : other.Fits coll.definition)
    (hne : index.names ≠ other.names) {probe : String}
    (h : IndexKey (indexKey ns collection index) probe) :
    ¬IndexKey (indexKey ns collection other) probe := by
  intro h'
  have hlegal := names_legal hcoll hindex
  have hlegal' := names_legal hcoll hother
  have hkeys : index.names.keys ≠ other.names.keys := by
    intro heq
    refine hne (NameSet.ext fun name => ?_)
    rw [← SortedMap.mem_keys_iff, ← SortedMap.mem_keys_iff, heq]
  obtain ⟨place, hplace, rfl⟩ := place_of_indexKey h
  obtain ⟨place', hplace', heq⟩ := place_of_indexKey h'
  refine key_ne hname ?_ ?_ ?_ heq
  · rcases hplace with rfl | ⟨composite, rfl⟩ <;> exact hlegal
  · rcases hplace' with rfl | ⟨composite, rfl⟩ <;> exact hlegal'
  · rcases hplace with rfl | ⟨composite, rfl⟩ <;> rcases hplace' with rfl | ⟨composite', rfl⟩
    · simpa using hkeys
    · simp
    · simp
    · simp [hkeys]

theorem indices_apart (hname : isValidName collection = true) (hcoll : coll.WellFormed)
    {indices : List (String × Index)} (hsub : indices.Sublist coll.indices.entries) :
    indices.Pairwise fun a b => ∀ probe, IndexKey (indexKey ns collection a.2) probe →
      ¬IndexKey (indexKey ns collection b.2) probe := by
  refine ((hcoll.2.2.2.2.sublist hsub).imp_of_mem fun {a b} ha hb hne probe => ?_)
  exact indexKey_apart hname hcoll (fits_of_mem hcoll (hsub.subset ha))
    (fits_of_mem hcoll (hsub.subset hb)) hne

/-- A place that is none of an index's keys. -/
theorem not_indexKey (hname : isValidName collection = true) (hcoll : coll.WellFormed)
    (hindex : index.Fits coll.definition) {place : Place} (hlegal : place.Legal)
    (hindexPlace : ∀ names, place ≠ .index names) (hholders : ∀ names composite, place ≠ .holders names composite) :
    ¬IndexKey (indexKey ns collection index) ((Slot.of collection place).key ns) := by
  intro h
  have hnames := names_legal hcoll hindex
  obtain ⟨found, hfound, heq⟩ := place_of_indexKey h
  refine key_ne hname hlegal ?_ ?_ heq
  · rcases hfound with rfl | ⟨composite, rfl⟩ <;> exact hnames
  · rcases hfound with rfl | ⟨composite, rfl⟩
    · exact hindexPlace _
    · exact hholders _ _

theorem ids_not_indexKey (hname : isValidName collection = true) (hcoll : coll.WellFormed)
    (hindex : index.Fits coll.definition) :
    ¬IndexKey (indexKey ns collection index) (idsKey ns collection) := by
  rw [← key_ids]
  exact not_indexKey hname hcoll hindex trivial (by simp) (by simp)

theorem record_not_indexKey (hname : isValidName collection = true) (hcoll : coll.WellFormed)
    (hindex : index.Fits coll.definition) (id : Int) :
    ¬IndexKey (indexKey ns collection index) (recordKey ns collection (Decimal.ofInt id)) := by
  rw [← key_record]
  exact not_indexKey hname hcoll hindex trivial (by simp) (by simp)

theorem nextId_not_indexKey (hname : isValidName collection = true) (hcoll : coll.WellFormed)
    (hindex : index.Fits coll.definition) :
    ¬IndexKey (indexKey ns collection index) (nextIdKey ns collection) := by
  rw [← key_nextId]
  exact not_indexKey hname hcoll hindex trivial (by simp) (by simp)

theorem record_ne_ids (hname : isValidName collection = true) (id : Int) :
    recordKey ns collection (Decimal.ofInt id) ≠ idsKey ns collection := by
  rw [← key_record, ← key_ids]
  exact key_ne hname trivial trivial (by simp)

theorem record_ne_nextId (hname : isValidName collection = true) (id : Int) :
    recordKey ns collection (Decimal.ofInt id) ≠ nextIdKey ns collection := by
  rw [← key_record, ← key_nextId]
  exact key_ne hname trivial trivial (by simp)

theorem ids_ne_nextId (hname : isValidName collection = true) :
    idsKey ns collection ≠ nextIdKey ns collection := by
  rw [← key_ids, ← key_nextId]
  exact key_ne hname trivial trivial (by simp)

theorem recordKey_inj (hname : isValidName collection = true) {a b : Int}
    (h : recordKey ns collection (Decimal.ofInt a) = recordKey ns collection (Decimal.ofInt b)) :
    a = b := by
  by_contra hne
  rw [← key_record, ← key_record] at h
  exact key_ne (a := .record a) (b := .record b) hname trivial trivial (by simpa using hne) h

end Keys

/-- Other keys do not matter for the documents of a collection. -/
theorem Keeps.congr {ns collection : String} {coll : Collection} {docs : Documents}
    {space after : Keyspace} (h : Keeps ns collection coll docs space)
    (hcoll : coll.WellFormed)
    (hspace : ∀ place : Place, place.Legal →
      after.find? ((Slot.of collection place).key ns) = space.find? ((Slot.of collection place).key ns)) :
    Keeps ns collection coll docs after where
  counter := by
    rw [← key_nextId, hspace .nextId trivial, key_nextId]
    exact h.counter
  ids := by
    rw [← key_ids, hspace .ids trivial, key_ids]
    exact h.ids
  rows := by
    intro id
    rw [← key_record, hspace (.record id) trivial, key_record]
    exact h.rows id
  index := by
    intro entry hentry
    have hlegal := names_legal hcoll (fits_of_mem hcoll hentry)
    refine (h.index entry hentry).of_find?_eq fun probe hprobe => ?_
    obtain ⟨place, hplace, rfl⟩ := place_of_indexKey hprobe
    refine hspace place ?_
    rcases hplace with rfl | ⟨composite, rfl⟩ <;> exact hlegal

/-- The documents of a collection determine what its keys hold. -/
theorem Keeps.unique {ns collection : String} {coll : Collection} {docs : Documents}
    {space after : Keyspace} (h : Keeps ns collection coll docs space)
    (h' : Keeps ns collection coll docs after) :
    after.find? (nextIdKey ns collection) = space.find? (nextIdKey ns collection) ∧
      after.find? (idsKey ns collection) = space.find? (idsKey ns collection) ∧
      (∀ id, after.find? (recordKey ns collection (Decimal.ofInt id)) =
        space.find? (recordKey ns collection (Decimal.ofInt id))) ∧
      ∀ entry ∈ coll.indices.entries, ∀ probe, IndexKey (indexKey ns collection entry.2) probe →
        after.find? probe = space.find? probe :=
  ⟨h'.counter.trans h.counter.symm, h'.ids.trans h.ids.symm,
    fun id => (h'.rows id).trans (h.rows id).symm,
    fun entry hentry _ hprobe => (h.index entry hentry).unique (h'.index entry hentry) hprobe⟩

end DocStore
