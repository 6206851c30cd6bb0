import DocStore.Proofs.Operation.Performs

/-!
The canonical layout: what all the keys of a namespace hold.

The collections of a schema keep their documents, each under its own keys, and apart from the two keys of
the schema itself there is nothing else (`Canonical`). The documents determine the layout, so keyspaces
that lay out the same documents agree. A rollback lays out the documents of the start once more, with
the counters of the end.
-/

namespace DocStore

open DocStore.Script DocStore.Layout

/-- The counters of the collections of a schema. -/
def SchemaCounter (ns : String) (schema : Schema) (key : String) : Prop :=
  ∃ name coll, schema.collection? name = some coll ∧ key = nextIdKey ns name

/-- The other keys of the collections of a schema. -/
def SchemaData (ns : String) (schema : Schema) (key : String) : Prop :=
  ∃ name coll, schema.collection? name = some coll ∧ DataKey ns name coll key

/-- The keys of the schema itself. -/
def SchemaKey (ns key : String) : Prop :=
  key = schemaKey ns ∨ key = revisionKey ns

/-- The keyspace lays out the documents, and holds nothing else in the namespace but the schema. -/
structure Canonical (ns : String) (schema : Schema) (library : Library) (space : Keyspace) : Prop where
  keeps : ∀ name coll, schema.collection? name = some coll → Keeps ns name coll (library name) space
  only : ∀ key, Under ns key → space.find? key ≠ none →
    SchemaKey ns key ∨ SchemaCounter ns schema key ∨ SchemaData ns schema key

/-- What holds at all times of the documents of every collection. -/
def Library.Sound (schema : Schema) (library : Library) : Prop :=
  ∀ name coll, schema.collection? name = some coll → (library name).Sound coll

/-- There is nothing in the namespace but the schema. -/
def Fresh (ns : String) (space : Keyspace) : Prop :=
  ∀ key, Under ns key → space.find? key ≠ none → SchemaKey ns key

section Keys

variable {ns : String} {schema : Schema} {name : String} {coll : Collection}

theorem place_not_schema (hname : isValidName name = true) {place : Place} (hlegal : place.Legal) :
    ¬SchemaKey ns ((Slot.of name place).key ns) := by
  rintro (h | h)
  · rw [← key_schema] at h
    cases Slot.key_injective (a := .of name place) (b := .schema) ⟨hname, hlegal⟩ trivial h
  · rw [← key_revision] at h
    cases Slot.key_injective (a := .of name place) (b := .revision) ⟨hname, hlegal⟩ trivial h

/-- A key of the schema itself is not one of its collections. -/
theorem schema_free (hschema : schema.WellFormed) {key : String} (h : SchemaKey ns key) :
    ¬SchemaCounter ns schema key ∧ ¬SchemaData ns schema key := by
  constructor
  · rintro ⟨name, coll, hcoll, rfl⟩
    rw [← key_nextId] at h
    exact place_not_schema (hschema.collection hcoll).1 (by trivial) h
  · rintro ⟨name, coll, hcoll, hdata⟩
    obtain ⟨hname, hwell⟩ := hschema.collection hcoll
    obtain ⟨place, -, hlegal, rfl⟩ := place_of_data hwell hdata
    exact place_not_schema hname hlegal h

theorem data_not_counter (hschema : schema.WellFormed) {key : String} (h : SchemaData ns schema key) :
    ¬SchemaCounter ns schema key := by
  obtain ⟨name, coll, hcoll, hdata⟩ := h
  obtain ⟨hname, hwell⟩ := hschema.collection hcoll
  rintro ⟨other, coll', hcoll', rfl⟩
  exact not_counter_of_data hname hwell hdata ⟨other, (hschema.collection hcoll').1, rfl⟩

/-- What one collection does, seen from the whole namespace. -/
theorem Script.Tame.inSchema (hschema : schema.WellFormed) (hcoll : schema.collection? name = some coll)
    {commands : List (Command × List String)}
    (h : Tame (· = nextIdKey ns name) (DataKey ns name coll) commands) :
    Tame (SchemaCounter ns schema) (SchemaData ns schema) commands := by
  refine h.mono ?_ fun key hdata _ => ?_
  · rintro _ rfl
    exact ⟨name, coll, hcoll, rfl⟩
  · exact ⟨⟨name, coll, hcoll, hdata⟩, data_not_counter hschema ⟨name, coll, hcoll, hdata⟩⟩

/-- What one collection does leaves the keys of another alone. -/
theorem find?_otherCollection (hschema : schema.WellFormed) (hcoll : schema.collection? name = some coll)
    {commands : List (Command × List String)}
    (h : Tame (· = nextIdKey ns name) (DataKey ns name coll) commands) (space : Keyspace) {other : String}
    (hother : isValidName other = true) (hne : other ≠ name) {place : Place} (hlegal : place.Legal) :
    (space.executeAll commands).find? ((Slot.of other place).key ns) =
      space.find? ((Slot.of other place).key ns) := by
  obtain ⟨hname, hwell⟩ := hschema.collection hcoll
  refine h.find?_executeAll space ?_ ?_
  · intro heq
    rw [← key_nextId] at heq
    have hslot := Slot.key_injective (a := .of other place) (b := .of name .nextId) ⟨hother, hlegal⟩
      ⟨hname, trivial⟩ heq
    exact hne (Slot.of.inj hslot).1
  · intro hdata
    exact hne (collection_of_data hname hwell hother hdata hlegal rfl).symm

end Keys

namespace Documents

variable {docs : Documents} {coll : Collection}

/-- A counter that has gone on changes nothing about the records. -/
theorem Sound.withDrawn (h : docs.Sound coll) {drawn : Nat} (hdrawn : docs.drawn ≤ drawn) :
    ({ docs with drawn := drawn } : Documents).Sound coll where
  bounded := by
    intro id row hrow
    obtain ⟨hpos, hle⟩ := h.bounded id row hrow
    exact ⟨hpos, Int.le_trans hle (Int.ofNat_le.2 hdrawn)⟩
  fields := h.fields
  unique := h.unique

end Documents

namespace Canonical

variable {ns : String} {schema : Schema} {library : Library} {space after : Keyspace}

/-- A namespace with a schema and counters alone lays out no documents, whatever ids were drawn. -/
theorem of_counters (hschema : schema.WellFormed) {drawn : String → Nat}
    (h : ∀ key, Under ns key → space.find? key ≠ none → SchemaKey ns key ∨ SchemaCounter ns schema key)
    (hcounter : ∀ name coll, schema.collection? name = some coll →
      space.find? (nextIdKey ns name) =
        if drawn name = 0 then none else some (.text (Decimal.ofInt (drawn name)))) :
    Canonical ns schema (fun name => { drawn := drawn name }) space where
  keeps := by
    intro name coll hcoll
    obtain ⟨hname, hwell⟩ := hschema.collection hcoll
    have hfree : ∀ place : Place, place ≠ .nextId → place.Legal →
        space.find? ((Slot.of name place).key ns) = none := by
      intro place hplace hlegal
      by_contra hfound
      rcases h _ (under_key ns _) hfound with hkey | ⟨other, coll', hother, heq⟩
      · exact place_not_schema hname hlegal hkey
      · rw [← key_nextId] at heq
        have hslot := Slot.key_injective (a := .of name place) (b := .of other .nextId) ⟨hname, hlegal⟩
          ⟨(hschema.collection hother).1, trivial⟩ heq
        exact hplace (Slot.of.inj hslot).2
    have hids : ({ drawn := drawn name } : Documents).ids = [] := List.filter_eq_nil_iff.2 fun id _ => by simp
    refine ⟨hcounter name coll hcoll, ?_, fun id => ?_, fun entry hentry =>
      ⟨∅, ?_, fun composite => ⟨∅, ?_, .empty ?_⟩⟩⟩
    · rw [← key_ids, hfree .ids (by simp) trivial, hids]
      rfl
    · rw [← key_record, hfree (.record id) (by simp) trivial]
      rfl
    · rw [← key_index, hfree (.index _) (by simp) (names_legal hwell (fits_of_mem hwell hentry))]
      rfl
    · rw [← key_holders, hfree (.holders _ composite) (by simp) (names_legal hwell (fits_of_mem hwell hentry))]
      rfl
    · rintro id ⟨row, hrow, -⟩
      cases hrow
  only := by
    intro key hunder hfound
    rcases h key hunder hfound with hkey | hkey
    · exact .inl hkey
    · exact .inr (.inl hkey)

/-- A namespace with a schema alone lays out no documents. -/
theorem of_fresh (hschema : schema.WellFormed) (h : Fresh ns space) :
    Canonical ns schema Library.empty space := by
  refine @of_counters _ _ _ hschema (fun _ => 0) (fun key hunder hfound => .inl (h key hunder hfound)) ?_
  intro name coll hcoll
  by_contra hfound
  rw [if_pos rfl, ← key_nextId] at hfound
  exact place_not_schema (hschema.collection hcoll).1 (by trivial) (h _ (under_key ns _) hfound)

/-- What an operation does to one collection, it does to the layout. -/
theorem perform (h : Canonical ns schema library space) (hschema : schema.WellFormed) {name : String}
    {coll : Collection} (hcoll : schema.collection? name = some coll) {docs : Documents}
    {commands : List (Command × List String)}
    (htame : Tame (· = nextIdKey ns name) (DataKey ns name coll) commands)
    (hkeeps : Keeps ns name coll docs (space.executeAll commands)) :
    Canonical ns schema (Function.update library name docs) (space.executeAll commands) where
  keeps := by
    intro other coll' hother
    by_cases heq : other = name
    · subst heq
      rw [hcoll] at hother
      cases hother
      rw [Function.update_self]
      exact hkeeps
    · obtain ⟨hvalid, hwell⟩ := hschema.collection hother
      rw [Function.update_of_ne heq]
      exact (h.keeps other coll' hother).congr hwell fun place hlegal =>
        find?_otherCollection hschema hcoll htame space hvalid heq hlegal
  only := by
    intro key hunder hfound
    by_cases hcounter : key = nextIdKey ns name
    · exact .inr (.inl ⟨name, coll, hcoll, hcounter⟩)
    · by_cases hdata : DataKey ns name coll key
      · exact .inr (.inr ⟨name, coll, hcoll, hdata⟩)
      · rw [htame.find?_executeAll space hcounter hdata] at hfound
        exact h.only key hunder hfound

/-- Keyspaces that lay out the same documents agree on them. -/
theorem unique (h : Canonical ns schema library space) (h' : Canonical ns schema library after)
    {key : String} (hkey : SchemaCounter ns schema key ∨ SchemaData ns schema key) :
    after.find? key = space.find? key := by
  rcases hkey with ⟨name, coll, hcoll, rfl⟩ | ⟨name, coll, hcoll, hdata⟩
  · exact ((h.keeps name coll hcoll).unique (h'.keeps name coll hcoll)).1
  · obtain ⟨-, hids, hrows, hindex⟩ := (h.keeps name coll hcoll).unique (h'.keeps name coll hcoll)
    rcases hdata with rfl | ⟨id, rfl⟩ | ⟨entry, hentry, hprobe⟩
    · exact hids
    · exact hrows id
    · exact hindex entry hentry key hprobe

/-- The documents and what is not of the collections determine the keyspace. -/
theorem eq_of_frame (h : Canonical ns schema library space) (h' : Canonical ns schema library after)
    (hframe : ∀ key, ¬SchemaCounter ns schema key → ¬SchemaData ns schema key →
      after.find? key = space.find? key) : after = space := by
  refine Keyspace.ext fun key => ?_
  by_cases hkey : SchemaCounter ns schema key ∨ SchemaData ns schema key
  · exact h.unique h' hkey
  · rw [not_or] at hkey
    exact hframe key hkey.1 hkey.2

/-- Counters are equal where as many ids were drawn. -/
theorem find?_counter (h : Canonical ns schema library space) {later : Library}
    (h' : Canonical ns schema later after)
    (hdrawn : ∀ name, (later name).drawn = (library name).drawn) {key : String}
    (hkey : SchemaCounter ns schema key) : after.find? key = space.find? key := by
  obtain ⟨name, coll, hcoll, rfl⟩ := hkey
  rw [(h.keeps name coll hcoll).counter, (h'.keeps name coll hcoll).counter, hdrawn]

/-- The data is equal where the records are. -/
theorem find?_data (h : Canonical ns schema library space) (hsound : library.Sound schema)
    {later : Library} (h' : Canonical ns schema later after) (hsound' : later.Sound schema)
    (hrows : ∀ name, (later name).rows = (library name).rows) {key : String}
    (hkey : SchemaData ns schema key) : after.find? key = space.find? key := by
  obtain ⟨name, coll, hcoll, hdata⟩ := hkey
  have hkeeps := h.keeps name coll hcoll
  have hkeeps' := h'.keeps name coll hcoll
  rcases hdata with rfl | ⟨id, rfl⟩ | ⟨entry, hentry, hprobe⟩
  · have hids : ∀ id, id ∈ (later name).ids ↔ id ∈ (library name).ids := by
      intro id
      rw [Documents.mem_ids (hsound' name coll hcoll).bounded,
        Documents.mem_ids (hsound name coll hcoll).bounded, hrows]
    rw [hkeeps.ids, hkeeps'.ids, scores_congr hids]
  · rw [hkeeps.rows, hkeeps'.rows, hrows]
  · have hholds : (later name).Holds entry.2 = (library name).Holds entry.2 := by
      funext composite id
      simp only [Documents.Holds, hrows]
    exact (hkeeps.index entry hentry).unique (hholds ▸ hkeeps'.index entry hentry) hprobe

/-- Where the data is that of the start and the counters are those of the end, the layout is that of the
restored documents. -/
theorem restore {last : Library} {final : Keyspace} (hschema : schema.WellFormed)
    (hsound : library.Sound schema) (h : Canonical ns schema library space)
    (hlast : Canonical ns schema last final) (hdrawn : ∀ name, (library name).drawn ≤ (last name).drawn)
    (hcounter : ∀ key, SchemaCounter ns schema key → after.find? key = final.find? key)
    (hdata : ∀ key, ¬SchemaCounter ns schema key → after.find? key = space.find? key) :
    Canonical ns schema (last.restore library) after where
  keeps := by
    intro name coll hcoll
    obtain ⟨hname, hwell⟩ := hschema.collection hcoll
    have hstart := h.keeps name coll hcoll
    have hdocs := hsound name coll hcoll
    have hkeep : ∀ key, DataKey ns name coll key → after.find? key = space.find? key :=
      fun key hkey => hdata key (data_not_counter hschema ⟨name, coll, hcoll, hkey⟩)
    refine ⟨?_, ?_, fun id => ?_, fun entry hentry => ?_⟩
    · rw [hcounter _ ⟨name, coll, hcoll, rfl⟩, (hlast.keeps name coll hcoll).counter]
      rfl
    · have hlive : ∀ id, id ∈ (library name).ids ↔ id ∈ (last.restore library name).ids := fun id =>
        (Documents.mem_ids hdocs.bounded).trans
          (Documents.mem_ids (hdocs.withDrawn (hdrawn name)).bounded).symm
      rw [hkeep _ (.inl rfl), hstart.ids, scores_congr hlive]
    · exact (hkeep _ (.inr (.inl ⟨id, rfl⟩))).trans (hstart.rows id)
    · exact (hstart.index entry hentry).of_find?_eq fun probe hprobe =>
        hkeep probe (.inr (.inr ⟨entry, hentry, hprobe⟩))
  only := by
    intro key hunder hfound
    by_cases hkey : SchemaCounter ns schema key
    · exact .inr (.inl hkey)
    · rw [hdata key hkey] at hfound
      exact h.only key hunder hfound

end Canonical

end DocStore
