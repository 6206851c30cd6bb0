import DocStore.Proofs.Documents.Order
import DocStore.Proofs.Operation.Printed

/-!
In which order ids are answered.

Lists of live ids and of holders are in one order, whichever commands they come from: that of the doubles, and of
the texts where the doubles are the same. For ids of 64 bits this is ascending order, unless two of them lie across
a power of ten that is the double of both (`Canonical.ids_listed`).
-/

namespace DocStore

open DocStore.Script DocStore.Layout

/-- Different ids have one order in which they are listed as live ids and found as holders. -/
theorem exists_listed {ids : List Int} (hnodup : ids.Nodup) :
    ∃ listed : List Int, listed.Perm ids ∧ foundTexts ids = listed.map Decimal.ofInt ∧
      listedTexts ids = listed.map Decimal.ofInt ∧
      listed.Pairwise fun a b => Sooner (Decimal.ofInt a) (Decimal.ofInt b) := by
  obtain ⟨listed, hperm, htexts⟩ := exists_ids_foundTexts hnodup
  refine ⟨listed, hperm, htexts, (foundTexts_eq_listedTexts hnodup).symm.trans htexts, ?_⟩
  have hsooner := sooner_foundTexts ids
  rw [htexts] at hsooner
  exact List.pairwise_map.1 hsooner

/-- Positive ids of 64 bits are listed by size, except across a power of ten that is the double of both. -/
theorem listedBefore_of_sooner {listed : List Int} (hbits : ∀ id ∈ listed, 0 < id ∧ Decimal.InInt64 id)
    (h : listed.Pairwise fun a b => Sooner (Decimal.ofInt a) (Decimal.ofInt b)) : listed.Pairwise ListedBefore :=
  h.imp_of_mem fun ha hb hsooner =>
    (sooner_ofInt_iff (hbits _ ha).1 (hbits _ hb).1 (hbits _ ha).2 (hbits _ hb).2).1 hsooner

section Commands

variable {space : Keyspace} {key : String} {ids : List Int}

/-- The members of a set of ids, sorted by a script. -/
theorem sortIds_smembers (h : space.find? key = (Entry.set (NameSet.ofList (ids.map Decimal.ofInt))).kept) :
    ∃ reply, space.execute .smembers [key] = (.ok reply, space) ∧
      (Value.ofReply reply).sortIds = .ok (.table ((foundTexts ids).map .str) []) :=
  ⟨_, Keyspace.execute_smembers h, sortIds_holders ids⟩

/-- The members of a scored set of ids, from the first to the last. -/
theorem zrange_scores (h : space.find? key = (Entry.scored (scores ids)).kept) :
    space.execute .zrange [key, "0", "-1"] = (.ok (Keyspace.listReply (listedTexts ids)), space) := by
  have hfirst : Decimal.int64? "0" = some 0 := rfl
  have hlast : Decimal.int64? "-1" = some (-1) := rfl
  rw [Keyspace.execute_zrange h hfirst hlast, Operation.range_all]
  rfl

/-- The order in which the commands give ids: those of a set sorted by a script, and those of a scored set from the
first to the last. -/
structure GivenAs (ids listed : List Int) : Prop where
  perm : listed.Perm ids
  members : ∀ (space : Keyspace) (key : String),
    space.find? key = (Entry.set (NameSet.ofList (ids.map Decimal.ofInt))).kept → ∃ reply,
      space.execute .smembers [key] = (.ok reply, space) ∧
      (Value.ofReply reply).sortIds = .ok (.table ((listed.map Decimal.ofInt).map .str) [])
  range : ∀ (space : Keyspace) (key : String), space.find? key = (Entry.scored (scores ids)).kept →
    space.execute .zrange [key, "0", "-1"] = (.ok (Keyspace.listReply (listed.map Decimal.ofInt)), space)
  sooner : listed.Pairwise fun a b => Sooner (Decimal.ofInt a) (Decimal.ofInt b)

/-- Different ids are given in one order, whichever commands they come from. -/
theorem exists_givenAs (hnodup : ids.Nodup) : ∃ listed : List Int, GivenAs ids listed := by
  obtain ⟨listed, hperm, hfound, hlisted, hsooner⟩ := exists_listed hnodup
  refine ⟨listed, hperm, fun space key hkey => ?_, fun space key hkey => ?_, hsooner⟩
  · rw [← hfound]
    exact sortIds_smembers hkey
  · rw [← hlisted]
    exact zrange_scores hkey

end Commands

section Answers

variable {ns : String} {schema : Schema} {space : Keyspace} {library : Library} {op : Operation} {task : Task}
  {method : Method} {found : List Int}

/-- An operation that comes to ids answers them in the order in which they are listed. -/
theorem Operation.exists_answersStill_ids (hschema : schema.WellFormed) (hsound : library.Sound schema)
    (hcanonical : Canonical ns schema library space) (hcheck : op.check schema = .ok task)
    (hperform : library.perform task = (.ids method found, library)) (hdraws : task.work.draws = false)
    (hmethod : method = .list ∨ method = .find ∨ method = .findAll) (hnodup : found.Nodup)
    (hbits : ∀ id ∈ found, 0 < id ∧ Decimal.InInt64 id) :
    ∃ ids, op.AnswersStill ns schema space (.ids ids) ∧ ids.Perm found ∧ ids.Pairwise ListedBefore := by
  obtain ⟨ids, hperm, hfound, hlisted, hsooner⟩ := exists_listed hnodup
  have hids : ∀ id ∈ ids, 0 < id ∧ Decimal.InInt64 id := fun id hid => hbits id (hperm.mem_iff.1 hid)
  refine ⟨ids, ?_, hperm, listedBefore_of_sooner hids hsooner⟩
  rw [answersStill_iff hschema hsound hcanonical hcheck hdraws (by rw [hperform]), hperform]
  have hread := @readAnswer_listed schema ids (fun id hid => (hids id hid).2) method hmethod
  rcases hmethod with rfl | rfl | rfl
  · simpa only [Verdict.reply, hlisted] using hread
  all_goals simpa only [Verdict.reply, hfound] using hread

/-- Listing answers the live ids. -/
theorem Operation.exists_list (hschema : schema.WellFormed) (hsound : library.Sound schema)
    (hcanonical : Canonical ns schema library space) {name : String} {coll : Collection}
    (hcoll : schema.collection? name = some coll) (hbits : ∀ id ∈ (library name).ids, Decimal.InInt64 id) :
    ∃ ids, (Operation.list name).AnswersStill ns schema space (.ids ids) ∧ ids.Perm (library name).ids ∧
      ids.Pairwise ListedBefore := by
  have hcheck : (Operation.list name).check schema = .ok ⟨name, coll, .list⟩ := by
    simp only [check, Operation.collection, hcoll, checkWork, Except.map]
  refine exists_answersStill_ids hschema hsound hcanonical hcheck ?_ rfl (.inl rfl) ?_ ?_
  · simp only [Library.perform, Work.apply, Function.update_eq_self]
  · exact (library name).ids_ascending.imp fun h => Int.ne_of_lt h
  · intro id hid
    obtain ⟨row, hrow⟩ := (Documents.mem_ids (hsound name coll hcoll).bounded).1 hid
    exact ⟨((hsound name coll hcoll).bounded id row hrow).1, hbits id hid⟩

/-- Searching an index answers the holders of what is asked for. -/
theorem Operation.exists_found (hschema : schema.WellFormed) (hsound : library.Sound schema)
    (hcanonical : Canonical ns schema library space) {name : String} {coll : Collection} {index : Index}
    {attrs : FieldValues} {probe : List (String × String)} (hcoll : schema.collection? name = some coll)
    (hbits : ∀ id ∈ (library name).ids, Decimal.InInt64 id) {indexName : String}
    (hindex : (indexName, index) ∈ coll.indices.entries) (hop : op = .find name attrs ∨ op = .findAll name attrs)
    (hnames : ∀ field, field ∈ attrs.keys ↔ field ∈ index.fields.map (·.name))
    (hprobe : Operation.encodeFields op.method coll attrs.entries = .ok probe) :
    ∃ ids, op.AnswersStill ns schema space (.ids ids) ∧
      ids.Perm ((library name).holders index (index.compositeOf (SortedMap.ofList probe))) ∧
      ids.Pairwise ListedBefore := by
  have hcheck := check_search hcoll (hschema.collection hcoll).2 hindex hop hnames hprobe
  have hmethod : op.method = .list ∨ op.method = .find ∨ op.method = .findAll := by
    rcases hop with rfl | rfl
    · exact .inr (.inl rfl)
    · exact .inr (.inr rfl)
  have hnodup := (library name).nodup_holders index (index.compositeOf (SortedMap.ofList probe))
  refine exists_answersStill_ids hschema hsound hcanonical hcheck ?_ rfl hmethod hnodup ?_
  · simp only [Library.perform, Work.apply, Function.update_eq_self]
  · intro id hid
    have hlive := (List.mem_filter.1 hid).1
    obtain ⟨row, hrow⟩ := (Documents.mem_ids (hsound name coll hcoll).bounded).1 hlive
    exact ⟨((hsound name coll hcoll).bounded id row hrow).1, hbits id hlive⟩

end Answers

/-- In a keyspace that lays out documents with ids of 64 bits, `list` answers all live ids, and a search over an
index that is not unique all holders of what is asked for, in ascending order but for ids across a power of ten
that is the double of both: of these the larger one comes first. The order is that of the commands on which both
rest, for any integers: by the doubles that the texts are read as, and by the texts where these are the same. -/
theorem Canonical.ids_listed {ns : String} {schema : Schema} {library : Library} {space : Keyspace} {name : String}
    {coll : Collection} (hschema : schema.WellFormed) (hsound : library.Sound schema)
    (hcanonical : Canonical ns schema library space) (hcoll : schema.collection? name = some coll)
    (hbits : ∀ id ∈ (library name).ids, Decimal.InInt64 id) :
    (∃ ids, (Operation.list name).AnswersStill ns schema space (.ids ids) ∧
      (∀ id, id ∈ ids ↔ ∃ row, space.find? (recordKey ns name (Decimal.ofInt id)) = some (.hash row)) ∧
      ids.Pairwise ListedBefore ∧ (ids.Pairwise (· < ·) ↔ ∀ a ∈ ids, ∀ b ∈ ids, ¬Crossing a b)) ∧
    (∀ (indexName : String) (index : Index) (attrs : FieldValues) (op : Operation) (probe : List (String × String)),
      (indexName, index) ∈ coll.indices.entries → index.unique = false →
      op = .find name attrs ∨ op = .findAll name attrs →
      (∀ field, field ∈ attrs.keys ↔ field ∈ index.fields.map (·.name)) →
      Operation.encodeFields op.method coll attrs.entries = .ok probe →
        ∃ ids, op.AnswersStill ns schema space (.ids ids) ∧
          (∀ id, id ∈ ids ↔ ∃ row, space.find? (recordKey ns name (Decimal.ofInt id)) = some (.hash row) ∧
            index.compositeOf row = index.compositeOf (SortedMap.ofList probe)) ∧
          ids.Pairwise ListedBefore ∧ (ids.Pairwise (· < ·) ↔ ∀ a ∈ ids, ∀ b ∈ ids, ¬Crossing a b)) ∧
    ∀ ids : List Int, ids.Nodup → ∃ listed, GivenAs ids listed ∧
      ((∀ id ∈ ids, 0 < id ∧ Decimal.InInt64 id) → listed.Pairwise ListedBefore) := by
  have hdocs := hsound name coll hcoll
  have hrows : ∀ id row, space.find? (recordKey ns name (Decimal.ofInt id)) = some (.hash row) ↔
      (library name).rows id = some row := by
    intro id row
    rw [(hcanonical.keeps name coll hcoll).rows]
    simp
  refine ⟨?_, ?_, ?_⟩
  · obtain ⟨ids, hanswer, hperm, hbefore⟩ := Operation.exists_list hschema hsound hcanonical hcoll hbits
    refine ⟨ids, hanswer, fun id => ?_, hbefore, pairwise_lt_iff hbefore⟩
    simp only [hperm.mem_iff, Documents.mem_ids hdocs.bounded, hrows]
  · intro indexName index attrs op probe hindex hunique hop hnames hprobe
    obtain ⟨ids, hanswer, hperm, hbefore⟩ :=
      Operation.exists_found hschema hsound hcanonical hcoll hbits hindex hop hnames hprobe
    refine ⟨ids, hanswer, fun id => ?_, hbefore, pairwise_lt_iff hbefore⟩
    simp only [hperm.mem_iff, Documents.mem_holders hdocs.bounded, Documents.Holds, Index.enters, hunique, hrows]
    simp
  · intro ids hnodup
    obtain ⟨listed, hlisted⟩ := exists_givenAs hnodup
    refine ⟨listed, hlisted, fun hids => listedBefore_of_sooner ?_ hlisted.sooner⟩
    exact fun id hid => hids id (hlisted.perm.mem_iff.1 hid)

/-- The index of notes. -/
def kindIndex : Index := ⟨false, [⟨"kind", false⟩]⟩

/-- A collection of notes, which may be of the same kind. -/
def noteFields : Collection :=
  ⟨.ofList [("kind", ⟨.string, false, false⟩)], .ofList [("byKind", kindIndex)]⟩

/-- The schema of that collection. -/
def notes : Schema :=
  ⟨.ofList [("notes", noteFields)]⟩

theorem notes_wellFormed : notes.WellFormed := by
  decide

theorem collection?_notes {name : String} {coll : Collection} (h : notes.collection? name = some coll) :
    name = "notes" ∧ coll = noteFields := by
  simp only [Schema.collection?, notes, SortedMap.ofList_eq_overlay, SortedMap.overlay_cons,
    SortedMap.overlay_nil, SortedMap.find?_insert, SortedMap.find?_empty] at h
  split at h
  · rename_i heq
    exact ⟨heq, (Option.some.inj h).symm⟩
  · cases h

/-- The addition of a note. -/
def addNote : Operation := .create "notes" (.ofList [("kind", .text "memo")])

/-- The task of that operation. -/
def addNoteTask : Task := ⟨"notes", noteFields, .create [("kind", "memo")]⟩

theorem check_addNote : addNote.check notes = .ok addNoteTask := rfl

/-- A keyspace in which the next id is the last one of 16 digits. -/
def beforeNotes : Keyspace :=
  (∅ : Keyspace).put (nextIdKey "p" "notes") (.text (Decimal.ofInt 9999999999999998))

/-- Two notes with ids on either side of a power of ten. -/
def twoNotes : Keyspace :=
  ((Task.script "p" [addNoteTask, addNoteTask]).1.run (Task.script "p" [addNoteTask, addNoteTask]).2 beforeNotes).2

/-- The documents of a keyspace in which the next id is the last one of 16 digits. -/
def libraryBefore : Library := fun _ => { drawn := 9999999999999998 }

/-- The documents of the two notes. -/
def noteLibrary : Library :=
  (libraryBefore.batch [addNoteTask, addNoteTask]).2

/-- The record of either note. -/
def memoRow : Row := .ofList [("kind", "memo")]

/-- The ids of the two notes, the larger one first. -/
def noteIds : List Int := [10000000000000000, 9999999999999999]

theorem rows_noteLibrary {id : Int} {row : Row} :
    (noteLibrary "notes").rows id = some row ↔ id ∈ noteIds ∧ row = memoRow := by
  have hrows : (noteLibrary "notes").rows =
      Function.update (Function.update (fun _ => none) 9999999999999999 (some memoRow)) 10000000000000000
        (some memoRow) := rfl
  rw [hrows, Function.update_apply, Function.update_apply, noteIds, List.mem_cons, List.mem_singleton]
  split
  · simp [*, eq_comm]
  · split <;> simp [*, eq_comm]

theorem sound_libraryBefore : libraryBefore.Sound notes := fun _ coll _ =>
  (Documents.sound_empty coll).withDrawn (Nat.zero_le _)

theorem fits_addNoteTask : ∀ task ∈ [addNoteTask, addNoteTask], task.Fits notes := by
  intro task htask
  have heq : task = addNoteTask := by simpa using htask
  rw [heq]
  exact Operation.fits_of_check notes_wellFormed check_addNote

theorem canonical_beforeNotes : Canonical "p" notes libraryBefore beforeNotes := by
  refine @Canonical.of_counters _ _ _ notes_wellFormed (fun _ => 9999999999999998) ?_ ?_
  · intro key _ hfound
    rw [beforeNotes, Keyspace.find?_put] at hfound
    split at hfound
    · rename_i hkey
      exact .inr ⟨"notes", noteFields, rfl, hkey⟩
    · exact absurd (SortedMap.find?_empty key) hfound
  · intro name coll hcoll
    rw [(collection?_notes hcoll).1, beforeNotes, Keyspace.find?_put, if_pos rfl, if_neg (by decide)]
    rfl

theorem sound_noteLibrary : noteLibrary.Sound notes :=
  Library.sound_batch sound_libraryBefore fits_addNoteTask

theorem canonical_twoNotes : Canonical "p" notes noteLibrary twoNotes := by
  -- Both ids that are drawn are of 64 bits.
  have hdraw : libraryBefore.CanDraw [addNoteTask, addNoteTask] :=
    ⟨fun _ => by decide, fun _ => ⟨fun _ => by decide, fun _ => trivial⟩⟩
  obtain ⟨after, hrun, hafter, -⟩ :=
    Task.run_script notes_wellFormed fits_addNoteTask sound_libraryBefore canonical_beforeNotes hdraw
  have hspace : after = twoNotes := (congrArg Prod.snd hrun).symm
  rwa [hspace] at hafter

/-- What a search for these notes asks for. -/
def memoAttrs : FieldValues := .ofList [("kind", .text "memo")]

theorem mem_kindIndex : ("byKind", kindIndex) ∈ noteFields.indices.entries := List.mem_singleton.2 rfl

theorem names_memoAttrs (field : String) : field ∈ memoAttrs.keys ↔ field ∈ kindIndex.fields.map (·.name) := by
  have hkeys : memoAttrs.keys = kindIndex.fields.map (·.name) := rfl
  rw [hkeys]

theorem perm_noteIds : noteIds.Perm (noteLibrary "notes").ids := by
  have hnodup : (noteLibrary "notes").ids.Nodup := (noteLibrary "notes").ids_ascending.imp fun h => Int.ne_of_lt h
  refine (List.perm_ext_iff_of_nodup (by decide) hnodup).2 fun id => ?_
  simp [Documents.mem_ids (sound_noteLibrary "notes" noteFields rfl).bounded, rows_noteLibrary]

theorem inInt64_noteLibrary : ∀ id ∈ (noteLibrary "notes").ids, Decimal.InInt64 id := by
  intro id hid
  have hall : ∀ id ∈ noteIds, Decimal.InInt64 id := by decide
  exact hall id (perm_noteIds.mem_iff.2 hid)

/-- The live ids of the two notes and their holders, listed. -/
theorem ids_listed_notes :
    (∃ ids, (Operation.list "notes").AnswersStill "p" notes twoNotes (.ids ids) ∧ ids.Pairwise ListedBefore) ∧
    ∃ ids, (Operation.findAll "notes" memoAttrs).AnswersStill "p" notes twoNotes (.ids ids) ∧
      (ids.Pairwise (· < ·) ↔ ∀ a ∈ ids, ∀ b ∈ ids, ¬Crossing a b) := by
  obtain ⟨⟨listed, hlist, -, hbefore, -⟩, hsearch, -⟩ :=
    Canonical.ids_listed notes_wellFormed sound_noteLibrary canonical_twoNotes rfl inInt64_noteLibrary
  obtain ⟨found, hfind, -, -, hascending⟩ :=
    hsearch "byKind" kindIndex memoAttrs (.findAll "notes" memoAttrs) [("kind", "memo")] mem_kindIndex rfl
      (.inr rfl) names_memoAttrs rfl
  exact ⟨⟨listed, hlist, hbefore⟩, found, hfind, hascending⟩

theorem holders_noteLibrary :
    (noteLibrary "notes").holders kindIndex (kindIndex.compositeOf memoRow) = (noteLibrary "notes").ids := by
  refine List.filter_eq_self.2 fun id hid => Documents.holds_iff.2 ?_
  obtain ⟨row, hrow⟩ := (Documents.mem_ids (sound_noteLibrary "notes" noteFields rfl).bounded).1 hid
  obtain ⟨-, rfl⟩ := rows_noteLibrary.1 hrow
  exact ⟨memoRow, hrow, rfl, rfl⟩

/-- Ids that are listed as the notes are, are those of the notes in the order above. -/
theorem eq_noteIds {ids : List Int} (hperm : ids.Perm (noteLibrary "notes").ids) (h : ids.Pairwise ListedBefore) :
    ids = noteIds :=
  (hperm.trans perm_noteIds.symm).eq_of_pairwise (fun _ _ _ _ hab hba => absurd hba hab.asymm) h (by decide)

/-- The ids of the two notes are listed and found in an order that is not ascending. -/
theorem ids_out_of_order : noteLibrary.Sound notes ∧ Canonical "p" notes noteLibrary twoNotes ∧
    (∀ id ∈ noteIds, Decimal.InInt64 id) ∧ ¬noteIds.Pairwise (· < ·) ∧
    (Operation.list "notes").AnswersStill "p" notes twoNotes (.ids noteIds) ∧
    (Operation.find "notes" memoAttrs).AnswersStill "p" notes twoNotes (.ids noteIds) ∧
    (Operation.findAll "notes" memoAttrs).AnswersStill "p" notes twoNotes (.ids noteIds) := by
  have hlist : (Operation.list "notes").AnswersStill "p" notes twoNotes (.ids noteIds) := by
    obtain ⟨ids, hanswer, hperm, hbefore⟩ := Operation.exists_list notes_wellFormed sound_noteLibrary
      canonical_twoNotes rfl inInt64_noteLibrary
    rwa [eq_noteIds hperm hbefore] at hanswer
  have hfound : ∀ op : Operation, op = .find "notes" memoAttrs ∨ op = .findAll "notes" memoAttrs →
      op.AnswersStill "p" notes twoNotes (.ids noteIds) := by
    intro op hop
    have hprobe : Operation.encodeFields op.method noteFields memoAttrs.entries = .ok [("kind", "memo")] := by
      rcases hop with rfl | rfl <;> rfl
    obtain ⟨ids, hanswer, hperm, hbefore⟩ := Operation.exists_found notes_wellFormed sound_noteLibrary
      canonical_twoNotes rfl inInt64_noteLibrary mem_kindIndex hop names_memoAttrs hprobe
    rw [← memoRow, holders_noteLibrary] at hperm
    rwa [eq_noteIds hperm hbefore] at hanswer
  exact ⟨sound_noteLibrary, canonical_twoNotes, by decide, by decide, hlist, hfound _ (.inl rfl),
    hfound _ (.inr rfl)⟩

end DocStore
