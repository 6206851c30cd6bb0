import DocStore.Proofs.Client.Answers
import DocStore.Proofs.Documents.Matching
import DocStore.Proofs.Operation.OneByOne
import DocStore.Proofs.Schema.RoundTrip
import Mathlib.Data.List.Perm.Basic

/-!
Searches find what they ask for.

In a keyspace that operations reach, a search over the fields of an index with at most one field of free text
answers exactly the live ids whose records match the probe field by field, each once. An index that is
unique answers nothing to a probe with a `null`, and one id at most to any other.
-/

namespace DocStore

open DocStore.Script DocStore.Layout

namespace Collection

variable {coll : Collection} {name : String} {index : Index}

/-- An index is found by the names of its fields. -/
theorem indexFor?_of_mem (hcoll : coll.WellFormed) (hindex : (name, index) ∈ coll.indices.entries)
    {names : List String} (hnames : ∀ field, field ∈ names ↔ field ∈ index.fields.map (·.name)) :
    coll.indexFor? names = some (name, index) := by
  have hsame : index.names = NameSet.ofList names := NameSet.ext fun field => by
    rw [Index.names, NameSet.contains_ofList, NameSet.contains_ofList, hnames]
  unfold indexFor?
  cases hfind : coll.indices.entries.find? fun entry => entry.2.names = NameSet.ofList names with
  | none =>
    have hnone := List.find?_eq_none.1 hfind (name, index) hindex
    exact absurd hsame (by simpa using hnone)
  | some entry =>
    have hfound : entry.2.names = NameSet.ofList names := by simpa using List.find?_some hfind
    have : Std.Symm fun a b : String × Index => a.2.names ≠ b.2.names := ⟨fun _ _ hne => hne.symm⟩
    by_contra hne
    exact hcoll.2.2.2.2.forall (List.mem_of_find?_eq_some hfind) hindex (fun heq => hne (congrArg some heq))
      (hfound.trans hsame.symm)

end Collection

section Probes

variable {coll : Collection} {index : Index} {attrs : FieldValues} {method : Method}
  {probe : List (String × String)}

/-- What is asked for covers the index over just these fields. -/
theorem Index.coveredBy_ofList (hfits : index.Fits coll.definition)
    (hnames : ∀ field, field ∈ attrs.keys ↔ field ∈ index.fields.map (·.name))
    (hprobe : Operation.encodeFields method coll attrs.entries = .ok probe) :
    index.CoveredBy (SortedMap.ofList probe) := fun field hfield =>
  (SortedMap.contains_ofList _).2 (((Operation.encodeFields_sublist hprobe).2 field.name).2
    ⟨(hnames field.name).2 (List.mem_map.2 ⟨field, hfield, rfl⟩), hfits.2.1 field hfield⟩)

/-- The probe is complete if no value is `null`. -/
theorem Index.complete_ofList (hfits : index.Fits coll.definition)
    (hnames : ∀ field, field ∈ attrs.keys ↔ field ∈ index.fields.map (·.name))
    (hprobe : Operation.encodeFields method coll attrs.entries = .ok probe) :
    index.complete (SortedMap.ofList probe) = true ↔ ∀ field, attrs.find? field ≠ some .null := by
  have hgiven : ∀ name text, (SortedMap.ofList probe).find? name = some text →
      ∃ type value, attrs.find? name = some value ∧ FieldType.encode type value = .ok text := by
    intro name text htext
    obtain ⟨type, value, -, hvalue, hencode⟩ := Operation.mem_encodeFields hprobe (name, text)
      (SortedMap.mem_of_mem_ofList (SortedMap.find?_eq_some_iff.1 htext))
    exact ⟨type, value, SortedMap.find?_eq_some_iff.2 hvalue, hencode⟩
  simp only [Index.complete, List.all_eq_true, decide_eq_true_eq]
  constructor
  · intro hcomplete name hnull
    have hmem : name ∈ attrs.keys := SortedMap.mem_keys_iff.2 (SortedMap.contains_iff.2 ⟨_, hnull⟩)
    obtain ⟨field, hfield, rfl⟩ := List.mem_map.1 ((hnames name).1 hmem)
    obtain ⟨text, htext⟩ := SortedMap.contains_iff.1 (coveredBy_ofList hfits hnames hprobe field hfield)
    obtain ⟨type, value, hvalue, hencode⟩ := hgiven field.name text htext
    rw [hnull] at hvalue
    cases hvalue
    rw [FieldType.encode_null hencode] at htext
    exact hcomplete field hfield htext
  · intro hnone field hfield htext
    obtain ⟨type, value, hvalue, hencode⟩ := hgiven field.name nullText htext
    rw [FieldType.encode_eq_null hencode] at hvalue
    exact hnone field.name hvalue

/-- The index is asked at all unless it is unique and a value is `null`. -/
theorem Index.enters_ofList (hfits : index.Fits coll.definition)
    (hnames : ∀ field, field ∈ attrs.keys ↔ field ∈ index.fields.map (·.name))
    (hprobe : Operation.encodeFields method coll attrs.entries = .ok probe) :
    index.enters (SortedMap.ofList probe) = true ↔
      (index.unique = true → ∀ field, attrs.find? field ≠ some .null) := by
  rw [Index.enters, Bool.or_eq_true, complete_ofList hfits hnames hprobe]
  cases index.unique <;> simp

end Probes

section Holders

variable {coll : Collection} {docs : Documents} {index : Index} {composite : String}

theorem Documents.nodup_holders (docs : Documents) (index : Index) (composite : String) :
    (docs.holders index composite).Nodup :=
  (docs.ids_ascending.filter _).imp fun h => Int.ne_of_lt h

/-- A unique index holds one record at most under a composite value. -/
theorem Documents.length_holders_le_one (hsound : docs.Sound coll) {indexName : String}
    (hindex : (indexName, index) ∈ coll.indices.entries) (hunique : index.unique = true) :
    (docs.holders index composite).length ≤ 1 := by
  have hsame : ∀ a ∈ docs.holders index composite, ∀ b ∈ docs.holders index composite, a = b :=
    fun a ha b hb => hsound.unique _ hindex hunique composite a b
      ((Documents.mem_holders hsound.bounded).1 ha) ((Documents.mem_holders hsound.bounded).1 hb)
  have hnodup := docs.nodup_holders index composite
  match hlist : docs.holders index composite with
  | [] => simp
  | [id] => simp
  | a :: b :: rest =>
    rw [hlist] at hsame hnodup
    have heq := hsame a (by simp) b (by simp)
    rw [heq] at hnodup
    simp at hnodup

/-- Live ids are of 64 bits as long as the counter is. -/
theorem Documents.inInt64_of_mem_holders (hbounded : docs.Bounded) (hdrawn : Decimal.InInt64 docs.drawn)
    {id : Int} (hid : id ∈ docs.holders index composite) : Decimal.InInt64 id := by
  obtain ⟨row, hrow, -⟩ := (Documents.mem_holders hbounded).1 hid
  obtain ⟨hpos, hle⟩ := hbounded id row hrow
  exact ⟨by omega, Int.le_trans hle hdrawn.2⟩

end Holders

section Searches

variable {ns : String} {schema : Schema} {space : Keyspace} {name : String} {coll : Collection}
  {index : Index} {attrs : FieldValues} {op : Operation} {probe : List (String × String)}

/-- A search over the fields of an index passes the check if its values can be encoded. -/
theorem Operation.check_search (hcoll : schema.collection? name = some coll) (hwell : coll.WellFormed)
    {indexName : String} (hindex : (indexName, index) ∈ coll.indices.entries)
    (hop : op = .find name attrs ∨ op = .findAll name attrs)
    (hnames : ∀ field, field ∈ attrs.keys ↔ field ∈ index.fields.map (·.name))
    (hprobe : encodeFields op.method coll attrs.entries = .ok probe) :
    op.check schema = .ok ⟨name, coll, .find op.method index probe⟩ := by
  have hfound := coll.indexFor?_of_mem hwell hindex hnames
  rcases hop with rfl | rfl
  all_goals
    simp only [Operation.method] at hprobe
    simp only [check, Operation.collection, hcoll, checkWork, checkFind, hfound, hprobe, bind, Except.bind,
      Except.map, Operation.method]

/-- The script of a task that leaves the documents as they are leaves the keyspace as it is. -/
theorem Task.run_still {library : Library} (hschema : schema.WellFormed) (hsound : library.Sound schema)
    (hcanonical : Canonical ns schema library space) {task : Task} (hfits : task.Fits schema)
    (hdraws : task.work.draws = false) (hsame : (library.perform task).2 = library) :
    (Task.script ns [task]).1.run (Task.script ns [task]).2 space =
      (.ok (library.perform task).1.reply, space) := by
  have hdraw : library.CanDraw [task] := by
    refine ⟨fun hdraw => ?_, fun _ => trivial⟩
    rw [hdraws] at hdraw
    cases hdraw
  obtain ⟨after, hrun, hafter, hframe⟩ :=
    run_script hschema (List.forall_mem_singleton.2 hfits) hsound hcanonical hdraw
  rw [Library.batch_one] at hrun hafter
  rw [hsame] at hafter
  rw [hrun, hcanonical.eq_of_frame hafter hframe, lastValue, Verdict.toReply_value]

/-- The script of a search answers the holders, and leaves the keyspace as it is. -/
theorem Task.run_search {library : Library} (hschema : schema.WellFormed) (hsound : library.Sound schema)
    (hcanonical : Canonical ns schema library space) {method : Method}
    (hfits : Task.Fits schema ⟨name, coll, .find method index probe⟩) :
    (Task.script ns [⟨name, coll, .find method index probe⟩]).1.run
        (Task.script ns [⟨name, coll, .find method index probe⟩]).2 space =
      (.ok (Verdict.ids method ((library name).holders index
        (index.compositeOf (SortedMap.ofList probe)))).reply, space) :=
  run_still hschema hsound hcanonical hfits rfl (Function.update_eq_self _ _)

/-- Listing texts of ids is listing the ids, in some order. -/
theorem exists_ids_foundTexts {ids : List Int} (hnodup : ids.Nodup) :
    ∃ listed : List Int, listed.Perm ids ∧ foundTexts ids = listed.map Decimal.ofInt := by
  have hperm := perm_foundTexts hnodup
  have hcomp : Relation.Comp (· = List.map Decimal.ofInt ·) (List.Perm · ·) (foundTexts ids) ids := by
    rw [List.eq_map_comp_perm]
    exact hperm
  obtain ⟨listed, heq, hlisted⟩ := hcomp
  exact ⟨listed, hlisted, heq⟩

/-- A search answers exactly the live ids whose records match it, each once; a unique index answers nothing to
a `null`, and one id at most. -/
theorem Reachable.search_exact {value : Json} {indexName : String}
    (hschema : Schema.ofJson value = .ok schema) (hreachable : Reachable ns schema space)
    (hcoll : schema.collection? name = some coll) (hindex : (indexName, index) ∈ coll.indices.entries)
    (hfree : index.FreeAtMostOnce coll) (hop : op = .find name attrs ∨ op = .findAll name attrs)
    (hnames : ∀ field, field ∈ attrs.keys ↔ field ∈ index.fields.map (·.name))
    (hprobe : Operation.encodeFields op.method coll attrs.entries = .ok probe) :
    ∃ program params reply ids,
      (Build.ofList ns schema [op]).finish = .ok (some (program, params)) ∧
      program.run params space = (.ok reply, space) ∧
      Client.readAnswer schema reply = .ok (.ids ids) ∧ ids.Nodup ∧
      (∀ id, id ∈ ids ↔ (index.unique = true → ∀ field, attrs.find? field ≠ some .null) ∧
        ∃ row, space.find? (recordKey ns name (Decimal.ofInt id)) = some (.hash row) ∧
          index.Matches row (SortedMap.ofList probe)) ∧
      (index.unique = true → (∃ field, attrs.find? field = some .null) → ids = []) ∧
      (index.unique = true → ids.length ≤ 1) := by
  have hwell := Schema.wellFormed_of_ofJson hschema
  have hcollWell := (hwell.collection hcoll).2
  have hindexFits : index.Fits coll.definition := fits_of_mem hcollWell hindex
  obtain ⟨library, hsound, hrange, hencoded, hcanonical⟩ := hreachable.encoded hwell
  have hcheck := Operation.check_search hcoll hcollWell hindex hop hnames hprobe
  have hrun := Task.run_search hwell hsound hcanonical (Operation.fits_of_check hwell hcheck)
  have hdocs := hsound name coll hcoll
  obtain ⟨ids, hperm, htexts⟩ := exists_ids_foundTexts ((library name).nodup_holders index
    (index.compositeOf (SortedMap.ofList probe)))
  have hmem : ∀ id, id ∈ ids ↔ index.enters (SortedMap.ofList probe) = true ∧
      ∃ row, (library name).rows id = some row ∧ index.Matches row (SortedMap.ofList probe) := fun id =>
    hperm.mem_iff.trans (Documents.mem_holders_iff hdocs (hencoded name coll hcoll) hindexFits hfree
      (Row.encoded_ofList (Operation.encoded_encodeFields hprobe))
      (Index.coveredBy_ofList hindexFits hnames hprobe))
  have henters := Index.enters_ofList hindexFits hnames hprobe
  have hreply : Client.readAnswer schema (Verdict.ids op.method ((library name).holders index
      (index.compositeOf (SortedMap.ofList probe)))).reply = .ok (.ids ids) := by
    have hin : ∀ id ∈ ids, Decimal.InInt64 id := fun id hid =>
      Documents.inInt64_of_mem_holders hdocs.bounded (hrange name coll hcoll) (hperm.mem_iff.1 hid)
    rcases hop with rfl | rfl
    · simp only [Operation.method, Verdict.reply, htexts]
      exact readAnswer_listed hin (.inr (.inl rfl))
    · simp only [Operation.method, Verdict.reply, htexts]
      exact readAnswer_listed hin (.inr (.inr rfl))
  have hall : Operation.checkAll schema [op] = .ok [⟨name, coll, .find op.method index probe⟩] := by
    simp only [Operation.checkAll, hcheck, Except.map]
  refine ⟨_, _, _, ids, Build.finish_of_checkAll hall (by simp), hrun, hreply,
    hperm.nodup_iff.2 ((library name).nodup_holders index _), fun id => ?_, ?_, ?_⟩
  · rw [hmem, henters]
    refine and_congr_right fun _ => exists_congr fun row => and_congr_left fun _ => ?_
    rw [(hcanonical.keeps name coll hcoll).rows]
    simp
  · rintro hunique ⟨field, hnull⟩
    refine List.eq_nil_iff_forall_not_mem.2 fun id hid => ?_
    exact henters.1 ((hmem id).1 hid).1 hunique field hnull
  · intro hunique
    rw [hperm.length_eq]
    exact Documents.length_holders_le_one hdocs hindex hunique

end Searches

/-- The index of the log: a moment, whose text has colons in it, and a note. -/
def logIndex : Index := ⟨false, [⟨"at", false⟩, ⟨"note", false⟩]⟩

/-- A collection for a log. -/
def logFields : Collection :=
  ⟨.ofList [("at", ⟨.date, false, false⟩), ("note", ⟨.string, false, false⟩)], .ofList [("both", logIndex)]⟩

/-- The schema of that collection. -/
def log : Schema :=
  ⟨.ofList [("log", logFields)]⟩

theorem log_ofJson : Schema.ofJson log.toJson.normalised = .ok log :=
  Schema.ofJson_toJson (by decide +kernel)

theorem collection?_log {name : String} {coll : Collection} (h : log.collection? name = some coll) :
    name = "log" := by
  simp only [Schema.collection?, log, SortedMap.ofList_eq_overlay, SortedMap.overlay_cons,
    SortedMap.overlay_nil, SortedMap.find?_insert, SortedMap.find?_empty] at h
  split at h
  · assumption
  · cases h

/-- What an entry is given as: a moment by a clock ahead of UTC, and a note. -/
def entryAttrs (note : String) : FieldValues :=
  .ofList [("at", .text "2024-02-29T12:30:00.25+02:00"), ("note", .text note)]

/-- What an entry is stored as. -/
def entryTexts (stored : String) : List (String × String) :=
  [("at", "2024-02-29T10:30:00.250Z"), ("note", stored)]

/-- Two entries of one moment: the note of the first looks like `null`, that of the second like what stands
between the texts of an index. -/
def addEntries : List Operation :=
  [.create "log" (entryAttrs "~"), .create "log" (entryAttrs ":")]

/-- The tasks of those operations. -/
def addEntriesTasks : List Task :=
  [⟨"log", logFields, .create (entryTexts "~~")⟩, ⟨"log", logFields, .create (entryTexts ":")⟩]

theorem encodeFields_entryAttrs (method : Method) :
    Operation.encodeFields method logFields (entryAttrs "~").entries = .ok (entryTexts "~~") ∧
      Operation.encodeFields method logFields (entryAttrs ":").entries = .ok (entryTexts ":") := by
  constructor <;> with_unfolding_all rfl

theorem finish_addEntries : (Build.ofList "p" log addEntries).finish =
    .ok (some (Task.script "p" addEntriesTasks)) := by
  have hkeys : logFields.definition.keys = ["at", "note"] := by decide +kernel
  obtain ⟨hnull, hcolon⟩ := encodeFields_entryAttrs .create
  have hcheck : ∀ {note stored : String},
      Operation.encodeFields .create logFields (entryAttrs note).entries = .ok (entryTexts stored) →
        (Operation.create "log" (entryAttrs note)).check log =
          .ok ⟨"log", logFields, .create (entryTexts stored)⟩ := by
    intro note stored hencode
    have htexts : (entryTexts stored).map Prod.fst = ["at", "note"] := rfl
    simp [Operation.check, Operation.collection, show log.collection? "log" = some logFields from rfl,
      Operation.checkWork, Operation.checkCreate, hencode, hkeys, htexts, bind, Except.bind, Except.map]
  exact Build.finish_of_checkAll
    (by simp only [addEntries, Operation.checkAll, hcheck hnull, hcheck hcolon, Except.map, addEntriesTasks])
    (by simp [addEntriesTasks])

/-- The keyspace after the entries were added to an empty one. -/
def logSpace : Keyspace :=
  ((Task.script "p" addEntriesTasks).1.run (Task.script "p" addEntriesTasks).2 ∅).2

theorem reachable_logSpace : Reachable "p" log logSpace := by
  refine .run (.start fun key _ h => absurd (SortedMap.find?_empty key) h) finish_addEntries ?_
  intro name coll hcoll
  have hdraws : (Task.script "p" addEntriesTasks).1.draws (nextIdKey "p" "log") (Task.script "p" addEntriesTasks).2 ∅ =
      [1, 2] := by decide +kernel
  rw [collection?_log hcoll, hdraws]
  decide

/-- Although the moments are the same and have colons in them, the search for the note that is a colon finds the
second entry and not the first. -/
theorem search_exact_colon :
    ∃ program params reply ids,
      (Build.ofList "p" log [.find "log" (entryAttrs ":")]).finish = .ok (some (program, params)) ∧
      program.run params logSpace = (.ok reply, logSpace) ∧
      Client.readAnswer log reply = .ok (.ids ids) ∧ 2 ∈ ids ∧ 1 ∉ ids := by
  have hcoll : log.collection? "log" = some logFields := rfl
  have hindex : ("both", logIndex) ∈ logFields.indices.entries := List.mem_singleton.2 rfl
  have hnames : ∀ field, field ∈ (entryAttrs ":").keys ↔ field ∈ logIndex.fields.map (·.name) := by
    have hkeys : (entryAttrs ":").keys = logIndex.fields.map (·.name) := by decide +kernel
    simp [hkeys]
  obtain ⟨program, params, reply, ids, hbuild, hrun, hread, -, hmem, -, -⟩ :=
    reachable_logSpace.search_exact log_ofJson hcoll hindex (by decide) (.inl rfl) hnames
      (encodeFields_entryAttrs .find).2
  have hsecond : logSpace.find? (recordKey "p" "log" (Decimal.ofInt 2)) =
      some (.hash (SortedMap.ofList (entryTexts ":"))) := by decide +kernel
  have hfirst : logSpace.find? (recordKey "p" "log" (Decimal.ofInt 1)) =
      some (.hash (SortedMap.ofList (entryTexts "~~"))) := by decide +kernel
  refine ⟨program, params, reply, ids, hbuild, hrun, hread, ?_, ?_⟩
  · exact (hmem 2).2 ⟨fun hunique => absurd hunique (by decide), _, hsecond, by decide +kernel⟩
  · intro hfound
    obtain ⟨-, row, hrow, hmatches⟩ := (hmem 1).1 hfound
    cases hfirst.symm.trans hrow
    exact absurd hmatches (by decide +kernel)

end DocStore
