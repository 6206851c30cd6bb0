import DocStore.Proofs.Documents.Printed
import DocStore.Proofs.Operation.Search

/-!
What `get` prints can be given back.

A record that `get` answers, or some fields of it, can be printed, read again and passed to an update or to a
search. The update then writes just the texts that are stored, and so changes nothing; the search is for just
these texts, and finds the record (`printed_again`).
-/

namespace DocStore

open DocStore.Script DocStore.Layout

/-- The operation, by itself, is answered with this outcome, and leaves the keyspace as it is. -/
def Operation.AnswersStill (ns : String) (schema : Schema) (space : Keyspace) (op : Operation)
    (outcome : Client.Outcome) : Prop :=
  ∃ program params reply, (Build.ofList ns schema [op]).finish = .ok (some (program, params)) ∧
    program.run params space = (.ok reply, space) ∧ Client.readAnswer schema reply = .ok outcome

/-- A record stays as it is when fields of it are written again, and no unique index objects. -/
theorem Work.apply_update_same {collection : String} {coll : Collection} {docs : Documents} {id : Int} {row : Row}
    (hsound : docs.Sound coll) (hrow : docs.rows id = some row) {changes : List (String × String)}
    (hchanges : ∀ change ∈ changes, row.find? change.1 = some change.2) :
    (Work.update id changes).apply collection coll docs = (.updated, docs) := by
  have hoverlay : row.overlay changes = row := SortedMap.ext fun name => by
    rw [SortedMap.find?_overlay_of_agree row hchanges, ite_id]
  have hconflicts : docs.conflicts coll.indices.entries row (some id) = [] := by
    refine (Documents.conflicts_eq_nil hsound.bounded).2 fun entry hentry hunique hcomplete other hother => ?_
    have hown : docs.Holds entry.2 (entry.2.compositeOf row) id :=
      ⟨row, hrow, by simp [Index.enters, hcomplete], rfl⟩
    exact congrArg some (hsound.unique entry hentry hunique _ _ _ hother hown)
  have hput : docs.put id row = docs := by
    rw [Documents.put, ← hrow, Function.update_eq_self]
  simp only [apply, applyUpdate, hrow, hoverlay, hconflicts, hput]

section Still

variable {ns : String} {schema : Schema} {space : Keyspace} {library : Library} {op : Operation} {task : Task}
  {outcome : Client.Outcome} {name : String} {coll : Collection} {id : Int}

/-- An operation that leaves the documents as they are is answered as the model says. -/
theorem Operation.answersStill_iff (hschema : schema.WellFormed) (hsound : library.Sound schema)
    (hcanonical : Canonical ns schema library space) (hcheck : op.check schema = .ok task)
    (hdraws : task.work.draws = false) (hsame : (library.perform task).2 = library) :
    op.AnswersStill ns schema space outcome ↔
      Client.readAnswer schema (library.perform task).1.reply = .ok outcome := by
  have hall : Operation.checkAll schema [op] = .ok [task] := by
    simp only [Operation.checkAll, hcheck, Except.map]
  have hfinish := @Build.finish_of_checkAll ns _ _ _ hall (by simp)
  have hrun := Task.run_still hschema hsound hcanonical (Operation.fits_of_check hschema hcheck) hdraws hsame
  constructor
  · rintro ⟨program, params, reply, hprogram, hreply, hread⟩
    have hscript : Task.script ns [task] = (program, params) :=
      Option.some.inj (Except.ok.inj (hfinish.symm.trans hprogram))
    rw [hscript, hreply] at hrun
    cases hrun
    exact hread
  · intro hread
    exact ⟨_, _, _, hfinish, hrun, hread⟩

/-- What `get` answers is what the record is decoded as. -/
theorem Operation.get_answersStill_iff (hschema : schema.WellFormed) (hsound : library.Sound schema)
    (hcanonical : Canonical ns schema library space) (hcoll : schema.collection? name = some coll)
    {values : FieldValues} : (Operation.get name id).AnswersStill ns schema space (.record values) ↔
      ∃ row, (library name).rows id = some row ∧ coll.decodeRecord row.flat = .ok values := by
  have hcheck : (Operation.get name id).check schema = .ok ⟨name, coll, .get id⟩ := by
    simp only [check, Operation.collection, hcoll, checkWork, Except.map]
  cases hrow : (library name).rows id with
  | none =>
    have hperform : library.perform ⟨name, coll, .get id⟩ = (.notFound .get, library) := by
      simp [Library.perform, Work.apply, hrow]
    rw [answersStill_iff hschema hsound hcanonical hcheck rfl (by rw [hperform]), hperform, readAnswer_notFound,
      Verdict.answer]
    simp
  | some row =>
    have hperform : library.perform ⟨name, coll, .get id⟩ = (.row name row, library) := by
      simp [Library.perform, Work.apply, hrow]
    rw [answersStill_iff hschema hsound hcanonical hcheck rfl (by rw [hperform]), hperform, readAnswer_row,
      Verdict.answer, hcoll]
    cases hdecode : coll.decodeRecord row.flat <;> simp [hdecode]

end Still

/-- A search for fields of a record is for the composite value of the record. -/
theorem Index.compositeOf_pick {index : Index} {row : Row} {names : List String}
    (h : ∀ field ∈ index.fields, field.name ∈ names ∧ row.contains field.name = true) :
    index.compositeOf (SortedMap.ofList (row.pick names)) = index.compositeOf row := by
  refine compositeOf_congr fun field hfield => ?_
  obtain ⟨hname, hcontains⟩ := h field hfield
  obtain ⟨text, htext⟩ := SortedMap.contains_iff.1 hcontains
  have hmem : field.name ∈ (row.pick names).map Prod.fst := List.mem_map.2 ⟨_, Row.mem_pick hname htext, rfl⟩
  rw [SortedMap.ofList_eq_overlay,
    SortedMap.find?_overlay_of_agree ∅ (fun entry hentry => Row.find?_of_mem_pick hentry), if_pos hmem]

/-- The answer to a search lists what the index holds, in some order. -/
theorem readAnswer_found {schema : Schema} {docs : Documents} {index : Index} {composite : String}
    (hbounded : docs.Bounded) (hdrawn : Decimal.InInt64 docs.drawn) {method : Method}
    (hmethod : method = .find ∨ method = .findAll) :
    ∃ ids, ids.Perm (docs.holders index composite) ∧
      Client.readAnswer schema (Verdict.ids method (docs.holders index composite)).reply = .ok (.ids ids) := by
  obtain ⟨ids, hperm, htexts⟩ := exists_ids_foundTexts (docs.nodup_holders index composite)
  have hin : ∀ id ∈ ids, Decimal.InInt64 id := fun id hid =>
    Documents.inInt64_of_mem_holders hbounded hdrawn (hperm.mem_iff.1 hid)
  refine ⟨ids, hperm, ?_⟩
  rcases hmethod with rfl | rfl
  · simp only [Verdict.reply, htexts]
    exact readAnswer_listed hin (.inr (.inl rfl))
  · simp only [Verdict.reply, htexts]
    exact readAnswer_listed hin (.inr (.inr rfl))

/-- The text of some fields of a record can be given back: it is read, an update with it writes the stored texts
of these fields and changes nothing, and a search with it looks up these texts and finds the record. -/
structure GivenBack (ns : String) (schema : Schema) (space : Keyspace) (name : String) (coll : Collection) (id : Int)
    (row : Row) (given again : FieldValues) : Prop where
  read : Client.recordOfText (Client.Outcome.record given).toJson.text = .ok again
  update : given.isEmpty = false →
    (Operation.update name id again).check schema = .ok ⟨name, coll, .update id (row.pick given.keys)⟩ ∧
      (Operation.update name id again).AnswersStill ns schema space .updated
  search : ∀ {indexName : String} {index : Index} {op : Operation}, (indexName, index) ∈ coll.indices.entries →
    (∀ field, field ∈ given.keys ↔ field ∈ index.fields.map (·.name)) →
    op = .find name again ∨ op = .findAll name again →
    op.check schema = .ok ⟨name, coll, .find op.method index (row.pick given.keys)⟩ ∧
      ∃ ids, op.AnswersStill ns schema space (.ids ids) ∧ (index.enters row = true → id ∈ ids)

/-- Fields that were decoded from a record can be given back. -/
theorem GivenBack.of_decodeRecord {ns : String} {schema : Schema} {space : Keyspace} {library : Library}
    {name : String} {coll : Collection} {id : Int} {row : Row} {values given : FieldValues}
    (hschema : schema.WellFormed) (hsound : library.Sound schema) (hrange : library.InRange schema)
    (hcanonical : Canonical ns schema library space) (hcoll : schema.collection? name = some coll)
    (hrow : (library name).rows id = some row) (hencoded : row.Encoded coll)
    (hdecode : coll.decodeRecord row.flat = .ok values)
    (hgiven : ∀ field value, given.find? field = some value → values.find? field = some value) :
    GivenBack ns schema space name coll id row given given.reread := by
  have hcollWell := (hschema.collection hcoll).2
  have hdocs := hsound name coll hcoll
  have hfields : ∀ entry ∈ given.entries, ∃ type text, coll.field? entry.1 = some type ∧
      row.find? entry.1 = some text ∧ type.decode text = .ok entry.2 := fun entry hentry =>
    (coll.find?_decodeRecord hdecode entry.1 entry.2).1
      (hgiven entry.1 entry.2 (SortedMap.find?_eq_some_iff.2 hentry))
  have hencode : ∀ method, Operation.encodeFields method coll given.reread.entries =
      .ok (row.pick given.keys) := fun method => Operation.encodeFields_reread hencoded method hfields
  have hheld : ∀ field ∈ given.keys, ∃ text, row.find? field = some text := by
    intro field hfield
    obtain ⟨entry, hentry, rfl⟩ := List.mem_map.1 hfield
    obtain ⟨-, text, -, htext, -⟩ := hfields entry hentry
    exact ⟨text, htext⟩
  constructor
  case read => exact given.recordOfText_toJson
  case update =>
    intro hne
    have hpick : (row.pick given.keys).isEmpty = false := by
      obtain ⟨entry, hentry⟩ := List.exists_mem_of_ne_nil given.entries (by simpa [SortedMap.isEmpty] using hne)
      have hfield : entry.1 ∈ given.keys := List.mem_map.2 ⟨entry, hentry, rfl⟩
      obtain ⟨text, htext⟩ := hheld entry.1 hfield
      simpa using List.ne_nil_of_mem (Row.mem_pick hfield htext)
    have hcheck : (Operation.update name id given.reread).check schema =
        .ok ⟨name, coll, .update id (row.pick given.keys)⟩ := by
      simp only [Operation.check, Operation.collection, hcoll, Operation.checkWork, Operation.checkUpdate, hencode,
        bind, Except.bind, hpick, Except.map, if_neg Bool.false_ne_true]
    have hperform : library.perform ⟨name, coll, .update id (row.pick given.keys)⟩ = (.updated, library) := by
      simp only [Library.perform,
        Work.apply_update_same hdocs hrow fun change hchange => Row.find?_of_mem_pick hchange,
        Function.update_eq_self]
    refine ⟨hcheck, ?_⟩
    rw [Operation.answersStill_iff hschema hsound hcanonical hcheck rfl (by rw [hperform]), hperform]
    rfl
  case search =>
    intro indexName index op hindex hnames hop
    have hcheck := Operation.check_search hcoll hcollWell hindex hop
      (fun field => by rw [given.keys_reread]; exact hnames field) (hencode op.method)
    have hmethod : op.method = .find ∨ op.method = .findAll := by
      rcases hop with rfl | rfl
      · exact .inl rfl
      · exact .inr rfl
    obtain ⟨ids, hperm, hread⟩ := @readAnswer_found schema _ index
      (index.compositeOf (SortedMap.ofList (row.pick given.keys))) hdocs.bounded (hrange name coll hcoll) _ hmethod
    refine ⟨hcheck, ids, ?_, fun henters => ?_⟩
    · rw [Operation.answersStill_iff hschema hsound hcanonical hcheck rfl (Function.update_eq_self _ _)]
      exact hread
    · have hcomposite : index.compositeOf (SortedMap.ofList (row.pick given.keys)) = index.compositeOf row := by
        refine Index.compositeOf_pick fun field hfield => ?_
        have hname := (hnames field.name).2 (List.mem_map.2 ⟨field, hfield, rfl⟩)
        exact ⟨hname, SortedMap.contains_iff.2 (hheld field.name hname)⟩
      rw [hperm.mem_iff, hcomposite, Documents.mem_holders hdocs.bounded]
      exact ⟨row, hrow, henters, rfl⟩

/-- What a field decodes can be printed, read and stored again under the same text; and so a record that `get`
answers can be printed, wholly or in part, and given back to an update or a search. -/
theorem printed_again :
    (∀ (type : FieldType) (value found : FieldValue) (text : String), type.encode value = .ok text →
      type.decode text = .ok found →
        ∃ again, FieldValue.ofJson found.toJson = .ok again ∧ type.encode again = .ok text) ∧
    ∀ {json : Json} {schema : Schema} {ns : String} {space : Keyspace} {name : String} {coll : Collection} {id : Int}
      {values given : FieldValues}, Schema.ofJson json = .ok schema → Reachable ns schema space →
      schema.collection? name = some coll →
      (Operation.get name id).AnswersStill ns schema space (.record values) →
      (∀ field value, given.find? field = some value → values.find? field = some value) →
        ∃ row again, space.find? (recordKey ns name (Decimal.ofInt id)) = some (.hash row) ∧
          (∀ field, field ∈ values.keys ↔ field ∈ row.keys) ∧
          GivenBack ns schema space name coll id row given again := by
  constructor
  · intro type value found text hencode hdecode
    exact ⟨found.reread, found.ofJson_toJson, FieldType.encode_reread hencode hdecode⟩
  · intro json schema ns space name coll id values given hjson hreachable hcoll hget hgiven
    have hschema := Schema.wellFormed_of_ofJson hjson
    obtain ⟨library, hsound, hrange, hencoded, hcanonical⟩ := hreachable.encoded hschema
    obtain ⟨row, hrow, hdecode⟩ := (Operation.get_answersStill_iff hschema hsound hcanonical hcoll).1 hget
    refine ⟨row, given.reread, ?_, ?_, ?_⟩
    · rw [(hcanonical.keeps name coll hcoll).rows, hrow]
      rfl
    · exact coll.mem_keys_decodeRecord hdecode ((hsound name coll hcoll).fields id row hrow)
    · exact .of_decodeRecord hschema hsound hrange hcanonical hcoll hrow (hencoded name coll hcoll id row hrow)
        hdecode hgiven

/-- What the first entry of the log is decoded as. -/
def entryValues : FieldValues :=
  .ofList [("at", .date leapMorning), ("note", .text "~")]

theorem get_logSpace : (Operation.get "log" 1).AnswersStill "p" log logSpace (.record entryValues) := by
  have hschema := Schema.wellFormed_of_ofJson log_ofJson
  obtain ⟨library, hsound, -, -, hcanonical⟩ := reachable_logSpace.encoded hschema
  have hcoll : log.collection? "log" = some logFields := rfl
  have hrow : logSpace.find? (recordKey "p" "log" (Decimal.ofInt 1)) =
      some (.hash (.ofList [("at", "2024-02-29T10:30:00.250Z"), ("note", "~~")])) := by decide +kernel
  have hdecode : logFields.decodeRecord (Row.flat (.ofList [("at", "2024-02-29T10:30:00.250Z"), ("note", "~~")])) =
      .ok entryValues := by decide +kernel
  rw [(hcanonical.keeps "log" logFields hcoll).rows] at hrow
  obtain ⟨row, hlive, hentry⟩ := Option.map_eq_some_iff.1 hrow
  cases hentry
  exact (Operation.get_answersStill_iff hschema hsound hcanonical hcoll).2 ⟨_, hlive, hdecode⟩

/-- The entry is printed, read and given back: its date is now a text, and it is stored and found as before. -/
theorem printed_again_entry :
    (∃ again, FieldValue.ofJson (FieldValue.date leapMorning).toJson = .ok again ∧
      FieldType.encode ⟨.date, false, false⟩ again = .ok "2024-02-29T10:30:00.250Z") ∧
    ∃ again, Client.recordOfText (Client.Outcome.record entryValues).toJson.text = .ok again ∧
      (Operation.update "log" 1 again).AnswersStill "p" log logSpace .updated ∧
      ∃ ids, (Operation.find "log" again).AnswersStill "p" log logSpace (.ids ids) ∧ 1 ∈ ids := by
  obtain ⟨hfield, hrecord⟩ := printed_again
  constructor
  · exact hfield _ (.text "2024-02-29T12:30:00.25+02:00") (.date leapMorning) _ (by decide +kernel)
      (by decide +kernel)
  · obtain ⟨row, again, -, -, hagain⟩ := hrecord log_ofJson reachable_logSpace rfl get_logSpace fun _ _ h => h
    have hindex : ("both", logIndex) ∈ logFields.indices.entries := List.mem_singleton.2 rfl
    have hnames : ∀ field, field ∈ entryValues.keys ↔ field ∈ logIndex.fields.map (·.name) := by
      have hkeys : entryValues.keys = logIndex.fields.map (·.name) := by decide +kernel
      simp [hkeys]
    obtain ⟨-, ids, hfind, hmem⟩ := hagain.search hindex hnames (.inl rfl)
    exact ⟨again, hagain.read, (hagain.update (by decide +kernel)).2, ids, hfind, hmem rfl⟩

end DocStore
