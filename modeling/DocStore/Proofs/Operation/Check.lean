import DocStore.Proofs.Documents.Model

/-!
Compiling an operation is checking it and then writing out its script.

The check does not depend on where the parameters begin, so an operation is rejected alone exactly if it
is rejected inside a batch. What passes the check fits the collection (`Work.Fits`): a creation gives
every declared field and no other, an update declared fields only, a search the fields of an index.
-/

namespace DocStore

open DocStore.Script

/-- What is mapped to a result was a result before. -/
theorem exists_of_map_eq_ok {ε α β : Type} {f : α → β} {result : Except ε α} {mapped : β}
    (h : result.map f = .ok mapped) : ∃ value, result = .ok value ∧ mapped = f value := by
  cases result with
  | error e => cases h
  | ok value =>
    cases h
    exact ⟨value, rfl, rfl⟩

/-- What comes of a result and a step after it comes of that step, on the value of the result. -/
theorem exists_of_bind_eq_ok {ε α β : Type} {result : Except ε α} {next : α → Except ε β} {last : β}
    (h : result >>= next = .ok last) : ∃ value, result = .ok value ∧ next value = .ok last := by
  cases result with
  | error e => cases h
  | ok value => exact ⟨value, rfl, h⟩

namespace Operation

/-- The statements of a creation. -/
def createBody (coll : Collection) (ns collection : String) (firstParam : Nat)
    (encoded : List (String × String)) : List Stmt :=
  [.declare "id" (.call .incr [.str (Layout.nextIdKey ns collection)]), .declare "rec" (.table [])] ++
    setFields "rec" firstParam encoded ++
    [.declare "conflicts" (.table [])] ++
    uniqueChecks ns collection "rec" none coll.indices.entries ++
    [rejectConflicts .create,
      .call .hset (recordKeyExpr ns collection (.var "id") :: fieldArgs "rec" encoded)] ++
    addEntries ns collection "rec" (.var "id") coll.indices.entries ++
    [.call .zadd [.str (Layout.idsKey ns collection), .var "id", .var "id"],
      succeed .create [.var "id"]]

/-- The indices with a field among those that change. -/
def touchedBy (coll : Collection) (changes : List (String × String)) : List (String × Index) :=
  coll.indices.entries.filter (·.2.touches (changes.map Prod.fst))

/-- The statements of an update; the first parameter is the id. -/
def updateBody (coll : Collection) (ns collection : String) (firstParam : Nat)
    (changes : List (String × String)) : List Stmt :=
  [.declare "key" (recordKeyExpr ns collection (.param firstParam)),
    rejectIfMissing .update (.var "key"), .declare "old" storedRecord, .declare "new" storedRecord] ++
    setFields "new" (firstParam + 1) changes ++
    [.declare "conflicts" (.table [])] ++
    uniqueChecks ns collection "new" (some (.param firstParam)) (touchedBy coll changes) ++
    [rejectConflicts .update] ++
    removeEntries ns collection "old" (.param firstParam) (touchedBy coll changes) ++
    addEntries ns collection "new" (.param firstParam) (touchedBy coll changes) ++
    [.call .hset (.var "key" :: fieldArgs "new" changes), succeed .update [.int 1]]

/-- The statements of a search. -/
def findBody (ns collection : String) (firstParam : Nat) (method : Method) (index : Index)
    (probe : List (String × String)) : List Stmt :=
  [.declare "probe" (.table [])] ++ setFields "probe" firstParam probe ++
    [.declare "ids" (.table []),
      .block (index.search (Layout.indexKey ns collection index) "probe"),
      succeed method [.var "ids"]]

end Operation

/-- The script of a task. -/
def Task.fragment (ns : String) (firstParam : Nat) (task : Task) : Operation.Fragment :=
  match task.work with
  | .create row => ⟨Operation.createBody task.fields ns task.collection firstParam row, row.map Prod.snd⟩
  | .update id changes =>
    ⟨Operation.updateBody task.fields ns task.collection firstParam changes,
      Decimal.ofInt id :: changes.map Prod.snd⟩
  | .delete id => Operation.deleteFragment task.fields ns task.collection firstParam id
  | .get id => Operation.getFragment ns task.collection firstParam id
  | .exists id => Operation.existsFragment ns task.collection firstParam id
  | .list => Operation.listFragment ns task.collection
  | .size => Operation.sizeFragment ns task.collection
  | .find method index probe =>
    ⟨Operation.findBody ns task.collection firstParam method index probe, probe.map Prod.snd⟩

/-- Compiling is checking, and then writing out. -/
theorem Operation.compile_eq (ns : String) (schema : Schema) (firstParam : Nat) (op : Operation) :
    op.compile ns schema firstParam = (op.check schema).map (Task.fragment ns firstParam) := by
  unfold compile check
  cases schema.collection? op.collection with
  | none => rfl
  | some coll =>
    cases op with
    | create collection attrs =>
      simp only [createFragment, checkWork, checkCreate, bind, Except.bind]
      cases encodeFields .create coll attrs.entries with
      | error e => rfl
      | ok encoded =>
        cases hmissing : coll.definition.keys.find? fun name => !(encoded.map Prod.fst).contains name <;>
          simp only [hmissing] <;> rfl
    | update collection id attrs =>
      simp only [updateFragment, checkWork, checkUpdate, bind, Except.bind]
      cases encodeFields .update coll attrs.entries with
      | error e => rfl
      | ok encoded =>
        cases hempty : encoded.isEmpty <;>
          simp only [hempty, if_true, Bool.false_eq_true, if_false] <;> rfl
    | find collection attrs =>
      simp only [findFragment, checkWork, checkFind, bind, Except.bind]
      cases coll.indexFor? attrs.keys with
      | none => rfl
      | some found =>
        simp only
        cases encodeFields .find coll attrs.entries <;> rfl
    | findAll collection attrs =>
      simp only [findFragment, checkWork, checkFind, bind, Except.bind]
      cases coll.indexFor? attrs.keys with
      | none => rfl
      | some found =>
        simp only
        cases encodeFields .findAll coll attrs.entries <;> rfl
    | delete | get | «exists» | list | size => rfl

/-- What compiles has passed the check. -/
theorem Operation.exists_task_of_compile {ns : String} {schema : Schema} {firstParam : Nat} {op : Operation}
    {fragment : Fragment} (h : op.compile ns schema firstParam = .ok fragment) :
    ∃ task, op.check schema = .ok task ∧ fragment = task.fragment ns firstParam := by
  rw [compile_eq] at h
  exact exists_of_map_eq_ok h

/-- The work fits the collection. -/
def Work.Fits (coll : Collection) : Work → Prop
  | .create row =>
    (row.map Prod.fst).Nodup ∧ ∀ name, name ∈ row.map Prod.fst ↔ coll.definition.contains name = true
  | .update _ changes =>
    changes ≠ [] ∧ (changes.map Prod.fst).Nodup ∧
      ∀ name ∈ changes.map Prod.fst, coll.definition.contains name = true
  | .find method index probe =>
    (method = .find ∨ method = .findAll) ∧ (∃ name, (name, index) ∈ coll.indices.entries) ∧
      (probe.map Prod.fst).Nodup ∧ ∀ field ∈ index.fields, field.name ∈ probe.map Prod.fst
  | _ => True

namespace Operation

variable {coll : Collection} {method : Method} {encoded : List (String × String)}

/-- What is encoded is declared, in the order given. -/
theorem encodeFields_sublist {attrs : List (String × FieldValue)}
    (h : encodeFields method coll attrs = .ok encoded) :
    (encoded.map Prod.fst).Sublist (attrs.map Prod.fst) ∧
      ∀ name, name ∈ encoded.map Prod.fst ↔
        name ∈ attrs.map Prod.fst ∧ coll.definition.contains name = true := by
  induction attrs generalizing encoded with
  | nil =>
    cases h
    simp
  | cons attr rest ih =>
    obtain ⟨name, value⟩ := attr
    unfold encodeFields at h
    split at h
    · rename_i hnone
      obtain ⟨hsub, hmem⟩ := ih h
      have hundeclared : coll.definition.contains name = false := by
        simp only [SortedMap.contains]
        rw [show coll.definition.find? name = none from hnone]
        rfl
      refine ⟨hsub.cons name, fun other => (hmem other).trans ?_⟩
      simp only [List.map_cons, List.mem_cons]
      constructor
      · rintro ⟨hother, hcontains⟩
        exact ⟨.inr hother, hcontains⟩
      · rintro ⟨rfl | hother, hcontains⟩
        · rw [hundeclared] at hcontains
          cases hcontains
        · exact ⟨hother, hcontains⟩
    · rename_i type hsome
      have hdeclared : coll.definition.contains name = true :=
        SortedMap.contains_iff.2 ⟨type, hsome⟩
      split at h
      · cases h
      · rename_i text htext
        obtain ⟨others, hrest, rfl⟩ := exists_of_map_eq_ok h
        obtain ⟨hsub, hmem⟩ := ih hrest
        refine ⟨hsub.cons_cons name, fun other => ?_⟩
        simp only [List.map_cons, List.mem_cons, hmem]
        constructor
        · rintro (rfl | ⟨hother, hcontains⟩)
          · exact ⟨.inl rfl, hdeclared⟩
          · exact ⟨.inr hother, hcontains⟩
        · rintro ⟨rfl | hother, hcontains⟩
          · exact .inl rfl
          · exact .inr ⟨hother, hcontains⟩

/-- A creation that passes the check gives every declared field. -/
theorem row_of_checkCreate {attrs : FieldValues} {work : Work} (h : checkCreate coll attrs = .ok work) :
    ∃ row, encodeFields .create coll attrs.entries = .ok row ∧
      (∀ name ∈ coll.definition.keys, name ∈ row.map Prod.fst) ∧ work = .create row := by
  obtain ⟨row, hencoded, hrow⟩ := exists_of_bind_eq_ok h
  split at hrow
  · cases hrow
  · rename_i hnone
    cases hrow
    refine ⟨row, hencoded, fun name hname => ?_, rfl⟩
    simpa using List.find?_eq_none.1 hnone name hname

/-- An update that passes the check gives a declared field. -/
theorem changes_of_checkUpdate {id : Int} {attrs : FieldValues} {work : Work}
    (h : checkUpdate coll id attrs = .ok work) :
    ∃ changes, encodeFields .update coll attrs.entries = .ok changes ∧ changes ≠ [] ∧
      work = .update id changes := by
  obtain ⟨changes, hencoded, hchanges⟩ := exists_of_bind_eq_ok h
  split at hchanges
  · cases hchanges
  · rename_i hne
    cases hchanges
    exact ⟨changes, hencoded, by simpa using hne, rfl⟩

/-- A search that passes the check has an index. -/
theorem probe_of_checkFind {attrs : FieldValues} {work : Work}
    (h : checkFind coll method attrs = .ok work) :
    ∃ name index probe, coll.indexFor? attrs.keys = some (name, index) ∧
      encodeFields method coll attrs.entries = .ok probe ∧ work = .find method index probe := by
  unfold checkFind at h
  cases hindex : coll.indexFor? attrs.keys with
  | none =>
    rw [hindex] at h
    cases h
  | some found =>
    obtain ⟨name, index⟩ := found
    rw [hindex] at h
    obtain ⟨probe, hencoded, hprobe⟩ := exists_of_bind_eq_ok h
    cases hprobe
    exact ⟨name, index, probe, rfl, hencoded, rfl⟩

theorem fits_of_checkCreate {attrs : FieldValues} {work : Work}
    (h : checkCreate coll attrs = .ok work) : work.Fits coll := by
  obtain ⟨row, hencoded, hall, rfl⟩ := row_of_checkCreate h
  obtain ⟨hsub, hmem⟩ := encodeFields_sublist hencoded
  exact ⟨hsub.nodup attrs.keys_nodup, fun name => ⟨fun hname => ((hmem name).1 hname).2,
    fun hcontains => hall name (SortedMap.mem_keys_iff.2 hcontains)⟩⟩

theorem fits_of_checkUpdate {id : Int} {attrs : FieldValues} {work : Work}
    (h : checkUpdate coll id attrs = .ok work) : work.Fits coll := by
  obtain ⟨changes, hencoded, hne, rfl⟩ := changes_of_checkUpdate h
  obtain ⟨hsub, hmem⟩ := encodeFields_sublist hencoded
  exact ⟨hne, hsub.nodup attrs.keys_nodup, fun name hname => ((hmem name).1 hname).2⟩

theorem fits_of_checkFind (hcoll : coll.WellFormed) (hmethod : method = .find ∨ method = .findAll)
    {attrs : FieldValues} {work : Work} (h : checkFind coll method attrs = .ok work) :
    work.Fits coll := by
  obtain ⟨name, index, probe, hindex, hencoded, rfl⟩ := probe_of_checkFind h
  obtain ⟨hsub, hmem⟩ := encodeFields_sublist hencoded
  have hentry : (name, index) ∈ coll.indices.entries := List.mem_of_find?_eq_some hindex
  have hnames : index.names = NameSet.ofList attrs.keys := by
    simpa using List.find?_some hindex
  have hfits : index.Fits coll.definition :=
    hcoll.2.2.2.1 index (List.mem_map.2 ⟨(name, index), hentry, rfl⟩)
  refine ⟨hmethod, ⟨name, hentry⟩, hsub.nodup attrs.keys_nodup, fun field hfield => ?_⟩
  refine (hmem field.name).2 ⟨?_, hfits.2.1 field hfield⟩
  have hcontains : index.names.contains field.name = true :=
    (NameSet.contains_ofList _ _).2 (List.mem_map.2 ⟨field, hfield, rfl⟩)
  rw [hnames] at hcontains
  exact (NameSet.contains_ofList _ _).1 hcontains

end Operation

/-- The task is on a collection of the schema, and fits it. -/
structure Task.Fits (schema : Schema) (task : Task) : Prop where
  collection : schema.collection? task.collection = some task.fields
  work : task.work.Fits task.fields

theorem Schema.WellFormed.collection {schema : Schema} (h : schema.WellFormed) {name : String}
    {coll : Collection} (hcoll : schema.collection? name = some coll) :
    isValidName name = true ∧ coll.WellFormed := by
  have hmem : (name, coll) ∈ schema.collections.entries := SortedMap.find?_eq_some_iff.1 hcoll
  exact ⟨h.2.1 name (List.mem_map.2 ⟨_, hmem, rfl⟩), h.2.2 coll (List.mem_map.2 ⟨_, hmem, rfl⟩)⟩

/-- What passes the check is work on a collection of the schema. -/
theorem Operation.work_of_check {schema : Schema} {op : Operation} {task : Task}
    (h : op.check schema = .ok task) :
    ∃ coll work, schema.collection? op.collection = some coll ∧ op.checkWork coll = .ok work ∧
      task = ⟨op.collection, coll, work⟩ := by
  unfold check at h
  cases hcoll : schema.collection? op.collection with
  | none =>
    rw [hcoll] at h
    cases h
  | some coll =>
    rw [hcoll] at h
    obtain ⟨work, hwork, rfl⟩ := exists_of_map_eq_ok h
    exact ⟨coll, work, rfl, hwork, rfl⟩

/-- What passes the check fits the schema. -/
theorem Operation.fits_of_check {schema : Schema} (hschema : schema.WellFormed) {op : Operation}
    {task : Task} (h : op.check schema = .ok task) : task.Fits schema := by
  obtain ⟨coll, work, hcoll, hwork, rfl⟩ := work_of_check h
  refine ⟨hcoll, ?_⟩
  cases op with
  | create collection attrs => exact fits_of_checkCreate hwork
  | update collection id attrs => exact fits_of_checkUpdate hwork
  | find collection attrs => exact fits_of_checkFind (hschema.collection hcoll).2 (.inl rfl) hwork
  | findAll collection attrs => exact fits_of_checkFind (hschema.collection hcoll).2 (.inr rfl) hwork
  | delete | get | «exists» | list | size =>
    cases hwork
    trivial

end DocStore
