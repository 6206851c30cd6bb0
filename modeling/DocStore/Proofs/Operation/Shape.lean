import DocStore.Proofs.Operation.Blocks
import DocStore.Proofs.Operation.Inspection
import DocStore.Proofs.Operation.OneByOne
import Mathlib.Data.List.Sort

/-!
Values do not become part of a script.

The script of operations depends on their shape only: which operations on which collections there are, and
which fields are given. Ids and values are its parameters, in the order of the operations, and the script
looks up parameters that it has and no others (`Build.program_eq_of_sameShape`).
-/

namespace DocStore

open DocStore.Script

/-- The operations differ in ids and values at most, and in fields that the schema does not declare where these
are dropped. -/
inductive Operation.SameShape (schema : Schema) : Operation → Operation → Prop
  | create {collection attrs others}
    (h : ∀ coll, schema.collection? collection = some coll → ∀ name, coll.definition.contains name = true →
      attrs.contains name = others.contains name) :
    SameShape schema (.create collection attrs) (.create collection others)
  | update {collection id other attrs others}
    (h : ∀ coll, schema.collection? collection = some coll → ∀ name, coll.definition.contains name = true →
      attrs.contains name = others.contains name) :
    SameShape schema (.update collection id attrs) (.update collection other others)
  | delete {collection id other} : SameShape schema (.delete collection id) (.delete collection other)
  | get {collection id other} : SameShape schema (.get collection id) (.get collection other)
  | exists {collection id other} : SameShape schema (.exists collection id) (.exists collection other)
  | list {collection} : SameShape schema (.list collection) (.list collection)
  | size {collection} : SameShape schema (.size collection) (.size collection)
  | find {collection attrs others} (h : ∀ name, attrs.contains name = others.contains name) :
    SameShape schema (.find collection attrs) (.find collection others)
  | findAll {collection attrs others} (h : ∀ name, attrs.contains name = others.contains name) :
    SameShape schema (.findAll collection attrs) (.findAll collection others)

/-- What an operation hands to its script: ids, and values of fields. -/
inductive Operation.Input where
  | recordId (id : Int)
  | fieldValue (type : FieldType) (value : FieldValue)

/-- The text is the one that the input is handed over as. -/
def Operation.Input.Encodes : Input → String → Prop
  | .recordId id, text => text = Decimal.ofInt id
  | .fieldValue type value, text => type.encode value = .ok text

/-- The values of declared fields, in the order of the fields. -/
def Collection.inputs (coll : Collection) (attrs : List (String × FieldValue)) : List Operation.Input :=
  attrs.filterMap fun entry => (coll.field? entry.1).map fun type => .fieldValue type entry.2

/-- What the operation hands over, in order. -/
def Operation.inputs (schema : Schema) (op : Operation) : List Input :=
  match schema.collection? op.collection with
  | none => []
  | some coll =>
    match op with
    | .create _ attrs | .find _ attrs | .findAll _ attrs => coll.inputs attrs.entries
    | .update _ id attrs => .recordId id :: coll.inputs attrs.entries
    | .delete _ id | .get _ id | .exists _ id => [.recordId id]
    | .list _ | .size _ => []

/-- The work differs in ids and texts at most. -/
inductive Work.SameShape : Work → Work → Prop
  | create {row other} (h : row.map Prod.fst = other.map Prod.fst) : SameShape (.create row) (.create other)
  | update {id otherId changes others} (h : changes.map Prod.fst = others.map Prod.fst) :
    SameShape (.update id changes) (.update otherId others)
  | delete {id other} : SameShape (.delete id) (.delete other)
  | get {id other} : SameShape (.get id) (.get other)
  | exists {id other} : SameShape (.exists id) (.exists other)
  | list : SameShape .list .list
  | size : SameShape .size .size
  | find {method index probe other} (h : probe.map Prod.fst = other.map Prod.fst) :
    SameShape (.find method index probe) (.find method index other)

/-- The tasks are on the same collection, and their work is of one shape. -/
structure Task.SameShape (task other : Task) : Prop where
  collection : task.collection = other.collection
  fields : task.fields = other.fields
  work : task.work.SameShape other.work

namespace Operation

variable {coll : Collection} {method : Method} {encoded others : List (String × String)}

section Bodies

variable (h : encoded.map Prod.fst = others.map Prod.fst)
include h

theorem setFields_congr (map : String) (param : Nat) : setFields map param encoded = setFields map param others := by
  induction encoded generalizing param others with
  | nil =>
    cases others with
    | nil => rfl
    | cons => cases h
  | cons entry rest ih =>
    cases others with
    | nil => cases h
    | cons entry' rest' =>
      obtain ⟨hname, hrest⟩ := List.cons.inj h
      rw [setFields, setFields, show entry.1 = entry'.1 from hname, ih hrest]

theorem fieldArgs_congr (map : String) : fieldArgs map encoded = fieldArgs map others := by
  have hnames : ∀ entries : List (String × String),
      fieldArgs map entries = (entries.map Prod.fst).flatMap fun name => [.str name, .field map name] := by
    intro entries
    rw [List.flatMap_map, fieldArgs]
  rw [hnames, hnames, h]

theorem createBody_congr (ns collection : String) (firstParam : Nat) :
    createBody coll ns collection firstParam encoded = createBody coll ns collection firstParam others := by
  rw [createBody, createBody, setFields_congr h, fieldArgs_congr h]

theorem updateBody_congr (ns collection : String) (firstParam : Nat) :
    updateBody coll ns collection firstParam encoded = updateBody coll ns collection firstParam others := by
  rw [updateBody, updateBody, setFields_congr h, fieldArgs_congr h, touchedBy, touchedBy, h]

theorem findBody_congr (ns collection : String) (firstParam : Nat) (index : Index) :
    findBody ns collection firstParam method index encoded =
      findBody ns collection firstParam method index others := by
  rw [findBody, findBody, setFields_congr h]

end Bodies

end Operation

theorem Work.SameShape.length_params {work other : Work} (h : work.SameShape other) :
    work.params.length = other.params.length := by
  have hlength : ∀ {entries others : List (String × String)}, entries.map Prod.fst = others.map Prod.fst →
      entries.length = others.length := by
    intro entries others hnames
    simpa using congrArg List.length hnames
  cases h with
  | create hnames | update hnames | find hnames => simp [Work.params, hlength hnames]
  | delete | get | «exists» | list | size => rfl

namespace Task

variable {task other : Task} {tasks others : List Task}

/-- Tasks of one shape are written out alike. -/
theorem SameShape.body_eq (h : task.SameShape other) (ns : String) (firstParam : Nat) :
    (task.fragment ns firstParam).body = (other.fragment ns firstParam).body := by
  obtain ⟨collection, coll, work⟩ := task
  obtain ⟨collection', coll', work'⟩ := other
  obtain ⟨hcollection, hfields, hwork⟩ := h
  simp only at hcollection hfields hwork
  subst hcollection
  subst hfields
  cases hwork with
  | create hnames => exact Operation.createBody_congr hnames ns collection firstParam
  | update hnames => exact Operation.updateBody_congr hnames ns collection firstParam
  | find hnames => exact Operation.findBody_congr hnames ns collection firstParam _
  | delete | get | «exists» | list | size => rfl

theorem blocks_congr (h : List.Forall₂ SameShape tasks others) (ns : String) (start : Nat) :
    blocks ns start tasks = blocks ns start others := by
  induction h generalizing start with
  | nil => rfl
  | cons hhead _ ih => rw [blocks, blocks, hhead.body_eq, hhead.work.length_params, ih]

theorem length_params_congr (h : List.Forall₂ SameShape tasks others) :
    (tasks.flatMap fun task => task.work.params).length = (others.flatMap fun task => task.work.params).length := by
  induction h with
  | nil => rfl
  | cons hhead _ ih =>
    rw [List.flatMap_cons, List.flatMap_cons, List.length_append, List.length_append, hhead.work.length_params, ih]

/-- The script of tasks depends on their shape only. -/
theorem script_congr (h : List.Forall₂ SameShape tasks others) (ns : String) :
    (script ns tasks).1 = (script ns others).1 ∧ (script ns tasks).2.length = (script ns others).2.length :=
  ⟨by rw [script, script, blocks_congr h, h.length_eq], length_params_congr h⟩

end Task

namespace Operation

variable {schema : Schema} {coll : Collection} {method : Method}

/-- The fields that are encoded are the declared ones. -/
theorem names_encodeFields {attrs : List (String × FieldValue)} {encoded : List (String × String)}
    (h : encodeFields method coll attrs = .ok encoded) :
    encoded.map Prod.fst = (attrs.map Prod.fst).filter coll.definition.contains := by
  fun_induction encodeFields method coll attrs generalizing encoded with
  | case1 =>
    cases h
    rfl
  | case2 name value rest hnone ih =>
    have hundeclared : coll.definition.contains name = false := by
      rw [SortedMap.contains, show coll.definition.find? name = none from hnone, Option.isSome_none]
    rw [ih h, List.map_cons, List.filter_cons_of_neg (by simp [hundeclared])]
  | case3 => cases h
  | case4 name value rest type hsome text htext ih =>
    have hdeclared : coll.definition.contains name = true := SortedMap.contains_iff.2 ⟨type, hsome⟩
    obtain ⟨others, hothers, rfl⟩ := exists_of_map_eq_ok h
    rw [List.map_cons, List.map_cons, List.filter_cons_of_pos hdeclared, ih hothers]

/-- The texts that values are encoded to are those of the inputs. -/
theorem encodes_encodeFields {attrs : List (String × FieldValue)} {encoded : List (String × String)}
    (h : encodeFields method coll attrs = .ok encoded) :
    List.Forall₂ Input.Encodes (coll.inputs attrs) (encoded.map Prod.snd) := by
  fun_induction encodeFields method coll attrs generalizing encoded with
  | case1 =>
    cases h
    exact .nil
  | case2 name value rest hnone ih =>
    rw [Collection.inputs, List.filterMap_cons_none (by simp [hnone])]
    exact ih h
  | case3 => cases h
  | case4 name value rest type hsome text htext ih =>
    obtain ⟨others, hothers, rfl⟩ := exists_of_map_eq_ok h
    rw [Collection.inputs, List.filterMap_cons_some (by rw [hsome, Option.map_some])]
    exact .cons htext (ih hothers)

/-- Names in ascending order are determined by which they are. -/
theorem filter_keys_congr {attrs others : FieldValues} {p : String → Bool}
    (h : ∀ name, p name = true → attrs.contains name = others.contains name) :
    attrs.keys.filter p = others.keys.filter p := by
  have hascending : ∀ given : FieldValues, (given.keys.filter p).Pairwise (· < ·) := fun given =>
    (List.pairwise_map.2 given.ascending).sublist List.filter_sublist
  have hperm : (attrs.keys.filter p).Perm (others.keys.filter p) := by
    refine (List.perm_ext_iff_of_nodup (attrs.keys_nodup.filter p) (others.keys_nodup.filter p)).2 fun name => ?_
    rw [List.mem_filter, List.mem_filter, SortedMap.mem_keys_iff, SortedMap.mem_keys_iff]
    exact and_congr_left fun hp => by rw [h name hp]
  exact hperm.eq_of_pairwise (fun _ _ _ _ hlt hgt => absurd (String.lt_trans hlt hgt) (String.lt_irrefl _))
    (hascending attrs) (hascending others)

theorem keys_congr {attrs others : FieldValues} (h : ∀ name, attrs.contains name = others.contains name) :
    attrs.keys = others.keys := by
  simpa using @filter_keys_congr attrs others (fun _ => true) fun name _ => h name

/-- Operations of one shape are checked to be tasks of one shape. -/
theorem SameShape.check {op other : Operation} (h : SameShape schema op other) {task otherTask : Task}
    (htask : op.check schema = .ok task) (hother : other.check schema = .ok otherTask) :
    task.SameShape otherTask := by
  obtain ⟨coll, work, hcoll, hwork, rfl⟩ := work_of_check htask
  obtain ⟨coll', work', hcoll', hwork', rfl⟩ := work_of_check hother
  have hcollection : op.collection = other.collection := by cases h <;> rfl
  rw [← hcollection, hcoll] at hcoll'
  cases hcoll'
  refine ⟨hcollection, rfl, ?_⟩
  cases h with
  | create hnames =>
    obtain ⟨row, hrow, -, rfl⟩ := row_of_checkCreate hwork
    obtain ⟨row', hrow', -, rfl⟩ := row_of_checkCreate hwork'
    apply Work.SameShape.create
    rw [names_encodeFields hrow, names_encodeFields hrow']
    exact filter_keys_congr (hnames coll hcoll)
  | update hnames =>
    obtain ⟨changes, hchanges, -, rfl⟩ := changes_of_checkUpdate hwork
    obtain ⟨changes', hchanges', -, rfl⟩ := changes_of_checkUpdate hwork'
    apply Work.SameShape.update
    rw [names_encodeFields hchanges, names_encodeFields hchanges']
    exact filter_keys_congr (hnames coll hcoll)
  | find hnames | findAll hnames =>
    obtain ⟨name, index, probe, hindex, hprobe, rfl⟩ := probe_of_checkFind hwork
    obtain ⟨name', index', probe', hindex', hprobe', rfl⟩ := probe_of_checkFind hwork'
    rw [← keys_congr hnames, hindex] at hindex'
    cases hindex'
    apply Work.SameShape.find
    rw [names_encodeFields hprobe, names_encodeFields hprobe']
    exact filter_keys_congr fun name _ => hnames name
  | delete | get | «exists» | list | size =>
    cases hwork
    cases hwork'
    constructor

/-- Lists of operations of one shape are checked to be lists of tasks of one shape. -/
theorem SameShape.checkAll {ops others : List Operation} (h : List.Forall₂ (SameShape schema) ops others)
    {tasks otherTasks : List Task} (htasks : checkAll schema ops = .ok tasks)
    (hothers : Operation.checkAll schema others = .ok otherTasks) :
    List.Forall₂ Task.SameShape tasks otherTasks := by
  replace htasks := check_of_checkAll htasks
  replace hothers := check_of_checkAll hothers
  induction h generalizing tasks otherTasks with
  | nil =>
    cases htasks
    cases hothers
    exact .nil
  | cons hhead _ ih =>
    cases htasks with
    | cons htask hrest =>
      cases hothers with
      | cons hother hrest' => exact .cons (hhead.check htask hother) (ih hrest hrest')

/-- The parameters of a task are what its operation hands over. -/
theorem encodes_check {op : Operation} {task : Task} (h : op.check schema = .ok task) :
    List.Forall₂ Input.Encodes (op.inputs schema) task.work.params := by
  obtain ⟨coll, work, hcoll, hwork, rfl⟩ := work_of_check h
  rw [inputs, hcoll]
  cases op with
  | create collection attrs =>
    obtain ⟨row, hrow, -, rfl⟩ := row_of_checkCreate hwork
    exact encodes_encodeFields hrow
  | update collection id attrs =>
    obtain ⟨changes, hchanges, -, rfl⟩ := changes_of_checkUpdate hwork
    exact .cons rfl (encodes_encodeFields hchanges)
  | find collection attrs | findAll collection attrs =>
    obtain ⟨name, index, probe, -, hprobe, rfl⟩ := probe_of_checkFind hwork
    exact encodes_encodeFields hprobe
  | delete collection id | get collection id | «exists» collection id =>
    cases hwork
    exact .cons rfl .nil
  | list | size =>
    cases hwork
    exact .nil

end Operation

section Reading

variable {p : Nat → Prop} {ns collection : String}

theorem admits_reading : (Inspection.reading p).Admits ns collection where
  draw := trivial
  ids := fun _ _ _ => trivial
  key := fun _ _ _ => trivial
  indexKey := fun _ _ _ => trivial
  holders := fun _ _ _ => trivial
  created := fun _ _ _ => trivial
  putDraw := trivial
  putIndexKey := fun _ => trivial
  putOther := fun _ _ _ _ _ => trivial

theorem admitsId_reading (id : Expr) : (Inspection.reading p).AdmitsId ns collection id where
  stored := fun _ _ _ => trivial
  putKey := trivial

end Reading

namespace Build

variable {ns : String} {schema : Schema} {ops others : List Operation} {program otherProgram : Program}

/-- A script that is built is that of the tasks that its operations are checked to be. -/
theorem tasks_of_program? (h : (ofList ns schema ops).program? = some program) :
    ∃ tasks, Operation.checkAll schema ops = .ok tasks ∧ program = (Task.script ns tasks).1 ∧
      (ofList ns schema ops).params = (Task.script ns tasks).2 := by
  cases hcheck : Operation.checkAll schema ops with
  | error e =>
    have herror := @addAll_of_rejected ns schema _ _ hcheck {} rfl
    simp [program?, ofList, herror] at h
  | ok tasks =>
    have hall := @addAll_of_ok ns schema _ _ hcheck {} rfl
    simp only [program?, ofList, hall, script] at h
    cases h
    refine ⟨tasks, rfl, ?_, ?_⟩
    · simp [Task.script]
    · rw [ofList, hall]
      simp [Task.script]

/-- The script looks up parameters that it has. -/
theorem passes_reading (h : (ofList ns schema ops).program? = some program) :
    program.Passes (.reading fun number => 1 ≤ number ∧ number ≤ (ofList ns schema ops).params.length) := by
  have hprogram : program = (ofList ns schema ops).script := by
    unfold program? at h
    split at h
    · exact (Option.some.inj h).symm
    · cases h
  rw [hprogram]
  apply (Stmt.passesAll_append _).2
  constructor
  · refine ⟨by simp [Operation.answer, Inspection.reading], (Stmt.passesAll_iff _).2 fun s hs => ?_⟩
    obtain ⟨op, fragment, before, after, hcompile, rfl, hparams⟩ := isBlock_ofList s hs
    obtain ⟨task, -, rfl⟩ := Operation.exists_task_of_compile hcompile
    refine Task.passesAll_fragment admits_reading (fun number hfirst hlast => ?_) fun _ _ _ => admitsId_reading _
    rw [hparams, List.length_append, List.length_append]
    exact ⟨by omega, by omega⟩
  · exact ⟨trivial, trivial⟩

/-- The parameters of a script are what its operations hand over, in order. -/
theorem encodes_params (h : (ofList ns schema ops).program? = some program) :
    List.Forall₂ Operation.Input.Encodes (ops.flatMap (Operation.inputs schema)) (ofList ns schema ops).params := by
  obtain ⟨tasks, hcheck, -, hparams⟩ := tasks_of_program? h
  rw [hparams]
  exact List.rel_flatMap (Operation.check_of_checkAll hcheck) fun _ _ => Operation.encodes_check

/-- Lists of operations of one shape have the same script, and as many parameters: the texts of their ids and
values, in order. The script looks up these parameters and no others. -/
theorem program_eq_of_sameShape (hshape : List.Forall₂ (Operation.SameShape schema) ops others)
    (hbuild : (ofList ns schema ops).program? = some program)
    (hother : (ofList ns schema others).program? = some otherProgram) :
    program = otherProgram ∧
      (ofList ns schema ops).params.length = (ofList ns schema others).params.length ∧
      List.Forall₂ Operation.Input.Encodes (ops.flatMap (Operation.inputs schema)) (ofList ns schema ops).params ∧
      List.Forall₂ Operation.Input.Encodes (others.flatMap (Operation.inputs schema))
        (ofList ns schema others).params ∧
      program.Passes (.reading fun number => 1 ≤ number ∧ number ≤ (ofList ns schema ops).params.length) := by
  obtain ⟨tasks, hcheck, hprogram, hparams⟩ := tasks_of_program? hbuild
  obtain ⟨otherTasks, hotherCheck, hotherProgram, hotherParams⟩ := tasks_of_program? hother
  obtain ⟨hsame, hlength⟩ := Task.script_congr (Operation.SameShape.checkAll hshape hcheck hotherCheck) ns
  refine ⟨?_, ?_, encodes_params hbuild, encodes_params hother, passes_reading hbuild⟩
  · rw [hprogram, hotherProgram, hsame]
  · rw [hparams, hotherParams, hlength]

/-- Adds a person and looks a record up. -/
def addAndGet (attrs : List (String × FieldValue)) (id : Int) : List Operation :=
  [.create "people" (.ofList attrs), .get "people" id]

theorem sameShape_addAndGet : List.Forall₂ (Operation.SameShape people) (addAndGet [("name", .text "Ada")] 1)
    (addAndGet [("name", .text "end -- "), ("nick", .null)] 7) := by
  refine .cons (.create fun coll hcoll name hname => ?_) (.cons .get .nil)
  obtain ⟨-, rfl⟩ := collection?_people hcoll
  have hkey : name ∈ peopleFields.definition.keys := SortedMap.mem_keys_iff.2 hname
  rw [show peopleFields.definition.keys = ["name"] from rfl, List.mem_singleton] at hkey
  subst hkey
  decide

theorem program_eq_addAndGet :
    (ofList "p" people (addAndGet [("name", .text "Ada")] 1)).program? =
      (ofList "p" people (addAndGet [("name", .text "end -- "), ("nick", .null)] 7)).program? ∧
    (ofList "p" people (addAndGet [("name", .text "Ada")] 1)).params = ["Ada", "1"] ∧
    (ofList "p" people (addAndGet [("name", .text "end -- "), ("nick", .null)] 7)).params = ["end -- ", "7"] := by
  have hone : (ofList "p" people (addAndGet [("name", .text "Ada")] 1)).program? =
      some (ofList "p" people (addAndGet [("name", .text "Ada")] 1)).script := rfl
  have htwo : (ofList "p" people (addAndGet [("name", .text "end -- "), ("nick", .null)] 7)).program? =
      some (ofList "p" people (addAndGet [("name", .text "end -- "), ("nick", .null)] 7)).script := rfl
  obtain ⟨hsame, -⟩ := program_eq_of_sameShape sameShape_addAndGet hone htwo
  exact ⟨by rw [hone, htwo, hsame], by with_unfolding_all rfl, by with_unfolding_all rfl⟩

end Build

end DocStore
