import DocStore.Proofs.Operation.Blocks
import DocStore.Proofs.Operation.OneByOne
import DocStore.Proofs.Schema.Reader
import DocStore.Proofs.Script.Unambiguous

/-!
Scripts of operations are determined by their texts.

Everything that operations are compiled to can be read back from its text, since an index has at least one
field: a composite value has a part, and a condition on the fields has an operand. So two scripts with one
text are the same script, for whatever schemas, namespaces and operations they were built, and a digest
never stands for two scripts unless their texts collide (`Build.program_eq_of_text_eq`).
-/

namespace DocStore

open DocStore.Script

namespace Index

variable {index : Index} {key map name : String} {id : Expr}

/-- The names of variables in scripts of operations. -/
theorem isName_variable {name : String} (h : name ∈ ["comp", "conflicts", "holder", "id", "ids", "ikey", "key",
    "last", "new", "old", "probe", "rec", "ret"]) : IsName name := by
  revert name
  decide

theorem tidyAll_delimited {es : List Expr} (h : ∀ e ∈ es, e.Tidy) : Expr.TidyAll (delimited es) := by
  fun_induction delimited es with
  | case1 => trivial
  | case2 part => exact ⟨h part List.mem_cons_self, trivial⟩
  | case3 part next rest ih =>
    exact ⟨h part List.mem_cons_self, trivial, ih fun e he => h e (List.mem_cons_of_mem _ he)⟩

theorem tidy_composite (hfields : index.fields ≠ []) (hmap : IsName map) : (index.composite map).Tidy := by
  constructor
  · cases hlist : index.fields with
    | nil => exact absurd hlist hfields
    | cons field rest => cases rest <;> simp [delimited]
  · apply tidyAll_delimited
    intro e he
    obtain ⟨field, -, rfl⟩ := List.mem_map.1 he
    unfold part
    split <;> exact hmap

theorem tidy_every {conditions : List Expr} (hne : conditions ≠ []) (h : ∀ e ∈ conditions, e.Tidy) :
    (every conditions).Tidy := by
  unfold every
  split
  · exact h _ List.mem_cons_self
  · rename_i hmany
    refine ⟨?_, Expr.tidyAll_iff.2 h⟩
    match conditions, hne, hmany with
    | [condition], _, hmany => exact absurd rfl (hmany condition)
    | _ :: _ :: _, _, _ => simp

theorem tidy_nonNull (hmap : IsName map) : ∀ e ∈ index.nonNull map, e.Tidy := by
  intro e he
  obtain ⟨field, -, rfl⟩ := List.mem_map.1 he
  exact ⟨hmap, trivial⟩

theorem nonNull_ne_nil (hfields : index.fields ≠ []) : index.nonNull map ≠ [] := by
  simpa [nonNull] using hfields

theorem tidyAll_declareKeys (hfields : index.fields ≠ []) (key : String) (hmap : IsName map) :
    Stmt.TidyAll (index.declareKeys key map) := by
  simp [declareKeys, tidy_composite hfields hmap, isName_variable]

theorem tidy_holder : holder.Tidy := by
  simp [holder, isName_variable]

theorem tidy_holders : holders.Tidy := by
  simp [holders, isName_variable]

theorem tidy_checkUnique (hfields : index.fields ≠ []) (name key : String) (hmap : IsName map)
    {own : Option Expr} (hown : ∀ id ∈ own, id.Tidy) : (index.checkUnique name key map own).Tidy := by
  have hevery : ∀ other : List Expr, (∀ e ∈ other, e.Tidy) →
      (every (index.nonNull map ++ [.var "holder"] ++ other)).Tidy := by
    intro other hother
    apply tidy_every
    · simp
    · intro e he
      simp only [List.mem_append, List.mem_singleton] at he
      rcases he with (hnull | rfl) | hmore
      · exact tidy_nonNull hmap e hnull
      · exact isName_variable (by simp)
      · exact hother e hmore
  apply Stmt.tidyAll_append.2
  constructor
  · exact tidyAll_declareKeys hfields key hmap
  · simp only [Stmt.when, Stmt.TidyAll, Stmt.Tidy, tidy_holder, isName_variable, List.mem_cons, and_true,
      true_and, or_true, true_or, Expr.Tidy]
    apply hevery
    cases own with
    | none => simp
    | some id =>
      intro e he
      rw [List.mem_singleton.1 he]
      exact ⟨isName_variable (by simp), hown id rfl⟩

theorem tidy_addEntry (hfields : index.fields ≠ []) (key : String) (hmap : IsName map) (hid : id.Tidy) :
    (index.addEntry key map id).Tidy := by
  have hevery := tidy_every (nonNull_ne_nil hfields) (tidy_nonNull hmap)
  unfold addEntry
  split
  · apply Stmt.tidyAll_append.2
    exact ⟨tidyAll_declareKeys hfields key hmap, by simp [Stmt.when, hevery, hid, isName_variable]⟩
  · apply Stmt.tidyAll_append.2
    exact ⟨tidyAll_declareKeys hfields key hmap, by simp [tidy_holder, tidy_holders, hid, isName_variable]⟩

theorem tidy_removeEntry (hfields : index.fields ≠ []) (key : String) (hmap : IsName map) (hid : id.Tidy) :
    (index.removeEntry key map id).Tidy := by
  unfold removeEntry
  split
  · apply Stmt.tidyAll_append.2
    exact ⟨tidyAll_declareKeys hfields key hmap, by simp [Stmt.when, tidy_holder, hid, isName_variable]⟩
  · apply Stmt.tidyAll_append.2
    exact ⟨tidyAll_declareKeys hfields key hmap,
      by simp [Stmt.when, tidy_holder, tidy_holders, hid, isName_variable]⟩

theorem tidyAll_search (hfields : index.fields ≠ []) (key : String) (hmap : IsName map) :
    Stmt.TidyAll (index.search key map) := by
  apply Stmt.tidyAll_append.2
  exact ⟨tidyAll_declareKeys hfields key hmap, by simp [tidy_holder, tidy_holders, isName_variable]⟩

end Index

namespace Operation

open Index

variable {ns : String} {coll : Collection} {collection map : String} {firstParam : Nat}
  {indices : List (String × Index)} {own : Expr}

theorem tidyAll_setFields (hmap : IsName map) (param : Nat) (encoded : List (String × String)) :
    Stmt.TidyAll (setFields map param encoded) := by
  induction encoded generalizing param with
  | nil => trivial
  | cons entry rest ih => exact ⟨⟨hmap, trivial⟩, ih (param + 1)⟩

theorem tidyAll_fieldArgs (hmap : IsName map) (encoded : List (String × String)) :
    Expr.TidyAll (fieldArgs map encoded) := by
  induction encoded with
  | nil => trivial
  | cons entry rest ih => exact ⟨trivial, hmap, ih⟩

theorem tidyAll_uniqueChecks (hmap : IsName map) {own : Option Expr} (hown : ∀ id ∈ own, id.Tidy)
    (h : ∀ entry ∈ indices, entry.2.fields ≠ []) :
    Stmt.TidyAll (uniqueChecks ns collection map own indices) := by
  apply Stmt.tidyAll_iff.2
  intro statement hstatement
  obtain ⟨entry, hentry, rfl⟩ := List.mem_map.1 hstatement
  exact tidy_checkUnique (h entry (List.mem_filter.1 hentry).1) _ _ hmap hown

theorem tidyAll_addEntries (hmap : IsName map) (hown : own.Tidy) (h : ∀ entry ∈ indices, entry.2.fields ≠ []) :
    Stmt.TidyAll (addEntries ns collection map own indices) := by
  apply Stmt.tidyAll_iff.2
  intro statement hstatement
  obtain ⟨entry, hentry, rfl⟩ := List.mem_map.1 hstatement
  exact tidy_addEntry (h entry hentry) _ hmap hown

theorem tidyAll_removeEntries (hmap : IsName map) (hown : own.Tidy)
    (h : ∀ entry ∈ indices, entry.2.fields ≠ []) :
    Stmt.TidyAll (removeEntries ns collection map own indices) := by
  apply Stmt.tidyAll_iff.2
  intro statement hstatement
  obtain ⟨entry, hentry, rfl⟩ := List.mem_map.1 hstatement
  exact tidy_removeEntry (h entry hentry) _ hmap hown

section Fields

variable (hfields : ∀ entry ∈ coll.indices.entries, entry.2.fields ≠ [])
include hfields

theorem tidyAll_createBody (row : List (String × String)) :
    Stmt.TidyAll (createBody coll ns collection firstParam row) := by
  have hrec : IsName "rec" := by decide
  have hid : (Expr.var "id").Tidy := isName_variable (by simp)
  have hnone : ∀ id ∈ (none : Option Expr), id.Tidy := by simp
  simp [createBody, Stmt.tidyAll_append, tidyAll_setFields hrec, tidyAll_fieldArgs hrec,
    tidyAll_uniqueChecks hrec hnone hfields, tidyAll_addEntries hrec hid hfields, rejectConflicts, reject,
    succeed, answer, Stmt.when, recordKeyExpr, isName_variable]

theorem tidyAll_updateBody (changes : List (String × String)) :
    Stmt.TidyAll (updateBody coll ns collection firstParam changes) := by
  have hnew : IsName "new" := by decide
  have hold : IsName "old" := by decide
  have hown : (Expr.param firstParam).Tidy := trivial
  have hsome : ∀ id ∈ some (Expr.param firstParam), id.Tidy := by
    intro id hid
    cases hid
    exact hown
  have htouched : ∀ entry ∈ touchedBy coll changes, entry.2.fields ≠ [] := by
    intro entry hentry
    exact hfields entry (List.mem_filter.1 hentry).1
  simp [updateBody, Stmt.tidyAll_append, tidyAll_setFields hnew, tidyAll_fieldArgs hnew,
    tidyAll_uniqueChecks hnew hsome htouched, tidyAll_addEntries hnew hown htouched,
    tidyAll_removeEntries hold hown htouched, rejectIfMissing, rejectConflicts, storedRecord, reject,
    succeed, answer, Stmt.when, recordKeyExpr, isName_variable]

theorem tidyAll_deleteFragment (id : Int) :
    Stmt.TidyAll (deleteFragment coll ns collection firstParam id).body := by
  have hold : IsName "old" := by decide
  have hown : (Expr.param firstParam).Tidy := trivial
  simp [deleteFragment, Stmt.tidyAll_append, tidyAll_removeEntries hold hown hfields, rejectIfMissing,
    storedRecord, reject, succeed, answer, Stmt.when, recordKeyExpr, isName_variable]

end Fields

theorem tidyAll_findBody {index : Index} (hindex : index.fields ≠ []) (method : Method)
    (probe : List (String × String)) : Stmt.TidyAll (findBody ns collection firstParam method index probe) := by
  have hprobe : IsName "probe" := by decide
  simp [findBody, Stmt.tidyAll_append, tidyAll_setFields hprobe, tidyAll_search hindex _ hprobe, succeed, answer,
    isName_variable]

end Operation

/-- What a task is compiled to can be read back from its text. -/
theorem Task.tidyAll_fragment {ns : String} {task : Task} {firstParam : Nat}
    (hfields : ∀ entry ∈ task.fields.indices.entries, entry.2.fields ≠ []) (hfits : task.work.Fits task.fields) :
    Stmt.TidyAll (task.fragment ns firstParam).body := by
  obtain ⟨collection, coll, work⟩ := task
  cases work with
  | create row => exact Operation.tidyAll_createBody hfields row
  | update id changes => exact Operation.tidyAll_updateBody hfields changes
  | delete id => exact Operation.tidyAll_deleteFragment hfields id
  | get id =>
    simp [fragment, Operation.getFragment, Operation.rejectIfMissing, Operation.reject, Operation.succeed,
      Operation.answer, Stmt.when, Operation.recordKeyExpr, Index.isName_variable]
  | «exists» id =>
    simp [fragment, Operation.existsFragment, Operation.succeed, Operation.answer, Stmt.when,
      Operation.recordKeyExpr, Index.isName_variable]
  | list => simp [fragment, Operation.listFragment, Operation.succeed, Operation.answer, Index.isName_variable]
  | size => simp [fragment, Operation.sizeFragment, Operation.succeed, Operation.answer, Index.isName_variable]
  | find method index probe =>
    obtain ⟨-, ⟨name, hindex⟩, -⟩ := hfits
    exact Operation.tidyAll_findBody (hfields _ hindex) method probe

/-- What an operation is compiled to can be read back from its text. -/
theorem Operation.tidyAll_compile {ns : String} {schema : Schema} {op : Operation} {firstParam : Nat}
    {fragment : Fragment} (hschema : schema.WellFormed)
    (h : op.compile ns schema firstParam = .ok fragment) : Stmt.TidyAll fragment.body := by
  obtain ⟨task, htask, rfl⟩ := exists_task_of_compile h
  have hfits := fits_of_check hschema htask
  obtain ⟨-, -, -, hindices, -⟩ := (hschema.collection hfits.collection).2
  apply Task.tidyAll_fragment _ hfits.work
  intro entry hentry
  exact (hindices entry.2 (List.mem_map_of_mem hentry)).1

namespace Build

variable {ns other : String} {schema otherSchema : Schema} {ops otherOps : List Operation}

/-- The script of operations can be read back from its text. -/
theorem tidy_script (hschema : schema.WellFormed) (ops : List Operation) :
    (ofList ns schema ops).script.Tidy := by
  have hbody : Stmt.TidyAll (ofList ns schema ops).body := by
    apply Stmt.tidyAll_iff.2
    intro s hs
    obtain ⟨op, fragment, before, after, hcompile, rfl, -⟩ := isBlock_ofList s hs
    exact Operation.tidyAll_compile hschema hcompile
  constructor
  · apply Stmt.tidyAll_append.2
    constructor
    · exact ⟨by simp [Operation.answer, Index.isName_variable], hbody⟩
    · simp [Index.isName_variable]
  · exact ⟨_, _, _, rfl⟩

theorem tidy_program? {program : Program} (hschema : schema.WellFormed)
    (h : (ofList ns schema ops).program? = some program) : program.Tidy := by
  unfold program? at h
  split at h
  · cases h
    exact tidy_script hschema ops
  · cases h

/-- Two scripts with the same text are the same script, and two with the same digest are the same unless
their texts collide under the digest. -/
theorem program_eq_of_text_eq {json otherJson : Json} {program otherProgram : Program}
    (hschema : Schema.ofJson json = .ok schema) (hother : Schema.ofJson otherJson = .ok otherSchema)
    (hbuild : (ofList ns schema ops).program? = some program)
    (hotherBuild : (ofList other otherSchema otherOps).program? = some otherProgram) :
    (program.text = otherProgram.text → program = otherProgram) ∧
      (program.compiled.digest = otherProgram.compiled.digest → program = otherProgram ∨
        program.text ≠ otherProgram.text ∧ Digest.ofText program.text = Digest.ofText otherProgram.text) := by
  have hsame : program.text = otherProgram.text → program = otherProgram :=
    Program.eq_of_text_eq (tidy_program? (Schema.wellFormed_of_ofJson hschema) hbuild)
      (tidy_program? (Schema.wellFormed_of_ofJson hother) hotherBuild)
  constructor
  · exact hsame
  · intro hdigest
    by_cases htext : program.text = otherProgram.text
    · exact .inl (hsame htext)
    · exact .inr ⟨htext, hdigest⟩

/-- A script that adds one person and a script that adds two have different texts. -/
theorem text_ne_addAda : ∃ program otherProgram,
    (ofList "p" people [addAda]).program? = some program ∧
      (ofList "p" people [addAda, addAda]).program? = some otherProgram ∧
        program.text ≠ otherProgram.text := by
  have hone : (ofList "p" people [addAda]).program? = some (ofList "p" people [addAda]).script := rfl
  have htwo : (ofList "p" people [addAda, addAda]).program? =
      some (ofList "p" people [addAda, addAda]).script := rfl
  refine ⟨_, _, hone, htwo, fun htext => ?_⟩
  have hsame := (program_eq_of_text_eq people_ofJson people_ofJson hone htwo).1 htext
  have hjournal := congrArg Program.journal hsame
  exact absurd hjournal (by decide)

end Build

end DocStore
