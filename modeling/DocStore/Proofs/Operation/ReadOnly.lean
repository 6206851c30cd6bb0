import DocStore.Proofs.Operation.Search
import DocStore.Proofs.Operation.Shape
import DocStore.Proofs.Script.WriteCalls

/-!
Scripts that leave the store as it is.

Lookups, counts and searches are written out without a call that could write, alone and one after another. What
a run may write is bounded by the calls that the text of its script has for it, so that a batch of these
operations changes nothing, however it ends (`Program.writes_le`).
-/

namespace DocStore

open DocStore.Script DocStore.Layout

/-- The operation asks for something. -/
def Operation.readsOnly : Operation → Bool
  | .get .. | .exists .. | .list _ | .size _ | .find .. | .findAll .. => true
  | .create .. | .update .. | .delete .. => false

/-- The work asks for something. -/
def Work.readsOnly : Work → Bool
  | .get _ | .exists _ | .list | .size | .find .. => true
  | .create _ | .update .. | .delete _ => false

/-- An operation that asks for something is checked to be such work. -/
theorem Operation.readsOnly_of_check {schema : Schema} {op : Operation} {task : Task}
    (hcheck : op.check schema = .ok task) (h : op.readsOnly = true) : task.work.readsOnly = true := by
  obtain ⟨coll, work, -, hwork, rfl⟩ := work_of_check hcheck
  cases op with
  | create | update | delete => cases h
  | find collection attrs | findAll collection attrs =>
    obtain ⟨_, _, _, -, -, rfl⟩ := probe_of_checkFind hwork
    rfl
  | get | «exists» | list | size =>
    cases hwork
    rfl

theorem Index.passesAll_readOnly_search (index : Index) (key map : String) :
    Stmt.PassesAll .readOnly (index.search key map) := by
  have hcomposite := @passes_composite .readOnly index map
  simp [search, declareKeys, hcomposite, holder, holders, Command.isWrite]

theorem Operation.passesAll_readOnly_setFields (map : String) (param : Nat) (encoded : List (String × String)) :
    Stmt.PassesAll .readOnly (setFields map param encoded) :=
  passesAll_setFields map fun _ _ _ => trivial

namespace Task

variable {ns : String}

/-- Work that asks for something is written out without a call that could write. -/
theorem passesAll_readOnly_fragment {task : Task} (h : task.work.readsOnly = true) (firstParam : Nat) :
    Stmt.PassesAll .readOnly (task.fragment ns firstParam).body := by
  obtain ⟨collection, coll, work⟩ := task
  cases work with
  | create | update | delete => cases h
  | get id =>
    simp [fragment, Operation.getFragment, Operation.rejectIfMissing, Operation.recordKeyExpr, Operation.reject,
      Operation.succeed, Operation.answer, Stmt.when, Command.isWrite]
  | «exists» id =>
    simp [fragment, Operation.existsFragment, Operation.recordKeyExpr, Operation.succeed, Operation.answer,
      Stmt.when, Command.isWrite]
  | list => simp [fragment, Operation.listFragment, Operation.succeed, Operation.answer, Command.isWrite]
  | size => simp [fragment, Operation.sizeFragment, Operation.succeed, Operation.answer, Command.isWrite]
  | find method index probe =>
    simp [fragment, Operation.findBody, Operation.passesAll_readOnly_setFields, Index.passesAll_readOnly_search,
      Stmt.passesAll_append, Operation.succeed, Operation.answer]

theorem passesAll_readOnly_blocks {tasks : List Task} (h : ∀ task ∈ tasks, task.work.readsOnly = true)
    (start : Nat) : Stmt.PassesAll .readOnly (blocks ns start tasks) := by
  induction tasks generalizing start with
  | nil => trivial
  | cons task rest ih =>
    constructor
    · exact passesAll_readOnly_fragment (h task List.mem_cons_self) _
    · exact ih (fun other hother => h other (List.mem_cons_of_mem _ hother)) _

/-- The script of tasks that ask for something has no call that could write. -/
theorem writeCalls_script {tasks : List Task} (h : ∀ task ∈ tasks, task.work.readsOnly = true) :
    (script ns tasks).1.writeCalls = 0 := by
  have hblocks : Stmt.PassesAll .readOnly (blocks ns 0 tasks) := passesAll_readOnly_blocks h 0
  refine (Program.passes_readOnly_iff _).1 ?_
  simp [script, Program.Passes, Stmt.passesAll_append, hblocks, Operation.answer]

end Task

/-- The script of operations that ask for something has no call that could write. -/
theorem Build.writeCalls_of_readsOnly {ns : String} {schema : Schema} {ops : List Operation} {program : Program}
    (hbuild : (ofList ns schema ops).program? = some program) (h : ∀ op ∈ ops, op.readsOnly = true) :
    program.writeCalls = 0 := by
  obtain ⟨tasks, hcheck, rfl, -⟩ := tasks_of_program? hbuild
  apply Task.writeCalls_script
  intro task htask
  obtain ⟨op, hop, hchecked⟩ := Operation.exists_check hcheck htask
  exact Operation.readsOnly_of_check hchecked (h op hop)

/-- However a run ends, it carries out at most as many writes as its script has calls for. A script without such
calls leaves the keyspace as it is, and scripts of operations that ask for something have none. -/
theorem Script.Program.writes_le (program : Program) (params : List String) (space : Keyspace) :
    (program.execution params space).2.performed.countP (fun entry => entry.1.isWrite) ≤ program.writeCalls ∧
      (program.writeCalls = 0 → (program.run params space).2 = space) ∧
      ∀ ns schema ops, (Build.ofList ns schema ops).program? = some program →
        (∀ op ∈ ops, op.readsOnly = true) → program.writeCalls = 0 := by
  refine ⟨program.countP_performed_le params space, space_run_of_writeCalls params space, ?_⟩
  intro ns schema ops hbuild hreads
  exact Build.writeCalls_of_readsOnly hbuild hreads

/-- The keyspace after a person was added to an empty one. -/
def adaSpace : Keyspace :=
  ((Task.script "p" [addAdaTask]).1.run (Task.script "p" [addAdaTask]).2 ∅).2

/-- Looks a record up, searches for its name and counts. -/
def lookAround : List Operation :=
  [.get "people" 1, .findAll "people" (.ofList [("name", .text "Ada")]), .size "people"]

theorem writes_le_lookAround :
    ((Build.ofList "p" people lookAround).script.run (Build.ofList "p" people lookAround).params adaSpace).2 =
      adaSpace := by
  obtain ⟨-, hkeeps, hreading⟩ := (Build.ofList "p" people lookAround).script.writes_le
    (Build.ofList "p" people lookAround).params adaSpace
  exact hkeeps (hreading "p" people lookAround rfl (by decide))

end DocStore
