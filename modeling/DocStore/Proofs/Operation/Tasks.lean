import DocStore.Proofs.Operation.Reads

/-!
Every operation does its work, and what a script of several operations is made of.

A list of operations is checked up to the first that the schema forbids; if none is, its script is one
block for each task, with the parameters of all of them in one list.
-/

namespace DocStore

open DocStore.Script DocStore.Layout

/-- The parameters of a piece of work, in order. -/
def Work.params : Work → List String
  | .create row => row.map Prod.snd
  | .update id changes => Decimal.ofInt id :: changes.map Prod.snd
  | .delete id | .get id | .exists id => [Decimal.ofInt id]
  | .list | .size => []
  | .find _ _ probe => probe.map Prod.snd

namespace Task

theorem fragment_params (ns : String) (firstParam : Nat) (task : Task) :
    (task.fragment ns firstParam).params = task.work.params := by
  obtain ⟨collection, coll, work⟩ := task
  cases work <;> rfl

section Work

variable {schema : Schema} {task : Task} {ns : String} {docs : Documents} {machine : Machine}
  {params : List String} {start : Nat}

/-- Every operation does its work. -/
theorem performs (hschema : schema.WellFormed) (hfits : task.Fits schema)
    (hsound : docs.Sound task.fields) (hkeeps : Keeps ns task.collection task.fields docs machine.space)
    (hdrawn : task.work.draws = true → Decimal.InInt64 (docs.drawn + 1))
    (hparams : Operation.ParamsAt params start task.work.params) :
    Performs ns task.collection task.fields params (task.fragment ns (start + 1)).body machine
      (task.work.apply task.collection task.fields docs) := by
  obtain ⟨hname, hcoll⟩ := hschema.collection hfits.collection
  have hwork := hfits.work
  obtain ⟨collection, coll, work⟩ := task
  cases work with
  | create row => exact Operation.performs_create hname hcoll hsound hkeeps (hdrawn rfl) hwork hparams
  | update id changes => exact Operation.performs_update hname hcoll hsound hkeeps hwork hparams
  | delete id => exact Operation.performs_delete hname hcoll hsound hkeeps hparams.head
  | get id => exact Operation.performs_get hcoll hsound hkeeps hparams.head
  | «exists» id => exact Operation.performs_exists hkeeps hparams.head
  | list => exact Operation.performs_list hkeeps
  | size => exact Operation.performs_size hkeeps
  | find method index probe => exact Operation.performs_find hsound hkeeps hwork hparams

/-- Whatever draws an id does so first. -/
theorem exists_body_of_draws (hdraws : task.work.draws = true) (ns : String) (firstParam : Nat) :
    ∃ rest, (task.fragment ns firstParam).body =
      .declare "id" (.call .incr [.str (nextIdKey ns task.collection)]) :: rest := by
  obtain ⟨collection, coll, work⟩ := task
  cases work with
  | create row => exact ⟨_, rfl⟩
  | update | delete | get | «exists» | list | size | find => cases hdraws

end Work

/-- The blocks of tasks whose parameters come after `start` others. -/
def blocks (ns : String) (start : Nat) : List Task → List Stmt
  | [] => []
  | task :: rest =>
    .block (task.fragment ns (start + 1)).body :: blocks ns (start + task.work.params.length) rest

/-- The script of tasks, and its parameters. -/
def script (ns : String) (tasks : List Task) : Program × List String :=
  (⟨.declare "ret" (Operation.answer .none noError []) :: blocks ns 0 tasks ++ [.finish (.var "ret")],
    decide (1 < tasks.length)⟩, tasks.flatMap (·.work.params))

end Task

/-- Checks operations up to the first that the schema forbids. -/
def Operation.checkAll (schema : Schema) : List Operation → Except OperationError (List Task)
  | [] => .ok []
  | op :: rest =>
    match op.check schema with
    | .error e => .error e
    | .ok task => (checkAll schema rest).map (task :: ·)

/-- The check of a list passes if that of its first operation does and that of the rest. -/
theorem Operation.exists_of_checkAll_cons {schema : Schema} {op : Operation} {ops : List Operation}
    {tasks : List Task} (h : checkAll schema (op :: ops) = .ok tasks) :
    ∃ task others, op.check schema = .ok task ∧ checkAll schema ops = .ok others ∧ tasks = task :: others := by
  unfold checkAll at h
  split at h
  · cases h
  · rename_i task htask
    obtain ⟨others, hothers, rfl⟩ := exists_of_map_eq_ok h
    exact ⟨task, others, htask, hothers, rfl⟩

/-- The tasks are those that the operations are checked to be, one by one. -/
theorem Operation.check_of_checkAll {schema : Schema} {ops : List Operation} {tasks : List Task}
    (h : checkAll schema ops = .ok tasks) :
    List.Forall₂ (fun op task => op.check schema = .ok task) ops tasks := by
  induction ops generalizing tasks with
  | nil =>
    cases h
    exact .nil
  | cons op rest ih =>
    obtain ⟨task, others, htask, hothers, rfl⟩ := exists_of_checkAll_cons h
    exact .cons htask (ih hothers)

/-- Every task is one that an operation among them is checked to be. -/
theorem Operation.exists_check {schema : Schema} {ops : List Operation} {tasks : List Task}
    (h : checkAll schema ops = .ok tasks) {task : Task} (htask : task ∈ tasks) :
    ∃ op ∈ ops, op.check schema = .ok task := by
  obtain ⟨i, hi, rfl⟩ := List.mem_iff_getElem.1 htask
  have hall := check_of_checkAll h
  have hop : i < ops.length := hall.length_eq ▸ hi
  exact ⟨ops[i], List.getElem_mem hop, (List.forall₂_iff_get.1 hall).2 i hop hi⟩

theorem Operation.fits_of_checkAll {schema : Schema} (hschema : schema.WellFormed) {ops : List Operation}
    {tasks : List Task} (h : checkAll schema ops = .ok tasks) :
    tasks.length = ops.length ∧ ∀ task ∈ tasks, task.Fits schema := by
  refine ⟨(check_of_checkAll h).length_eq.symm, fun task htask => ?_⟩
  obtain ⟨op, -, hop⟩ := exists_check h htask
  exact fits_of_check hschema hop

namespace Build

variable (ns : String) (schema : Schema)

/-- A build without an error adds the block of an operation's task, or takes the error of its check. -/
theorem add_eq {build : Build} (h : build.error = none) (op : Operation) :
    build.add ns schema op = match op.check schema with
      | .error e => { build with error := some e }
      | .ok task =>
        ⟨build.body ++ [.block (task.fragment ns (build.params.length + 1)).body],
          build.params ++ task.work.params, build.count + 1, none⟩ := by
  simp only [add, h, Operation.compile_eq]
  cases op.check schema with
  | error e => rfl
  | ok task => simp only [Except.map, Task.fragment_params]

theorem addAll_of_error {build : Build} {e : OperationError} (h : build.error = some e)
    (ops : List Operation) : build.addAll ns schema ops = build := by
  induction ops with
  | nil => rfl
  | cons op rest ih =>
    have hadd : build.add ns schema op = build := by simp [add, h]
    rw [addAll, List.foldl_cons, hadd]
    exact ih

/-- Operations that all pass the check are added as one block each. -/
theorem addAll_of_ok {ops : List Operation} {tasks : List Task}
    (h : Operation.checkAll schema ops = .ok tasks) {build : Build} (hbuild : build.error = none) :
    build.addAll ns schema ops =
      ⟨build.body ++ Task.blocks ns build.params.length tasks,
        build.params ++ tasks.flatMap (·.work.params), build.count + tasks.length, none⟩ := by
  induction ops generalizing build tasks with
  | nil =>
    cases h
    obtain ⟨body, params, count, error⟩ := build
    cases hbuild
    simp [addAll, Task.blocks]
  | cons op rest ih =>
    obtain ⟨task, others, htask, hothers, rfl⟩ := Operation.exists_of_checkAll_cons h
    rw [addAll, List.foldl_cons, add_eq ns schema hbuild, htask]
    refine (ih hothers rfl).trans ?_
    simp [Task.blocks, Nat.add_assoc, Nat.add_comm 1]

theorem addAll_of_rejected {ops : List Operation} {e : OperationError}
    (h : Operation.checkAll schema ops = .error e) {build : Build} (hbuild : build.error = none) :
    (build.addAll ns schema ops).error = some e := by
  induction ops generalizing build with
  | nil => cases h
  | cons op rest ih =>
    unfold Operation.checkAll at h
    rw [addAll, List.foldl_cons, add_eq ns schema hbuild]
    cases htask : op.check schema with
    | error e' =>
      rw [htask] at h
      cases h
      exact congrArg Build.error (addAll_of_error ns schema rfl rest)
    | ok task =>
      rw [htask] at h
      refine ih ?_ rfl
      cases hrest : Operation.checkAll schema rest with
      | error e' =>
        rw [hrest] at h
        cases h
        rfl
      | ok others =>
        rw [hrest] at h
        cases h

/-- Building a list of operations is checking them, and writing out the tasks if there are any. -/
theorem finish_ofList (ops : List Operation) :
    (ofList ns schema ops).finish = (Operation.checkAll schema ops).map fun tasks =>
      if tasks.isEmpty then none else some (Task.script ns tasks) := by
  cases h : Operation.checkAll schema ops with
  | error e =>
    have herror := (@addAll_of_rejected ns schema _ _ h {}) rfl
    simp only [finish, ofList, herror]
    rfl
  | ok tasks =>
    have hall := (@addAll_of_ok ns schema _ _ h {}) rfl
    simp only [finish, ofList, hall, Except.map, isEmpty]
    cases tasks with
    | nil => rfl
    | cons task rest => simp [script, Task.script]

end Build

end DocStore
