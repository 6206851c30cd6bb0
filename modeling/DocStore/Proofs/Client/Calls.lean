import DocStore.Proofs.Client.Answers
import DocStore.Proofs.Client.Serving
import DocStore.Proofs.Operation.OneByOne

/-!
The calls of a handle, single ones and batches, and what the model makes of them.

Each single call has a method of its own, which takes its outcome apart; `Handle.single` puts it together
again. `Library.ask` is the model: what the check rejects leaves the documents alone, and the verdict on
anything else is the answer.
-/

namespace DocStore

open DocStore.Store DocStore.Client DocStore.Session DocStore.Script DocStore.Layout

/-- Calls the handle's own method for an operation. -/
def Client.Handle.single (handle : Handle) : Operation → Act Outcome
  | .create collection attrs => do return .created (← handle.create collection attrs)
  | .update collection id attrs => do
    handle.update collection id attrs
    return .updated
  | .delete collection id => do
    handle.delete collection id
    return .deleted
  | .get collection id => do return .record (← handle.get collection id)
  | .exists collection id => do return .exists (← handle.exists? collection id)
  | .list collection => do return .ids (← handle.list collection)
  | .size collection => do return .size (← handle.size collection)
  | .find collection attrs => do return .ids (← handle.find collection attrs)
  | .findAll collection attrs => do return .ids (← handle.findAll collection attrs)

/-- Whether an outcome is of the kind that the operation has. -/
def Operation.expects : Operation → Outcome → Bool
  | .create .., .created _ | .update .., .updated | .delete .., .deleted | .get .., .record _
  | .exists .., .exists _ | .list .., .ids _ | .size .., .size _ | .find .., .ids _
  | .findAll .., .ids _ => true
  | _, _ => false

/-- What a single call takes out of the answer; an outcome of another kind is a fault. -/
def Operation.taken {α : Type} (op : Operation) (read : Outcome → Option α) :
    Except Failure Outcome → Except Failure α
  | .error failure => .error failure
  | .ok outcome =>
    match read outcome with
    | some value => .ok value
    | none => .error (.protocol (.unexpected op.method outcome))

/-- The answer of a single call, whose outcome must be of the kind that the operation has. -/
def Operation.expected (op : Operation) (answer : Except Failure Outcome) : Except Failure Outcome :=
  op.taken (fun outcome => if op.expects outcome then some outcome else none) answer

section Single

variable {handle : Handle} {op : Operation} {known later : SchemaState} {station after : Station}
  {answer : Except Failure Outcome}

theorem Client.Act.on_executeOne {α : Type}
    (h : (handle.execute op.method [op]).on known station = ((answer, later), after))
    (read : Outcome → Option α) :
    (handle.executeOne op read).on known station = ((op.taken read answer, later), after) := by
  rw [Handle.executeOne, Act.on_bind, h]
  cases answer with
  | error failure => rfl
  | ok outcome =>
    simp only [Operation.taken]
    cases read outcome <;> rfl

/-- A single call is a batch of one operation, but for the kind of its outcome. -/
theorem Client.Act.on_single
    (h : (handle.execute op.method [op]).on known station = ((answer, later), after)) :
    (handle.single op).on known station = ((op.expected answer, later), after) := by
  cases op with
  | create | update | delete | get | «exists» | list | size | find | findAll =>
    simp only [Handle.single, Handle.create, Handle.update, Handle.delete, Handle.get, Handle.exists?,
      Handle.list, Handle.size, Handle.find, Handle.findAll, Act.on_bind, on_executeOne h]
    cases answer with
    | error failure => rfl
    | ok outcome => cases outcome <;> rfl

end Single

/-- Whether an outcome is of the kind that the work has. -/
def Work.expects : Work → Outcome → Bool
  | .create _, .created _ | .update .., .updated | .delete _, .deleted | .get _, .record _
  | .exists _, .exists _ | .list, .ids _ | .size, .size _ | .find .., .ids _ => true
  | _, _ => false

theorem Operation.expects_eq {coll : Collection} {op : Operation} {work : Work}
    (h : op.checkWork coll = .ok work) (outcome : Outcome) : op.expects outcome = work.expects outcome := by
  cases op with
  | create collection attrs =>
    obtain ⟨row, -, -, rfl⟩ := row_of_checkCreate h
    cases outcome <;> rfl
  | update collection id attrs =>
    obtain ⟨changes, -, -, rfl⟩ := changes_of_checkUpdate h
    cases outcome <;> rfl
  | find collection attrs | findAll collection attrs =>
    obtain ⟨name, index, probe, -, -, rfl⟩ := probe_of_checkFind h
    cases outcome <;> rfl
  | delete | get | «exists» | list | size =>
    cases h
    cases outcome <;> rfl

theorem Work.expects_answer {schema : Schema} {collection : String} {coll : Collection} {docs : Documents}
    {work : Work} {outcome : Outcome}
    (h : (work.apply collection coll docs).1.answer schema = .ok outcome) : work.expects outcome = true := by
  cases work with
  | create row =>
    simp only [apply, applyCreate] at h
    split at h <;> cases h
    rfl
  | update id changes =>
    simp only [apply, applyUpdate] at h
    split at h
    · cases h
    · split at h <;> cases h
      rfl
  | delete id =>
    simp only [apply] at h
    split at h <;> cases h
    rfl
  | get id =>
    simp only [apply] at h
    split at h
    · cases h
    · simp only [Verdict.answer] at h
      split at h
      · cases h
      · split at h <;> cases h
        rfl
  | «exists» | list | size | find =>
    cases h
    rfl

/-- The answer of an operation that the schema allows is of its kind. -/
theorem Operation.expected_answer {schema : Schema} {op : Operation} {task : Task}
    (h : op.check schema = .ok task) (library : Library) :
    op.expected ((library.perform task).1.answer schema) = (library.perform task).1.answer schema := by
  obtain ⟨coll, work, -, hwork, rfl⟩ := work_of_check h
  cases hanswer : (library.perform ⟨op.collection, coll, work⟩).1.answer schema with
  | error failure => rfl
  | ok outcome =>
    have hexpects : op.expects outcome = true := by
      rw [expects_eq hwork]
      exact Work.expects_answer hanswer
    simp [expected, taken, hexpects]

/-- What is asked of a handle. -/
inductive Client.Query where
  | single (op : Operation)
  | multi (ops : List Operation)

/-- The operations of a query. -/
def Client.Query.ops : Query → List Operation
  | .single op => [op]
  | .multi ops => ops

/-- Asks a handle. -/
def Client.Handle.ask (handle : Handle) : Query → Act Outcome
  | .single op => handle.single op
  | .multi ops => handle.multi ops

/-- The answer to a query, out of the answer of its script. -/
def Client.Query.read : Query → Except Failure Outcome → Except Failure Outcome
  | .single op, answer => op.expected answer
  | .multi _, answer => answer

theorem Client.Query.read_error (query : Query) (failure : Failure) :
    query.read (.error failure) = .error failure := by
  cases query <;> rfl

/-- The answer to a query that the schema allows stays as it is. -/
theorem Client.Query.read_answer {schema : Schema} {query : Query} {tasks : List Task}
    (h : Operation.checkAll schema query.ops = .ok tasks) (library : Library) :
    query.read (answerOf schema (library.batch tasks).1) = answerOf schema (library.batch tasks).1 := by
  cases query with
  | multi ops => rfl
  | single op =>
    obtain ⟨task, others, htask, hothers, rfl⟩ := Operation.exists_of_checkAll_cons h
    cases hothers
    rw [Library.batch_one]
    exact Operation.expected_answer htask library

namespace Library

/-- The answer of a single call, and the documents after it. -/
def call (schema : Schema) (library : Library) (op : Operation) : Except Failure Outcome × Library :=
  match op.check schema with
  | .error e => (.error (.operation e), library)
  | .ok task => ((library.perform task).1.answer schema, (library.perform task).2)

/-- The answer to a query, and the documents after it. -/
def ask (schema : Schema) (library : Library) : Query → Except Failure Outcome × Library
  | .single op => library.call schema op
  | .multi ops =>
    match Operation.checkAll schema ops with
    | .error e => (.error (.operation e), library)
    | .ok tasks => (answerOf schema (library.batch tasks).1, (library.batch tasks).2)

/-- The answers to queries one after another, and the documents after them. -/
def askAll (schema : Schema) (library : Library) :
    List Query → List (Except Failure Outcome) × Library
  | [] => ([], library)
  | query :: rest =>
    let (answer, library) := library.ask schema query
    let (answers, library) := library.askAll schema rest
    (answer :: answers, library)

/-- A query is answered by its tasks, or rejected. -/
theorem ask_eq (schema : Schema) (library : Library) (query : Query) :
    library.ask schema query =
      match Operation.checkAll schema query.ops with
      | .error e => (.error (.operation e), library)
      | .ok tasks => (answerOf schema (library.batch tasks).1, (library.batch tasks).2) := by
  cases query with
  | multi ops => rfl
  | single op =>
    simp only [ask, call, Query.ops, Operation.checkAll]
    cases op.check schema with
    | error e => rfl
    | ok task =>
      simp only [Except.map, batch_one]
      rfl

theorem drawn_le_ask (schema : Schema) (library : Library) (query : Query) (name : String) :
    (library name).drawn ≤ ((library.ask schema query).2 name).drawn := by
  rw [ask_eq]
  cases Operation.checkAll schema query.ops with
  | error e => exact Nat.le_refl _
  | ok tasks =>
    dsimp only
    rw [drawn_batch]
    exact drawn_le_performAll library none tasks name

theorem drawn_le_askAll (schema : Schema) (library : Library) (queries : List Query) (name : String) :
    (library name).drawn ≤ ((library.askAll schema queries).2 name).drawn := by
  induction queries generalizing library with
  | nil => exact Nat.le_refl _
  | cons query rest ih => exact Nat.le_trans (drawn_le_ask schema library query name) (ih _)

end Library

/-- A handle answers as the model does, as long as ids are exact as doubles, and the store serves what
the model has done. -/
theorem Serves.on_ask {programs : Program → Prop} {ns : String} {schema : Schema} {revision : Nat}
    {library : Library} {station : Station} {known : SchemaState} {handle : Handle}
    (h : Serves programs ns schema revision library station.store) (hschema : schema.WellFormed)
    (hrevision : revision ≤ Decimal.maxWord64) (hns : handle.ns = ns)
    (hknown : Aware schema revision known) (hdiffer : DigestsDiffer programs) {query : Query}
    (hprograms : ∀ program params, (Build.ofList ns schema query.ops).finish = .ok (some (program, params)) →
      programs program)
    (hrange : (library.ask schema query).2.InRange schema) :
    ∃ answer later, (handle.ask query).on known station =
        ((answer, .loaded ⟨schema, some revision⟩), later) ∧
      Serves programs ns schema revision (library.ask schema query).2 later.store ∧
      ((library.ask schema query).2.Exact schema → answer = (library.ask schema query).1) := by
  have hmethod : ∃ method, ∀ {answer : Except Failure Outcome} {later : SchemaState} {after : Station},
      (handle.execute method query.ops).on known station = ((answer, later), after) →
        (handle.ask query).on known station = ((query.read answer, later), after) := by
    cases query with
    | single op => exact ⟨op.method, Act.on_single⟩
    | multi ops => exact ⟨.none, id⟩
  obtain ⟨method, hrun⟩ := hmethod
  rw [library.ask_eq] at hrange ⊢
  cases hcheck : Operation.checkAll schema query.ops with
  | error e =>
    obtain ⟨later, hexecute, hserves⟩ :=
      h.on_execute_of_rejected hschema hrevision hns hknown method hcheck
    exact ⟨_, later, hrun hexecute, hserves, fun _ => query.read_error _⟩
  | ok tasks =>
    rw [hcheck] at hrange
    have hfits := (Operation.fits_of_checkAll hschema hcheck).2
    have hdraw : library.CanDraw tasks :=
      (hrange.of_le fun name => Nat.le_of_eq (library.drawn_batch tasks name).symm).canDraw hfits
    obtain ⟨later, hexecute, hserves⟩ := h.on_execute hschema hrevision hns hknown hdiffer method hcheck
      (fun hne => hprograms _ _ (Build.finish_of_checkAll hcheck hne)) hdraw
    refine ⟨_, later, hrun hexecute, hserves, fun hexact => ?_⟩
    rw [Library.readAnswer_batch hfits h.sound hexact]
    exact query.read_answer hcheck library

end DocStore
