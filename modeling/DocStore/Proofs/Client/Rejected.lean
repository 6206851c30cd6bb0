import DocStore.Proofs.Client.Calls
import DocStore.Proofs.Store.Interference

/-!
What the schema forbids is found before anything is sent.

Whether an operation is forbidden depends on the operation alone, so a list of operations has the error of the
first that has one by itself, and is otherwise built from those before it. A handle that has found the schema
answers such a list at once. Up to there it has read texts and has neither loaded nor run a script, whoever
answers it (`Client.rejected_unsent`).
-/

namespace DocStore

open DocStore.Store DocStore.Client DocStore.Session

namespace Build

variable (ns : String) (schema : Schema)

theorem error_alone (op : Operation) :
    (ofList ns schema [op]).error = match op.check schema with
      | .error e => some e
      | .ok _ => none := by
  rw [ofList, addAll, List.foldl_cons, List.foldl_nil, add_eq ns schema rfl]
  cases op.check schema <;> rfl

/-- A list of operations has the first error that one of them has alone, and is built from those before. -/
theorem addAll_eq {build : Build} (h : build.error = none) (ops : List Operation) :
    build.addAll ns schema ops =
      { build.addAll ns schema (ops.takeWhile fun op => (ofList ns schema [op]).error.isNone) with
        error := ops.findSome? fun op => (ofList ns schema [op]).error } := by
  induction ops generalizing build with
  | nil =>
    obtain ⟨body, params, count, error⟩ := build
    cases h
    rfl
  | cons op rest ih =>
    have halone := error_alone ns schema op
    rw [addAll, List.foldl_cons, add_eq ns schema h]
    cases hcheck : op.check schema with
    | error e =>
      rw [hcheck] at halone
      rw [List.takeWhile_cons_of_neg (by simp [halone]), List.findSome?_cons, halone]
      exact addAll_of_error ns schema rfl rest
    | ok task =>
      rw [hcheck] at halone
      rw [List.takeWhile_cons_of_pos (by simp [halone]), List.findSome?_cons_of_isNone (by simp [halone]),
        addAll, List.foldl_cons, add_eq ns schema h, hcheck]
      exact ih rfl

end Build

namespace Store.Dialog

variable {α β σ : Type} (answer : (step : Step) → σ → step.Answer × σ)

/-- The steps that are asked for until the dialog ends, in order. -/
def steps : Dialog α → σ → List Step
  | .done _, _ => []
  | .ask step next, state => step :: (next (answer step state).1).steps (answer step state).2

theorem steps_bind (first : Dialog α) (next : α → Dialog β) (state : σ) :
    (first.bind next).steps answer state =
      first.steps answer state ++ (next (first.run answer state).1).steps answer (first.run answer state).2 := by
  induction first generalizing state with
  | done result => rfl
  | ask step more ih => exact congrArg (step :: ·) (ih _ _)

/-- On every path of the dialog all steps have the property. -/
def Asks (p : Step → Prop) : Dialog α → Prop
  | .done _ => True
  | .ask step next => p step ∧ ∀ answer, (next answer).Asks p

theorem Asks.steps {p : Step → Prop} {dialog : Dialog α} (h : dialog.Asks p) (state : σ) :
    ∀ step ∈ dialog.steps answer state, p step := by
  induction dialog generalizing state with
  | done result => exact fun step hstep => absurd hstep List.not_mem_nil
  | ask step next ih =>
    intro later hlater
    rcases List.mem_cons.1 hlater with rfl | hlater
    · exact h.1
    · exact ih _ (h.2 _) _ later hlater

/-- Reading texts leaves a store's memory as it is, its scripts included. -/
theorem memory_run {dialog : Dialog α} {station : Station}
    (h : ∀ step ∈ dialog.steps Station.answer station, ∃ key, step = .call (.get key)) :
    (dialog.run Station.answer station).2.store.memory = station.store.memory := by
  induction dialog generalizing station with
  | done result => rfl
  | ask step next ih =>
    obtain ⟨key, rfl⟩ := h step List.mem_cons_self
    refine (ih _ fun later hlater => h later (List.mem_cons_of_mem _ hlater)).trans ?_
    simp only [Station.answer, Rehearsed.answer]
    split
    · rfl
    · simp only [Memory.answer, Memory.execute]
      cases htext : station.store.memory.space.text? key with
      | error e => rw [Keyspace.execute_get_of_error htext]
      | ok found => rw [Keyspace.execute_get htext]

end Store.Dialog

namespace Client

/-- The method that a query names when the schema is not usable. -/
def Query.method : Query → Method
  | .single op => op.method
  | .multi _ => .none

/-- What an action asks for is what its parts do. -/
theorem Act.run_bind_eq {α β : Type} (action : Act α) (next : α → Act β) (known : SchemaState) :
    (action >>= next).run.run known = (action.run.run known).bind fun ended =>
      match ended.1 with
      | .ok value => (next value).run.run ended.2
      | .error failure => .done (.error failure, ended.2) := by
  refine congrArg (Dialog.bind (action.run.run known)) (funext fun ended => ?_)
  obtain ⟨value | failure, later⟩ := ended <;> rfl

namespace Handle

/-- Looking for the schema is reading texts. -/
theorem asks_loadSchema (handle : Handle) (method : Method) (known : SchemaState) :
    ((handle.loadSchema method).run.run known).Asks fun step => ∃ key, step = .call (.get key) := by
  cases known with
  | loaded stored | bad reason => trivial
  | unloaded =>
    refine ⟨⟨_, rfl⟩, fun answer => ?_⟩
    cases answer with
    | error e => trivial
    | ok found =>
      cases found with
      | none => trivial
      | some text =>
        refine ⟨⟨_, rfl⟩, fun answer => ?_⟩
        cases answer with
        | error e => trivial
        | ok revision =>
          dsimp only [Dialog.bind, Except.mapError, pure, ExceptT.bindCont]
          cases StoredSchema.read text revision <;> trivial

/-- A query looks for the schema, and fails then if that forbids one of the operations. -/
theorem ask_eq_bind (handle : Handle) (query : Query) : ∃ next : StoredSchema → Act Outcome,
    handle.ask query = handle.loadSchema query.method >>= next ∧
      ∀ stored e, (Build.ofList handle.ns stored.schema query.ops).finish = .error e →
        next stored = throw (.operation e) := by
  cases query with
  | multi ops =>
    refine ⟨_, rfl, fun stored e h => ?_⟩
    dsimp only [Query.ops] at h
    simp only [h]
  | single op =>
    cases op with
    | create | update | delete | get | «exists» | list | size | find | findAll =>
      simp only [Handle.ask, Handle.single, Handle.create, Handle.update,
          Handle.delete, Handle.get, Handle.exists?, Handle.list, Handle.size, Handle.find, Handle.findAll,
          executeOne, execute, bind_assoc]
      refine ⟨_, rfl, fun stored e h => ?_⟩
      dsimp only [Query.ops] at h
      simp only [h]
      rfl

end Handle

/-- Once the handle has found this schema the query has failed. Until then texts are read, and nothing else is asked
for: no script is loaded or run, and a store holds what it held before. -/
structure Query.Unsent (handle : Handle) (query : Query) (schema : Schema) (failure : Failure) : Prop where
  fails : ∀ {σ : Type} (answer : (step : Step) → σ → step.Answer × σ) {state after : σ} {known later : SchemaState}
    {stored : StoredSchema}, stored.schema = schema →
      ((handle.loadSchema query.method).run.run known).run answer state = ((.ok stored, later), after) →
        ((handle.ask query).run.run known).run answer state = ((.error failure, later), after) ∧
          ∀ step ∈ ((handle.ask query).run.run known).steps answer state, ∃ key, step = .call (.get key)
  memory : ∀ {station after : Station} {known later : SchemaState} {stored : StoredSchema},
    stored.schema = schema → (handle.loadSchema query.method).on known station = ((.ok stored, later), after) →
      ((handle.ask query).on known station).2.store.memory = station.store.memory

/-- A query that the schema forbids is not sent. -/
theorem Query.unsent {handle : Handle} {query : Query} {schema : Schema} {e : OperationError}
    (h : (Build.ofList handle.ns schema query.ops).finish = .error e) :
    query.Unsent handle schema (.operation e) := by
  obtain ⟨next, hask, hnext⟩ := handle.ask_eq_bind query
  have hfails : ∀ {σ : Type} (answer : (step : Step) → σ → step.Answer × σ) {state after : σ}
      {known later : SchemaState} {stored : StoredSchema}, stored.schema = schema →
        ((handle.loadSchema query.method).run.run known).run answer state = ((.ok stored, later), after) →
          ((handle.ask query).run.run known).run answer state = ((.error (.operation e), later), after) ∧
            ∀ step ∈ ((handle.ask query).run.run known).steps answer state, ∃ key, step = .call (.get key) := by
    rintro σ answer state after known later stored rfl hload
    rw [hask, Act.run_bind_eq, Dialog.run_bind, Dialog.steps_bind, hload]
    dsimp only
    rw [hnext stored e h]
    refine ⟨rfl, fun step hstep => ?_⟩
    rcases List.mem_append.1 hstep with hstep | hstep
    · exact (handle.asks_loadSchema query.method known).steps answer state step hstep
    · exact absurd hstep List.not_mem_nil
  exact ⟨hfails, fun hschema hload => Dialog.memory_run (hfails Station.answer hschema hload).2⟩

/-- A list of operations is forbidden if one of them is when it is built alone. Then it has the error of the first
such operation, and is otherwise built from the operations before it; the error is all that comes of the build,
and asking for the operations, one alone or several, loads and runs no script. -/
theorem rejected_unsent (ns : String) (schema : Schema) (ops : List Operation) :
    ((Build.ofList ns schema ops).error.isSome = true ↔
      ∃ op ∈ ops, (Build.ofList ns schema [op]).error.isSome = true) ∧
    Build.ofList ns schema ops =
      { Build.ofList ns schema (ops.takeWhile fun op => (Build.ofList ns schema [op]).error.isNone) with
        error := ops.findSome? fun op => (Build.ofList ns schema [op]).error } ∧
    ∀ e, (Build.ofList ns schema ops).error = some e →
      (Build.ofList ns schema ops).finish = .error e ∧
        ∀ (handle : Handle) (query : Query), handle.ns = ns → query.ops = ops →
          query.Unsent handle schema (.operation e) := by
  have hbuild := @Build.addAll_eq ns schema {} rfl ops
  have herror : (Build.ofList ns schema ops).error = ops.findSome? fun op => (Build.ofList ns schema [op]).error :=
    congrArg Build.error hbuild
  refine ⟨?_, hbuild, fun e he => ?_⟩
  · rw [herror, List.findSome?_isSome_iff]
  · have hfinish : (Build.ofList ns schema ops).finish = .error e := by
      rw [Build.finish, he]
    refine ⟨hfinish, ?_⟩
    rintro handle query rfl rfl
    exact query.unsent hfinish

/-- Three operations, of which the second is on a collection that there is not. -/
def misdirected : List Operation :=
  [addAda, .get "boat" 1, addAda]

theorem rejected_unsent_misdirected :
    (Build.ofList "p" people misdirected).params = ["Ada"] ∧
      ∀ station, (Handle.multi ⟨"p", isValidName_p, true⟩ misdirected).on (.loaded ⟨people, some 1⟩) station =
        ((.error (.operation ⟨.get, .unknownCollection, [], some (.unknownCollection "boat")⟩),
          .loaded ⟨people, some 1⟩), station) := by
  obtain ⟨-, -, hrejected⟩ := rejected_unsent "p" people misdirected
  obtain ⟨-, hunsent⟩ := hrejected ⟨.get, .unknownCollection, [], some (.unknownCollection "boat")⟩ rfl
  refine ⟨by with_unfolding_all rfl, fun station => ?_⟩
  exact ((hunsent ⟨"p", isValidName_p, true⟩ (.multi misdirected) rfl rfl).fails Session.Station.answer rfl rfl).1

end Client

end DocStore
