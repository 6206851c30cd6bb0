import DocStore.Proofs.Operation.Runs

/-!
The keyspaces that operations can reach.

They start where the namespace has nothing but a schema in it, and go on by scripts of any operations that
the schema allows, as long as no counter runs over the limit of 64 bits. What others do outside the namespace
does not matter, and neither does what is done to the keys of the schema itself. Every keyspace that is
reached lays out some documents.
-/

namespace DocStore

open DocStore.Script DocStore.Layout

/-- No counter of the schema runs over its limit in the course of the script: every id that is drawn from one is
above zero. -/
def CountersFit (ns : String) (schema : Schema) (program : Program) (params : List String) (space : Keyspace) :
    Prop :=
  ∀ name coll, schema.collection? name = some coll →
    ∀ id ∈ program.draws (nextIdKey ns name) params space, 0 < id

/-- What operations under a schema can reach from a namespace with nothing but a schema in it. -/
inductive Reachable (ns : String) (schema : Schema) : Keyspace → Prop
  | start {space : Keyspace} : Fresh ns space → Reachable ns schema space
  /-- What happens outside of the collections. -/
  | aside {space after : Keyspace} : Reachable ns schema space →
      (∀ key, Under ns key → ¬SchemaKey ns key → after.find? key = space.find? key) →
      Reachable ns schema after
  | run {space : Keyspace} {ops : List Operation} {program : Program} {params : List String} :
      Reachable ns schema space →
      (Build.ofList ns schema ops).finish = .ok (some (program, params)) →
      CountersFit ns schema program params space →
      Reachable ns schema (program.run params space).2

variable {ns : String} {schema : Schema} {library : Library} {space : Keyspace}

/-- What is done outside of the collections leaves the layout alone. -/
theorem Canonical.aside (h : Canonical ns schema library space) (hschema : schema.WellFormed)
    {after : Keyspace}
    (hkeep : ∀ key, Under ns key → ¬SchemaKey ns key → after.find? key = space.find? key) :
    Canonical ns schema library after where
  keeps := by
    intro name coll hcoll
    obtain ⟨hname, hwell⟩ := hschema.collection hcoll
    exact (h.keeps name coll hcoll).congr hwell fun place hlegal =>
      hkeep _ (under_key ns _) (place_not_schema hname hlegal)
  only := by
    intro key hunder hfound
    by_cases hkey : SchemaKey ns key
    · exact .inl hkey
    · rw [hkeep key hunder hkey] at hfound
      exact h.only key hunder hfound

/-- What the schema allows is built as the script of its tasks. -/
theorem Build.finish_of_checkAll {ops : List Operation} {tasks : List Task}
    (h : Operation.checkAll schema ops = .ok tasks) (hne : tasks ≠ []) :
    (ofList ns schema ops).finish = .ok (some (Task.script ns tasks)) := by
  rw [finish_ofList, h]
  cases tasks with
  | nil => exact absurd rfl hne
  | cons task rest => rfl

/-- A built script is that of the tasks that its operations are checked to be. -/
theorem Build.tasks_of_finish {ops : List Operation} {program : Program} {params : List String}
    (h : (ofList ns schema ops).finish = .ok (some (program, params))) :
    ∃ tasks, Operation.checkAll schema ops = .ok tasks ∧ tasks ≠ [] ∧
      program = (Task.script ns tasks).1 ∧ params = (Task.script ns tasks).2 := by
  rw [finish_ofList] at h
  cases htasks : Operation.checkAll schema ops with
  | error e =>
    rw [htasks] at h
    cases h
  | ok tasks =>
    rw [htasks] at h
    cases tasks with
    | nil => cases h
    | cons task rest =>
      cases h
      exact ⟨task :: rest, rfl, by simp, rfl, rfl⟩

/-- A script in which no counter runs over draws from no counter at its limit. -/
theorem Task.canDraw_of_countersFit (hschema : schema.WellFormed) {tasks : List Task}
    (hfits : ∀ task ∈ tasks, task.Fits schema) (hsound : library.Sound schema)
    (hcanonical : Canonical ns schema library space) (hrange : library.InRange schema)
    (hcounters : CountersFit ns schema (script ns tasks).1 (script ns tasks).2 space) :
    library.CanDraw tasks := by
  by_contra hdraw
  obtain ⟨name, coll, hcoll, hleast⟩ := exists_draws_over hschema hfits hsound hcanonical hrange hdraw
  exact absurd (hcounters name coll hcoll _ hleast) (by decide)

/-- A keyspace that operations reach lays out documents, with counters in range, that have every property
which allowed operations keep up and which does not mind a counter that has gone on. -/
theorem Reachable.every (h : Reachable ns schema space) (hschema : schema.WellFormed)
    {P : Collection → Documents → Prop} (hempty : ∀ coll, P coll {})
    (hkeep : ∀ (op : Operation) (task : Task), op.check schema = .ok task → task.Maintains P)
    (hdrawn : ∀ coll docs drawn, P coll docs → docs.drawn ≤ drawn →
      P coll { docs with drawn := drawn }) :
    ∃ library : Library, library.Sound schema ∧ library.InRange schema ∧ library.Every schema P ∧
      Canonical ns schema library space := by
  induction h with
  | start hfresh =>
    refine ⟨Library.empty, fun name coll _ => Documents.sound_empty coll, fun name coll _ => ?_,
      fun name coll _ => hempty coll, .of_fresh hschema hfresh⟩
    exact (by decide : Decimal.InInt64 (0 : Nat))
  | aside _ hkeepKeys ih =>
    obtain ⟨library, hsound, hrange, hevery, hcanonical⟩ := ih
    exact ⟨library, hsound, hrange, hevery, hcanonical.aside hschema hkeepKeys⟩
  | run _ hbuild hcounters ih =>
    obtain ⟨library, hsound, hrange, hevery, hcanonical⟩ := ih
    obtain ⟨tasks, hcheck, -, rfl, rfl⟩ := Build.tasks_of_finish hbuild
    have hfits := (Operation.fits_of_checkAll hschema hcheck).2
    have hdraw := Task.canDraw_of_countersFit hschema hfits hsound hcanonical hrange hcounters
    obtain ⟨after, hrun, hafter, -⟩ := Task.run_script hschema hfits hsound hcanonical hdraw
    rw [hrun]
    refine ⟨_, Library.sound_batch hsound hfits, hrange.batch hdraw, ?_, hafter⟩
    refine hevery.batch hfits (fun task htask => ?_) hdrawn
    obtain ⟨op, -, hop⟩ := Operation.exists_check hcheck htask
    exact hkeep op task hop

/-- A keyspace that operations reach lays out sound documents, with counters in range. -/
theorem Reachable.canonical (h : Reachable ns schema space) (hschema : schema.WellFormed) :
    ∃ library : Library, library.Sound schema ∧ library.InRange schema ∧ Canonical ns schema library space := by
  obtain ⟨library, hsound, hrange, -, hcanonical⟩ := h.every hschema (P := fun _ _ => True)
    (fun _ => trivial) (fun _ _ _ _ _ => trivial) fun _ _ _ _ _ => trivial
  exact ⟨library, hsound, hrange, hcanonical⟩

end DocStore
