import DocStore.Proofs.Documents.Canonical
import DocStore.Proofs.Operation.Tasks
import DocStore.Proofs.Script.Counters

/-!
Scripts of any number of operations do what the model does.

The blocks of a script run one after another on the outermost scope, which holds nothing but the last
answer. The first operation that stops ends the script; in a journaled script that takes back what
was written, in the script of a single operation there is nothing to take back. All that takes counters
that do not run over their limit (`Library.CanDraw`).
-/

namespace DocStore

open DocStore.Script DocStore.Layout

/-- The value that a script answers with after this verdict, or after none. -/
def lastValue : Option Verdict → Value
  | none => .table [.str Method.none.name, .str noError] []
  | some verdict => verdict.value

/-- The task keeps up a property of the documents that it is on. -/
def Task.Maintains (P : Collection → Documents → Prop) (task : Task) : Prop :=
  ∀ docs, P task.fields docs → P task.fields (task.work.apply task.collection task.fields docs).2

namespace Library

variable {library : Library} {schema : Schema}

/-- The counters have not left 64 bits. -/
def InRange (schema : Schema) (library : Library) : Prop :=
  ∀ name coll, schema.collection? name = some coll → Decimal.InInt64 (library name).drawn

theorem InRange.of_le {later : Library} (h : later.InRange schema)
    (hle : ∀ name, (library name).drawn ≤ (later name).drawn) : library.InRange schema := by
  intro name coll hcoll
  have hlater := (h name coll hcoll).2
  have hdrawn := hle name
  exact ⟨by omega, by omega⟩

variable {task : Task} {rest : List Task}

theorem performAll_of_stops (h : (library.perform task).1.stops = true) (last : Option Verdict) :
    library.performAll last (task :: rest) = (some (library.perform task).1, (library.perform task).2) := by
  rw [performAll]
  exact if_pos h

theorem performAll_of_next (h : (library.perform task).1.stops = false) (last : Option Verdict) :
    library.performAll last (task :: rest) =
      (library.perform task).2.performAll (some (library.perform task).1) rest := by
  rw [performAll]
  exact if_neg (Bool.not_eq_true _ ▸ h)

/-- There is nothing to take back of an operation that stops. -/
theorem restore_perform (h : (library.perform task).1.stops = true) :
    (library.perform task).2.restore library = (library.perform task).2 := by
  funext name
  simp only [restore, perform]
  by_cases heq : name = task.collection
  · subst heq
    have hrows := Work.rows_apply_of_stops h
    rw [Function.update_self, ← hrows]
  · rw [Function.update_of_ne heq]

theorem batch_of_stops {last : Option Verdict} {after : Library} {tasks : List Task}
    (h : library.performAll none tasks = (last, after)) (hlast : last.any Verdict.stops = true) :
    library.batch tasks = (last, after.restore library) := by
  cases last with
  | none => cases hlast
  | some verdict =>
    simp only [Option.any_some] at hlast
    simp only [batch, h, hlast, if_true]

theorem batch_of_next {last : Option Verdict} {after : Library} {tasks : List Task}
    (h : library.performAll none tasks = (last, after)) (hlast : last.any Verdict.stops = false) :
    library.batch tasks = (last, after) := by
  cases last with
  | none => simp only [batch, h]
  | some verdict =>
    simp only [Option.any_some] at hlast
    simp [batch, h, hlast]

theorem drawn_perform (library : Library) (task : Task) (name : String) :
    ((library.perform task).2 name).drawn =
      (library name).drawn + if name = task.collection ∧ task.work.draws then 1 else 0 := by
  simp only [perform]
  by_cases h : name = task.collection
  · subst h
    simp [Work.drawn_apply]
  · simp [h]

theorem drawn_le_perform (library : Library) (task : Task) (name : String) :
    (library name).drawn ≤ ((library.perform task).2 name).drawn := by
  rw [drawn_perform]
  exact Nat.le_add_right _ _

theorem drawn_le_performAll (library : Library) (last : Option Verdict) (tasks : List Task)
    (name : String) : (library name).drawn ≤ ((library.performAll last tasks).2 name).drawn := by
  induction tasks generalizing library last with
  | nil => exact Nat.le_refl _
  | cons task rest ih =>
    simp only [performAll]
    split
    · exact drawn_le_perform library task name
    · exact Nat.le_trans (drawn_le_perform library task name) (ih _ _)

/-- No counter is at its limit when the tasks, up to the first that stops, draw from it. -/
def CanDraw (library : Library) : List Task → Prop
  | [] => True
  | task :: rest =>
    (task.work.draws = true → Decimal.InInt64 ((library task.collection).drawn + 1)) ∧
      ((library.perform task).1.stops = false → (library.perform task).2.CanDraw rest)

/-- Counters that are in range at the end were at their limit at no time before. -/
theorem InRange.canDraw {last : Option Verdict} {tasks : List Task}
    (h : (library.performAll last tasks).2.InRange schema) (hfits : ∀ task ∈ tasks, task.Fits schema) :
    library.CanDraw tasks := by
  induction tasks generalizing library last with
  | nil => trivial
  | cons task rest ih =>
    refine ⟨fun hdraws => ?_, fun hstops => ?_⟩
    · have hafter : (library.perform task).2.InRange schema := by
        refine h.of_le fun name => ?_
        cases hstops : (library.perform task).1.stops with
        | true =>
          rw [performAll_of_stops hstops]
        | false =>
          rw [performAll_of_next hstops]
          exact drawn_le_performAll _ _ rest name
      have hdrawn := hafter _ _ (hfits task List.mem_cons_self).collection
      rwa [drawn_perform, if_pos ⟨rfl, hdraws⟩] at hdrawn
    · rw [performAll_of_next hstops] at h
      exact ih h fun other hother => hfits other (List.mem_cons_of_mem _ hother)

/-- A counter that is in range and not at its limit is in range after one more id. -/
theorem InRange.perform (h : library.InRange schema)
    (hdraw : task.work.draws = true → Decimal.InInt64 ((library task.collection).drawn + 1)) :
    (library.perform task).2.InRange schema := by
  intro name coll hcoll
  rw [drawn_perform]
  split
  · rename_i hhere
    rw [hhere.1]
    exact hdraw hhere.2
  · exact h name coll hcoll

/-- Counters stay in range as long as none of them is at its limit when it is drawn from. -/
theorem InRange.performAll (h : library.InRange schema) {tasks : List Task} (hdraw : library.CanDraw tasks)
    (last : Option Verdict) : (library.performAll last tasks).2.InRange schema := by
  induction tasks generalizing library last with
  | nil => exact h
  | cons task rest ih =>
    have hnext := h.perform hdraw.1
    cases hstops : (library.perform task).1.stops with
    | true =>
      rw [performAll_of_stops hstops]
      exact hnext
    | false =>
      rw [performAll_of_next hstops]
      exact ih hnext (hdraw.2 hstops) _

/-- What is taken back leaves the counters where they are. -/
theorem drawn_batch (library : Library) (tasks : List Task) (name : String) :
    ((library.batch tasks).2 name).drawn = ((library.performAll none tasks).2 name).drawn := by
  unfold batch
  split
  · rename_i verdict after heq
    rw [heq]
    dsimp only
    split <;> rfl
  · rename_i after heq
    rw [heq]

theorem InRange.batch (h : library.InRange schema) {tasks : List Task} (hdraw : library.CanDraw tasks) :
    (library.batch tasks).2.InRange schema :=
  (h.performAll hdraw none).of_le fun name => Nat.le_of_eq (drawn_batch library tasks name)

section Every

/-- The documents of every collection have a property. -/
def Every (schema : Schema) (P : Collection → Documents → Prop) (library : Library) : Prop :=
  ∀ name coll, schema.collection? name = some coll → P coll (library name)

variable {P : Collection → Documents → Prop}

theorem Every.perform (h : library.Every schema P)
    (hcoll : schema.collection? task.collection = some task.fields) (hkeep : task.Maintains P) :
    (library.perform task).2.Every schema P := by
  intro name coll hname
  simp only [Library.perform]
  by_cases heq : name = task.collection
  · subst heq
    rw [hcoll] at hname
    cases hname
    rw [Function.update_self]
    exact hkeep _ (h _ _ hcoll)
  · rw [Function.update_of_ne heq]
    exact h name coll hname

theorem Every.performAll (h : library.Every schema P) (last : Option Verdict) {tasks : List Task}
    (hfits : ∀ task ∈ tasks, task.Fits schema) (hkeep : ∀ task ∈ tasks, task.Maintains P) :
    (library.performAll last tasks).2.Every schema P := by
  induction tasks generalizing library last with
  | nil => exact h
  | cons task rest ih =>
    have hnext := h.perform (hfits task List.mem_cons_self).collection (hkeep task List.mem_cons_self)
    simp only [Library.performAll]
    split
    · exact hnext
    · exact ih hnext _ (fun other hother => hfits other (List.mem_cons_of_mem _ hother))
        fun other hother => hkeep other (List.mem_cons_of_mem _ hother)

/-- What tasks keep up, and what does not mind a counter that has gone on, is kept up by all tasks
together. -/
theorem Every.batch (h : library.Every schema P) {tasks : List Task}
    (hfits : ∀ task ∈ tasks, task.Fits schema) (hkeep : ∀ task ∈ tasks, task.Maintains P)
    (hdrawn : ∀ coll docs drawn, P coll docs → docs.drawn ≤ drawn →
      P coll { docs with drawn := drawn }) : (library.batch tasks).2.Every schema P := by
  have hevery := h.performAll none hfits hkeep
  have hle := drawn_le_performAll library none tasks
  unfold Library.batch
  split
  · rename_i verdict after heq
    rw [heq] at hevery hle
    dsimp only
    split
    · exact fun name coll hcoll => hdrawn _ _ _ (h name coll hcoll) (hle name)
    · exact hevery
  · rename_i after heq
    rw [heq] at hevery
    exact hevery

end Every

theorem sound_perform (h : library.Sound schema) {task : Task} (hfits : task.Fits schema) :
    (library.perform task).2.Sound schema :=
  Every.perform h hfits.collection fun _ hdocs => Work.sound_apply _ hdocs hfits.work

/-- Restored documents are sound if those of the start are. -/
theorem sound_restore (h : library.Sound schema) {later : Library}
    (hle : ∀ name, (library name).drawn ≤ (later name).drawn) : (later.restore library).Sound schema :=
  fun name coll hcoll => (h name coll hcoll).withDrawn (hle name)

theorem sound_batch (h : library.Sound schema) {tasks : List Task}
    (hfits : ∀ task ∈ tasks, task.Fits schema) : (library.batch tasks).2.Sound schema :=
  Every.batch h hfits (fun task htask _ hdocs => Work.sound_apply _ hdocs (hfits task htask).work)
    fun _ _ _ hdocs hdrawn => hdocs.withDrawn hdrawn

end Library

namespace Task

variable {ns : String} {schema : Schema} {params : List String}

/-- Between two blocks of a script: the keyspace lays out these documents, no scope is open, and `ret`
holds the answer to the last verdict. -/
structure Ready (ns : String) (schema : Schema) (library : Library) (last : Option Verdict)
    (machine : Machine) : Prop where
  sound : library.Sound schema
  canonical : Canonical ns schema library machine.space
  closed : machine.inner = []
  ret : machine.find? "ret" = some (lastValue last)

variable {library : Library} {last : Option Verdict} {machine : Machine} {start : Nat}

/-- One block does what the model does, and a script that goes on is ready for the next one. -/
theorem Ready.run_block (h : Ready ns schema library last machine) (hschema : schema.WellFormed)
    {task : Task} (hfit : task.Fits schema)
    (hdraw : task.work.draws = true → Decimal.InInt64 ((library task.collection).drawn + 1))
    (hparams : Operation.ParamsAt params start task.work.params) :
    ∃ commands, Tame (SchemaCounter ns schema) (SchemaData ns schema) commands ∧
      Canonical ns schema (library.perform task).2 (machine.space.executeAll commands) ∧
      (Stmt.block (task.fragment ns (start + 1)).body).run params machine =
        (machine.performAll commands).settle (library.perform task).1 ∧
      Ready ns schema (library.perform task).2 (some (library.perform task).1)
        ((machine.performAll commands).assign "ret" (library.perform task).1.value) := by
  have hcoll := hfit.collection
  obtain ⟨commands, hrun, htame, hkeeps⟩ := task.performs hschema hfit (h.sound _ _ hcoll)
    (h.canonical.keeps _ _ hcoll) hdraw hparams
  have hnext : Canonical ns schema (library.perform task).2 (machine.space.executeAll commands) :=
    h.canonical.perform hschema hcoll htame hkeeps
  have hclosed : (machine.performAll commands).inner = [] := by
    rw [Machine.performAll_inner, h.closed]
  refine ⟨commands, htame.inSchema hschema hcoll, hnext, hrun, Library.sound_perform h.sound hfit, ?_, ?_, ?_⟩
  · rw [Machine.assign_space, Machine.performAll_space]
    exact hnext
  · rw [Machine.assign_of_inner_nil _ hclosed]
    exact hclosed
  · rw [Machine.assign_of_inner_nil _ hclosed]
    simp [Machine.find?, h.closed, Machine.findIn?, SortedMap.find?_insert, lastValue]

/-- Blocks do what the model does, up to the first operation that stops. -/
theorem Ready.runAll_blocks (hschema : schema.WellFormed) {tasks : List Task}
    (hfits : ∀ task ∈ tasks, task.Fits schema) (hready : Ready ns schema library last machine)
    (hdraw : library.CanDraw tasks)
    (hparams : Operation.ParamsAt params start (tasks.flatMap (·.work.params)))
    (hlast : last.any Verdict.stops = false) :
    ∃ commands final, Tame (SchemaCounter ns schema) (SchemaData ns schema) commands ∧
      Canonical ns schema (library.performAll last tasks).2 (machine.space.executeAll commands) ∧
      Stmt.runAll params (blocks ns start tasks ++ [.finish (.var "ret")]) machine =
        (.ok (.over (lastValue (library.performAll last tasks).1)), final) ∧
      final.space = if (library.performAll last tasks).1.any Verdict.stops then
        (machine.performAll commands).rollback.space else machine.space.executeAll commands := by
  induction tasks generalizing library machine last start with
  | nil =>
    refine ⟨[], machine, .nil, hready.canonical,
      Stmt.runAll_of_over (Stmt.run_finish (Expr.Gives.var hready.ret)), ?_⟩
    rw [Library.performAll, hlast]
    rfl
  | cons task rest ih =>
    rw [List.flatMap_cons] at hparams
    obtain ⟨commands, htame, hnext, hrun, hready'⟩ := hready.run_block hschema
      (hfits task List.mem_cons_self) hdraw.1 hparams.left
    unfold Machine.settle at hrun
    cases hstops : (library.perform task).1.stops with
    | true =>
      rw [hstops, if_pos rfl] at hrun
      rw [Library.performAll_of_stops hstops]
      refine ⟨commands, _, htame, hnext, Stmt.runAll_of_over hrun, ?_⟩
      rw [if_pos (by simpa using hstops)]
    | false =>
      rw [hstops, if_neg (by simp)] at hrun
      rw [Library.performAll_of_next hstops]
      obtain ⟨others, final, hothers, hafter, hrest, hspace⟩ := ih
        (fun other hother => hfits other (List.mem_cons_of_mem _ hother)) hready' (hdraw.2 hstops)
        hparams.right (by simpa using hstops)
      rw [Machine.assign_space, Machine.performAll_space, ← Keyspace.executeAll_append] at hafter hspace
      refine ⟨commands ++ others, final, htame.append hothers, hafter, ?_, ?_⟩
      · rw [blocks, List.cons_append, Stmt.runAll_of_next hrun, hrest]
      · rw [hspace, Machine.performAll_assign, Machine.rollback_assign_space, ← Machine.performAll_append]

/-- The counter of a collection stands at what was drawn. -/
theorem Ready.count?_counter (h : Ready ns schema library last machine) (hrange : library.InRange schema)
    {name : String} {coll : Collection} (hcoll : schema.collection? name = some coll) :
    machine.space.count? (nextIdKey ns name) = some ((library name).drawn : Int) := by
  rw [Keyspace.count?, (h.canonical.keeps name coll hcoll).counter]
  by_cases hzero : (library name).drawn = 0
  · rw [if_pos hzero, hzero]
    rfl
  · rw [if_neg hzero]
    exact Decimal.int64?_ofInt (hrange name coll hcoll)

/-- Blocks that draw an id from a counter at its limit count it up there, whatever comes after. -/
theorem Ready.exists_performed_over (hschema : schema.WellFormed) {tasks : List Task}
    (hfits : ∀ task ∈ tasks, task.Fits schema) (hready : Ready ns schema library last machine)
    (hrange : library.InRange schema) (hdraw : ¬library.CanDraw tasks)
    (hparams : Operation.ParamsAt params start (tasks.flatMap (·.work.params))) (more : List Stmt) :
    ∃ name coll commands later, schema.collection? name = some coll ∧
      (machine.space.executeAll commands).count? (nextIdKey ns name) = some 9223372036854775807 ∧
      (Stmt.runAll params (blocks ns start tasks ++ more) machine).2.performed =
        later ++ (.incr, [nextIdKey ns name]) :: (commands.reverse ++ machine.performed) := by
  induction tasks generalizing library machine last start with
  | nil => exact absurd trivial hdraw
  | cons task rest ih =>
    have hfit := hfits task List.mem_cons_self
    rw [List.flatMap_cons] at hparams
    rw [blocks, List.cons_append]
    by_cases hhead : task.work.draws = true → Decimal.InInt64 ((library task.collection).drawn + 1)
    · obtain ⟨commands, -, -, hrun, hready'⟩ := hready.run_block hschema hfit hhead hparams.left
      have hrest : ¬((library.perform task).1.stops = false → (library.perform task).2.CanDraw rest) :=
        fun hrest => hdraw ⟨hhead, hrest⟩
      obtain ⟨hstops, hrest⟩ := Classical.not_imp.1 hrest
      unfold Machine.settle at hrun
      rw [hstops, if_neg (by simp)] at hrun
      obtain ⟨name, coll, others, later, hcoll, hlimit, hperformed⟩ := ih
        (fun other hother => hfits other (List.mem_cons_of_mem _ hother)) hready' (hrange.perform hhead) hrest
        hparams.right
      rw [Machine.assign_space, Machine.performAll_space, ← Keyspace.executeAll_append] at hlimit
      refine ⟨name, coll, commands ++ others, later, hcoll, hlimit, ?_⟩
      rw [Stmt.runAll_of_next hrun, hperformed, Machine.performed_assign, Machine.performed_performAll,
        List.reverse_append, List.append_assoc]
    · obtain ⟨hdraws, hover⟩ := Classical.not_imp.1 hhead
      have hcount := hready.count?_counter hrange hfit.collection
      have hdrawn := hrange _ _ hfit.collection
      have hlimit : ((library task.collection).drawn : Int) = 9223372036854775807 := by
        simp only [Decimal.InInt64] at hover hdrawn
        omega
      obtain ⟨body, hbody⟩ := exists_body_of_draws hdraws ns (start + 1)
      rw [hbody]
      obtain ⟨later, hperformed⟩ := Stmt.exists_performed_draw params hcount body
        (blocks ns (start + task.work.params.length) rest ++ more)
      exact ⟨task.collection, task.fields, [], later, hfit.collection, hlimit ▸ hcount, hperformed⟩

/-- The machine after the first answer is set. -/
theorem runAll_script (ns : String) (tasks : List Task) (params : List String) (space : Keyspace) :
    Stmt.runAll params (script ns tasks).1.body (Machine.start (script ns tasks).1 space) =
      Stmt.runAll params (blocks ns 0 tasks ++ [.finish (.var "ret")])
        ((Machine.start (script ns tasks).1 space).declare "ret" (lastValue none)) := by
  have hanswer := (@Operation.eval_answer params (Machine.start (script ns tasks).1 space))
    Expr.evalAll_nil .none noError
  exact Stmt.runAll_of_next (Stmt.run_declare hanswer "ret")

theorem ready_start (ns : String) (hsound : library.Sound schema) {space : Keyspace}
    (hcanonical : Canonical ns schema library space) (tasks : List Task) :
    Ready ns schema library none
      ((Machine.start (script ns tasks).1 space).declare "ret" (lastValue none)) := by
  refine ⟨hsound, hcanonical, rfl, ?_⟩
  simp [Machine.find?, Machine.declare, Machine.start, Machine.findIn?, SortedMap.find?_insert]

/-- A script without a journal has one task at most, and a task that stops has kept its documents as they were. -/
theorem restore_of_unjournaled {tasks : List Task} (hjournal : (script ns tasks).1.journal = false)
    {later : Library} (hresult : library.performAll none tasks = (last, later))
    (hstops : last.any Verdict.stops = true) : later.restore library = later := by
  cases tasks with
  | nil =>
    cases hresult
    cases hstops
  | cons task rest =>
    cases rest with
    | cons other more => simp [script] at hjournal
    | nil =>
      cases hstop : (library.perform task).1.stops with
      | true =>
        rw [Library.performAll_of_stops hstop] at hresult
        cases hresult
        exact Library.restore_perform hstop
      | false =>
        rw [Library.performAll_of_next hstop] at hresult
        cases hresult
        rw [Option.any_some, hstop] at hstops
        cases hstops

/-- The script of tasks does what the model does with them all together. -/
theorem run_script (hschema : schema.WellFormed) {tasks : List Task}
    (hfits : ∀ task ∈ tasks, task.Fits schema) {space : Keyspace}
    (hsound : library.Sound schema) (hcanonical : Canonical ns schema library space)
    (hdraw : library.CanDraw tasks) :
    ∃ after, (script ns tasks).1.run (script ns tasks).2 space =
        (.ok (lastValue (library.batch tasks).1).toReply, after) ∧
      Canonical ns schema (library.batch tasks).2 after ∧
      ∀ key, ¬SchemaCounter ns schema key → ¬SchemaData ns schema key →
        after.find? key = space.find? key := by
  have hstart : ((Machine.start (script ns tasks).1 space).declare "ret" (lastValue none)).space = space :=
    rfl
  obtain ⟨commands, final, htame, hafter, hrun, hspace⟩ :=
    (@Ready.runAll_blocks ns schema (script ns tasks).2) hschema hfits
      (ready_start ns hsound hcanonical tasks) hdraw
      (by simpa [script] using Operation.paramsAt_append [] (tasks.flatMap (·.work.params)) []) rfl
  rw [hstart] at hafter
  have hle := Library.drawn_le_performAll library none tasks
  have hreply : (script ns tasks).1.run (script ns tasks).2 space =
      (.ok (lastValue (library.performAll none tasks).1).toReply, final.space) := by
    simp only [Program.run, Program.execution]
    rw [runAll_script, hrun]
    rfl
  generalize hresult : library.performAll none tasks = result at *
  obtain ⟨last, later⟩ := result
  cases hstops : last.any Verdict.stops with
  | false =>
    rw [hstops, if_neg (by simp), hstart] at hspace
    rw [Library.batch_of_next hresult hstops]
    refine ⟨final.space, hreply, hspace ▸ hafter, fun key hcounter hdata => ?_⟩
    rw [hspace]
    exact htame.find?_executeAll space hcounter hdata
  | true =>
    rw [hstops, if_pos rfl] at hspace
    rw [Library.batch_of_stops hresult hstops]
    cases hjournal : (script ns tasks).1.journal with
    | true =>
      have hrestores : Machine.Restores (SchemaCounter ns schema) space
          (((Machine.start (script ns tasks).1 space).declare "ret" (lastValue none)).performAll
            commands) :=
        (@Machine.Restores.congr _ _ _
          ((Machine.start (script ns tasks).1 space).declare "ret" (lastValue none))
          (Machine.Restores.atStart _ hjournal space) rfl rfl).performAll htame
      have hkeep : ∀ key, ¬SchemaCounter ns schema key → final.space.find? key = space.find? key := by
        intro key hkey
        rw [hspace]
        exact hrestores.find?_rollback hkey
      refine ⟨final.space, hreply, ?_, fun key hcounter _ => hkeep key hcounter⟩
      refine hcanonical.restore hschema hsound hafter hle (fun key hkey => ?_) hkeep
      rw [hspace, hrestores.find?_rollback_counter hkey, Machine.performAll_space, hstart]
    | false =>
      -- What was written before the script stopped stays.
      have hnone : ((Machine.start (script ns tasks).1 space).declare "ret" (lastValue none)).journal =
          none := by
        change (if (script ns tasks).1.journal then some [] else none) = none
        rw [hjournal]
        rfl
      rw [Machine.rollback_of_none _ (Machine.journal_performAll _ hnone commands),
        Machine.performAll_space, hstart] at hspace
      rw [restore_of_unjournaled hjournal hresult hstops]
      refine ⟨final.space, hreply, hspace ▸ hafter, fun key hcounter hdata => ?_⟩
      rw [hspace]
      exact htame.find?_executeAll space hcounter hdata

/-- The script of tasks that draw an id from a counter at its limit draws the least integer. -/
theorem exists_draws_over (hschema : schema.WellFormed) {tasks : List Task}
    (hfits : ∀ task ∈ tasks, task.Fits schema) {space : Keyspace} (hsound : library.Sound schema)
    (hcanonical : Canonical ns schema library space) (hrange : library.InRange schema)
    (hdraw : ¬library.CanDraw tasks) :
    ∃ name coll, schema.collection? name = some coll ∧
      -9223372036854775808 ∈ (script ns tasks).1.draws (nextIdKey ns name) (script ns tasks).2 space := by
  obtain ⟨name, coll, commands, later, hcoll, hlimit, hperformed⟩ :=
    (@Ready.exists_performed_over ns schema (script ns tasks).2) hschema hfits
      (ready_start ns hsound hcanonical tasks) hrange hdraw
      (by simpa [script] using Operation.paramsAt_append [] (tasks.flatMap (·.work.params)) [])
      [.finish (.var "ret")]
  rw [← runAll_script, Machine.performed_declare] at hperformed
  have hstart : (Machine.start (script ns tasks).1 space).performed = [] := rfl
  rw [hstart, List.append_nil] at hperformed
  exact ⟨name, coll, hcoll, Program.mem_draws hperformed hlimit⟩

end Task

end DocStore
