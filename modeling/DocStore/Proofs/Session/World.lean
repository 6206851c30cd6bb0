import DocStore.Proofs.Client.Agreeing
import Mathlib.Logic.Relation

/-!
Handles on one namespace at work at the same time.

Each visit goes on by single steps of its own, and anything may happen in between. A handle lets one visit at
a time look for the schema or store one; what is left to do then, the scripts of operations, it does not
guard. Where no schema was stored at first, the handles agree: what they know of the schema is always what
is stored (`World.Runs.agree`).
-/

namespace DocStore

open DocStore.Store DocStore.Client DocStore.Script DocStore.Layout

namespace Client

/-- The method on whose behalf a visit looks for the schema. -/
def Visit.method : Visit → Method
  | .setSchema _ _ => .setSchema
  | .getSchema => .getSchema
  | .schemaDigest => .getSchemaHash
  | .currentId _ => .currentId
  | .ask (.single op) => op.method
  | .ask (.multi _) => .none

/-- What is left to do of a visit once it lets go of what the handle knows. -/
abbrev Rest :=
  Dialog (Except Failure Unit × SchemaState)

/-- What a visit does as long as it has what the handle knows for itself; it ends with what is known then, and
with what is left to do. -/
def Handle.begin (handle : Handle) (visit : Visit) (known : SchemaState) : Dialog (SchemaState × Rest) :=
  if visit.setsSchema then do
    let ended ← (handle.visit visit).run.run known
    return (ended.2, .done ended)
  else do
    let (found, later) ← (handle.loadSchema visit.method).run.run known
    match found with
    | .ok stored => return (later, (handle.visit visit).run.run (.loaded stored))
    | .error failure => return (later, .done (.error failure, later))

namespace Handle

/-- An action that looks for the schema first goes on, once it is found, as that of a handle that knows it. -/
theorem run_loadSchema_bind {α : Type} (handle : Handle) (method : Method) (known : SchemaState)
    (next : StoredSchema → Act α) :
    (handle.loadSchema method >>= next).run.run known = (do
      let (found, later) ← (handle.loadSchema method).run.run known
      match found with
      | .ok stored => (handle.loadSchema method >>= next).run.run (.loaded stored)
      | .error failure => return (.error failure, later)) := by
  cases known with
  | loaded stored | bad reason => rfl
  | unloaded =>
    refine congrArg (Dialog.ask _) (funext fun answer => ?_)
    cases answer with
    | error e => rfl
    | ok found =>
      cases found with
      | none => rfl
      | some text =>
        refine congrArg (Dialog.ask _) (funext fun answer => ?_)
        cases answer with
        | error e => rfl
        | ok revision =>
          dsimp only [Dialog.bind, Except.mapError, pure, ExceptT.bindCont]
          cases StoredSchema.read text revision <;> rfl

theorem discard_eq {α : Type} (action : Act α) : discard action = action >>= fun _ => pure ⟨⟩ := by
  rw [Functor.discard, LawfulFunctor.map_const]
  exact (bind_pure_comp (Function.const α PUnit.unit) action).symm

/-- A visit that stores no schema looks for it first. -/
theorem visit_eq (handle : Handle) {visit : Visit} (hvisit : visit.setsSchema = false) :
    ∃ next, handle.visit visit = handle.loadSchema visit.method >>= next := by
  cases visit with
  | setSchema revision value => cases hvisit
  | getSchema => exact ⟨_, discard_eq _⟩
  | schemaDigest =>
    simp only [Handle.visit, discard_eq, schemaDigest, bind_assoc]
    exact ⟨_, rfl⟩
  | currentId collection =>
    simp only [Handle.visit, discard_eq, currentId, bind_assoc]
    exact ⟨_, rfl⟩
  | ask query =>
    cases query with
    | single op =>
      cases op with
      | create | update | delete | get | «exists» | list | size | find | findAll =>
        simp only [Handle.visit, Handle.ask, discard_eq, Handle.single, Handle.create, Handle.update,
          Handle.delete, Handle.get, Handle.exists?, Handle.list, Handle.size, Handle.find, Handle.findAll,
          executeOne, execute, bind_assoc]
        exact ⟨_, rfl⟩
    | multi ops =>
      simp only [Handle.visit, Handle.ask, discard_eq, multi, execute, bind_assoc]
      exact ⟨_, rfl⟩

/-- In one go, the two parts of a visit are the visit. -/
theorem begin_bind (handle : Handle) (visit : Visit) (known : SchemaState) :
    handle.begin visit known >>= Prod.snd = (handle.visit visit).run.run known := by
  rw [begin]
  cases hvisit : visit.setsSchema with
  | true =>
    rw [if_pos rfl, bind_assoc]
    exact bind_pure _
  | false =>
    obtain ⟨next, hnext⟩ := handle.visit_eq hvisit
    rw [if_neg Bool.false_ne_true, bind_assoc, hnext, run_loadSchema_bind]
    congr
    funext ended
    obtain ⟨found, later⟩ := ended
    cases found <;> rfl

/-- A handle that knows no schema looks for one before it stores its own, and goes on once it finds none. -/
theorem begin_setSchema (handle : Handle) {revision : Nat} {value : Json} {schema : Schema}
    (hrevision : ¬revision < 1) (hschema : Schema.ofJson value = .ok schema) :
    ∃ next, handle.begin (.setSchema revision value) .unloaded = .ask (.call (.get (schemaKey handle.ns))) next ∧
      next (.ok none) >>= Prod.snd = (submit handle schema revision).run.run .unloaded := by
  have hsets : (Visit.setSchema revision value).setsSchema = true := rfl
  have hvisit : handle.visit (.setSchema revision value) = handle.setSchema revision value := rfl
  rw [begin, if_pos hsets, hvisit, setSchema_of_ofJson hrevision hschema]
  refine ⟨_, rfl, ?_⟩
  change ((submit handle schema revision).run.run .unloaded >>= fun ended =>
    (pure (ended.2, Dialog.done ended) : Dialog (SchemaState × Rest))) >>= Prod.snd = _
  rw [bind_assoc]
  exact bind_pure _

end Handle

end Client

/-- How far a visit has come. -/
inductive Stage where
  /-- It has what the handle knows for itself. -/
  | locked (rest : Dialog (SchemaState × Client.Rest))
  | free (rest : Client.Rest)

/-- Whether other visits may use what the handle knows. -/
def Stage.isFree : Stage → Bool
  | .locked _ => false
  | .free _ => true

/-- A visit under way: whose it is, by the handle's number, how far it has come, and its steps so far. -/
structure Errand where
  site : Nat
  cache : String
  visit : Visit
  stage : Stage
  taken : List Taken

/-- A visit that is over: what it has answered, and its steps. -/
structure Outing where
  visit : Visit
  result : Except Failure Unit
  taken : List Taken

/-- The scripts that a visit may run once the handle knows this much. -/
def Client.Visit.scripts (ns : String) (visit : Visit) (known : SchemaState) : List Program :=
  if visit.setsSchema then [setSchemaProgram ns]
  else
    match known with
    | .loaded stored =>
      match (Build.ofList ns stored.schema visit.ops).finish with
      | .ok (some (program, _)) => [program]
      | _ => []
    | _ => []

/-- A store, the handles on it with what they know, and the visits they pay to it. -/
structure World where
  store : Rehearsed
  /-- What is remembered as loaded, by the names of the caches. -/
  caches : String → ScriptCache
  handles : List Session.Opened
  errands : List Errand
  outings : List Outing
  /-- The scripts that may have been run or loaded. -/
  scripts : List Program

namespace World

/-- Where the steps of a visit are answered. -/
def station (world : World) (cache : String) : Session.Station :=
  ⟨world.store, world.caches cache⟩

/-- The caches with another content of one of them. -/
def remember (caches : String → ScriptCache) (name : String) (cache : ScriptCache) (other : String) : ScriptCache :=
  if other = name then cache else caches other

/-- The world after a step that a visit has taken. -/
def moved (world : World) (earlier later : List Errand) (errand : Errand) (step : Step)
    (stage : step.Answer → Stage) : World :=
  let answered := Session.Station.answer step (world.station errand.cache)
  { world with
    store := answered.2.store
    caches := remember world.caches errand.cache answered.2.cache
    errands := earlier ++
      { errand with
        stage := stage answered.1
        taken := ⟨step, world.station errand.cache⟩ :: errand.taken } :: later }

/-- What can happen next. -/
inductive Next (ns : String) (world : World) : World → Prop
  /-- A handle is opened. -/
  | opened (handle : Handle) (cache : String) : handle.ns = ns →
      Next ns world { world with handles := world.handles ++ [⟨handle, .unloaded, cache⟩] }
  /-- A handle sets out on a visit, if no other visit has what it knows for itself. -/
  | begun (site : Nat) (opened : Session.Opened) (visit : Visit) : world.handles[site]? = some opened →
      (∀ errand ∈ world.errands, errand.site = site → errand.stage.isFree = true) →
      (∀ revision value, visit = .setSchema revision value → revision ≤ Decimal.maxWord64) →
      Next ns world
        { world with
          errands := ⟨site, opened.cache, visit, .locked (opened.handle.begin visit opened.schema), []⟩ ::
            world.errands
          scripts := visit.scripts ns opened.schema ++ world.scripts }
  /-- A visit takes a step. -/
  | locked (earlier later : List Errand) (errand : Errand) (step : Step)
      (next : step.Answer → Dialog (SchemaState × Client.Rest)) :
      world.errands = earlier ++ errand :: later → errand.stage = .locked (.ask step next) →
      Next ns world (world.moved earlier later errand step fun answer => .locked (next answer))
  | free (earlier later : List Errand) (errand : Errand) (step : Step) (next : step.Answer → Client.Rest) :
      world.errands = earlier ++ errand :: later → errand.stage = .free (.ask step next) →
      Next ns world (world.moved earlier later errand step fun answer => .free (next answer))
  /-- A visit lets go of what the handle knows now. -/
  | unlocked (earlier later : List Errand) (errand : Errand) (known : SchemaState) (rest : Client.Rest) :
      world.errands = earlier ++ errand :: later → errand.stage = .locked (.done (known, rest)) →
      Next ns world
        { world with
          handles := world.handles.modify errand.site fun opened => { opened with schema := known }
          errands := earlier ++ { errand with stage := .free rest } :: later
          scripts := errand.visit.scripts ns known ++ world.scripts }
  /-- A visit is over. -/
  | ended (earlier later : List Errand) (errand : Errand) (result : Except Failure Unit)
      (known : SchemaState) :
      world.errands = earlier ++ errand :: later → errand.stage = .free (.done (result, known)) →
      Next ns world
        { world with
          errands := earlier ++ later
          outings := ⟨errand.visit, result, errand.taken⟩ :: world.outings }
  /-- The store forgets every script. -/
  | flushed :
      Next ns world
        { world with store := { world.store with memory := world.store.memory.flushScripts } }
  /-- A cache forgets what was loaded. -/
  | cleared (name : String) :
      Next ns world
        { world with caches := remember world.caches name (world.caches name).clear }

/-- What can happen in the course of time. -/
abbrev Runs (ns : String) : World → World → Prop :=
  Relation.ReflTransGen (Next ns)

/-- Nobody has come yet, and nothing is stored under the keys of the schema. -/
structure Blank (ns : String) (world : World) : Prop where
  plain : world.store.Plain (· ∈ world.scripts)
  bare : ∀ key, SchemaKey ns key → world.store.memory.space.find? key = none
  handles : world.handles = []
  errands : world.errands = []
  outings : world.outings = []

end World

section sound

variable {programs : Program → Prop} {ns : String} {visit : Visit} {course : Course} {known : SchemaState}

/-- What is left to do of the visit keeps to what is asked of it, and settles the visit. -/
def Client.Rest.Sound (programs : Program → Prop) (ns : String) (visit : Visit) (rest : Client.Rest)
    (course : Course) : Prop :=
  ∃ held, Stable (Course.Aside programs ns) held ∧ held course ∧
    rest.Ensures (Course.Aside programs ns) (Taken.Onward programs ns)
      (fun ended course => visit.Settles ns ended.1 course.station.store.memory.space course.taken) held

/-- A visit that has come this far keeps to what is asked of it up to its end. -/
def Stage.Sound (programs : Program → Prop) (ns : String) (visit : Visit) (course : Course) : Stage → Prop
  | .free rest => Client.Rest.Sound programs ns visit rest course
  | .locked rest =>
    ∃ held, Stable (Course.Aside programs ns) held ∧ held course ∧
      rest.Ensures (Course.Aside programs ns) (Taken.Onward programs ns)
        (fun ended course => Knows ns course.station.store.memory.space ended.1 ∧
          ((∀ program ∈ visit.scripts ns ended.1, programs program) →
            Client.Rest.Sound programs ns visit ended.2 course)) held

theorem stable_settles (result : Except Failure Unit) :
    Stable (Course.Aside programs ns)
      fun course => visit.Settles ns result course.station.store.memory.space course.taken := by
  intro course station honward h revision value hvisit
  obtain ⟨haccepted, hrefused⟩ := h revision value hvisit
  refine ⟨fun hok => ?_, hrefused⟩
  obtain ⟨schema, hschema, hagreed⟩ := haccepted hok
  exact ⟨schema, hschema, honward.keeps _ hagreed⟩

/-- Only a visit that stores a schema has to settle anything. -/
theorem settles_of_not (hvisit : visit.setsSchema = false) (result : Except Failure Unit) (space : Keyspace)
    (taken : List Taken) : visit.Settles ns result space taken := by
  rintro revision value rfl
  cases hvisit

theorem Client.Rest.sound_done {ended : Except Failure Unit × SchemaState}
    (h : visit.Settles ns ended.1 course.station.store.memory.space course.taken) :
    Client.Rest.Sound programs ns visit (.done ended) course :=
  ⟨_, stable_settles ended.1, h, fun _ => id⟩

namespace Stage.Sound

variable {stage : Stage}

theorem elsewhere (h : stage.Sound programs ns visit course) {station : Session.Station}
    (honward : course.station.store.Onward programs ns station.store) :
    stage.Sound programs ns visit (course.elsewhere station) := by
  cases stage with
  | free rest | locked rest =>
    obtain ⟨held, hstable, hheld, hensures⟩ := h
    exact ⟨held, hstable, hstable course station honward hheld, hensures⟩

/-- A step that the visit takes. -/
theorem locked {step : Step} {next : step.Answer → Dialog (SchemaState × Client.Rest)}
    (h : (Stage.locked (.ask step next)).Sound programs ns visit course) :
    Taken.Onward programs ns ⟨step, course.station⟩ ∧
      (Stage.locked (next (course.answer step).1)).Sound programs ns visit (course.answer step).2 := by
  obtain ⟨_, -, hheld, later, hstable, hstep, hnext⟩ := h
  obtain ⟨honward, hafter⟩ := hstep course hheld
  exact ⟨honward, later _, hstable _, hafter, hnext _⟩

theorem free {step : Step} {next : step.Answer → Client.Rest}
    (h : (Stage.free (.ask step next)).Sound programs ns visit course) :
    Taken.Onward programs ns ⟨step, course.station⟩ ∧
      (Stage.free (next (course.answer step).1)).Sound programs ns visit (course.answer step).2 := by
  obtain ⟨_, -, hheld, later, hstable, hstep, hnext⟩ := h
  obtain ⟨honward, hafter⟩ := hstep course hheld
  exact ⟨honward, later _, hstable _, hafter, hnext _⟩

theorem unlocked {rest : Client.Rest}
    (h : (Stage.locked (.done (known, rest))).Sound programs ns visit course)
    (hprograms : ∀ program ∈ visit.scripts ns known, programs program) :
    Knows ns course.station.store.memory.space known ∧ (Stage.free rest).Sound programs ns visit course := by
  obtain ⟨_, -, hheld, hdone⟩ := h
  obtain ⟨hknows, hrest⟩ := hdone course hheld
  exact ⟨hknows, hrest hprograms⟩

theorem ended {result : Except Failure Unit}
    (h : (Stage.free (.done (result, known))).Sound programs ns visit course) :
    visit.Settles ns result course.station.store.memory.space course.taken := by
  obtain ⟨_, -, hheld, hdone⟩ := h
  exact hdone course hheld

/-- A visit sets out. -/
theorem begin (hdiffer : DigestsDiffer programs) (handle : Handle) (visit : Visit) (known : SchemaState)
    (hrevision : ∀ revision value, visit = .setSchema revision value → revision ≤ Decimal.maxWord64)
    (hprograms : ∀ program ∈ visit.scripts handle.ns known, programs program)
    (hcalm : course.Calm programs handle.ns)
    (hknows : Knows handle.ns course.station.store.memory.space known) :
    (Stage.locked (handle.begin visit known)).Sound programs handle.ns visit course := by
  refine ⟨_, stable_calm.and (stable_knows known), ⟨hcalm, hknows⟩, ?_⟩
  unfold Handle.begin
  cases hvisit : visit.setsSchema with
  | true =>
    rw [if_pos rfl]
    cases visit with
    | setSchema revision value =>
      have hprogram : programs (setSchemaProgram handle.ns) := hprograms _ (by simp [Visit.scripts, Visit.setsSchema])
      refine Dialog.Ensures.bind (ensures_setSchema hdiffer hprogram (hrevision _ _ rfl) value known) ?_
      rintro ⟨result, later⟩ course ⟨schema, hsubmitted, hschema⟩
      refine ⟨hsubmitted.knows, fun _ => Client.Rest.sound_done ?_⟩
      intro number json hsame
      cases hsame
      exact ⟨fun hok => ⟨schema, hschema hok, hsubmitted.accepted hok⟩, hsubmitted.refused⟩
    | getSchema | schemaDigest | currentId collection | ask query => cases hvisit
  | false =>
    rw [if_neg Bool.false_ne_true]
    refine Dialog.Ensures.bind (ensures_loadSchema handle visit.method known) ?_
    rintro ⟨found, later⟩
    cases found with
    | error failure =>
      rintro course ⟨-, hknows, -⟩
      exact ⟨hknows, fun _ => Client.Rest.sound_done (settles_of_not hvisit _ _ _)⟩
    | ok stored =>
      rintro course ⟨hcalm, hknows, hlater⟩
      refine ⟨hknows, fun hprograms => ?_⟩
      obtain rfl : later = .loaded stored := hlater stored rfl
      have hensures := @ensures_visit programs handle hdiffer stored visit hvisit fun program params hfinish =>
        hprograms program (by simp [Visit.scripts, hvisit, hfinish])
      exact ⟨_, stable_sound, hcalm.sound,
        Dialog.Ensures.weaken hensures (fun _ => id) fun _ _ _ => settles_of_not hvisit _ _ _⟩

end Stage.Sound

end sound

namespace World

/-- Everything in the world is as the handles rely on. -/
structure Sound (programs : Program → Prop) (ns : String) (world : World) : Prop where
  store : world.store.Sound programs ns
  handles : ∀ opened ∈ world.handles, opened.handle.ns = ns ∧
    Knows ns world.store.memory.space opened.schema
  errands : ∀ errand ∈ world.errands,
    errand.stage.Sound programs ns errand.visit ⟨world.station errand.cache, errand.taken⟩
  outings : ∀ outing ∈ world.outings,
    outing.visit.Settles ns outing.result world.store.memory.space outing.taken

section

variable {programs : Program → Prop} {ns : String} {world next : World} {earlier later : List Errand}
  {errand : Errand}

theorem station_remember (world : World) (store : Rehearsed) (name : String) (cache : ScriptCache) :
    World.station { world with store := store, caches := remember world.caches name cache } name =
      ⟨store, cache⟩ := by
  simp [station, remember]

/-- What handles and visits rely on holds on while the store goes onward. -/
theorem Sound.onward (h : world.Sound programs ns) {store : Rehearsed}
    (honward : world.store.Onward programs ns store) (caches : String → ScriptCache) :
    Sound programs ns { world with store := store, caches := caches } where
  store := honward.sound
  handles opened hmem := ⟨(h.handles opened hmem).1, (h.handles opened hmem).2.onward honward⟩
  errands errand hmem := (h.errands errand hmem).elsewhere honward
  outings outing hmem := (@stable_settles programs ns outing.visit outing.result)
    ⟨world.station "", outing.taken⟩ ⟨store, world.caches ""⟩ honward (h.outings outing hmem)

/-- A visit has come further. -/
theorem Sound.replace (h : world.Sound programs ns) (herrands : world.errands = earlier ++ errand :: later)
    {errand' : Errand}
    (herrand : errand'.stage.Sound programs ns errand'.visit ⟨world.station errand'.cache, errand'.taken⟩) :
    Sound programs ns { world with errands := earlier ++ errand' :: later } := by
  refine ⟨h.store, h.handles, fun other hother => ?_, h.outings⟩
  rcases List.mem_append.1 hother with hmem | hmem
  · exact h.errands other (herrands ▸ List.mem_append_left _ hmem)
  · rcases List.mem_cons.1 hmem with rfl | hmem
    · exact herrand
    · exact h.errands other (herrands ▸ List.mem_append_right _ (List.mem_cons_of_mem _ hmem))

theorem Sound.stage (h : world.Sound programs ns) (herrands : world.errands = earlier ++ errand :: later) :
    errand.stage.Sound programs ns errand.visit ⟨world.station errand.cache, errand.taken⟩ :=
  h.errands errand (herrands ▸ List.mem_append_right _ List.mem_cons_self)

/-- A step of one visit is what the others rely on. -/
theorem Sound.moved (h : world.Sound programs ns) (herrands : world.errands = earlier ++ errand :: later)
    {step : Step} {stage : step.Answer → Stage}
    (hstep : Taken.Onward programs ns ⟨step, world.station errand.cache⟩ ∧
      (stage (Course.answer ⟨world.station errand.cache, errand.taken⟩ step).1).Sound programs ns errand.visit
        (Course.answer ⟨world.station errand.cache, errand.taken⟩ step).2) :
    (world.moved earlier later errand step stage).Sound programs ns := by
  refine (h.onward hstep.1 (remember world.caches errand.cache _)).replace herrands ?_
  dsimp only
  rw [station_remember]
  exact hstep.2

/-- Whatever happens next, the handles may go on to rely on it. -/
theorem Next.sound (hnext : Next ns world next) (h : world.Sound programs ns) (hdiffer : DigestsDiffer programs)
    (hprograms : ∀ program ∈ next.scripts, programs program) : next.Sound programs ns := by
  cases hnext with
  | opened handle cache hns =>
    refine ⟨h.store, fun opened hmem => ?_, h.errands, h.outings⟩
    rcases List.mem_append.1 hmem with hmem | hmem
    · exact h.handles opened hmem
    · cases List.mem_singleton.1 hmem
      exact ⟨hns, .inl rfl⟩
  | begun site opened visit hopened hfree hrevision =>
    obtain ⟨rfl, hknows⟩ := h.handles opened (List.mem_of_getElem? hopened)
    refine ⟨h.store, h.handles, fun errand hmem => ?_, h.outings⟩
    rcases List.mem_cons.1 hmem with rfl | hmem
    · exact Stage.Sound.begin hdiffer opened.handle visit opened.schema hrevision
        (fun program hmem => hprograms program (List.mem_append_left _ hmem)) ⟨h.store, nofun⟩ hknows
    · exact h.errands errand hmem
  | locked earlier later errand step next herrands hstage =>
    have herrand := h.stage herrands
    rw [hstage] at herrand
    exact h.moved herrands herrand.locked
  | free earlier later errand step next herrands hstage =>
    have herrand := h.stage herrands
    rw [hstage] at herrand
    exact h.moved herrands herrand.free
  | unlocked earlier later errand known rest herrands hstage =>
    have herrand := h.stage herrands
    rw [hstage] at herrand
    obtain ⟨hknows, hrest⟩ := herrand.unlocked fun program hmem => hprograms program (List.mem_append_left _ hmem)
    obtain ⟨hstore, -, herrands', houtings⟩ := @Sound.replace _ _ _ _ _ _ h herrands
      { errand with stage := .free rest } hrest
    refine ⟨hstore, fun opened hmem => ?_, herrands', houtings⟩
    obtain ⟨index, hindex⟩ := List.mem_iff_getElem?.1 hmem
    rw [List.getElem?_modify] at hindex
    cases hfound : world.handles[index]? with
    | none =>
      rw [hfound] at hindex
      cases hindex
    | some before =>
      rw [hfound] at hindex
      obtain ⟨hns, hbefore⟩ := h.handles before (List.mem_of_getElem? hfound)
      split at hindex
      · cases hindex
        exact ⟨hns, hknows⟩
      · cases hindex
        exact ⟨hns, hbefore⟩
  | ended earlier later errand result known herrands hstage =>
    have herrand := h.stage herrands
    rw [hstage] at herrand
    refine ⟨h.store, h.handles, fun other hmem => h.errands other ?_, fun outing hmem => ?_⟩
    · rw [herrands]
      exact (List.mem_append.1 hmem).elim (List.mem_append_left _) fun hmem =>
        List.mem_append_right _ (List.mem_cons_of_mem _ hmem)
    · rcases List.mem_cons.1 hmem with rfl | hmem
      · exact herrand.ended
      · exact h.outings outing hmem
  | flushed =>
    have hplain : Rehearsed.Plain programs
        { world.store with memory := world.store.memory.flushScripts } :=
      ⟨h.store.plain.unrehearsed, fun digest program hfound => by cases hfound⟩
    exact h.onward (h.store.onward hplain fun _ _ => rfl) world.caches
  | cleared name => exact h.onward (h.store.onward h.store.plain fun _ _ => rfl) _

theorem Next.scripts (hnext : Next ns world next) {program : Program} (h : program ∈ world.scripts) :
    program ∈ next.scripts := by
  cases hnext with
  | begun | unlocked => exact List.mem_append_right _ h
  | _ => exact h

namespace Runs

variable {last : World}

theorem scripts (h : Runs ns world last) {program : Program} (hmem : program ∈ world.scripts) :
    program ∈ last.scripts := by
  induction h with
  | refl => exact hmem
  | tail _ hnext ih => exact hnext.scripts ih

theorem sound (h : Runs ns world last) (hsound : world.Sound programs ns) (hdiffer : DigestsDiffer programs)
    (hprograms : ∀ program ∈ last.scripts, programs program) : last.Sound programs ns := by
  induction h with
  | refl => exact hsound
  | tail _ hnext ih =>
    exact hnext.sound (ih fun program hmem => hprograms program (hnext.scripts hmem)) hdiffer hprograms

/-- Handles agree on the schema. Whatever visits they pay at the same time, starting with no schema stored:
a handle that knows a schema knows the one that is stored, no handle takes what is stored for unreadable, a
schema that was accepted is the one that is stored, and a visit whose schema was not accepted has left the
stored one alone. -/
theorem agree (h : Runs ns world last) (hblank : world.Blank ns) (hdiffer : DigestsDiffer (· ∈ last.scripts)) :
    (∀ opened ∈ last.handles,
        (∀ stored, opened.schema = .loaded stored → ∃ revision, stored.revision = some revision ∧
          SchemaStored ns stored.schema revision last.store.memory.space) ∧
        ∀ reason, opened.schema ≠ .bad reason) ∧
      ∀ outing ∈ last.outings, ∀ revision value, outing.visit = .setSchema revision value →
        (outing.result = .ok () → ∃ schema, Schema.ofJson value = .ok schema ∧
          SchemaStored ns schema revision last.store.memory.space) ∧
        (outing.result ≠ .ok () → ∀ taken ∈ outing.taken, ∀ key, SchemaKey ns key →
          taken.after.store.memory.space.find? key = taken.before.store.memory.space.find? key) := by
  have hplain : world.store.Plain (· ∈ last.scripts) :=
    ⟨hblank.plain.unrehearsed, fun digest program hfound =>
      ⟨h.scripts (hblank.plain.loaded digest program hfound).1, (hblank.plain.loaded digest program hfound).2⟩⟩
  have hstart : world.Sound (· ∈ last.scripts) ns := by
    refine ⟨⟨hplain, .inl hblank.bare⟩, ?_, ?_, ?_⟩
    · rw [hblank.handles]
      exact fun _ hmem => absurd hmem List.not_mem_nil
    · rw [hblank.errands]
      exact fun _ hmem => absurd hmem List.not_mem_nil
    · rw [hblank.outings]
      exact fun _ hmem => absurd hmem List.not_mem_nil
  have hlast := h.sound hstart hdiffer fun _ => id
  refine ⟨fun opened hmem => ⟨fun stored hstored => ?_, fun reason hbad => ?_⟩,
    fun outing hmem revision value hvisit => ?_⟩
  · rcases (hlast.handles opened hmem).2 with hknown | ⟨known, hknown, hagreed⟩
    · rw [hknown] at hstored
      cases hstored
    · rw [hknown] at hstored
      cases hstored
      obtain ⟨revision, -, hrevision, hfound⟩ := hagreed.revision
      exact ⟨revision, hrevision, hfound⟩
  · have hknows := (hlast.handles opened hmem).2.isBad
    rw [hbad] at hknows
    cases hknows
  · obtain ⟨haccepted, hrefused⟩ := hlast.outings outing hmem revision value hvisit
    refine ⟨fun hok => ?_, hrefused⟩
    obtain ⟨schema, hschema, hagreed⟩ := haccepted hok
    obtain ⟨number, -, hnumber, hfound⟩ := hagreed.revision
    obtain rfl : revision = number := Option.some.inj hnumber
    exact ⟨schema, hschema, hfound⟩

end Runs

section inOneGo

variable {α : Type} {wrap : Dialog α → Stage} {rest : List Errand}

/-- A visit that nobody interrupts takes its steps one after another. -/
theorem runs_dialog
    (hwrap : ∀ (world : World) (rest : List Errand) (errand : Errand) (step : Step)
      (next : step.Answer → Dialog α), world.errands = errand :: rest → errand.stage = wrap (.ask step next) →
      Next ns world (world.moved [] rest errand step fun answer => wrap (next answer)))
    (dialog : Dialog α) (herrands : world.errands = errand :: rest) (hstage : errand.stage = wrap dialog) :
    ∃ last taken, Runs ns world last ∧
      last.errands = { errand with
        stage := wrap (.done (dialog.run Session.Station.answer (world.station errand.cache)).1)
        taken := taken } :: rest ∧
      last.station errand.cache = (dialog.run Session.Station.answer (world.station errand.cache)).2 ∧
      last.handles = world.handles ∧ last.outings = world.outings ∧ last.scripts = world.scripts := by
  induction dialog generalizing world errand with
  | done result =>
    refine ⟨world, errand.taken, .refl, ?_, rfl, rfl, rfl, rfl⟩
    rw [herrands]
    obtain ⟨site, cache, visit, stage, taken⟩ := errand
    subst hstage
    rfl
  | ask step next ih =>
    have hnext := hwrap world rest errand step next herrands hstage
    have hmoved : (world.moved [] rest errand step fun answer => wrap (next answer)).station errand.cache =
        (Session.Station.answer step (world.station errand.cache)).2 := station_remember _ _ _ _
    obtain ⟨last, taken, hruns, hlast, hstation, hsame⟩ := @ih
      (Session.Station.answer step (world.station errand.cache)).1
      (world.moved [] rest errand step fun answer => wrap (next answer))
      { errand with
        stage := wrap (next (Session.Station.answer step (world.station errand.cache)).1)
        taken := ⟨step, world.station errand.cache⟩ :: errand.taken } rfl rfl
    dsimp only at hlast hstation
    rw [hmoved] at hlast hstation
    exact ⟨last, taken, .head hnext hruns, hlast, hstation, hsame⟩

/-- A visit that nobody interrupts any more comes to the end of what is left of it. -/
theorem runs_errand {dialog : Dialog (SchemaState × Client.Rest)} (herrands : world.errands = errand :: rest)
    (hstage : errand.stage = .locked dialog) {ended : Except Failure Unit × SchemaState}
    {later : Session.Station}
    (hrun : (dialog >>= Prod.snd).run Session.Station.answer (world.station errand.cache) = (ended, later)) :
    ∃ last known taken, Runs ns world last ∧ last.handles.length = world.handles.length ∧ last.errands = rest ∧
      last.station errand.cache = later ∧ last.outings = ⟨errand.visit, ended.1, taken⟩ :: world.outings ∧
      last.scripts = errand.visit.scripts ns known ++ world.scripts := by
  rw [show (dialog >>= Prod.snd) = dialog.bind Prod.snd from rfl, Dialog.run_bind] at hrun
  -- The part that has what the handle knows for itself.
  obtain ⟨first, taken, hfirst, herrands', hstation, hhandles, houtings, hscripts⟩ :=
    @runs_dialog ns world errand _ _ _ (fun world rest errand step next => Next.locked [] rest errand step next)
      dialog herrands hstage
  generalize dialog.run Session.Station.answer (world.station errand.cache) = locked at hrun hstation herrands'
  obtain ⟨⟨known, left⟩, between⟩ := locked
  have hunlocked := @Next.unlocked ns first [] rest _ known left herrands' rfl
  -- What is left to do then.
  obtain ⟨second, taken', hsecond, herrands'', hstation', hhandles', houtings', hscripts'⟩ := @runs_dialog ns
    { first with
      handles := first.handles.modify errand.site fun opened => { opened with schema := known }
      errands := { errand with stage := .free left, taken := taken } :: rest
      scripts := errand.visit.scripts ns known ++ first.scripts }
    { errand with stage := .free left, taken := taken } _ _ rest
    (fun world rest errand step next => Next.free [] rest errand step next) left rfl rfl
  change second.station errand.cache =
    (left.run Session.Station.answer (first.station errand.cache)).2 at hstation'
  change second.errands = { errand with
    stage := .free (.done (left.run Session.Station.answer (first.station errand.cache)).1)
    taken := taken' } :: rest at herrands''
  rw [hstation] at hstation' herrands''
  rw [show left.run Session.Station.answer between = (ended, later) from hrun] at hstation' herrands''
  obtain ⟨result, last⟩ := ended
  have hended := @Next.ended ns second [] rest _ result last herrands'' rfl
  refine ⟨_, known, taken', ((hfirst.tail hunlocked).trans hsecond).tail hended, ?_, rfl, hstation', ?_, ?_⟩
  · rw [hhandles', List.length_modify, hhandles]
  · exact congrArg _ (houtings'.trans houtings)
  · exact hscripts'.trans (congrArg _ hscripts)

/-- A visit that nobody interrupts is what the handle does in one go. -/
theorem runs_visit {site : Nat} {opened : Session.Opened} {visit : Visit}
    (hopened : world.handles[site]? = some opened)
    (hfree : ∀ errand ∈ world.errands, errand.site = site → errand.stage.isFree = true)
    (hrevision : ∀ revision value, visit = .setSchema revision value → revision ≤ Decimal.maxWord64)
    {ended : Except Failure Unit × SchemaState} {later : Session.Station}
    (hvisit : (opened.handle.visit visit).on opened.schema (world.station opened.cache) = (ended, later)) :
    ∃ last known taken, Runs ns world last ∧ last.handles.length = world.handles.length ∧
      last.errands = world.errands ∧ last.station opened.cache = later ∧
      last.outings = ⟨visit, ended.1, taken⟩ :: world.outings ∧
      last.scripts = visit.scripts ns known ++ (visit.scripts ns opened.schema ++ world.scripts) := by
  have hbegun := @Next.begun ns world site opened visit hopened hfree hrevision
  have hrun : ((opened.handle.begin visit opened.schema) >>= Prod.snd).run Session.Station.answer
      (world.station opened.cache) = (ended, later) := by
    rw [Handle.begin_bind]
    exact hvisit
  obtain ⟨last, known, taken, hruns, hlast⟩ := @runs_errand ns
    { world with
      errands := ⟨site, opened.cache, visit, .locked (opened.handle.begin visit opened.schema), []⟩ ::
        world.errands
      scripts := visit.scripts ns opened.schema ++ world.scripts }
    _ _ _ rfl rfl _ _ hrun
  exact ⟨last, known, taken, .head hbegun hruns, hlast⟩

end inOneGo

end

/-- A world with an empty store, to which nobody has come. -/
def empty : World where
  store := {}
  caches _ := {}
  handles := []
  errands := []
  outings := []
  scripts := []

/-- A handle that stores the first schema. -/
def pioneer : Session.Opened :=
  ⟨⟨"p", isValidName_p, true⟩, .unloaded, "a"⟩

/-- A handle, with a cache of its own, that comes too late. -/
def rival : Session.Opened :=
  ⟨⟨"p", isValidName_p, true⟩, .unloaded, "b"⟩

theorem setSchemaAs_empty : ((∅ : Keyspace).setSchemaAs "p" 1 peopleJson .unloaded).1.1 = .ok () := by
  have hbefore : (∅ : Keyspace).beforeSetting "p" .unloaded = .ok .unloaded := rfl
  simp only [Keyspace.setSchemaAs, people_ofJson, hbefore]
  rfl

/-- Both handles are open, and the rival has looked for a schema and found none, but has not gone on. -/
structure RivalWaits (world : World) : Prop where
  handles : world.handles.length = 2
  errand : ∃ rest taken, world.errands = [⟨1, "b", .setSchema 2 peopleJson, .locked rest, taken⟩] ∧
    rest >>= Prod.snd = (submit rival.handle people 2).run.run .unloaded
  plain : world.store.Plain (· = setSchemaProgram "p")
  scripts : ∀ program ∈ world.scripts, program = setSchemaProgram "p"

theorem rival_looks : ∃ looked, Runs "p" empty looked ∧ RivalWaits looked ∧ looked.handles[0]? = some pioneer ∧
    looked.outings = [] ∧ looked.store.memory.space = ∅ := by
  obtain ⟨next, hbegin, hnext⟩ := @Handle.begin_setSchema rival.handle 2 _ _ (by decide) people_ofJson
  have hopened : Next "p" empty { empty with handles := [pioneer] } := .opened pioneer.handle "a" rfl
  have hboth : Next "p" { empty with handles := [pioneer] } { empty with handles := [pioneer, rival] } :=
    .opened rival.handle "b" rfl
  have hbegun := @Next.begun "p" { empty with handles := [pioneer, rival] } 1 rival (.setSchema 2 peopleJson) rfl
    nofun (fun _ _ hsame => by cases hsame; decide)
  refine ⟨_, .head hopened (.head hboth (.head hbegun (.single
    (.locked [] [] _ _ next rfl (congrArg Stage.locked hbegin))))), ⟨rfl, ⟨_, _, rfl, hnext⟩, ?_, ?_⟩, rfl, rfl, rfl⟩
  · exact ⟨rfl, fun digest program hfound => by cases hfound⟩
  · exact fun program hmem => List.mem_singleton.1 hmem

/-- Before the rival goes on, the pioneer stores its schema. -/
theorem pioneer_stores : ∃ met taken, Runs "p" empty met ∧ RivalWaits met ∧
    met.outings = [⟨.setSchema 1 peopleJson, .ok (), taken⟩] ∧
    SchemaStored "p" people 1 met.store.memory.space := by
  obtain ⟨looked, hlooked, hwaits, hpioneer, houtings, hempty⟩ := rival_looks
  obtain ⟨rest, taken, herrands, hrest⟩ := hwaits.errand
  obtain ⟨between, hvisit, hbetween, hspace⟩ :=
    (@Client.on_setSchema _ (looked.station "a") pioneer.handle) hwaits.plain
      (fun _ _ ha hb _ => ha.trans hb.symm) rfl 1 peopleJson .unloaded
  obtain ⟨met, _, taken', hmet, hlength, herrands', hstation, houtings', hscripts⟩ :=
    @runs_visit "p" looked 0 pioneer (.setSchema 1 peopleJson) hpioneer
      (by rw [herrands]; simp) (fun _ _ hsame => by cases hsame; decide) _ _ hvisit
  have hstore : met.store = between.store := congrArg Session.Station.store hstation
  change between.store.memory.space = (looked.store.memory.space.setSchemaAs "p" 1 peopleJson .unloaded).2 at hspace
  change met.outings = ⟨_, (looked.store.memory.space.setSchemaAs "p" 1 peopleJson .unloaded).1.1, _⟩ :: _
    at houtings'
  rw [hempty, setSchemaAs_empty, houtings] at houtings'
  obtain ⟨schema, hschema, -, -, hstored⟩ := SchemaStored.of_setSchemaAs setSchemaAs_empty
  rw [← hempty, ← hspace, ← hstore] at hstored
  cases people_ofJson.symm.trans hschema
  refine ⟨met, taken', hlooked.trans hmet, ⟨hlength.trans hwaits.handles,
    ⟨rest, taken, herrands'.trans herrands, hrest⟩, ?_, ?_⟩, houtings', hstored⟩
  · rwa [hstore]
  · rw [hscripts]
    simpa [Visit.scripts, Visit.setsSchema] using hwaits.scripts

/-- A rival looks for a schema and finds none, but the pioneer stores one before the rival goes on. What the
rival then brings is refused, and both agree with what is stored. -/
theorem agree_rivals : ∃ last, Runs "p" empty last ∧ last.handles.length = 2 ∧
    (∃ outing ∈ last.outings, outing.visit = .setSchema 1 peopleJson ∧ outing.result = .ok ()) ∧
    (∃ outing ∈ last.outings, outing.visit = .setSchema 2 peopleJson ∧ outing.result ≠ .ok ()) ∧
    SchemaStored "p" people 1 last.store.memory.space := by
  obtain ⟨met, _, hmet, hwaits, houtings, hstored⟩ := pioneer_stores
  obtain ⟨rest, _, herrands, hrest⟩ := hwaits.errand
  obtain ⟨_, hsubmit, -, -⟩ := (@Client.on_submit _ (met.station "b") rival.handle) hwaits.plain
    (fun _ _ ha hb _ => ha.trans hb.symm) rfl people 2 .unloaded
  have hrefused : (met.store.memory.space.acceptSchema "p" people 2 .unloaded).1.1 ≠ .ok () := fun hok =>
    absurd ((hstored.acceptSchema_of_readable people 2 rfl).2.1 hok).2 (by decide)
  obtain ⟨last, _, _, hlast, hlength, -, -, houtings', hscripts⟩ :=
    @runs_errand "p" met _ [] _ herrands rfl _ _
      ((congrArg (Dialog.run Session.Station.answer · (met.station "b")) hrest).trans hsubmit)
  have hscript : ∀ program ∈ last.scripts, program = setSchemaProgram "p" := by
    rw [hscripts]
    simpa [Visit.scripts, Visit.setsSchema] using hwaits.scripts
  have hagree := Runs.agree (hmet.trans hlast) ⟨⟨rfl, fun _ _ h => by cases h⟩, fun _ _ => rfl, rfl, rfl, rfl⟩
    fun a b ha hb _ => (hscript a ha).trans (hscript b hb).symm
  rw [houtings] at houtings'
  have hrival := houtings' ▸ List.mem_cons_self
  have hpioneer := houtings' ▸ List.mem_cons_of_mem _ List.mem_cons_self
  obtain ⟨schema, hschema, hkept⟩ := (hagree.2 _ hpioneer 1 peopleJson rfl).1 rfl
  cases people_ofJson.symm.trans hschema
  exact ⟨last, hmet.trans hlast, hlength.trans hwaits.handles, ⟨_, hpioneer, rfl, rfl⟩,
    ⟨_, hrival, rfl, hrefused⟩, hkept⟩

end World

end DocStore
