import DocStore.Proofs.Operation.Reachable
import DocStore.Proofs.Schema.Reader

/-!
A script of several operations against the scripts of the single ones.

The single scripts run one after another up to the first whose reply stops. If none does, the one script
for all of them comes to the same; if one does, it comes to that reply, but what was done is undone. Only
the counters stay where the single scripts took them.
-/

namespace DocStore

open DocStore.Script DocStore.Layout

/-- Whether no script runs after one with this reply: it has an error tag, or says that there is no
such record. -/
def Reply.stops : Reply → Bool
  | .array (.bulk method :: .bulk tag :: payload) =>
    tag ≠ noError || (method = Method.exists.name && payload = [.int 0])
  | _ => false

/-- Runs scripts one after another, up to the first that fails or whose reply stops. -/
def runOneByOne (space : Keyspace) (last : Reply) :
    List (Program × List String) → Except StoreError Reply × Keyspace
  | [] => (.ok last, space)
  | (program, params) :: rest =>
    match program.run params space with
    | (.error e, space) => (.error e, space)
    | (.ok reply, space) => if reply.stops then (.ok reply, space) else runOneByOne space reply rest

/-- No counter of the schema runs over its limit while scripts run one after another. -/
def CountersFitEach (ns : String) (schema : Schema) (space : Keyspace) : List (Program × List String) → Prop
  | [] => True
  | (program, params) :: rest =>
    CountersFit ns schema program params space ∧
      ∀ reply after, program.run params space = (.ok reply, after) → reply.stops = false →
        CountersFitEach ns schema after rest

theorem Verdict.stops_reply (verdict : Verdict) : verdict.reply.stops = verdict.stops := by
  cases verdict with
  | created | updated | deleted | row | size => rfl
  | notFound method => cases method <;> rfl
  | notUnique method indices => cases method <;> rfl
  | «exists» found => cases found <;> rfl
  | ids method found => cases method <;> simp [reply, stops, Reply.stops]

theorem Verdict.stops_toReply (verdict : Verdict) : verdict.value.toReply.stops = verdict.stops := by
  rw [toReply_value, stops_reply]

theorem stops_lastValue (last : Option Verdict) :
    (lastValue last).toReply.stops = last.any Verdict.stops := by
  cases last with
  | none => rfl
  | some verdict => exact verdict.stops_toReply

section Steps

variable {ns : String} {schema : Schema} {library : Library} {space : Keyspace} {task : Task}

/-- One task on its own leaves what the model leaves, whether it stops or not. -/
theorem Library.batch_one (library : Library) (task : Task) :
    library.batch [task] = (some (library.perform task).1, (library.perform task).2) := by
  cases hstops : (library.perform task).1.stops with
  | true =>
    rw [batch_of_stops (performAll_of_stops hstops none) (by simpa using hstops), restore_perform hstops]
  | false => exact batch_of_next (performAll_of_next hstops none) (by simpa using hstops)

/-- Scripts of single tasks, one after another, do what the model does one by one, unless a counter runs over its
limit. -/
theorem runOneByOne_tasks (hschema : schema.WellFormed) {tasks : List Task}
    (hfits : ∀ task ∈ tasks, task.Fits schema) (hsound : library.Sound schema)
    (hcanonical : Canonical ns schema library space) (hrange : library.InRange schema) {last : Option Verdict}
    (hcounters : CountersFitEach ns schema space (tasks.map fun task => Task.script ns [task])) :
    ∃ after, runOneByOne space (lastValue last).toReply (tasks.map fun task => Task.script ns [task]) =
        (.ok (lastValue (library.performAll last tasks).1).toReply, after) ∧
      library.CanDraw tasks ∧ Canonical ns schema (library.performAll last tasks).2 after ∧
      ∀ key, ¬SchemaCounter ns schema key → ¬SchemaData ns schema key →
        after.find? key = space.find? key := by
  induction tasks generalizing library space last with
  | nil => exact ⟨space, rfl, trivial, hcanonical, fun _ _ _ => rfl⟩
  | cons task rest ih =>
    have hfit : ∀ other ∈ [task], other.Fits schema := by
      intro other hother
      rw [List.mem_singleton.1 hother]
      exact hfits task List.mem_cons_self
    have hdraw : library.CanDraw [task] :=
      Task.canDraw_of_countersFit hschema hfit hsound hcanonical hrange hcounters.1
    obtain ⟨between, hrun, hbetween, hframe⟩ := Task.run_script hschema hfit hsound hcanonical hdraw
    rw [Library.batch_one] at hrun hbetween
    have hsound' := Library.sound_perform hsound (hfits task List.mem_cons_self)
    have hstep : runOneByOne space (lastValue last).toReply
        ((task :: rest).map fun task => Task.script ns [task]) =
          if (library.perform task).1.stops then
            (.ok (lastValue (some (library.perform task).1)).toReply, between)
          else runOneByOne between (lastValue (some (library.perform task).1)).toReply
            (rest.map fun task => Task.script ns [task]) := by
      rw [List.map_cons, ← Verdict.stops_toReply]
      conv_lhs => unfold runOneByOne
      rw [hrun]
      rfl
    rw [hstep]
    cases hstops : (library.perform task).1.stops with
    | true =>
      rw [if_pos rfl, Library.performAll_of_stops hstops]
      exact ⟨between, rfl, ⟨hdraw.1, fun h => absurd h (by simp [hstops])⟩, hbetween, hframe⟩
    | false =>
      rw [if_neg (by simp), Library.performAll_of_next hstops]
      have hrest := hcounters.2 _ _ hrun (by rw [lastValue, Verdict.stops_toReply, hstops])
      obtain ⟨after, hrun', hdraws, hafter, hframe'⟩ := ih
        (fun other hother => hfits other (List.mem_cons_of_mem _ hother)) hsound' hbetween
        (hrange.perform hdraw.1) hrest
      refine ⟨after, hrun', ⟨hdraw.1, fun _ => hdraws⟩, hafter, fun key hcounter hdata => ?_⟩
      exact (hframe' key hcounter hdata).trans (hframe key hcounter hdata)

/-- Scripts built one by one are those of the tasks of the whole list. -/
theorem Build.tasks_of_each {ops : List Operation} {scripts : List (Program × List String)}
    (h : List.Forall₂ (fun op script => (ofList ns schema [op]).finish = .ok (some script)) ops scripts) :
    ∃ tasks, Operation.checkAll schema ops = .ok tasks ∧
      scripts = tasks.map fun task => Task.script ns [task] := by
  induction h with
  | nil => exact ⟨[], rfl, rfl⟩
  | @cons op script ops scripts hbuild _ ih =>
    obtain ⟨tasks, hcheck, rfl⟩ := ih
    obtain ⟨found, hfound, -, hprogram, hparams⟩ := tasks_of_finish hbuild
    obtain ⟨task, others, htask, hothers, rfl⟩ := Operation.exists_of_checkAll_cons hfound
    cases hothers
    refine ⟨task :: tasks, ?_, ?_⟩
    · simp only [Operation.checkAll, htask, hcheck]
      rfl
    · rw [List.map_cons, ← Prod.ext hprogram hparams]

/-- A counter that is not one of the schema's is none of its other keys either. -/
theorem not_data_of_counter (hschema : schema.WellFormed) {key : String} (h : CounterKey ns key) :
    ¬SchemaData ns schema key := by
  rintro ⟨name, coll, hcoll, hdata⟩
  obtain ⟨hname, hwell⟩ := hschema.collection hcoll
  exact not_counter_of_data hname hwell hdata h

theorem counter_of_schema (hschema : schema.WellFormed) {key : String} (h : SchemaCounter ns schema key) :
    CounterKey ns key := by
  obtain ⟨name, coll, hcoll, rfl⟩ := h
  exact ⟨name, (hschema.collection hcoll).1, rfl⟩

end Steps

/-- One script for several operations is its operations one by one, or nothing but the ids they drew. -/
theorem run_eq_runOneByOne {value : Json} {schema : Schema} {ns : String} {space : Keyspace}
    {ops : List Operation} {scripts : List (Program × List String)}
    (hschema : Schema.ofJson value = .ok schema) (hreachable : Reachable ns schema space)
    (hops : ops ≠ [])
    (hbuild : List.Forall₂ (fun op script =>
      (Build.ofList ns schema [op]).finish = .ok (some script)) ops scripts)
    (hcounters : CountersFitEach ns schema space scripts) :
    ∃ program params reply after, (Build.ofList ns schema ops).finish = .ok (some (program, params)) ∧
      program.run params space = (.ok reply, after) ∧ (runOneByOne space .nil scripts).1 = .ok reply ∧
      if reply.stops then
        (∀ key, CounterKey ns key → after.find? key = (runOneByOne space .nil scripts).2.find? key) ∧
          ∀ key, ¬CounterKey ns key → after.find? key = space.find? key
      else after = (runOneByOne space .nil scripts).2 := by
  have hwell := Schema.wellFormed_of_ofJson hschema
  obtain ⟨library, hsound, hrange, hcanonical⟩ := hreachable.canonical hwell
  obtain ⟨tasks, hcheck, rfl⟩ := Build.tasks_of_each hbuild
  obtain ⟨hlength, hfits⟩ := Operation.fits_of_checkAll hwell hcheck
  -- The reply that the run starts with is never seen, as there are operations.
  have hlast : runOneByOne space .nil (tasks.map fun task => Task.script ns [task]) =
      runOneByOne space (lastValue none).toReply (tasks.map fun task => Task.script ns [task]) := by
    cases tasks with
    | nil => exact absurd (List.length_eq_zero_iff.1 hlength.symm) hops
    | cons task rest => rfl
  rw [hlast]
  obtain ⟨final, hsingle, hdraw, hfinal, hframe⟩ :=
    runOneByOne_tasks hwell hfits hsound hcanonical hrange hcounters
  obtain ⟨after, hrun, hafter, hframe'⟩ := Task.run_script hwell hfits hsound hcanonical hdraw
  have hfinish : (Build.ofList ns schema ops).finish = .ok (some (Task.script ns tasks)) := by
    rw [Build.finish_ofList, hcheck]
    cases tasks with
    | nil => exact absurd (List.length_eq_zero_iff.1 hlength.symm) hops
    | cons task rest => rfl
  rw [hsingle]
  generalize hresult : library.performAll none tasks = result at *
  obtain ⟨last, later⟩ := result
  have hdrawn : ∀ name, (library name).drawn ≤ (later name).drawn := by
    intro name
    have hle := Library.drawn_le_performAll library none tasks name
    rwa [hresult] at hle
  cases hstops : last.any Verdict.stops with
  | false =>
    rw [Library.batch_of_next hresult hstops] at hrun hafter
    refine ⟨_, _, _, after, hfinish, hrun, rfl, ?_⟩
    rw [stops_lastValue, hstops, if_neg (by simp)]
    exact hfinal.eq_of_frame hafter fun key hcounter hdata =>
      (hframe' key hcounter hdata).trans (hframe key hcounter hdata).symm
  | true =>
    rw [Library.batch_of_stops hresult hstops] at hrun hafter
    refine ⟨_, _, _, after, hfinish, hrun, rfl, ?_⟩
    rw [stops_lastValue, hstops, if_pos rfl]
    refine ⟨fun key hkey => ?_, fun key hkey => ?_⟩
    · have hdata := not_data_of_counter hwell hkey
      by_cases hcounter : SchemaCounter ns schema key
      · exact hfinal.find?_counter hafter (fun _ => rfl) hcounter
      · exact (hframe' key hcounter hdata).trans (hframe key hcounter hdata).symm
    · have hcounter : ¬SchemaCounter ns schema key := fun h => hkey (counter_of_schema hwell h)
      by_cases hdata : SchemaData ns schema key
      · exact hcanonical.find?_data hsound hafter (Library.sound_restore hsound hdrawn) (fun _ => rfl) hdata
      · exact hframe' key hcounter hdata

/-- The addition of a person, and its task. -/
def addAda : Operation := .create "people" (.ofList [("name", .text "Ada")])

/-- The task of that operation. -/
def addAdaTask : Task := ⟨"people", peopleFields, .create [("name", "Ada")]⟩

theorem finish_addAda : (Build.ofList "p" people [addAda]).finish =
    .ok (some (Task.script "p" [addAdaTask])) := by
  rw [Build.finish_ofList]
  rfl

/-- Only the counter of the people matters for how far the addition takes counters. -/
theorem countersFit_addAda {space : Keyspace} {ids : List Int}
    (hdraws : (Task.script "p" [addAdaTask]).1.draws (nextIdKey "p" "people") (Task.script "p" [addAdaTask]).2 space =
      ids) (hids : ∀ id ∈ ids, 0 < id) :
    CountersFit "p" people (Task.script "p" [addAdaTask]).1 (Task.script "p" [addAdaTask]).2 space := by
  intro name coll hcoll
  rw [(collection?_people hcoll).1, hdraws]
  exact hids

/-- A person cannot be added twice, so that nothing is added at all. -/
theorem run_eq_runOneByOne_twice :
    ∃ program params reply after,
      (Build.ofList "p" people [addAda, addAda]).finish = .ok (some (program, params)) ∧
      program.run params ∅ = (.ok reply, after) ∧
      (runOneByOne ∅ .nil [Task.script "p" [addAdaTask], Task.script "p" [addAdaTask]]).1 = .ok reply ∧
      if reply.stops then
        (∀ key, CounterKey "p" key → after.find? key =
          (runOneByOne ∅ .nil [Task.script "p" [addAdaTask], Task.script "p" [addAdaTask]]).2.find? key) ∧
          ∀ key, ¬CounterKey "p" key → after.find? key = (∅ : Keyspace).find? key
      else after = (runOneByOne ∅ .nil [Task.script "p" [addAdaTask], Task.script "p" [addAdaTask]]).2 := by
  refine run_eq_runOneByOne people_ofJson (.start fun key _ h => absurd (SortedMap.find?_empty key) h)
    (by simp) (.cons finish_addAda (.cons finish_addAda .nil)) ⟨?_, fun reply after hrun _ => ⟨?_, ?_⟩⟩
  · exact @countersFit_addAda _ [1] (by decide +kernel) (by decide)
  · obtain rfl : ((Task.script "p" [addAdaTask]).1.run (Task.script "p" [addAdaTask]).2 ∅).2 = after := congrArg Prod.snd hrun
    exact @countersFit_addAda _ [2] (by decide +kernel) (by decide)
  · exact fun _ _ _ _ => trivial

end DocStore
