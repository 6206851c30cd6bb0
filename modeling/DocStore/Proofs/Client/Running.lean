import DocStore.Proofs.Client.Evaluate
import DocStore.Proofs.Script.Trace
import DocStore.Proofs.Store.Interference

/-!
Running a script while others are at work on the store.

All steps of a client that runs a script are idle, they leave the keyspace alone, up to the one that runs it
(`ensures_evaluate`). So whatever idle steps and the others keep true holds until the script runs, or up to
the end if it is not found: this happens only when others make the store forget it in between.
-/

namespace DocStore

open DocStore.Store DocStore.Client DocStore.Session DocStore.Script

namespace Client

/-- Whether a script ran in the step. -/
def Taken.evaluates (taken : Taken) : Bool :=
  match taken.step with
  | .call (.eval digest _) => taken.before.store.memory.scripts.contains digest
  | _ => false

/-- A step in which no script ran, and that has left the keyspace alone. -/
structure Taken.Idle (programs : Program → Prop) (taken : Taken) : Prop where
  evaluates : taken.evaluates = false
  plain : taken.after.store.Plain programs
  space : taken.after.store.memory.space = taken.before.store.memory.space

namespace Course

/-- The client has called the store. -/
def Called (course : Course) : Prop :=
  ∃ taken ∈ course.taken, ∃ call, taken.step = .call call

/-- The store holds the script. -/
def Holds (program : Program) (course : Course) : Prop :=
  course.station.store.memory.scripts.find? program.compiled.digest = some program

/-- The client takes the script for loaded. -/
def Remembers (program : Program) (course : Course) : Prop :=
  course.station.cache.loaded.contains program.compiled.digest = true

/-- As far as the others leave it so, the script has been loaded (`kept`) and is remembered (`marked`). -/
structure Ready (kept marked : Prop) (program : Program) (course : Course) : Prop where
  holds : kept → course.Called ∧ course.Holds program
  remembers : marked → course.Remembers program

variable {course : Course} {programs : Program → Prop} {program : Program} {params : List String}

theorem Called.answer (h : course.Called) (step : Step) : (course.answer step).2.Called := by
  obtain ⟨taken, hmem, hcall⟩ := h
  exact ⟨taken, List.mem_cons_of_mem _ hmem, hcall⟩

theorem called_answer (course : Course) (call : Call) : (course.answer (.call call)).2.Called :=
  ⟨_, List.mem_cons_self, call, rfl⟩

theorem remembers_mark (course : Course) (program : Program) :
    (course.answer (.markLoaded program.compiled.digest)).2.Remembers program := by
  simp [Remembers, answer, Station.answer, ScriptCache.mark, SortedMap.contains, SortedMap.find?_insert]

theorem idle_isLoaded (hplain : course.station.store.Plain programs) (digest : String) :
    Taken.Idle programs ⟨.isLoaded digest, course.station⟩ :=
  ⟨rfl, hplain, rfl⟩

theorem idle_markLoaded (hplain : course.station.store.Plain programs) (digest : String) :
    Taken.Idle programs ⟨.markLoaded digest, course.station⟩ :=
  ⟨rfl, hplain, rfl⟩

theorem idle_countReload (hplain : course.station.store.Plain programs) :
    Taken.Idle programs ⟨.countReload, course.station⟩ :=
  ⟨rfl, hplain, rfl⟩

/-- A key is read. -/
theorem idle_get (hplain : course.station.store.Plain programs) (key : String) :
    Taken.Idle programs ⟨.call (.get key), course.station⟩ ∧
      (course.answer (.call (.get key))).1 = course.station.store.memory.space.text? key := by
  obtain ⟨later, hget, hlater, hspace⟩ := on_get hplain key
  rw [Talk.on_ask] at hget
  have hafter : (Station.answer (.call (.get key)) course.station).2 = later := congrArg Prod.snd hget
  refine ⟨⟨rfl, ?_, ?_⟩, congrArg Prod.fst hget⟩
  · rwa [Taken.after, hafter]
  · rwa [Taken.after, hafter]

/-- A script is loaded under its digest. -/
theorem idle_load (hplain : course.station.store.Plain programs) (hprogram : programs program) :
    Taken.Idle programs ⟨.call (.load program.compiled), course.station⟩ ∧
      (course.answer (.call (.load program.compiled))).1 = .ok program.compiled.digest ∧
      (course.answer (.call (.load program.compiled))).2.Holds program := by
  obtain ⟨later, hload, hlater, hheld, hspace⟩ := on_ask_load hplain hprogram
  rw [Talk.on_ask] at hload
  have hafter : (Station.answer (.call (.load program.compiled)) course.station).2 = later :=
    congrArg Prod.snd hload
  refine ⟨⟨rfl, ?_, ?_⟩, congrArg Prod.fst hload, ?_⟩
  · rwa [Taken.after, hafter]
  · rwa [Taken.after, hafter]
  · rwa [Holds, answer, hafter]

/-- A script that the store holds runs. -/
theorem Holds.run (h : course.Holds program) (hplain : course.station.store.Plain programs)
    (params : List String) :
    (course.answer (.call (.eval program.compiled.digest params))).1 =
        (program.run params course.station.store.memory.space).1 ∧
      (course.answer (.call (.eval program.compiled.digest params))).2.station.store.Plain programs ∧
      (course.answer (.call (.eval program.compiled.digest params))).2.station.store.memory.space =
        (program.run params course.station.store.memory.space).2 := by
  obtain ⟨later, heval, hlater, hspace⟩ := @on_eval _ _ _ params hplain _ h
  rw [Talk.on_ask] at heval
  rw [answer, heval]
  exact ⟨rfl, hlater, hspace⟩

/-- A script that the store does not hold does not run. -/
theorem idle_eval (hplain : course.station.store.Plain programs)
    (h : course.station.store.memory.scripts.find? program.compiled.digest = none) (params : List String) :
    Taken.Idle programs ⟨.call (.eval program.compiled.digest params), course.station⟩ ∧
      (course.answer (.call (.eval program.compiled.digest params))).1 =
        .error (.noScript program.compiled.digest) := by
  obtain ⟨later, heval, hlater, hspace⟩ := @on_eval_of_none _ _ params hplain _ h
  rw [Talk.on_ask] at heval
  have hafter : (Station.answer (.call (.eval program.compiled.digest params)) course.station).2 = later :=
    congrArg Prod.snd heval
  refine ⟨⟨?_, ?_, ?_⟩, congrArg Prod.fst heval⟩
  · simp [Taken.evaluates, SortedMap.contains, h]
  · rwa [Taken.after, hafter]
  · rwa [Taken.after, hafter]

/-- The run of a script leaves loaded what is so. -/
theorem Holds.eval (h : course.Holds program) (hplain : course.station.store.Plain programs) (digest : String)
    (params : List String) : (course.answer (.call (.eval digest params))).2.Holds program := by
  obtain ⟨later, heval, -, hmemory⟩ := on_call hplain.unrehearsed (.eval digest params)
  rw [Talk.on_ask] at heval
  have hscripts : later.store.memory.scripts = course.station.store.memory.scripts := by
    rw [hmemory]
    simp only [Memory.answer]
    split <;> rfl
  rw [Holds, answer, heval, hscripts]
  exact h

theorem Ready.eval {kept marked : Prop} (h : course.Ready kept marked program)
    (hplain : course.station.store.Plain programs) (digest : String) (params : List String) :
    (course.answer (.call (.eval digest params))).2.Ready kept marked program :=
  ⟨fun hkept => ⟨(h.holds hkept).1.answer _, (h.holds hkept).2.eval hplain _ _⟩, h.remembers⟩

theorem stable_ready {kept marked : Prop} {rely : Course → Station → Prop}
    (hkept : kept → Stable rely fun course => course.Called ∧ course.Holds program)
    (hmarked : marked → Stable rely fun course => course.Remembers program) :
    Stable rely (Ready kept marked program) :=
  fun course station hrely h =>
    ⟨fun hcondition => hkept hcondition course station hrely (h.holds hcondition),
      fun hcondition => hmarked hcondition course station hrely (h.remembers hcondition)⟩

end Course

/-- What holds up to the run of a script, and what from then on. -/
structure Carries (rely : Course → Station → Prop) (guar : Taken → Prop) (programs : Program → Prop)
    (program : Program) (params : List String) (before : Course → Prop)
    (ran : Except StoreError Reply → Course → Prop) : Prop where
  plain : ∀ course, before course → course.station.store.Plain programs
  stable : Stable rely before
  idle : ∀ course step, before course → Taken.Idle programs ⟨step, course.station⟩ →
    guar ⟨step, course.station⟩ ∧ before (course.answer step).2
  runs : ∀ course, before course → course.Holds program →
    guar ⟨.call (.eval program.compiled.digest params), course.station⟩ ∧
      ran (program.run params course.station.store.memory.space).1
        (course.answer (.call (.eval program.compiled.digest params))).2
  plain_ran : ∀ result course, ran result course → course.station.store.Plain programs
  stable_ran : ∀ result, Stable rely (ran result)
  idle_ran : ∀ result course step, ran result course → Taken.Idle programs ⟨step, course.station⟩ →
    guar ⟨step, course.station⟩ ∧ ran result (course.answer step).2

/-- How it ends: the script was not found, which happens only if others have made the store forget it, or it
ran, and if it succeeded it is loaded and remembered as far as the others leave it so. -/
def Ended (kept marked : Prop) (program : Program) (before : Course → Prop)
    (ran : Except StoreError Reply → Course → Prop) (result : Except StoreError Reply) (course : Course) : Prop :=
  (result = .error (.noScript program.compiled.digest) ∧ ¬kept ∧ before course) ∨
    ran result course ∧ ∀ reply, result = .ok reply → course.Ready kept marked program

section rules

variable {rely : Course → Station → Prop} {guar : Taken → Prop} {programs : Program → Prop} {program : Program}
  {params : List String} {before : Course → Prop} {ran : Except StoreError Reply → Course → Prop}
  {kept marked : Prop}

/-- The store holds a program of its own under the script's digest, or nothing. -/
theorem Carries.held (h : Carries rely guar programs program params before ran)
    (hdiffer : DigestsDiffer programs) (hprogram : programs program) {course : Course} (hcourse : before course) :
    course.Holds program ∨ course.station.store.memory.scripts.find? program.compiled.digest = none := by
  cases hfound : course.station.store.memory.scripts.find? program.compiled.digest with
  | none => exact .inr rfl
  | some found =>
    obtain ⟨hprograms, hdigest⟩ := (h.plain course hcourse).loaded _ _ hfound
    exact .inl (hfound.trans (congrArg some (hdiffer _ _ hprograms hprogram hdigest)))

/-- A script is loaded, and remembered. -/
theorem Carries.load (h : Carries rely guar programs program params before ran) (hprogram : programs program)
    (hkept : kept → Stable rely fun course => course.Called ∧ course.Holds program)
    (hmarked : marked → Stable rely fun course => course.Remembers program) :
    (Client.load program.compiled).Ensures rely guar before fun result course =>
      result = .ok () ∧ before course ∧ course.Ready kept marked program := by
  have hasked : (Call.load program.compiled).ask.Ensures rely guar before fun answer course =>
      answer = .ok program.compiled.digest ∧ before course ∧
        (kept → course.Called ∧ course.Holds program) := by
    refine Talk.Ensures.ask (fun answer => (Stable.const _).and (h.stable.and (.imp hkept)))
      fun course hcourse => ?_
    obtain ⟨hidle, hanswer, hholds⟩ := Course.idle_load (h.plain course hcourse) hprogram
    obtain ⟨hguar, hafter⟩ := h.idle course _ hcourse hidle
    exact ⟨hguar, hanswer, hafter, fun _ => ⟨course.called_answer _, hholds⟩⟩
  refine Talk.Ensures.bind hasked (fun digest => ?_) ?_
  · by_cases hdigest : digest = program.compiled.digest
    · subst hdigest
      rw [if_pos rfl]
      refine Talk.Ensures.step (fun _ course => before course ∧ course.Ready kept marked program)
        (fun _ => h.stable.and (Course.stable_ready hkept hmarked)) ?_ fun _ => ?_
      · rintro course ⟨-, hcourse, hholds⟩
        obtain ⟨hguar, hafter⟩ := h.idle course _ hcourse (Course.idle_markLoaded (h.plain course hcourse) _)
        exact ⟨hguar, hafter, fun hcondition => ⟨(hholds hcondition).1.answer _, (hholds hcondition).2⟩,
          fun _ => course.remembers_mark program⟩
      · exact Talk.Ensures.done rfl fun course hcourse => ⟨rfl, hcourse⟩
    · rw [if_neg hdigest]
      refine Talk.Ensures.done rfl fun course hcourse => ?_
      exact absurd (Except.ok.inj hcourse.1) hdigest
  · rintro e course ⟨hanswer, -⟩
    cases hanswer

theorem Carries.stable_ended (h : Carries rely guar programs program params before ran)
    (hkept : kept → Stable rely fun course => course.Called ∧ course.Holds program)
    (hmarked : marked → Stable rely fun course => course.Remembers program)
    (result : Except StoreError Reply) : Stable rely (Ended kept marked program before ran result) :=
  ((Stable.const _).and ((Stable.const _).and h.stable)).or
    ((h.stable_ran result).and (.all fun _ => .imp fun _ => Course.stable_ready hkept hmarked))

/-- A loaded script runs, if it still is. -/
theorem Carries.eval (h : Carries rely guar programs program params before ran)
    (hdiffer : DigestsDiffer programs) (hprogram : programs program)
    (hkept : kept → Stable rely fun course => course.Called ∧ course.Holds program)
    (hmarked : marked → Stable rely fun course => course.Remembers program) :
    (Call.eval program.compiled.digest params).ask.Ensures rely guar
      (fun course => before course ∧ course.Ready kept marked program)
      (Ended kept marked program before ran) := by
  refine Talk.Ensures.ask (h.stable_ended hkept hmarked) ?_
  rintro course ⟨hcourse, hready⟩
  have hplain := h.plain course hcourse
  rcases h.held hdiffer hprogram hcourse with hholds | hnone
  · obtain ⟨hguar, hran⟩ := h.runs course hcourse hholds
    rw [(hholds.run hplain params).1]
    exact ⟨hguar, .inr ⟨hran, fun _ _ => hready.eval hplain _ _⟩⟩
  · obtain ⟨hidle, hanswer⟩ := Course.idle_eval hplain hnone params
    obtain ⟨hguar, hafter⟩ := h.idle course _ hcourse hidle
    refine ⟨hguar, .inl ⟨hanswer, fun hcondition => ?_, hafter⟩⟩
    have hholds := (hready.holds hcondition).2
    rw [Course.Holds, hnone] at hholds
    cases hholds

/-- A script is loaded and then runs, if it still is. -/
theorem Carries.load_eval (h : Carries rely guar programs program params before ran)
    (hdiffer : DigestsDiffer programs) (hprogram : programs program)
    (hkept : kept → Stable rely fun course => course.Called ∧ course.Holds program)
    (hmarked : marked → Stable rely fun course => course.Remembers program) :
    Talk.Ensures rely guar
      (do Client.load program.compiled; (Call.eval program.compiled.digest params).ask : Talk Reply) before
      (Ended kept marked program before ran) := by
  refine Talk.Ensures.bind (h.load hprogram hkept hmarked) (fun _ => ?_) ?_
  · exact (h.eval hdiffer hprogram hkept hmarked).weaken (fun _ hcourse => hcourse.2) fun _ _ => id
  · rintro e course ⟨hresult, -⟩
    cases hresult

/-- What holds once the script has been tried at once. -/
def Tried (kept marked : Prop) (program : Program) (known : Bool) (before : Course → Prop)
    (ran : Except StoreError Reply → Course → Prop) (result : Except StoreError Reply) (course : Course) : Prop :=
  (result = .error (.noScript program.compiled.digest) ∧ before course) ∨
    ran result course ∧ Raises result ∧ course.Ready kept (marked ∧ known = true) program

/-- A script is tried at once. -/
theorem Carries.try (h : Carries rely guar programs program params before ran)
    (hdiffer : DigestsDiffer programs) (hprogram : programs program)
    (hkept : kept → Stable rely fun course => course.Called ∧ course.Holds program)
    (hmarked : marked → Stable rely fun course => course.Remembers program) (known : Bool) :
    (Call.eval program.compiled.digest params).ask.Ensures rely guar
      (fun course => before course ∧ (marked ∧ known = true → course.Remembers program))
      (Tried kept marked program known before ran) := by
  refine Talk.Ensures.ask (fun result => ?_) ?_
  · exact ((Stable.const _).and h.stable).or ((h.stable_ran result).and ((Stable.const _).and
      (Course.stable_ready hkept fun hcondition => hmarked hcondition.1)))
  · rintro course ⟨hcourse, hremembers⟩
    have hplain := h.plain course hcourse
    rcases h.held hdiffer hprogram hcourse with hholds | hnone
    · obtain ⟨hguar, hran⟩ := h.runs course hcourse hholds
      rw [(hholds.run hplain params).1]
      exact ⟨hguar, .inr ⟨hran, program.raises_run params _,
        fun _ => ⟨course.called_answer _, hholds.eval hplain _ _⟩, hremembers⟩⟩
    · obtain ⟨hidle, hanswer⟩ := Course.idle_eval hplain hnone params
      obtain ⟨hguar, hafter⟩ := h.idle course _ hcourse hidle
      exact ⟨hguar, .inl ⟨hanswer, hafter⟩⟩

/-- A script that a client runs, loaded first or when it is not found. -/
theorem Carries.evaluate (h : Carries rely guar programs program params before ran)
    (hdiffer : DigestsDiffer programs) (hprogram : programs program)
    (hkept : kept → Stable rely fun course => course.Called ∧ course.Holds program)
    (hmarked : marked → Stable rely fun course => course.Remembers program) (preload : Bool) :
    (Client.evaluate preload program.compiled params).Ensures rely guar before
      (Ended kept marked program before ran) := by
  have hload := h.load_eval hdiffer hprogram hkept hmarked
  refine Talk.Ensures.step
    (fun known course => before course ∧ (marked ∧ known = true → course.Remembers program))
    (fun known => h.stable.and (.imp fun hcondition => hmarked hcondition.1)) ?_ fun known => ?_
  · intro course hcourse
    obtain ⟨hguar, hafter⟩ := h.idle course _ hcourse
      (Course.idle_isLoaded (h.plain course hcourse) program.compiled.digest)
    refine ⟨hguar, hafter, fun hcondition => ?_⟩
    have hlooked := hcondition.2
    simp only [Course.answer, Station.answer, ScriptCache.look, Course.Remembers] at hlooked ⊢
    split at hlooked
    · rename_i hcontained
      rwa [if_pos hcontained]
    · cases hlooked
  · by_cases hpreload : (!known && preload) = true
    · rw [if_pos hpreload]
      exact hload.weaken (fun _ hcourse => hcourse.1) fun _ _ => id
    · rw [if_neg hpreload]
      refine Talk.Ensures.result (h.try hdiffer hprogram hkept hmarked known) fun found => ?_
      cases found with
      | ok reply =>
        cases known with
        | true =>
          refine Talk.Ensures.done rfl fun course htried => .inr ?_
          rcases htried with ⟨hresult, -⟩ | ⟨hran, -, hready⟩
          · cases hresult
          · exact ⟨hran, fun _ _ => ⟨hready.holds, fun hcondition => hready.remembers ⟨hcondition, rfl⟩⟩⟩
        | false =>
          refine Talk.Ensures.step (fun _ => Ended kept marked program before ran (.ok reply))
            (fun _ => h.stable_ended hkept hmarked _) (fun course htried => ?_) fun _ => .done rfl fun _ => id
          rcases htried with ⟨hresult, -⟩ | ⟨hran, -, hready⟩
          · cases hresult
          · obtain ⟨hguar, hafter⟩ := h.idle_ran _ course _ hran
              (Course.idle_markLoaded (h.plain_ran _ course hran) program.compiled.digest)
            refine ⟨hguar, .inr ⟨hafter, fun _ _ => ⟨fun hcondition => ?_, fun _ => course.remembers_mark _⟩⟩⟩
            obtain ⟨hcalled, hholds⟩ := hready.holds hcondition
            exact ⟨hcalled.answer _, hholds⟩
      | error e =>
        have hraised : (∀ digest, e ≠ .noScript digest) →
            (throw e : Talk Reply).Ensures rely guar (Tried kept marked program known before ran (.error e))
              (Ended kept marked program before ran) := by
          intro hother
          refine Talk.Ensures.done rfl fun course htried => .inr ?_
          rcases htried with ⟨hresult, -⟩ | ⟨hran, -, -⟩
          · exact absurd (Except.error.inj hresult) (hother _)
          · exact ⟨hran, fun _ hok => by cases hok⟩
        cases e with
        | noScript digest =>
          refine Talk.Ensures.step (fun _ => before) (fun _ => h.stable) (fun course htried => ?_) fun _ => hload
          rcases htried with ⟨-, hcourse⟩ | ⟨-, hraises, -⟩
          · exact h.idle course _ hcourse (Course.idle_countReload (h.plain course hcourse))
          · exact absurd (hraises _ rfl) id
        | _ => exact hraised fun _ h => by cases h

end rules

end Client

end DocStore
