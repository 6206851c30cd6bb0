import DocStore.Proofs.Client.Running

/-!
A script that a client runs is run once, or not at all.

Between the steps of the client others do what they like, according to how far it has come: they call the
store, load scripts and run them, make the store forget them, and change what the client remembers as
loaded. The client still ends with the result of a single run, on the keyspace as it was then, or finds no
script and has run none (`evaluateAmid_once`); and this only if the store is made to forget it in between.
-/

namespace DocStore

open DocStore.Store DocStore.Client DocStore.Session DocStore.Script

namespace Client

/-- What others do to the station of a client. -/
inductive Deed where
  /-- A step of another client, which may share what is remembered as loaded. -/
  | step (made : Step)
  /-- The store forgets every script. -/
  | flush
  /-- Nothing is remembered as loaded any more. -/
  | clear

/-- Where a deed leaves the station. -/
def Deed.on (station : Station) : Deed → Station
  | .step made => (Station.answer made station).2
  | .flush =>
    { station with store := { station.store with memory := station.store.memory.flushScripts } }
  | .clear => { station with cache := station.cache.clear }

/-- Where deeds leave the station, one after another. -/
def Deed.onAll (station : Station) (deeds : List Deed) : Station :=
  deeds.foldl (fun station deed => deed.on station) station

/-- No other scripts than of these programs are loaded. -/
def Deed.Loads (programs : Program → Prop) : Deed → Prop
  | .step (.call (.load script)) => programs script.program
  | _ => True

/-- Runs a script while others do what they like before every step. -/
def evaluateAmid (others : Course → List Deed) (preload : Bool) (program : Program) (params : List String)
    (station : Station) : Except StoreError Reply × Course :=
  (evaluate preload program.compiled params).run.run
    (Course.amid fun course => Deed.onAll course.station (others course)) ⟨station, []⟩

/-- The steps in which a script ran. -/
def Course.evaluations (course : Course) : List Taken :=
  course.taken.filter Taken.evaluates

/-- One script ran, this one, with this result. -/
def Course.Ran (program : Program) (params : List String) (result : Except StoreError Reply) (course : Course) :
    Prop :=
  ∃ run : Taken, course.evaluations = [run] ∧ run.step = .call (.eval program.compiled.digest params) ∧
    result = (program.run params run.before.store.memory.space).1 ∧
    run.after.store.memory.space = (program.run params run.before.store.memory.space).2

section deeds

variable {programs : Program → Prop} {station : Station} {program : Program}

/-- A step loads the script that it asks the store to load, and leaves all others as they are. -/
theorem scripts_step (station : Station) (made : Step) :
    (Station.answer made station).2.store.memory.scripts = station.store.memory.scripts ∨
      ∃ script, made = .call (.load script) ∧ (Station.answer made station).2.store.memory.scripts =
        station.store.memory.scripts.insert script.digest script.program := by
  cases made with
  | isLoaded | markLoaded | countReload => exact .inl rfl
  | call call =>
    simp only [Station.answer, Rehearsed.answer]
    cases Rehearsed.takeCue? call.kind station.store.cues with
    | some cue => exact .inl rfl
    | none =>
      cases call with
      | load script => exact .inr ⟨script, rfl, rfl⟩
      | get | set | incr => exact .inl rfl
      | command name args =>
        dsimp only [Memory.answer]
        cases Command.ofName? name <;> exact .inl rfl
      | eval digest params =>
        dsimp only [Memory.answer]
        cases station.store.memory.scripts.find? digest <;> exact .inl rfl

/-- A store that has not been rehearsed stays so. -/
theorem cues_step (hcues : station.store.cues = []) (made : Step) :
    (Station.answer made station).2.store.cues = [] := by
  cases made with
  | isLoaded | markLoaded | countReload => exact hcues
  | call call =>
    obtain ⟨later, hanswer, hlater, -⟩ := on_call hcues call
    rw [Talk.on_ask] at hanswer
    rw [hanswer]
    exact hlater

theorem Deed.plain (hplain : station.store.Plain programs) {deed : Deed} (hloads : deed.Loads programs) :
    (deed.on station).store.Plain programs := by
  cases deed with
  | clear => exact hplain
  | flush => exact ⟨hplain.unrehearsed, fun digest program hfound => by cases hfound⟩
  | step made =>
    refine ⟨cues_step hplain.unrehearsed made, fun digest program hfound => ?_⟩
    change (Station.answer made station).2.store.memory.scripts.find? digest = some program at hfound
    rcases scripts_step station made with hsame | ⟨script, rfl, hload⟩
    · rw [hsame] at hfound
      exact hplain.loaded digest program hfound
    · rw [hload, SortedMap.find?_insert] at hfound
      split at hfound
      · rename_i hdigest
        cases hfound
        exact ⟨hloads, hdigest ▸ (congrArg Compiled.digest script.eq_compiled).symm⟩
      · exact hplain.loaded digest program hfound

/-- A script stays loaded if the store is not made to forget it. -/
theorem Deed.holds (hdiffer : DigestsDiffer programs) (hprogram : programs program) {deed : Deed}
    (hloads : deed.Loads programs) (hflush : deed ≠ .flush)
    (h : station.store.memory.scripts.find? program.compiled.digest = some program) :
    (deed.on station).store.memory.scripts.find? program.compiled.digest = some program := by
  cases deed with
  | clear => exact h
  | flush => exact absurd rfl hflush
  | step made =>
    change (Station.answer made station).2.store.memory.scripts.find? _ = _
    rcases scripts_step station made with hsame | ⟨script, rfl, hload⟩
    · rwa [hsame]
    · rw [hload, SortedMap.find?_insert]
      split
      · rename_i hdigest
        have hsame : script.program.compiled.digest = program.compiled.digest :=
          (congrArg Compiled.digest script.eq_compiled).symm.trans hdigest.symm
        exact congrArg some (hdiffer _ _ hloads hprogram hsame)
      · exact h

/-- A script stays remembered if not all is forgotten. -/
theorem Deed.remembers {deed : Deed} (hclear : deed ≠ .clear) {digest : String}
    (h : station.cache.loaded.contains digest = true) :
    (deed.on station).cache.loaded.contains digest = true := by
  cases deed with
  | clear => exact absurd rfl hclear
  | flush => exact h
  | step made =>
    cases made with
    | call | countReload => exact h
    | isLoaded other =>
      simp only [Deed.on, Station.answer, ScriptCache.look]
      split <;> exact h
    | markLoaded other =>
      simp only [Deed.on, Station.answer, ScriptCache.mark]
      rw [SortedMap.contains, SortedMap.find?_insert]
      split
      · rfl
      · exact h

variable {deeds : List Deed}

theorem Deed.plain_onAll (hplain : station.store.Plain programs) (hloads : ∀ deed ∈ deeds, deed.Loads programs) :
    (Deed.onAll station deeds).store.Plain programs := by
  induction deeds generalizing station with
  | nil => exact hplain
  | cons deed rest ih =>
    obtain ⟨hdeed, hrest⟩ := List.forall_mem_cons.1 hloads
    exact ih (Deed.plain hplain hdeed) hrest

theorem Deed.holds_onAll (hdiffer : DigestsDiffer programs) (hprogram : programs program)
    (hloads : ∀ deed ∈ deeds, deed.Loads programs) (hflush : .flush ∉ deeds)
    (h : station.store.memory.scripts.find? program.compiled.digest = some program) :
    (Deed.onAll station deeds).store.memory.scripts.find? program.compiled.digest = some program := by
  induction deeds generalizing station with
  | nil => exact h
  | cons deed rest ih =>
    obtain ⟨hdeed, hrest⟩ := List.forall_mem_cons.1 hloads
    obtain ⟨hfirst, hlater⟩ := not_or.1 (mt List.mem_cons.2 hflush)
    exact ih hrest hlater (Deed.holds hdiffer hprogram hdeed (Ne.symm hfirst) h)

theorem Deed.remembers_onAll (hclear : .clear ∉ deeds) {digest : String}
    (h : station.cache.loaded.contains digest = true) :
    (Deed.onAll station deeds).cache.loaded.contains digest = true := by
  induction deeds generalizing station with
  | nil => exact h
  | cons deed rest ih =>
    obtain ⟨hfirst, hlater⟩ := not_or.1 (mt List.mem_cons.2 hclear)
    exact ih hlater (Deed.remembers (Ne.symm hfirst) h)

end deeds

section once

variable {programs : Program → Prop} {program : Program} {params : List String}

/-- What holds up to the run: none was made, and the keyspace was left alone. -/
theorem carries_once (others : Course → List Deed)
    (hothers : ∀ course, ∀ deed ∈ others course, deed.Loads programs) :
    Carries (fun course station => station = Deed.onAll course.station (others course))
      (fun taken => taken.evaluates = false →
        taken.after.store.memory.space = taken.before.store.memory.space)
      programs program params
      (fun course => course.station.store.Plain programs ∧ course.evaluations = [])
      (fun result course => course.station.store.Plain programs ∧ course.Ran program params result) := by
  have hevaluations : ∀ {course : Course} {step : Step}, Taken.evaluates ⟨step, course.station⟩ = false →
      (course.answer step).2.evaluations = course.evaluations := fun h =>
    List.filter_cons_of_neg (by simp [h])
  refine ⟨fun _ h => h.1, ?_, ?_, ?_, fun _ _ h => h.1, ?_, ?_⟩
  · rintro course station rfl ⟨h, hnone⟩
    exact ⟨Deed.plain_onAll h (hothers course), hnone⟩
  · rintro course step ⟨-, hnone⟩ hidle
    exact ⟨fun _ => hidle.space, hidle.plain, (hevaluations hidle.evaluates).trans hnone⟩
  · rintro course ⟨h, hnone⟩ hholds
    obtain ⟨-, hafter, hspace⟩ := Course.Holds.run hholds h params
    have hevaluates : Taken.evaluates ⟨.call (.eval program.compiled.digest params), course.station⟩ = true := by
      simp only [Taken.evaluates, SortedMap.contains]
      rw [hholds]
      rfl
    refine ⟨fun hnot => ?_, hafter, ⟨.call (.eval program.compiled.digest params), course.station⟩, ?_, rfl,
      rfl, hspace⟩
    · rw [hevaluates] at hnot
      cases hnot
    · exact (List.filter_cons_of_pos hevaluates).trans (congrArg _ hnone)
  · rintro result course station rfl ⟨h, hran⟩
    exact ⟨Deed.plain_onAll h (hothers course), hran⟩
  · rintro result course step ⟨-, run, hrun, hran⟩ hidle
    exact ⟨fun _ => hidle.space, hidle.plain, run, (hevaluations hidle.evaluates).trans hrun, hran⟩

/-- A script that a client runs amid what others do runs once, or is not found and does not run at all; the
client changes the keyspace in no other step. It is found if nobody makes the store forget it from the
client's first call on, and if it succeeds then it ends up loaded, and remembered unless somebody else
lets that be forgotten. -/
theorem evaluateAmid_once {station : Station} (hplain : station.store.Plain programs)
    (hdiffer : DigestsDiffer programs) (hprogram : programs program) (others : Course → List Deed)
    (hothers : ∀ course, ∀ deed ∈ others course, deed.Loads programs) (preload : Bool) (params : List String) :
    ∃ result course, evaluateAmid others preload program params station = (result, course) ∧
      (∀ taken ∈ course.taken, taken.evaluates = false →
        taken.after.store.memory.space = taken.before.store.memory.space) ∧
      (course.Ran program params result ∨
        result = .error (.noScript program.compiled.digest) ∧ course.evaluations = []) ∧
      ((∀ course, course.Called → .flush ∉ others course) →
        course.Ran program params result ∧ ∀ reply, result = .ok reply →
          course.Holds program ∧ ((∀ course, .clear ∉ others course) → course.Remembers program)) := by
  have hcarries := @carries_once programs program params others hothers
  have hkept : (∀ course, course.Called → .flush ∉ others course) →
      Stable (fun course station => station = Deed.onAll course.station (others course))
        fun course => course.Called ∧ course.Holds program := by
    rintro hnever course station rfl ⟨hcalled, hholds⟩
    exact ⟨hcalled, Deed.holds_onAll hdiffer hprogram (hothers course) (hnever course hcalled) hholds⟩
  have hmarked : (∀ course, .clear ∉ others course) →
      Stable (fun course station => station = Deed.onAll course.station (others course))
        fun course => course.Remembers program := by
    rintro hnever course station rfl hremembers
    exact Deed.remembers_onAll (hnever course) hremembers
  obtain ⟨hended, hguar⟩ := (hcarries.evaluate hdiffer hprogram hkept hmarked preload).run (fun _ => rfl)
    hcarries.stable (@And.intro (Course.station ⟨station, []⟩ |>.store.Plain programs) _ hplain rfl)
    fun _ hmem => by cases hmem
  refine ⟨_, _, rfl, hguar, ?_, fun hnever => ?_⟩
  · rcases hended with ⟨hresult, -, -, hnone⟩ | ⟨⟨-, hran⟩, -⟩
    · exact .inr ⟨hresult, hnone⟩
    · exact .inl hran
  · rcases hended with ⟨-, hforgot, -⟩ | ⟨⟨-, hran⟩, hready⟩
    · exact absurd hnever hforgot
    · exact ⟨hran, fun reply hreply =>
        ⟨((hready reply hreply).holds hnever).2, (hready reply hreply).remembers⟩⟩

/-- A program that counts up. -/
def countsUp : Program where
  body := [.finish (.call .incr [.param 1])]
  journal := false

/-- Another client counts up all the time, and once the first one has looked whether the script is loaded the
store forgets it. -/
def flushing (course : Course) : List Deed :=
  match course.taken with
  | [⟨.isLoaded _, _⟩] => [.flush]
  | _ => [.step (.call (.incr "n"))]

/-- The store holds the script, and the client takes it for loaded. -/
def holding : Station where
  store := { memory := { scripts := (∅ : SortedMap Program).insert countsUp.compiled.digest countsUp } }
  cache := ScriptCache.mark {} countsUp.compiled.digest

/-- A script that the client takes for loaded, and that the store forgets just then, runs once. -/
theorem evaluateAmid_once_flushing :
    (evaluateAmid flushing true countsUp ["n"] holding).2.Ran countsUp ["n"]
      (evaluateAmid flushing true countsUp ["n"] holding).1 := by
  have hplain : holding.store.Plain (· = countsUp) := by
    refine ⟨rfl, fun digest program hfound => ?_⟩
    simp only [holding] at hfound
    rw [SortedMap.find?_insert] at hfound
    split at hfound
    · rename_i hdigest
      cases hfound
      exact ⟨rfl, hdigest.symm⟩
    · cases hfound
  have hloads : ∀ course, ∀ deed ∈ flushing course, deed.Loads (· = countsUp) := by
    intro course deed hdeed
    unfold flushing at hdeed
    split at hdeed <;> cases List.mem_singleton.1 hdeed <;> exact trivial
  have hflush : ∀ course : Course, course.Called → .flush ∉ flushing course := by
    rintro course ⟨taken, htaken, call, hcall⟩ hmem
    unfold flushing at hmem
    split at hmem
    · rename_i heq
      rw [heq] at htaken
      cases List.mem_singleton.1 htaken
      cases hcall
    · cases List.mem_singleton.1 hmem
  obtain ⟨result, course, hrun, -, -, hkept⟩ := evaluateAmid_once hplain
    (fun _ _ ha hb _ => ha.trans hb.symm) rfl flushing hloads true ["n"]
  rw [hrun]
  exact (hkept hflush).1

end once

end Client

end DocStore
