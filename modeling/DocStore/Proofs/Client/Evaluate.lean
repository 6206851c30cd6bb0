import DocStore.Proofs.Client.Talks
import DocStore.Proofs.Keyspace.Agreement
import DocStore.Proofs.Keyspace.Commands

/-!
Running a script from a client is running its program on the keyspace.

Whatever the client remembers and whatever the store has loaded, the script is found or loaded, and runs
once. The store must not have been rehearsed, and different scripts must have different digests
(`DigestsDiffer`), as far as scripts are run at all.
-/

namespace DocStore

open DocStore.Store DocStore.Client DocStore.Session DocStore.Script

/-- Different programs among these have different digests. -/
def DigestsDiffer (programs : Program → Prop) : Prop :=
  ∀ a b, programs a → programs b → a.compiled.digest = b.compiled.digest → a = b

/-- The store answers from its memory, and has loaded none but these programs. -/
structure Store.Rehearsed.Plain (programs : Program → Prop) (store : Rehearsed) : Prop where
  unrehearsed : store.cues = []
  loaded : ∀ digest program, store.memory.scripts.find? digest = some program →
    programs program ∧ program.compiled.digest = digest

namespace Client

variable {programs : Program → Prop} {station : Station} {program : Program} {params : List String}

/-- A store that has not been rehearsed answers from its memory. -/
theorem on_call (h : station.store.cues = []) (call : Call) :
    ∃ later, call.ask.on station = ((station.store.memory.answer call).1, later) ∧
      later.store.cues = [] ∧ later.store.memory = (station.store.memory.answer call).2 := by
  rw [Talk.on_ask]
  simp only [Station.answer, Rehearsed.answer, h, Rehearsed.takeCue?]
  exact ⟨_, rfl, rfl, rfl⟩

/-- A key is read. -/
theorem on_get (hplain : station.store.Plain programs) (key : String) :
    ∃ later, (Call.get key).ask.on station = (station.store.memory.space.text? key, later) ∧
      later.store.Plain programs ∧ later.store.memory.space = station.store.memory.space := by
  obtain ⟨later, hrun, hcues, hmemory⟩ := on_call hplain.unrehearsed (.get key)
  cases htext : station.store.memory.space.text? key with
  | error e =>
    simp only [Memory.answer, Memory.execute, Keyspace.execute_get_of_error htext] at hrun hmemory
    exact ⟨later, hrun, ⟨hcues, hmemory ▸ hplain.loaded⟩, by rw [hmemory]⟩
  | ok text =>
    simp only [Memory.answer, Memory.execute, Keyspace.execute_get htext] at hrun hmemory
    refine ⟨later, ?_, ⟨hcues, hmemory ▸ hplain.loaded⟩, by rw [hmemory]⟩
    rw [hrun]
    cases text <;> rfl

/-- A loaded script runs. -/
theorem on_eval (hplain : station.store.Plain programs) {digest : String}
    (h : station.store.memory.scripts.find? digest = some program) :
    ∃ later, (Call.eval digest params).ask.on station =
        ((program.run params station.store.memory.space).1, later) ∧ later.store.Plain programs ∧
      later.store.memory.space = (program.run params station.store.memory.space).2 := by
  obtain ⟨later, hrun, hcues, hmemory⟩ := on_call hplain.unrehearsed (.eval digest params)
  simp only [Memory.answer, h] at hrun hmemory
  refine ⟨later, hrun, ⟨hcues, ?_⟩, ?_⟩
  · rw [hmemory]
    exact hplain.loaded
  · rw [hmemory]

/-- A script that is not loaded does not run. -/
theorem on_eval_of_none (hplain : station.store.Plain programs) {digest : String}
    (h : station.store.memory.scripts.find? digest = none) :
    ∃ later, (Call.eval digest params).ask.on station = (.error (.noScript digest), later) ∧
      later.store.Plain programs ∧ later.store.memory.space = station.store.memory.space := by
  obtain ⟨later, hrun, hcues, hmemory⟩ := on_call hplain.unrehearsed (.eval digest params)
  simp only [Memory.answer, h] at hrun hmemory
  refine ⟨later, hrun, ⟨hcues, ?_⟩, ?_⟩
  · rw [hmemory]
    exact hplain.loaded
  · rw [hmemory]

/-- A script is loaded under its digest. -/
theorem on_ask_load (hplain : station.store.Plain programs) (hprogram : programs program) :
    ∃ later, (Call.load program.compiled).ask.on station = (.ok program.compiled.digest, later) ∧
      later.store.Plain programs ∧
      later.store.memory.scripts.find? program.compiled.digest = some program ∧
      later.store.memory.space = station.store.memory.space := by
  obtain ⟨later, hload, hcues, hmemory⟩ := on_call hplain.unrehearsed (.load program.compiled)
  simp only [Memory.answer] at hload hmemory
  refine ⟨later, hload, ⟨hcues, fun digest found hfound => ?_⟩, ?_, ?_⟩
  · rw [hmemory, SortedMap.find?_insert] at hfound
    split at hfound
    · rename_i hdigest
      cases hfound
      exact ⟨hprogram, hdigest.symm⟩
    · exact hplain.loaded digest found hfound
  · rw [hmemory, SortedMap.find?_insert, if_pos rfl]
    rfl
  · rw [hmemory]

/-- A loaded script is remembered, and found under its digest. -/
theorem on_load (hplain : station.store.Plain programs) (hprogram : programs program) :
    ∃ later, (load program.compiled).on station = (.ok (), later) ∧ later.store.Plain programs ∧
      later.store.memory.scripts.find? program.compiled.digest = some program ∧
      later.store.memory.space = station.store.memory.space := by
  obtain ⟨between, hload, hbetween, hheld, hspace⟩ := on_ask_load hplain hprogram
  refine ⟨(Station.answer (.markLoaded program.compiled.digest) between).2, ?_, hbetween, hheld, hspace⟩
  rw [load, Talk.on_bind_of_ok hload, if_pos rfl]
  rfl

/-- A script runs once it is loaded. -/
theorem on_load_eval (hplain : station.store.Plain programs) (hprogram : programs program) :
    ∃ later, (do load program.compiled; (Call.eval program.compiled.digest params).ask : Talk Reply).on
        station = ((program.run params station.store.memory.space).1, later) ∧
      later.store.Plain programs ∧
      later.store.memory.space = (program.run params station.store.memory.space).2 := by
  obtain ⟨between, hload, hbetween, hheld, hspace⟩ := on_load hplain hprogram
  obtain ⟨later, hrun, hlater, hafter⟩ := on_eval hbetween hheld
  rw [hspace] at hrun hafter
  exact ⟨later, by rw [Talk.on_bind_of_ok hload, hrun], hlater, hafter⟩

/-- A script runs, whether it has to be loaded first or not. -/
theorem on_evaluate (hplain : station.store.Plain programs) (hdiffer : DigestsDiffer programs)
    (hprogram : programs program)
    (hraises : Raises (program.run params station.store.memory.space).1)
    (preload : Bool) :
    ∃ later, (evaluate preload program.compiled params).on station =
        ((program.run params station.store.memory.space).1, later) ∧ later.store.Plain programs ∧
      later.store.memory.space = (program.run params station.store.memory.space).2 := by
  have hlook := Talk.on_step (.isLoaded program.compiled.digest) station
  generalize hlooked : (Station.answer (.isLoaded program.compiled.digest) station).2 = looked at hlook
  generalize (Station.answer (.isLoaded program.compiled.digest) station).1 = known at hlook
  have hstore : looked.store = station.store := by
    rw [← hlooked]
    rfl
  rw [← hstore] at hplain hraises ⊢
  rw [evaluate, Talk.on_bind_of_ok hlook]
  by_cases hpreload : (!known && preload) = true
  · rw [if_pos hpreload]
    exact on_load_eval hplain hprogram
  · rw [if_neg hpreload]
    cases hheld : looked.store.memory.scripts.find? program.compiled.digest with
    | none =>
      obtain ⟨between, hrun, hbetween, hspace⟩ := on_eval_of_none hplain hheld
      have htried := Talk.on_result (Call.eval program.compiled.digest params).ask looked
      rw [hrun] at htried
      rw [Talk.on_bind_of_ok htried]
      have hcount := Talk.on_step .countReload between
      rw [Talk.on_bind_of_ok hcount]
      obtain ⟨later, hload, hlater, hafter⟩ := (@on_load_eval _
        (Station.answer .countReload between).2) hbetween hprogram
      have hcounted : (Station.answer .countReload between).2.store = between.store := rfl
      rw [hcounted, hspace] at hload hafter
      exact ⟨later, hload, hlater, hafter⟩
    | some found =>
      obtain ⟨hfound, hdigest⟩ := hplain.loaded _ _ hheld
      have hsame : found = program := hdiffer _ _ hfound hprogram hdigest
      rw [hsame] at hheld
      obtain ⟨later, hrun, hlater, hspace⟩ := on_eval hplain hheld
      have htried := Talk.on_result (Call.eval program.compiled.digest params).ask looked
      rw [hrun] at htried
      rw [Talk.on_bind_of_ok htried]
      generalize (program.run params looked.store.memory.space).1 = result at hraises ⊢
      cases result with
      | error e =>
        cases e with
        | noScript digest => exact absurd (hraises _ rfl) id
        | _ => exact ⟨later, rfl, hlater, hspace⟩
      | ok reply =>
        cases known with
        | true => exact ⟨later, rfl, hlater, hspace⟩
        | false => exact ⟨_, rfl, hlater, hspace⟩

end Client

end DocStore
