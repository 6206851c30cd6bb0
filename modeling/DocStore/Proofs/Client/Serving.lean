import DocStore.Proofs.Client.Knowing
import DocStore.Proofs.Operation.Runs

/-!
A store that serves one schema to the handles on a namespace.

The store holds the schema's text and revision, and lays out documents (`Serves`). A handle that has not
looked yet, or knows the schema, runs operations as the model does: what the check rejects is answered at
once, everything else is the answer of the script.
-/

namespace DocStore

open DocStore.Store DocStore.Client DocStore.Session DocStore.Script DocStore.Layout

theorem SchemaStored.congr {ns : String} {schema : Schema} {revision : Nat} {space after : Keyspace}
    (h : SchemaStored ns schema revision space)
    (hkeep : ∀ key, SchemaKey ns key → after.find? key = space.find? key) :
    SchemaStored ns schema revision after where
  text := by
    rw [hkeep _ (.inl rfl)]
    exact h.text
  revision := by
    rw [hkeep _ (.inr rfl)]
    exact h.revision

/-- The store serves these documents under the schema. -/
structure Serves (programs : Program → Prop) (ns : String) (schema : Schema) (revision : Nat)
    (library : Library) (store : Rehearsed) : Prop where
  plain : store.Plain programs
  stored : SchemaStored ns schema revision store.memory.space
  sound : library.Sound schema
  canonical : Canonical ns schema library store.memory.space

/-- The handle has not looked for the schema yet, or knows it. -/
def Aware (schema : Schema) (revision : Nat) (known : SchemaState) : Prop :=
  known = .unloaded ∨ known = .loaded ⟨schema, some revision⟩

namespace Serves

variable {programs : Program → Prop} {ns : String} {schema : Schema} {revision : Nat} {library : Library}
  {station : Station} {known : SchemaState} {handle : Handle}

/-- Looking at the store changes nothing. -/
theorem congr (h : Serves programs ns schema revision library station.store) {later : Station}
    (hplain : later.store.Plain programs)
    (hspace : later.store.memory.space = station.store.memory.space) :
    Serves programs ns schema revision library later.store :=
  ⟨hplain, hspace ▸ h.stored, h.sound, hspace ▸ h.canonical⟩

/-- A handle knows the schema after its first use. -/
theorem on_loadSchema (h : Serves programs ns schema revision library station.store)
    (hschema : schema.WellFormed) (hrevision : revision ≤ Decimal.maxWord64) (hns : handle.ns = ns)
    (hknown : Aware schema revision known) (method : Method) :
    ∃ later, (handle.loadSchema method).on known station =
        ((.ok ⟨schema, some revision⟩, .loaded ⟨schema, some revision⟩), later) ∧
      Serves programs ns schema revision library later.store := by
  obtain ⟨later, hload, hplain, hspace⟩ := Client.on_loadSchema h.plain known method
  refine ⟨later, ?_, h.congr hplain hspace⟩
  rw [hload]
  rcases hknown with rfl | rfl
  · rw [hns, Keyspace.knowSchema, h.stored.lookSchema hschema hrevision]
  · rfl

/-- Operations that the schema forbids are answered without the store. -/
theorem on_execute_of_rejected (h : Serves programs ns schema revision library station.store)
    (hschema : schema.WellFormed) (hrevision : revision ≤ Decimal.maxWord64) (hns : handle.ns = ns)
    (hknown : Aware schema revision known) (method : Method) {ops : List Operation} {e : OperationError}
    (hcheck : Operation.checkAll schema ops = .error e) :
    ∃ later, (handle.execute method ops).on known station =
        ((.error (.operation e), .loaded ⟨schema, some revision⟩), later) ∧
      Serves programs ns schema revision library later.store := by
  obtain ⟨later, hload, hserves⟩ := h.on_loadSchema hschema hrevision hns hknown method
  refine ⟨later, ?_, hserves⟩
  have hfinish : (Build.ofList ns schema ops).finish = .error e := by
    rw [Build.finish_ofList, hcheck]
    rfl
  rw [Handle.execute, Act.on_bind_of_ok hload, hns]
  dsimp only
  rw [hfinish]
  rfl

/-- Operations that the schema allows are answered by their script, and the store serves what the model
has done. -/
theorem on_execute (h : Serves programs ns schema revision library station.store)
    (hschema : schema.WellFormed) (hrevision : revision ≤ Decimal.maxWord64) (hns : handle.ns = ns)
    (hknown : Aware schema revision known) (hdiffer : DigestsDiffer programs) (method : Method)
    {ops : List Operation} {tasks : List Task} (hcheck : Operation.checkAll schema ops = .ok tasks)
    (hprograms : tasks ≠ [] → programs (Task.script ns tasks).1) (hdraw : library.CanDraw tasks) :
    ∃ later, (handle.execute method ops).on known station =
        ((readAnswer schema (lastValue (library.batch tasks).1).toReply,
          .loaded ⟨schema, some revision⟩), later) ∧
      Serves programs ns schema revision (library.batch tasks).2 later.store := by
  obtain ⟨between, hload, hserves⟩ := h.on_loadSchema hschema hrevision hns hknown method
  have hfits := (Operation.fits_of_checkAll hschema hcheck).2
  by_cases htasks : tasks = []
  · subst htasks
    have hfinish : (Build.ofList ns schema ops).finish = .ok none := by
      rw [Build.finish_ofList, hcheck]
      rfl
    refine ⟨between, ?_, hserves⟩
    rw [Handle.execute, Act.on_bind_of_ok hload, hns]
    dsimp only
    rw [hfinish]
    rfl
  · have hfinish : (Build.ofList ns schema ops).finish = .ok (some (Task.script ns tasks)) := by
      rw [Build.finish_ofList, hcheck]
      cases tasks with
      | nil => exact absurd rfl htasks
      | cons task rest => rfl
    obtain ⟨after, hrun, hafter, hframe⟩ := Task.run_script hschema hfits hserves.sound hserves.canonical
      hdraw
    obtain ⟨later, heval, hplain, hspace⟩ := (@on_evaluate _ _ _ ((Task.script ns tasks).2))
      hserves.plain hdiffer (hprograms htasks) (hrun ▸ .ok _) handle.preload
    rw [hrun] at heval hspace
    have htalk := Act.on_talk (evaluate handle.preload (Task.script ns tasks).1.compiled
      (Task.script ns tasks).2) (.loaded ⟨schema, some revision⟩) between
    rw [heval] at htalk
    refine ⟨later, ?_, hplain, ?_, Library.sound_batch hserves.sound hfits, hspace ▸ hafter⟩
    · rw [Handle.execute, Act.on_bind_of_ok hload, hns]
      dsimp only
      rw [hfinish]
      dsimp only
      rw [Act.on_bind_of_ok htalk]
      cases readAnswer schema (lastValue (library.batch tasks).1).toReply <;> rfl
    · rw [hspace]
      exact hserves.stored.congr fun key hkey =>
        hframe key (schema_free hschema hkey).1 (schema_free hschema hkey).2

end Serves

end DocStore
