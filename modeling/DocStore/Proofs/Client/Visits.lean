import DocStore.Proofs.Client.Setting
import DocStore.Proofs.Script.Trace

/-!
The visits that handles pay to a store: they store a schema, ask for it, or run operations.

On any keyspace, and with whatever a handle knows, a visit that does not store a schema changes nothing but
documents, and tells the handle of the schema what looking for it tells (`on_visit`).
-/

namespace DocStore

open DocStore.Store DocStore.Client DocStore.Session DocStore.Script DocStore.Layout

/-- What a handle is used for. -/
inductive Client.Visit where
  | setSchema (revision : Nat) (value : Json)
  | getSchema
  | schemaDigest
  | currentId (collection : String)
  | ask (query : Query)

/-- Uses a handle, without regard to what it answers. -/
def Client.Handle.visit (handle : Handle) : Visit → Act Unit
  | .setSchema revision value => handle.setSchema revision value
  | .getSchema => discard handle.getSchema
  | .schemaDigest => discard handle.schemaDigest
  | .currentId collection => discard (handle.currentId collection)
  | .ask query => discard (handle.ask query)

/-- Whether the visit stores a schema. -/
def Client.Visit.setsSchema : Visit → Bool
  | .setSchema _ _ => true
  | _ => false

/-- The operations that a visit runs. -/
def Client.Visit.ops : Visit → List Operation
  | .ask query => query.ops
  | _ => []

/-- No other keys than those of documents have changed. -/
structure Store.Rehearsed.Aside (programs : Program → Prop) (ns : String) (before after : Rehearsed) :
    Prop where
  plain : after.Plain programs
  frame : ∀ key, ¬DocumentKey ns key → after.memory.space.find? key = before.memory.space.find? key

/-- What a handle knows of the schema once it has looked for it. -/
def Keyspace.known (space : Keyspace) (ns : String) (known : SchemaState) : SchemaState :=
  (space.knowSchema ns .none known).2

/-- What a handle learns does not depend on what it looks for the schema for. -/
theorem Keyspace.knowSchema_snd (space : Keyspace) (ns : String) (method : Method) (known : SchemaState) :
    (space.knowSchema ns method known).2 = space.known ns known := by
  cases known with
  | loaded stored | bad reason => rfl
  | unloaded =>
    unfold known knowSchema lookSchema
    dsimp only
    split
    · rfl
    · rfl
    · split
      · rfl
      · split <;> rfl

/-- A handle that finds the schema knows it. -/
theorem Keyspace.known_of_knowSchema {space : Keyspace} {ns : String} {method : Method} {known : SchemaState}
    {stored : StoredSchema} {later : SchemaState}
    (h : space.knowSchema ns method known = (.ok stored, later)) : later = .loaded stored := by
  cases known with
  | loaded stored' =>
    cases h
    rfl
  | bad reason => cases h
  | unloaded =>
    unfold knowSchema lookSchema at h
    dsimp only at h
    split at h
    · cases h
    · cases h
    · split at h
      · cases h
      · split at h
        · cases h
          rfl
        · cases h

namespace Client

variable {programs : Program → Prop} {station : Station} {handle : Handle}

theorem aside_of_space {before after : Rehearsed} (hplain : after.Plain programs)
    (hspace : after.memory.space = before.memory.space) (ns : String) : before.Aside programs ns after :=
  ⟨hplain, fun _ _ => by rw [hspace]⟩

/-- A script of operations runs aside from the schema. -/
theorem on_execute_aside (hplain : station.store.Plain programs) (hdiffer : DigestsDiffer programs)
    (known : SchemaState) (method : Method) {ops : List Operation}
    (hprograms : ∀ stored, station.store.memory.space.known handle.ns known = .loaded stored →
      ∀ program params, (Build.ofList handle.ns stored.schema ops).finish = .ok (some (program, params)) →
        programs program) :
    ∃ answer later, (handle.execute method ops).on known station =
        ((answer, station.store.memory.space.known handle.ns known), later) ∧
      station.store.Aside programs handle.ns later.store := by
  obtain ⟨between, hload, hbetween, hspace⟩ := on_loadSchema hplain known method
  have hknown := station.store.memory.space.knowSchema_snd handle.ns method known
  cases hfound : station.store.memory.space.knowSchema handle.ns method known with
  | mk result later =>
    rw [hfound] at hload hknown
    dsimp only at hknown
    subst hknown
    cases result with
    | error failure =>
      exact ⟨_, between, Act.on_bind_of_error hload _, aside_of_space hbetween hspace _⟩
    | ok stored =>
      have hloaded := Keyspace.known_of_knowSchema hfound
      rw [Handle.execute, Act.on_bind_of_ok hload]
      cases hfinish : (Build.ofList handle.ns stored.schema ops).finish with
      | error e => exact ⟨_, between, rfl, aside_of_space hbetween hspace _⟩
      | ok script =>
        cases script with
        | none => exact ⟨_, between, rfl, aside_of_space hbetween hspace _⟩
        | some script =>
          obtain ⟨program, params⟩ := script
          have hwithin := Build.within_finish hfinish
          obtain ⟨last, heval, hlast, hafter⟩ := on_evaluate hbetween hdiffer
            (hprograms stored hloaded program params hfinish)
            (program.raises_run params _) handle.preload
          have htalk := Act.on_talk (evaluate handle.preload program.compiled params)
            (station.store.memory.space.known handle.ns known) between
          rw [heval] at htalk
          have haside : station.store.Aside programs handle.ns last.store := by
            refine ⟨hlast, fun key hkey => ?_⟩
            rw [hafter, Program.find?_run (rooted_documentKey handle.ns) params hwithin _ hkey, hspace]
          dsimp only
          cases hresult : (program.run params between.store.memory.space).1 with
          | error e =>
            rw [hresult] at htalk
            exact ⟨_, last, Act.on_bind_of_error htalk _, haside⟩
          | ok reply =>
            rw [hresult] at htalk
            rw [Act.on_bind_of_ok htalk]
            cases readAnswer stored.schema reply <;> exact ⟨_, last, rfl, haside⟩

/-- The schema is looked up aside from everything else. -/
theorem on_loadSchema_aside (hplain : station.store.Plain programs) (known : SchemaState) (method : Method) :
    ∃ answer later, (handle.loadSchema method).on known station =
        ((answer, station.store.memory.space.known handle.ns known), later) ∧
      station.store.Aside programs handle.ns later.store := by
  obtain ⟨later, hload, hlater, hspace⟩ := on_loadSchema hplain known method
  rw [← station.store.memory.space.knowSchema_snd handle.ns method known]
  exact ⟨_, later, hload, aside_of_space hlater hspace _⟩

theorem on_currentId_aside (hplain : station.store.Plain programs) (known : SchemaState) (collection : String) :
    ∃ answer later, (handle.currentId collection).on known station =
        ((answer, station.store.memory.space.known handle.ns known), later) ∧
      station.store.Aside programs handle.ns later.store := by
  obtain ⟨answer, between, hload, haside⟩ := on_loadSchema_aside hplain known .currentId
  unfold Handle.currentId
  cases answer with
  | error failure => exact ⟨_, between, Act.on_bind_of_error hload _, haside⟩
  | ok stored =>
    rw [Act.on_bind_of_ok hload]
    cases hmissing : (stored.schema.collection? collection).isNone with
    | true => exact ⟨_, between, rfl, haside⟩
    | false =>
      obtain ⟨later, hread, hlater, hspace⟩ := on_get haside.plain (nextIdKey handle.ns collection)
      have htalk := Act.on_talk (Call.get (nextIdKey handle.ns collection)).ask
        (station.store.memory.space.known handle.ns known) between
      rw [hread] at htalk
      have hafter : station.store.Aside programs handle.ns later.store :=
        ⟨hlater, fun key hkey => by rw [hspace, haside.frame key hkey]⟩
      dsimp only
      rw [if_neg (by simp)]
      cases hfound : between.store.memory.space.text? (nextIdKey handle.ns collection) with
      | error e =>
        rw [hfound] at htalk
        exact ⟨_, later, Act.on_bind_of_error htalk _, hafter⟩
      | ok found =>
        rw [hfound] at htalk
        rw [Act.on_bind_of_ok htalk]
        cases found with
        | none => exact ⟨_, later, rfl, hafter⟩
        | some text =>
          dsimp only
          cases Decimal.int64? text <;> exact ⟨_, later, rfl, hafter⟩

theorem on_discard_aside {α : Type} {action : Act α} {known later : SchemaState}
    (h : ∃ answer after, action.on known station = ((answer, later), after) ∧
      station.store.Aside programs handle.ns after.store) :
    ∃ answer after, (discard action).on known station = ((answer, later), after) ∧
      station.store.Aside programs handle.ns after.store := by
  obtain ⟨answer, after, haction, haside⟩ := h
  have hdiscard := Act.on_discard action known station
  rw [haction] at hdiscard
  exact ⟨_, after, hdiscard, haside⟩

/-- A visit that stores no schema leaves the schema alone. -/
theorem on_visit (hplain : station.store.Plain programs) (hdiffer : DigestsDiffer programs)
    (known : SchemaState) {visit : Visit} (hvisit : visit.setsSchema = false)
    (hprograms : ∀ stored, station.store.memory.space.known handle.ns known = .loaded stored →
      ∀ program params, (Build.ofList handle.ns stored.schema visit.ops).finish = .ok (some (program, params)) →
        programs program) :
    ∃ answer later, (handle.visit visit).on known station =
        ((answer, station.store.memory.space.known handle.ns known), later) ∧
      station.store.Aside programs handle.ns later.store := by
  cases visit with
  | setSchema revision value => cases hvisit
  | getSchema => exact on_discard_aside (on_loadSchema_aside hplain known .getSchema)
  | schemaDigest =>
    refine on_discard_aside ?_
    obtain ⟨answer, later, hload, haside⟩ :=
      on_loadSchema_aside hplain known .getSchemaHash
    unfold Handle.schemaDigest
    cases answer with
    | error failure => exact ⟨_, later, Act.on_bind_of_error hload _, haside⟩
    | ok stored => exact ⟨_, later, Act.on_bind_of_ok hload _, haside⟩
  | currentId collection => exact on_discard_aside (on_currentId_aside hplain known collection)
  | ask query =>
    refine on_discard_aside ?_
    cases query with
    | single op =>
      obtain ⟨answer, later, hexecute, haside⟩ :=
        on_execute_aside hplain hdiffer known op.method hprograms
      exact ⟨_, later, Act.on_single hexecute, haside⟩
    | multi ops => exact on_execute_aside hplain hdiffer known .none hprograms

end Client

end DocStore
