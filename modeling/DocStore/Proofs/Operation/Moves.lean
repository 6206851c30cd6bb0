import DocStore.Proofs.Layout.Slots
import DocStore.Proofs.Operation.Footprint
import DocStore.Proofs.Operation.OneByOne
import DocStore.Proofs.Schema.Reader

/-!
What clients on a namespace do to a store: they run the scripts of operations, store a schema, and read keys
(`Move`). All keys that they reach begin with the namespace and a colon, so that no key is within reach on two
namespaces.
-/

namespace DocStore

open DocStore.Script

namespace Layout

variable {ns key : String}

theorem rooted_under (ns : String) : Rooted (Under ns) := by
  rintro key more ⟨rest, rfl⟩
  exact ⟨rest ++ more, by rw [String.append_assoc]⟩

theorem under_of_documentKey (h : DocumentKey ns key) : Under ns key := by
  obtain ⟨collection, rest, rfl⟩ := h
  exact ⟨collection ++ ":" ++ rest, by simp only [recordStem, String.append_assoc]⟩

end Layout

open Layout

/-- Clients on the namespace run the script with these parameters: it is that of operations over an accepted
schema, or the one that stores a schema. -/
inductive Script.Program.Serves (ns : String) : Program → List String → Prop
  | operations {value : Json} {schema : Schema} {ops : List Operation} {program : Program} {params : List String}
      (hschema : Schema.ofJson value = .ok schema)
      (h : (Build.ofList ns schema ops).finish = .ok (some (program, params))) : Serves ns program params
  | setSchema (params : List String) : Serves ns (setSchemaProgram ns) params

namespace Script.Program.Serves

variable {ns : String} {program : Program} {params : List String}

theorem within_setSchemaProgram (ns : String) : (setSchemaProgram ns).Within (Under ns) := by
  have hschema := under_schemaKey ns
  have hrevision := under_revisionKey ns
  simpa [Program.Within, setSchemaProgram, Operation.succeed, Operation.answer] using
    ⟨hschema, hrevision, hschema, hrevision⟩

/-- Such a script names keys below the namespace only. -/
theorem exists_within (h : program.Serves ns params) :
    ∃ P, Rooted P ∧ (∀ key, P key → Under ns key) ∧ program.Within P := by
  cases h with
  | operations _ h =>
    exact ⟨DocumentKey ns, rooted_documentKey ns, fun _ => under_of_documentKey, Build.within_finish h⟩
  | setSchema _ => exact ⟨Under ns, rooted_under ns, fun _ => id, within_setSchemaProgram ns⟩

theorem find?_run (h : program.Serves ns params) (space : Keyspace) {key : String}
    (hkey : ¬Under ns key) : (program.run params space).2.find? key = space.find? key := by
  obtain ⟨P, hP, hunder, hwithin⟩ := h.exists_within
  apply Program.find?_run hP params hwithin
  exact fun hown => hkey (hunder key hown)

theorem agree_run (h : program.Serves ns params) {left right : Keyspace}
    (hagree : Keyspace.Agree (Under ns) left right) :
    (program.run params left).1 = (program.run params right).1 ∧
      Keyspace.Agree (Under ns) (program.run params left).2 (program.run params right).2 := by
  obtain ⟨P, hP, hunder, hwithin⟩ := h.exists_within
  exact Program.agree_run_of_imp hP params hwithin hunder hagree

end Script.Program.Serves

/-- What a client on the namespace may do in its turn. -/
inductive Move (ns : String) where
  | run (program : Program) (params : List String) (serves : program.Serves ns params)
  | read (key : String) (under : Under ns key)

namespace Move

variable {ns : String}

/-- The client is told the reply or the error. -/
def take (space : Keyspace) : Move ns → Except StoreError Reply × Keyspace
  | .run program params _ => program.run params space
  | .read key _ => space.execute .get [key]

theorem find?_take (move : Move ns) (space : Keyspace) {key : String} (hkey : ¬Under ns key) :
    (move.take space).2.find? key = space.find? key := by
  cases move with
  | run program params serves => exact serves.find?_run space hkey
  | read own _ =>
    cases hread : space.text? own with
    | ok found => rw [take, Keyspace.execute_get hread]
    | error e => rw [take, Keyspace.execute_get_of_error hread]

theorem agree_take (move : Move ns) {left right : Keyspace} (hagree : Keyspace.Agree (Under ns) left right) :
    (move.take left).1 = (move.take right).1 ∧
      Keyspace.Agree (Under ns) (move.take left).2 (move.take right).2 := by
  cases move with
  | run program params serves => exact serves.agree_run hagree
  | read own under =>
    apply hagree.execute
    intro key hkey
    rw [List.mem_singleton.1 hkey]
    exact under

end Move

theorem serves_addAda (ns : String) :
    (Build.ofList ns people [addAda]).script.Serves ns (Build.ofList ns people [addAda]).params := by
  have hfinish : (Build.ofList ns people [addAda]).finish =
      .ok (some ((Build.ofList ns people [addAda]).script, (Build.ofList ns people [addAda]).params)) := rfl
  exact .operations people_ofJson hfinish

/-- Somebody adds a person. -/
def addAdaMove (ns : String) : Move ns :=
  .run (Build.ofList ns people [addAda]).script (Build.ofList ns people [addAda]).params (serves_addAda ns)

end DocStore
