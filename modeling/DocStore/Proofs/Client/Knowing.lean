import DocStore.Proofs.Client.Evaluate
import DocStore.Proofs.Schema.RoundTrip
import DocStore.Proofs.Text.Decimal

/-!
What a handle knows of the schema, and what it learns by looking for it, whatever the store holds.

A handle that knows the schema, or knows that it cannot be read, does not look again. One that looks reads
two keys, and learns just what they hold (`Keyspace.lookSchema`).
-/

namespace DocStore

open DocStore.Store DocStore.Client DocStore.Session DocStore.Script DocStore.Layout

/-- The two keys of the schema hold its text and its revision. -/
structure SchemaStored (ns : String) (schema : Schema) (revision : Nat) (space : Keyspace) : Prop where
  text : space.find? (schemaKey ns) = some (.text schema.text)
  revision : space.find? (revisionKey ns) = some (.text (Decimal.ofNat revision))

/-- What is stored for a schema reads as that schema. -/
theorem Client.StoredSchema.read_stored {schema : Schema} (h : schema.WellFormed) {revision : Nat}
    (hrevision : revision ≤ Decimal.maxWord64) :
    StoredSchema.read schema.text (some (Decimal.ofNat revision)) = .ok ⟨schema, some revision⟩ := by
  simp [StoredSchema.read, Schema.ofText_text h, Decimal.word64?_ofNat hrevision, Except.mapError, bind,
    Except.bind]

/-- What a handle finds that looks for the schema, and what it knows then. -/
def Keyspace.lookSchema (space : Keyspace) (ns : String) (method : Method) :
    Except Failure StoredSchema × SchemaState :=
  match space.text? (schemaKey ns) with
  | .error e => (.error (.store e), .unloaded)
  | .ok none => (.error (.operation ⟨method, .schemaMissing, [], none⟩), .unloaded)
  | .ok (some text) =>
    match space.text? (revisionKey ns) with
    | .error e => (.error (.store e), .unloaded)
    | .ok revision =>
      match StoredSchema.read text revision with
      | .ok stored => (.ok stored, .loaded stored)
      | .error reason => (.error (.operation ⟨method, .badSavedSchema, [], some reason⟩), .bad reason)

/-- What a handle takes for the schema, and what it knows then. -/
def Keyspace.knowSchema (space : Keyspace) (ns : String) (method : Method) :
    SchemaState → Except Failure StoredSchema × SchemaState
  | .unloaded => space.lookSchema ns method
  | .loaded stored => (.ok stored, .loaded stored)
  | .bad reason => (.error (.operation ⟨method, .badSavedSchema, [], some reason⟩), .bad reason)

namespace SchemaStored

variable {ns : String} {schema : Schema} {revision : Nat} {space after : Keyspace}

theorem text?_schema (h : SchemaStored ns schema revision space) :
    space.text? (schemaKey ns) = .ok (some schema.text) :=
  Keyspace.text?_of_find? h.text

theorem text?_revision (h : SchemaStored ns schema revision space) :
    space.text? (revisionKey ns) = .ok (some (Decimal.ofNat revision)) :=
  Keyspace.text?_of_find? h.revision

/-- A stored schema is found by those who look for it. -/
theorem lookSchema (h : SchemaStored ns schema revision space) (hschema : schema.WellFormed)
    (hrevision : revision ≤ Decimal.maxWord64) (method : Method) :
    space.lookSchema ns method =
      (.ok ⟨schema, some revision⟩, .loaded ⟨schema, some revision⟩) := by
  simp only [Keyspace.lookSchema, h.text?_schema, h.text?_revision,
    StoredSchema.read_stored hschema hrevision]

end SchemaStored

namespace Client

variable {programs : Program → Prop} {station : Station} {handle : Handle}

/-- A handle looks for the schema unless it knows of it already, and changes nothing. -/
theorem on_loadSchema (hplain : station.store.Plain programs) (known : SchemaState) (method : Method) :
    ∃ later, (handle.loadSchema method).on known station =
        (station.store.memory.space.knowSchema handle.ns method known, later) ∧
      later.store.Plain programs ∧ later.store.memory.space = station.store.memory.space := by
  cases known with
  | loaded stored | bad reason => exact ⟨station, rfl, hplain, rfl⟩
  | unloaded =>
    obtain ⟨first, htext, hfirst, hspace⟩ := on_get hplain (schemaKey handle.ns)
    have htalk := Act.on_talk (Call.get (schemaKey handle.ns)).ask .unloaded station
    rw [htext] at htalk
    rw [Handle.loadSchema, Act.on_bind_of_ok (Act.on_get _ _), Keyspace.knowSchema, Keyspace.lookSchema]
    dsimp only
    cases hread : station.store.memory.space.text? (schemaKey handle.ns) with
    | error e =>
      rw [hread] at htalk
      exact ⟨first, Act.on_bind_of_error htalk _, hfirst, hspace⟩
    | ok found =>
      rw [hread] at htalk
      rw [Act.on_bind_of_ok htalk]
      cases found with
      | none => exact ⟨first, rfl, hfirst, hspace⟩
      | some text =>
        obtain ⟨second, hrevision, hsecond, hspace'⟩ := on_get hfirst (revisionKey handle.ns)
        have htalk' := Act.on_talk (Call.get (revisionKey handle.ns)).ask .unloaded first
        rw [hrevision, hspace] at htalk'
        dsimp only
        refine ⟨second, ?_, hsecond, hspace'.trans hspace⟩
        cases hread' : station.store.memory.space.text? (revisionKey handle.ns) with
        | error e =>
          rw [hread'] at htalk'
          exact Act.on_bind_of_error htalk' _
        | ok revision =>
          rw [hread'] at htalk'
          rw [Act.on_bind_of_ok htalk']
          dsimp only
          cases StoredSchema.read text revision <;> rfl

end Client

end DocStore
