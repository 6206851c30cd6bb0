import DocStore.Operation.Build
import DocStore.Script.Eval
import DocStore.Proofs.Keyspace.Commands
import Mathlib.Logic.Function.Basic

/-!
The documents behind the keys: a plain model of what operations do.

A collection is a counter and a map from ids to stored texts. Nothing here knows keys, scripts or
replies. An operation is first held against the schema (`Operation.check`), which leaves a task with
its values encoded, and the task then changes the documents and comes to a verdict. The index scripts
look only at indices that an update touches; the model asks all unique indices.
-/

namespace DocStore

open DocStore.Script

/-- The stored texts of a record, by field. -/
abbrev Row := SortedMap String

namespace Index

/-- The text of a field, as it takes part in the composite value. -/
def partOf (row : Row) (field : IndexField) : String :=
  let stored := (row.find? field.name).getD ""
  Value.doubled (if field.caseInsensitive then Text.lowercase stored else stored)

/-- The composite value of a record. -/
def compositeOf (index : Index) (row : Row) : String :=
  Text.joined ":" (index.fields.map (partOf row))

/-- Whether no field of the index is `null` in the record. -/
def complete (index : Index) (row : Row) : Bool :=
  index.fields.all fun field => row.find? field.name ≠ some nullText

/-- Whether the index has an entry for the record: a unique one skips records with a `null`. -/
def enters (index : Index) (row : Row) : Bool :=
  !index.unique || index.complete row

end Index

/-- The documents of a collection: how many ids were drawn, and the records. -/
structure Documents where
  drawn : Nat := 0
  rows : Int → Option Row := fun _ => none

namespace Documents

/-- The live ids, ascending. -/
def ids (docs : Documents) : List Int :=
  ((List.range (docs.drawn + 1)).map Int.ofNat).filter fun id => (docs.rows id).isSome

/-- The record is live, and the index holds it under this composite value. -/
def Holds (docs : Documents) (index : Index) (composite : String) (id : Int) : Prop :=
  ∃ row, docs.rows id = some row ∧ index.enters row = true ∧ index.compositeOf row = composite

/-- Whether the record with this id is live and held under this composite value. -/
def holds (docs : Documents) (index : Index) (composite : String) (id : Int) : Bool :=
  match docs.rows id with
  | none => false
  | some row => index.enters row && index.compositeOf row = composite

/-- The ids that the index holds under a composite value, ascending. -/
def holders (docs : Documents) (index : Index) (composite : String) : List Int :=
  docs.ids.filter (docs.holds index composite)

/-- The names of the unique indices that hold another record than `own` where this one belongs. -/
def conflicts (docs : Documents) (indices : List (String × Index)) (row : Row) (own : Option Int) :
    List String :=
  (indices.filter fun entry => entry.2.unique && entry.2.complete row &&
    (docs.holders entry.2 (entry.2.compositeOf row)).any fun id => some id ≠ own).map Prod.fst

/-- Puts a record under an id. -/
def put (docs : Documents) (id : Int) (row : Row) : Documents :=
  { docs with rows := Function.update docs.rows id (some row) }

/-- Removes the record under an id. -/
def remove (docs : Documents) (id : Int) : Documents :=
  { docs with rows := Function.update docs.rows id none }

/-- Draws an id. -/
def draw (docs : Documents) : Documents :=
  { docs with drawn := docs.drawn + 1 }

end Documents

/-- What an operation asks for, its values encoded. -/
inductive Work where
  | create (row : List (String × String))
  | update (id : Int) (changes : List (String × String))
  | delete (id : Int)
  | get (id : Int)
  | exists (id : Int)
  | list
  | size
  | find (method : Method) (index : Index) (probe : List (String × String))

/-- An operation that the schema allows. -/
structure Task where
  collection : String
  fields : Collection
  work : Work

namespace Operation

/-- Checks a creation: every declared field must be given. -/
def checkCreate (coll : Collection) (attrs : FieldValues) : Except OperationError Work := do
  let encoded ← encodeFields .create coll attrs.entries
  match coll.definition.keys.find? fun name => !(encoded.map Prod.fst).contains name with
  | some missing => .error ⟨.create, .badParameter, [], some (.missingField missing)⟩
  | none => .ok (.create encoded)

/-- Checks an update: a declared field must be given. -/
def checkUpdate (coll : Collection) (id : Int) (attrs : FieldValues) : Except OperationError Work := do
  let encoded ← encodeFields .update coll attrs.entries
  if encoded.isEmpty then .error ⟨.update, .badParameter, [], some .noDeclaredField⟩
  else .ok (.update id encoded)

/-- Checks a search: there must be an index over exactly the given fields. -/
def checkFind (coll : Collection) (method : Method) (attrs : FieldValues) :
    Except OperationError Work := do
  match coll.indexFor? attrs.keys with
  | none => .error ⟨method, .unknownIndex, [], some (.noIndex attrs.keys)⟩
  | some (_, index) =>
    let encoded ← encodeFields method coll attrs.entries
    .ok (.find method index encoded)

/-- Checks an operation against the collection that it is on. -/
def checkWork (coll : Collection) : Operation → Except OperationError Work
  | .create _ attrs => checkCreate coll attrs
  | .update _ id attrs => checkUpdate coll id attrs
  | .delete _ id => .ok (.delete id)
  | .get _ id => .ok (.get id)
  | .exists _ id => .ok (.exists id)
  | .list _ => .ok .list
  | .size _ => .ok .size
  | .find _ attrs => checkFind coll .find attrs
  | .findAll _ attrs => checkFind coll .findAll attrs

/-- Checks an operation against a schema. -/
def check (schema : Schema) (op : Operation) : Except OperationError Task :=
  match schema.collection? op.collection with
  | none => .error ⟨op.method, .unknownCollection, [], some (.unknownCollection op.collection)⟩
  | some coll => (op.checkWork coll).map fun work => ⟨op.collection, coll, work⟩

end Operation

/-- What a task comes to. -/
inductive Verdict where
  | created (id : Int)
  | updated
  | deleted
  | notFound (method : Method)
  | notUnique (method : Method) (indices : List String)
  | row (collection : String) (row : Row)
  | exists (found : Bool)
  | ids (method : Method) (ids : List Int)
  | size (count : Nat)

/-- Whether a script of several operations ends here: at an error, and at a record that is not there. -/
def Verdict.stops : Verdict → Bool
  | .notFound _ | .notUnique _ _ | .exists false => true
  | _ => false

namespace Work

/-- Draws an id, and adds the record under it unless a unique index forbids that. -/
def applyCreate (coll : Collection) (row : Row) (docs : Documents) : Verdict × Documents :=
  let docs := docs.draw
  match docs.conflicts coll.indices.entries row none with
  | [] => (.created docs.drawn, docs.put docs.drawn row)
  | names => (.notUnique .create names, docs)

/-- Overwrites fields of a record unless a unique index forbids that. -/
def applyUpdate (coll : Collection) (id : Int) (changes : List (String × String)) (docs : Documents) :
    Verdict × Documents :=
  match docs.rows id with
  | none => (.notFound .update, docs)
  | some row =>
    match docs.conflicts coll.indices.entries (row.overlay changes) (some id) with
    | [] => (.updated, docs.put id (row.overlay changes))
    | names => (.notUnique .update names, docs)

/-- Does the work on the documents of a collection. -/
def apply (collection : String) (coll : Collection) (docs : Documents) : Work → Verdict × Documents
  | .create row => applyCreate coll (SortedMap.ofList row) docs
  | .update id changes => applyUpdate coll id changes docs
  | .delete id =>
    if (docs.rows id).isSome then (.deleted, docs.remove id) else (.notFound .delete, docs)
  | .get id =>
    match docs.rows id with
    | none => (.notFound .get, docs)
    | some row => (.row collection row, docs)
  | .exists id => (.exists (docs.rows id).isSome, docs)
  | .list => (.ids .list docs.ids, docs)
  | .size => (.size docs.ids.length, docs)
  | .find method index probe =>
    (.ids method (docs.holders index (index.compositeOf (SortedMap.ofList probe))), docs)

end Work

/-- The documents of every collection. -/
abbrev Library := String → Documents

namespace Library

/-- Nothing in any collection. -/
def empty : Library := fun _ => {}

/-- Performs a task. -/
def perform (library : Library) (task : Task) : Verdict × Library :=
  let (verdict, docs) := task.work.apply task.collection task.fields (library task.collection)
  (verdict, Function.update library task.collection docs)

/-- Takes every record back to where it was, but no counter. -/
def restore (library before : Library) : Library :=
  fun collection => { before collection with drawn := (library collection).drawn }

/-- Performs tasks one after another up to the first that stops; the last verdict, if there is one. -/
def performAll (library : Library) (last : Option Verdict) : List Task → Option Verdict × Library
  | [] => (last, library)
  | task :: rest =>
    let (verdict, library) := library.perform task
    if verdict.stops then (some verdict, library) else library.performAll (some verdict) rest

/-- Performs tasks all together or, but for the ids drawn, not at all. -/
def batch (library : Library) (tasks : List Task) : Option Verdict × Library :=
  match library.performAll none tasks with
  | (some verdict, after) =>
    (some verdict, if verdict.stops then after.restore library else after)
  | (none, after) => (none, after)

end Library

end DocStore
