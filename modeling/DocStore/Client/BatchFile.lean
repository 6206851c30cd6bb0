import DocStore.Field.Value
import DocStore.Json.Written
import DocStore.Operation.Basic

/-!
Records and batches of operations as JSON text.

A batch is a list. An entry is an object with the operation's name under `op` and the fields that the
operation needs, or a list of the same in this order. Other members of an object are ignored, and none of
the known ones may be repeated.
-/

namespace DocStore.Client

open DocStore.Json

/-- Why a text gives no record or no batch. -/
inductive InputError where
  | recordNotJson
  | notObject
  | field (name : String) (code : ErrorCode)
  | badBatch
  | entry (place : Nat) (e : InputError)
  | schemaNotJson
  | unreadable (path : String)
deriving DecidableEq, Repr

/-- The words for an input error. -/
def InputError.message : InputError → String
  | .recordNotJson => "attributes are not valid JSON"
  | .notObject => "attributes must be a JSON object"
  | .field name code => "field '" ++ name ++ "': " ++ code.name
  | .badBatch => "invalid batch file"
  | .entry place e => "batch entry " ++ Decimal.ofNat place ++ ": " ++ e.message
  | .schemaNotJson => "schema is not valid JSON"
  | .unreadable path => "failed to read " ++ path ++ ": No such file or directory (os error 2)"

/-- The field values in a JSON object. -/
def recordOfJson : Json → Except InputError FieldValues
  | .obj members =>
    match FieldValues.ofMembers FieldValue.ofJson members with
    | .ok values => .ok (SortedMap.ofList values)
    | .error (name, code) => .error (.field name code)
  | _ => .error .notObject

/-- The field values in a JSON text. -/
def recordOfText (text : String) : Except InputError FieldValues :=
  match Json.ofText? text with
  | some value => recordOfJson value
  | none => .error .recordNotJson

/-- An operation whose attributes, if it has any, are still JSON. -/
structure BatchEntry where
  attrs : Option Json
  operation : FieldValues → Operation

/-- The names of the fields that an operation needs, in order; `none` if it is no operation of a batch. -/
def fieldNames? : Method → Option (List String)
  | .create | .find | .findAll => some ["collection", "attrs"]
  | .update => some ["collection", "id", "attrs"]
  | .delete | .get | .exists => some ["collection", "id"]
  | .list | .size => some ["collection"]
  | _ => none

/-- An id of 64 bits. -/
def id? : Json → Option Int
  | .int i => if Decimal.InInt64 i then some i else none
  | _ => none

/-- The entry with an operation's fields in order. -/
def entry? : Method → List Json → Option BatchEntry
  | .create, [.str collection, attrs] => some ⟨some attrs, .create collection⟩
  | .find, [.str collection, attrs] => some ⟨some attrs, .find collection⟩
  | .findAll, [.str collection, attrs] => some ⟨some attrs, .findAll collection⟩
  | .update, [.str collection, id, attrs] =>
    (id? id).map fun id => ⟨some attrs, .update collection id⟩
  | .delete, [.str collection, id] => (id? id).map fun id => ⟨none, fun _ => .delete collection id⟩
  | .get, [.str collection, id] => (id? id).map fun id => ⟨none, fun _ => .get collection id⟩
  | .exists, [.str collection, id] => (id? id).map fun id => ⟨none, fun _ => .exists collection id⟩
  | .list, [.str collection] => some ⟨none, fun _ => .list collection⟩
  | .size, [.str collection] => some ⟨none, fun _ => .size collection⟩
  | _, _ => none

/-- The value of the only member with a name; `none` if there is no such member or more than one. -/
def single? (name : String) (members : List (String × Json)) : Option Json :=
  match members.filter fun member => member.1 = name with
  | [member] => some member.2
  | _ => none

/-- The entry that an object gives. -/
def entryOfMembers? (members : List (String × Json)) : Option BatchEntry := do
  let method ← Method.ofName? (← (← single? "op" members).str?)
  let fields ← (← fieldNames? method).mapM fun name => single? name members
  entry? method fields

/-- The entry that a list gives: the operation's name, then its fields. -/
def entryOfItems? : List Json → Option BatchEntry
  | .str op :: fields => do entry? (← Method.ofName? op) fields
  | _ => none

/-- The entry that a written value gives. -/
def entryOfWritten? : Written → Option BatchEntry
  | .obj members => do entryOfMembers? (← Written.membersToJson? members)
  | .arr items => do entryOfItems? (← Written.itemsToJson? items)
  | _ => none

/-- The entries of a batch. -/
def entriesOfText? (text : String) : Option (List BatchEntry) := do
  let tree ← Written.ofText? text
  if 127 < tree.depth then none
  else
    match tree with
    | .arr items => items.mapM entryOfWritten?
    | _ => none

/-- The operation of an entry. -/
def BatchEntry.toOperation (entry : BatchEntry) : Except InputError Operation :=
  match entry.attrs with
  | none => .ok (entry.operation ∅)
  | some attrs => (recordOfJson attrs).map entry.operation

/-- The operations of the entries; the first that has none is reported with its place. -/
def operationsFrom (place : Nat) : List BatchEntry → Except InputError (List Operation)
  | [] => .ok []
  | entry :: rest =>
    match entry.toOperation with
    | .error e => .error (.entry place e)
    | .ok op => (operationsFrom (place + 1) rest).map (op :: ·)

/-- The operations of a batch. -/
def operationsOfText (text : String) : Except InputError (List Operation) :=
  match entriesOfText? text with
  | none => .error .badBatch
  | some entries => operationsFrom 0 entries

end DocStore.Client
