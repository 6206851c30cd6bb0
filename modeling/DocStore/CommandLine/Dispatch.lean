import DocStore.Client.BatchFile
import DocStore.Client.Handle
import DocStore.CommandLine.Args

/-!
Doing the tasks of the command line on a handle, and their results as JSON.
-/

namespace DocStore.Client

/-- The outcome as the command line prints it. -/
def Outcome.toJson : Outcome → Json
  | .done | .updated | .deleted => .bool true
  | .created id => .int id
  | .record values => values.toJson
  | .exists found => .bool found
  | .ids list => .arr (list.map .int)
  | .size count => .int count

/-- An outcome under the name `val`. -/
def valueJson (value : Json) : Json :=
  .obj [("val", value)]

/-- A stored schema with its revision. -/
def StoredSchema.toJson (stored : StoredSchema) : Json :=
  let revision := match stored.revision with
    | none => Json.null
    | some n => .int n
  .obj [("revision", revision), ("schema", stored.schema.toJson)]

end DocStore.Client

namespace DocStore

/-- A rejected operation as the command line prints it. -/
def OperationError.toJson (e : OperationError) : Json :=
  let indices := if e.indices.isEmpty then [] else [("indices", Json.arr (e.indices.map .str))]
  let reason := match e.reason with
    | none => []
    | some reason => [("reason", Json.str reason.message)]
  .obj ([("err", .str e.code.name), ("method", .str e.method.name)] ++ indices ++ reason)

end DocStore

namespace DocStore.CommandLine

open DocStore.Client

/-- The file that a task needs. -/
def Task.file? : Task → Option String
  | .setSchema _ file | .multi file => some file
  | _ => none

/-- The text of a file. -/
def readFile (files : String → Option String) (path : String) : Except InputError String :=
  match files path with
  | some text => .ok text
  | none => .error (.unreadable path)

/-- Goes on with input that has been read, or ends with what is wrong with it. -/
def withInput {α : Type} (input : Except InputError α) (action : α → Act Json) :
    Act (Except InputError Json) :=
  match input with
  | .error e => return .error e
  | .ok value => do return .ok (valueJson (← action value))

/-- Does a task. Input that cannot be used is reported apart from a failure of the handle. -/
def dispatch (handle : Handle) (files : String → Option String) :
    Task → Act (Except InputError Json)
  | .setSchema revision file =>
    let input := do
      match Json.ofText? (← readFile files file) with
      | some value => .ok value
      | none => .error .schemaNotJson
    withInput input fun value => do
      handle.setSchema revision value
      return Outcome.done.toJson
  | .getSchema => withInput (.ok ()) fun _ => do return (← handle.getSchema).toJson
  | .schemaDigest => withInput (.ok ()) fun _ => do return .str (← handle.schemaDigest)
  | .currentId collection =>
    withInput (.ok ()) fun _ => do return .int (← handle.currentId collection)
  | .create collection attrs =>
    withInput (recordOfText attrs) fun values => do
      return (Outcome.created (← handle.create collection values)).toJson
  | .update collection id attrs =>
    withInput (recordOfText attrs) fun values => do
      handle.update collection id values
      return Outcome.updated.toJson
  | .delete collection id =>
    withInput (.ok ()) fun _ => do
      handle.delete collection id
      return Outcome.deleted.toJson
  | .get collection id =>
    withInput (.ok ()) fun _ => do return (Outcome.record (← handle.get collection id)).toJson
  | .exists collection id =>
    withInput (.ok ()) fun _ => do return (Outcome.exists (← handle.exists? collection id)).toJson
  | .list collection =>
    withInput (.ok ()) fun _ => do return (Outcome.ids (← handle.list collection)).toJson
  | .size collection =>
    withInput (.ok ()) fun _ => do return (Outcome.size (← handle.size collection)).toJson
  | .find collection attrs =>
    withInput (recordOfText attrs) fun values => do
      return (Outcome.ids (← handle.find collection values)).toJson
  | .findAll collection attrs =>
    withInput (recordOfText attrs) fun values => do
      return (Outcome.ids (← handle.findAll collection values)).toJson
  | .multi file =>
    let input := do operationsOfText (← readFile files file)
    withInput input fun ops => do return (← handle.multi ops).toJson

end DocStore.CommandLine
