import DocStore.Client.Answer
import DocStore.Client.Runner
import DocStore.Operation.Build
import DocStore.Schema.Printer

/-!
Handles: the documents under one namespace of a store.

A handle reads the stored schema at its first use and keeps it. A missing schema is looked for again at the
next use; one that cannot be read stays unusable until it is replaced. Every operation, and every batch, is
one script; what the schema forbids, and what is empty, never reaches the store.
-/

namespace DocStore.Client

open DocStore.Store

/-- A schema as it is stored; a revision may be missing. -/
structure StoredSchema where
  schema : Schema
  revision : Option Nat
deriving DecidableEq, Repr

/-- What a handle knows of the stored schema. -/
inductive SchemaState where
  | unloaded
  | loaded (stored : StoredSchema)
  /-- What is stored cannot be read. -/
  | bad (reason : Reason)
deriving DecidableEq, Repr

/-- A handle on the documents under one namespace. -/
structure Handle where
  ns : String
  valid : isValidName ns = true
  /-- Whether scripts are loaded before their first run. -/
  preload : Bool
deriving DecidableEq

/-- A client's action: a dialog with the store that may change what the handle knows, and may fail. -/
abbrev Act (α : Type) := ExceptT Failure (StateT SchemaState Dialog) α

namespace Act

/-- Talks to the store. -/
def talk {α : Type} (talk : Talk α) : Act α :=
  ExceptT.mk fun state => do
    let result ← talk.run
    return (result.mapError Failure.store, state)

/-- Rejects an operation. -/
def reject {α : Type} (method : Method) (code : ErrorCode) (reason : Option Reason) : Act α :=
  throw (.operation ⟨method, code, [], reason⟩)

end Act

/-- Reads a stored schema and its revision. -/
def StoredSchema.read (text : String) (revision : Option String) : Except Reason StoredSchema := do
  let schema ← (Schema.ofText text).mapError Reason.schema
  match revision with
  | none => .ok ⟨schema, none⟩
  | some revision =>
    match Decimal.word64? revision with
    | some n => .ok ⟨schema, some n⟩
    | none => .error (.revision revision)

namespace Handle

/-- The handle on a namespace, if its name is legal. -/
def open? (ns : String) (preload : Bool) : Except Failure Handle :=
  if h : isValidName ns = true then .ok ⟨ns, h, preload⟩ else .error (.invalidNamespace ns)

/-- The form shown for debugging. -/
def shown (handle : Handle) (storeName : String) : String :=
  "RigidDb \x7b prefix: " ++ Text.quoted handle.ns ++ ", store: " ++ Text.quoted storeName ++
    ", .. \x7d"

/-- The stored schema, read from the store unless the handle knows it already. -/
def loadSchema (handle : Handle) (method : Method) : Act StoredSchema := do
  match ← get with
  | .loaded stored => return stored
  | .bad reason => Act.reject method .badSavedSchema (some reason)
  | .unloaded =>
    match ← Act.talk (Call.get (Layout.schemaKey handle.ns)).ask with
    | none => Act.reject method .schemaMissing none
    | some text =>
      let revision ← Act.talk (Call.get (Layout.revisionKey handle.ns)).ask
      match StoredSchema.read text revision with
      | .ok stored =>
        set (SchemaState.loaded stored)
        return stored
      | .error reason =>
        set (SchemaState.bad reason)
        Act.reject method .badSavedSchema (some reason)

/-- Whether a failure only says that no usable schema is stored. -/
def isUnusableSchema : Failure → Bool
  | .operation e => e.code = .schemaMissing || e.code = .badSavedSchema
  | _ => false

/-- Looks for the stored schema, and takes it as no failure if there is no usable one. -/
def lookForSchema (handle : Handle) (method : Method) : Act Unit :=
  tryCatch (discard (handle.loadSchema method)) fun failure =>
    if isUnusableSchema failure then pure () else throw failure

/-- Says why a schema exists already. -/
def explainExisting (failure : Failure) : Failure :=
  match failure with
  | .operation e =>
    if e.code = .schemaExists then .operation { e with reason := some .schemaExists } else failure
  | other => other

/-- Stores a schema under a revision. The first one stored stays; storing the same one again succeeds, and
one that cannot be read is replaced. -/
def setSchema (handle : Handle) (revision : Nat) (value : Json) : Act Unit := do
  if revision < 1 then throw (.invalidRevision revision)
  match Schema.ofJson value with
  | .error e => Act.reject .setSchema .invalidSchema (some (.schema e))
  | .ok schema =>
    if (← get) = .unloaded then handle.lookForSchema .setSchema
    let overwrite := match ← get with
      | .bad _ => "1"
      | _ => "0"
    let reply ← Act.talk (evaluate handle.preload (setSchemaProgram handle.ns).compiled
      [schema.text, Decimal.ofNat revision, overwrite])
    match readAnswer schema reply with
    | .error failure => throw (explainExisting failure)
    | .ok _ => set (SchemaState.loaded ⟨schema, some revision⟩)

/-- The stored schema. -/
def getSchema (handle : Handle) : Act StoredSchema :=
  handle.loadSchema .getSchema

/-- The digest of the stored schema's text. -/
def schemaDigest (handle : Handle) : Act String := do
  return (← handle.loadSchema .getSchemaHash).schema.digest

/-- The last id drawn in a collection, zero if none was. -/
def currentId (handle : Handle) (collection : String) : Act Int := do
  let stored ← handle.loadSchema .currentId
  if (stored.schema.collection? collection).isNone then
    Act.reject .currentId .unknownCollection (some (.unknownCollection collection))
  else
    let key := Layout.nextIdKey handle.ns collection
    match ← Act.talk (Call.get key).ask with
    | none => return 0
    | some text =>
      match Decimal.int64? text with
      | some id => return id
      | none => throw (.protocol (.counter text key))

/-- Runs operations as one script; the outcome is that of the last one. -/
def execute (handle : Handle) (method : Method) (ops : List Operation) : Act Outcome := do
  let stored ← handle.loadSchema method
  match (Build.ofList handle.ns stored.schema ops).finish with
  | .error e => throw (.operation e)
  | .ok none => return .done
  | .ok (some (program, params)) =>
    let reply ← Act.talk (evaluate handle.preload program.compiled params)
    match readAnswer stored.schema reply with
    | .error failure => throw failure
    | .ok outcome => return outcome

/-- Runs several operations as one script, all or nothing. -/
def multi (handle : Handle) (ops : List Operation) : Act Outcome :=
  handle.execute .none ops

/-- Runs one operation, and reads its outcome. -/
def executeOne {α : Type} (handle : Handle) (op : Operation) (read : Outcome → Option α) :
    Act α := do
  let outcome ← handle.execute op.method [op]
  match read outcome with
  | some value => return value
  | none => throw (.protocol (.unexpected op.method outcome))

/-- Creates a record, and answers its id. -/
def create (handle : Handle) (collection : String) (attrs : FieldValues) : Act Int :=
  handle.executeOne (.create collection attrs) fun
    | .created id => some id
    | _ => none

/-- Overwrites fields of a record. -/
def update (handle : Handle) (collection : String) (id : Int) (attrs : FieldValues) : Act Unit :=
  handle.executeOne (.update collection id attrs) fun
    | .updated => some ()
    | _ => none

/-- Removes a record. -/
def delete (handle : Handle) (collection : String) (id : Int) : Act Unit :=
  handle.executeOne (.delete collection id) fun
    | .deleted => some ()
    | _ => none

/-- The values of a record. -/
def get (handle : Handle) (collection : String) (id : Int) : Act FieldValues :=
  handle.executeOne (.get collection id) fun
    | .record values => some values
    | _ => none

/-- Whether there is such a record. -/
def exists? (handle : Handle) (collection : String) (id : Int) : Act Bool :=
  handle.executeOne (.exists collection id) fun
    | .exists found => some found
    | _ => none

/-- The ids that an outcome lists. -/
def idsOf? : Outcome → Option (List Int)
  | .ids list => some list
  | _ => none

/-- The ids of a collection, ascending. -/
def list (handle : Handle) (collection : String) : Act (List Int) :=
  handle.executeOne (.list collection) idsOf?

/-- Number of records in a collection. -/
def size (handle : Handle) (collection : String) : Act Nat :=
  handle.executeOne (.size collection) fun
    | .size count => some count
    | _ => none

/-- The ids of the records with these values, by the index over exactly these fields. -/
def find (handle : Handle) (collection : String) (attrs : FieldValues) : Act (List Int) :=
  handle.executeOne (.find collection attrs) idsOf?

/-- The same as `find`, under another name. -/
def findAll (handle : Handle) (collection : String) (attrs : FieldValues) : Act (List Int) :=
  handle.executeOne (.findAll collection attrs) idsOf?

end Handle

end DocStore.Client
