import DocStore.Layout.IndexScript
import DocStore.Operation.Basic
import DocStore.Operation.Error

/-!
Operations as parts of scripts.

`Operation.compile` gives the statements of an operation and the texts of its parameters, or the reason
why the schema forbids it. Names and keys are literals of the script and values are parameters, so that
operations of one shape share one script. Every part either sets the answer `ret` or aborts with another.
-/

namespace DocStore.Operation

open DocStore.Script

/-- The statements of an operation, and its parameters in order. -/
structure Fragment where
  body : List Stmt
  params : List String

/-- An answer: a method, how it went, and what goes with it. -/
def answer (method : Method) (code : String) (payload : List Expr) : Expr :=
  .table (.str method.name :: .str code :: payload)

/-- Sets the answer of success. -/
def succeed (method : Method) (payload : List Expr) : Stmt :=
  .assign "ret" (answer method noError payload)

/-- Aborts with an error. -/
def reject (method : Method) (code : ErrorCode) (payload : List Expr) : Stmt :=
  .abort (answer method code.name payload)

/-- Aborts with an error if there is no such record. -/
def rejectIfMissing (method : Method) (key : Expr) : Stmt :=
  .when (.eq (.call .exists [key]) (.int 0)) [reject method .notFound []]

/-- Aborts with an error if the list of conflicts is not empty. -/
def rejectConflicts (method : Method) : Stmt :=
  .when (.gt (.len (.var "conflicts")) (.int 0)) [reject method .notUnique [.var "conflicts"]]

/-- The stored record as a table. -/
def storedRecord : Expr :=
  .toMap (.call .hgetall [.var "key"])

/-- The key of a record. -/
def recordKeyExpr (ns collection : String) (id : Expr) : Expr :=
  .concat [.str (Layout.recordStem ns collection), id]

/-- Sets fields of the table in a variable to parameters, the first of them the given one. -/
def setFields (map : String) (param : Nat) : List (String × String) → List Stmt
  | [] => []
  | (name, _) :: rest => .setField map name (.param param) :: setFields map (param + 1) rest

/-- The arguments that write fields of the table in a variable. -/
def fieldArgs (map : String) (encoded : List (String × String)) : List Expr :=
  encoded.flatMap fun entry => [.str entry.1, .field map entry.1]

/-- The stored texts of the declared fields among `attrs`; others are dropped. -/
def encodeFields (method : Method) (collection : Collection) :
    List (String × FieldValue) → Except OperationError (List (String × String))
  | [] => .ok []
  | (name, value) :: rest =>
    match collection.field? name with
    | none => encodeFields method collection rest
    | some type =>
      match type.encode value with
      | .error code => .error ⟨method, code, [], some (.rejectedField name code)⟩
      | .ok text => (encodeFields method collection rest).map ((name, text) :: ·)

/-- Checks of the unique indices among those given. -/
def uniqueChecks (ns collection map : String) (own : Option Expr)
    (indices : List (String × Index)) : List Stmt :=
  (indices.filter (·.2.unique)).map fun entry =>
    entry.2.checkUnique entry.1 (Layout.indexKey ns collection entry.2) map own

/-- Enters an id in the indices given. -/
def addEntries (ns collection map : String) (id : Expr) (indices : List (String × Index)) :
    List Stmt :=
  indices.map fun entry => entry.2.addEntry (Layout.indexKey ns collection entry.2) map id

/-- Removes an id from the indices given. -/
def removeEntries (ns collection map : String) (id : Expr) (indices : List (String × Index)) :
    List Stmt :=
  indices.map fun entry => entry.2.removeEntry (Layout.indexKey ns collection entry.2) map id

/-- Draws an id, checks the unique indices and writes the record. -/
def createFragment (coll : Collection) (ns collection : String) (firstParam : Nat)
    (attrs : FieldValues) : Except OperationError Fragment := do
  let encoded ← encodeFields .create coll attrs.entries
  match coll.definition.keys.find? fun name => !(encoded.map Prod.fst).contains name with
  | some missing => .error ⟨.create, .badParameter, [], some (.missingField missing)⟩
  | none =>
    let indices := coll.indices.entries
    .ok ⟨[.declare "id" (.call .incr [.str (Layout.nextIdKey ns collection)]),
        .declare "rec" (.table [])] ++
      setFields "rec" firstParam encoded ++
      [.declare "conflicts" (.table [])] ++
      uniqueChecks ns collection "rec" none indices ++
      [rejectConflicts .create,
        .call .hset (recordKeyExpr ns collection (.var "id") :: fieldArgs "rec" encoded)] ++
      addEntries ns collection "rec" (.var "id") indices ++
      [.call .zadd [.str (Layout.idsKey ns collection), .var "id", .var "id"],
        succeed .create [.var "id"]], encoded.map Prod.snd⟩

/-- Overwrites fields of a record, and moves it in the indices that they touch. -/
def updateFragment (coll : Collection) (ns collection : String) (firstParam : Nat) (id : Int)
    (attrs : FieldValues) : Except OperationError Fragment := do
  let encoded ← encodeFields .update coll attrs.entries
  if encoded.isEmpty then .error ⟨.update, .badParameter, [], some .noDeclaredField⟩
  else
    let own := Expr.param firstParam
    let changed := encoded.map Prod.fst
    let touched := coll.indices.entries.filter (·.2.touches changed)
    .ok ⟨[.declare "key" (recordKeyExpr ns collection own),
        rejectIfMissing .update (.var "key"),
        .declare "old" storedRecord,
        .declare "new" storedRecord] ++
      setFields "new" (firstParam + 1) encoded ++
      [.declare "conflicts" (.table [])] ++
      uniqueChecks ns collection "new" (some own) touched ++
      [rejectConflicts .update] ++
      removeEntries ns collection "old" own touched ++
      addEntries ns collection "new" own touched ++
      [.call .hset (.var "key" :: fieldArgs "new" encoded),
        succeed .update [.int 1]], Decimal.ofInt id :: encoded.map Prod.snd⟩

/-- Removes a record and its entries in the indices. -/
def deleteFragment (coll : Collection) (ns collection : String) (firstParam : Nat) (id : Int) :
    Fragment :=
  let own := Expr.param firstParam
  ⟨[.declare "key" (recordKeyExpr ns collection own),
      rejectIfMissing .delete (.var "key"),
      .declare "old" storedRecord] ++
    removeEntries ns collection "old" own coll.indices.entries ++
    [.call .zrem [.str (Layout.idsKey ns collection), own],
      .call .del [.var "key"],
      succeed .delete []], [Decimal.ofInt id]⟩

/-- Answers the ids under the given values in the index over exactly those fields. -/
def findFragment (coll : Collection) (ns collection : String) (firstParam : Nat) (method : Method)
    (attrs : FieldValues) : Except OperationError Fragment := do
  match coll.indexFor? attrs.keys with
  | none => .error ⟨method, .unknownIndex, [], some (.noIndex attrs.keys)⟩
  | some (_, index) =>
    let encoded ← encodeFields method coll attrs.entries
    .ok ⟨[.declare "probe" (.table [])] ++ setFields "probe" firstParam encoded ++
      [.declare "ids" (.table []),
        .block (index.search (Layout.indexKey ns collection index) "probe"),
        succeed method [.var "ids"]], encoded.map Prod.snd⟩

/-- Answers the stored record. -/
def getFragment (ns collection : String) (firstParam : Nat) (id : Int) : Fragment :=
  ⟨[.declare "key" (recordKeyExpr ns collection (.param firstParam)),
    rejectIfMissing .get (.var "key"),
    succeed .get [.call .hgetall [.var "key"], .str collection]], [Decimal.ofInt id]⟩

/-- Answers whether there is such a record; if there is none the whole script ends with that answer. -/
def existsFragment (ns collection : String) (firstParam : Nat) (id : Int) : Fragment :=
  ⟨[.when (.eq (.call .exists [recordKeyExpr ns collection (.param firstParam)]) (.int 0))
      [.abort (answer .exists noError [.int 0])],
    succeed .exists [.int 1]], [Decimal.ofInt id]⟩

/-- Answers the live ids. -/
def listFragment (ns collection : String) : Fragment :=
  ⟨[succeed .list [.call .zrange [.str (Layout.idsKey ns collection), .int 0, .int (-1)]]], []⟩

/-- Answers how many records there are. -/
def sizeFragment (ns collection : String) : Fragment :=
  ⟨[succeed .size [.call .zcard [.str (Layout.idsKey ns collection)]]], []⟩

/-- Compiles an operation; its first parameter has the number `firstParam`. -/
def compile (ns : String) (schema : Schema) (firstParam : Nat) (op : Operation) :
    Except OperationError Fragment :=
  match schema.collection? op.collection with
  | none =>
    .error ⟨op.method, .unknownCollection, [], some (.unknownCollection op.collection)⟩
  | some coll =>
    match op with
    | .create collection attrs => createFragment coll ns collection firstParam attrs
    | .update collection id attrs => updateFragment coll ns collection firstParam id attrs
    | .delete collection id => .ok (deleteFragment coll ns collection firstParam id)
    | .get collection id => .ok (getFragment ns collection firstParam id)
    | .exists collection id => .ok (existsFragment ns collection firstParam id)
    | .list collection => .ok (listFragment ns collection)
    | .size collection => .ok (sizeFragment ns collection)
    | .find collection attrs => findFragment coll ns collection firstParam .find attrs
    | .findAll collection attrs => findFragment coll ns collection firstParam .findAll attrs

end DocStore.Operation
