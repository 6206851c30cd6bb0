import DocStore.Operation.Compile

/-!
Building one script from operations.

Operations are added one after another, each as a block of its own, and share one list of parameters. The
first one that the schema forbids is remembered, and from then on nothing is added. A script of more than
one operation is journaled, so that an abort undoes the operations before it, except for ids drawn.
-/

namespace DocStore

open DocStore.Script

/-- A script being built. -/
structure Build where
  body : List Stmt := []
  params : List String := []
  count : Nat := 0
  error : Option OperationError := none

namespace Build

/-- Adds an operation, unless one was forbidden before. -/
def add (ns : String) (schema : Schema) (build : Build) (op : Operation) : Build :=
  match build.error with
  | some _ => build
  | none =>
    match op.compile ns schema (build.params.length + 1) with
    | .error e => { build with error := some e }
    | .ok fragment =>
      { build with
        body := build.body ++ [.block fragment.body]
        params := build.params ++ fragment.params
        count := build.count + 1 }

/-- Adds operations one after another. -/
def addAll (ns : String) (schema : Schema) (build : Build) (ops : List Operation) : Build :=
  ops.foldl (add ns schema) build

/-- The build of a list of operations. -/
def ofList (ns : String) (schema : Schema) (ops : List Operation) : Build :=
  addAll ns schema {} ops

/-- The place of the first operation that is forbidden, counted from `place`. -/
def rejectedFrom? (ns : String) (schema : Schema) (build : Build) (place : Nat) :
    List Operation → Option Nat
  | [] => none
  | op :: rest =>
    let build := build.add ns schema op
    if build.error.isSome then some place else build.rejectedFrom? ns schema (place + 1) rest

/-- Whether no operation has been added. -/
def isEmpty (build : Build) : Bool :=
  build.count = 0

/-- The script: the answer of no operation, the operations, and the answer last set. -/
def script (build : Build) : Program :=
  ⟨.declare "ret" (Operation.answer .none noError []) :: build.body ++ [.finish (.var "ret")],
    decide (1 < build.count)⟩

/-- The script, unless an operation was forbidden. -/
def program? (build : Build) : Option Program :=
  if build.error.isNone then some build.script else none

/-- The script and its parameters, or nothing if no operation was added. -/
def finish (build : Build) : Except OperationError (Option (Program × List String)) :=
  match build.error with
  | some e => .error e
  | none => if build.isEmpty then .ok none else .ok (some (build.script, build.params))

end Build

/-- The script that stores a schema. Its parameters are the schema's text, the revision, and `1` to replace
whatever is stored or `0` to accept only what is stored already. -/
def setSchemaProgram (ns : String) : Program :=
  let schema := Expr.str (Layout.schemaKey ns)
  let revision := Expr.str (Layout.revisionKey ns)
  let done := Operation.succeed .setSchema []
  ⟨[.declare "ret" (Operation.answer .none noError []),
    .block [.declare "current" (.call .get [schema]),
      .branch (.and [.var "current", .eq (.param 3) (.str "0")])
        [.branch
          (.and [.eq (.var "current") (.param 1), .eq (.call .get [revision]) (.param 2)])
          [done]
          [.finish (Operation.answer .setSchema ErrorCode.schemaExists.name [])]]
        [.call .set [schema, .param 1], .call .set [revision, .param 2], done]],
    .finish (.var "ret")], false⟩

end DocStore
