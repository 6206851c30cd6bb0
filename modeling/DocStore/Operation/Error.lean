import DocStore.Operation.Tag
import DocStore.Schema.Reader

/-!
Rejected operations: which one, why, and over which indices.
-/

namespace DocStore

/-- What a rejected operation says beyond its error code. -/
inductive Reason where
  | unknownCollection (name : String)
  | rejectedField (name : String) (code : ErrorCode)
  | missingField (name : String)
  | noDeclaredField
  | noIndex (names : List String)
  | schema (e : SchemaError)
  | revision (text : String)
  | schemaExists
deriving DecidableEq, Repr

/-- The words for a reason. -/
def Reason.message : Reason → String
  | .unknownCollection name => "Unknown collection: '" ++ name ++ "'"
  | .rejectedField name code => "Field '" ++ name ++ "' rejected (" ++ code.name ++ ")"
  | .missingField name => "Missing field: '" ++ name ++ "'"
  | .noDeclaredField => "No declared field to update"
  | .noIndex names => "No index over: '" ++ Text.joined ", " names ++ "'"
  | .schema e => e.message
  | .revision text => "Invalid schema revision: '" ++ text ++ "'"
  | .schemaExists => "Schema already exists"

/-- A rejected operation. `indices` names the indices that stand in the way of a record. -/
structure OperationError where
  method : Method
  code : ErrorCode
  indices : List String := []
  reason : Option Reason := none
deriving DecidableEq, Repr

/-- The words for a rejected operation. -/
def OperationError.message (e : OperationError) : String :=
  let indices := if e.indices.isEmpty then "" else " [" ++ Text.joined ", " e.indices ++ "]"
  let reason := match e.reason with
    | none => ""
    | some reason => " (" ++ reason.message ++ ")"
  e.method.name ++ " failed: " ++ e.code.name ++ indices ++ reason

end DocStore
