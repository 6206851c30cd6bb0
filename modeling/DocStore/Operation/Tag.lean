/-!
The two tags that every script answer begins with: which operation it answers, and how that went.
-/

namespace DocStore

/-- The operation that an answer or an error belongs to. -/
inductive Method where
  | create
  | update
  | delete
  | get
  | exists
  | list
  | size
  | find
  | findAll
  | setSchema
  | getSchema
  | getSchemaHash
  | currentId
  /-- Stands for no operation at all. -/
  | none
deriving DecidableEq, Repr

namespace Method

/-- The tag of a method. -/
def name : Method → String
  | .create => "create"
  | .update => "update"
  | .delete => "delete"
  | .get => "get"
  | .exists => "exists"
  | .list => "list"
  | .size => "size"
  | .find => "find"
  | .findAll => "findAll"
  | .setSchema => "setSchema"
  | .getSchema => "getSchema"
  | .getSchemaHash => "getSchemaHash"
  | .currentId => "currentId"
  | .none => "none"

/-- Every method. -/
def all : List Method :=
  [.create, .update, .delete, .get, .exists, .list, .size, .find, .findAll, .setSchema, .getSchema,
    .getSchemaHash, .currentId, .none]

/-- The method with a tag. -/
def ofName? (text : String) : Option Method :=
  all.find? fun method => method.name = text

theorem ofName?_name (method : Method) : ofName? method.name = some method := by
  cases method <;> decide

end Method

/-- Why an operation is rejected. -/
inductive ErrorCode where
  | schemaMissing
  | badSavedSchema
  | invalidSchema
  | schemaExists
  | unknownCollection
  | badParameter
  | nullNotAllowed
  | wrongType
  | notFound
  | notUnique
  | unknownIndex
deriving DecidableEq, Repr

namespace ErrorCode

/-- The tag of an error code. -/
def name : ErrorCode → String
  | .schemaMissing => "schemaMissing"
  | .badSavedSchema => "badSavedSchema"
  | .invalidSchema => "invalidSchema"
  | .schemaExists => "schemaExists"
  | .unknownCollection => "unknownCollection"
  | .badParameter => "badParameter"
  | .nullNotAllowed => "nullNotAllowed"
  | .wrongType => "wrongType"
  | .notFound => "notFound"
  | .notUnique => "notUnique"
  | .unknownIndex => "unknownIndex"

/-- Every error code. -/
def all : List ErrorCode :=
  [.schemaMissing, .badSavedSchema, .invalidSchema, .schemaExists, .unknownCollection, .badParameter,
    .nullNotAllowed, .wrongType, .notFound, .notUnique, .unknownIndex]

/-- The error code with a tag. -/
def ofName? (text : String) : Option ErrorCode :=
  all.find? fun code => code.name = text

theorem ofName?_name (code : ErrorCode) : ofName? code.name = some code := by
  cases code <;> decide

end ErrorCode

/-- The tag of success. -/
def noError : String := "noError"

end DocStore
