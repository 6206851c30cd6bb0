import DocStore.Client.Outcome
import DocStore.Field.Codec
import DocStore.Keyspace.StoreError
import DocStore.Operation.Error

/-!
How a client's call fails.
-/

namespace DocStore.Client

/-- The parts of a script answer. -/
inductive Part where
  | methodTag
  | errorTag
  | id
  | flag
  | size
  | indexList
  | idList
  | fieldList
  | collectionName
deriving DecidableEq, Repr

/-- The words for a part. -/
def Part.name : Part → String
  | .methodTag => "method tag"
  | .errorTag => "error tag"
  | .id => "id"
  | .flag => "flag"
  | .size => "size"
  | .indexList => "index list"
  | .idList => "id list"
  | .fieldList => "field list"
  | .collectionName => "collection name"

/-- What is wrong with a script's answer. -/
inductive AnswerFault where
  /-- The answer, or a part that should be a list, is none. -/
  | reply (fault : ReplyFault)
  /-- A part, or an item of it, is no text. -/
  | expected (part : Part) (got : Reply)
  /-- A part is no integer. -/
  | expectedInteger (part : Part) (got : Option Reply)
  | missing (part : Part)
  | unknownMethod (tag : String)
  | unknownError (tag : String)
  | notId (text : String)
  | unknownCollection (name : String)
  | stored (e : DecodeError)
  | negativeSize
  /-- The method is not one that scripts answer. -/
  | notScriptMethod (method : Method)
  /-- The outcome does not belong to the method asked for. -/
  | unexpected (method : Method) (outcome : Outcome)
  /-- A counter's key holds another text. -/
  | counter (text key : String)
deriving DecidableEq, Repr

/-- The words for a fault in an answer. -/
def AnswerFault.message : AnswerFault → String
  | .reply fault => (StoreError.protocol fault).message
  | .expected part got => "expected " ++ part.name ++ ", got " ++ got.shown
  | .expectedInteger part got =>
    "expected integer " ++ part.name ++ ", got " ++ Reply.shownOption got
  | .missing part => "missing " ++ part.name
  | .unknownMethod tag => "unknown method tag '" ++ tag ++ "'"
  | .unknownError tag => "unknown error tag '" ++ tag ++ "'"
  | .notId text => "'" ++ text ++ "' is not an id"
  | .unknownCollection name => "unknown collection '" ++ name ++ "' in reply"
  | .stored e => e.message
  | .negativeSize => "negative size"
  | .notScriptMethod method => "'" ++ method.name ++ "' is not a script operation"
  | .unexpected method outcome =>
    "unexpected result for " ++ method.name ++ ": " ++ outcome.shown
  | .counter text key => "'" ++ text ++ "' at " ++ key ++ " is not an id"

/-- The cause of a failed call. -/
inductive Failure where
  /-- The operation was rejected, by the schema or by its script. -/
  | operation (e : OperationError)
  /-- A namespace is no legal name. -/
  | invalidNamespace (name : String)
  /-- A schema's revision must be at least one. -/
  | invalidRevision (revision : Nat)
  | store (e : StoreError)
  | protocol (fault : AnswerFault)
deriving DecidableEq, Repr

/-- The words for a failure. -/
def Failure.message : Failure → String
  | .operation e => e.message
  | .invalidNamespace name => "invalid prefix: '" ++ name ++ "'"
  | .invalidRevision revision =>
    "invalid schema revision: " ++ Decimal.ofNat revision ++ " (must be at least 1)"
  | .store e => "storage error: " ++ e.message
  | .protocol fault => "protocol error: " ++ fault.message

end DocStore.Client
