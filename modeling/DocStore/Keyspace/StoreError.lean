import DocStore.Keyspace.Reply
import DocStore.Script.Fault

/-!
How a store call fails.
-/

namespace DocStore

/-- A reply, or a digest, that is not what the caller needs. -/
inductive ReplyFault where
  /-- A list of replies was expected. -/
  | notArray (got : Reply)
  /-- A script was stored under another digest than its own. -/
  | otherDigest (stored expected : String)
  /-- Whatever else is wrong with a reply. -/
  | reported (text : String)
deriving DecidableEq, Repr

/-- The words for a reply fault. -/
def ReplyFault.message : ReplyFault → String
  | .notArray got => "expected an array reply, got " ++ got.shown
  | .otherDigest stored expected =>
    "store hashed script as " ++ stored ++ ", expected " ++ expected
  | .reported text => text

/-- The cause of a failed store call. -/
inductive StoreError where
  /-- The store cannot be reached. -/
  | unavailable (detail : String)
  /-- No script with this digest is loaded. -/
  | noScript (digest : String)
  /-- The key holds another kind of entry. -/
  | wrongType (key : String)
  /-- A command or script failed while it ran. -/
  | script (fault : Script.Fault)
  /-- The reply has the wrong shape. -/
  | protocol (fault : ReplyFault)
deriving DecidableEq, Repr

/-- The words for a store error. -/
def StoreError.message : StoreError → String
  | .unavailable detail => "backend unavailable: " ++ detail
  | .noScript digest => "no script loaded for hash " ++ digest
  | .wrongType key => "wrong kind of value at key '" ++ key ++ "'"
  | .script fault => "script error: " ++ fault.message
  | .protocol fault => "protocol error: " ++ fault.message

/-- The items of a reply that must be a list. -/
def Reply.items : Reply → Except StoreError (List Reply)
  | .array items => .ok items
  | other => .error (.protocol (.notArray other))

end DocStore
