import DocStore.Calendar.Instant
import DocStore.Json.Basic
import DocStore.Operation.Tag
import DocStore.Text.Quoted

/-!
Field values and records, and their exchange with JSON.
-/

namespace DocStore

/-- The value of a field. -/
inductive FieldValue where
  | null
  | bool (value : Bool)
  | int (value : Int64)
  | text (value : String)
  | date (value : Calendar.Instant)
deriving DecidableEq, Repr

/-- Field values by name. -/
abbrev FieldValues := SortedMap FieldValue

namespace FieldValue

/-- Whether the value is `null`. -/
def isNull : FieldValue → Bool
  | .null => true
  | _ => false

/-- The field value of a JSON value. A fraction is cut towards zero; numbers beyond 64 bits, arrays and
objects are refused. -/
def ofJson : Json → Except ErrorCode FieldValue
  | .null => .ok .null
  | .bool b => .ok (.bool b)
  | .int i => if Decimal.InInt64 i then .ok (.int (Int64.ofInt i)) else .error .wrongType
  | .float x =>
    if x.magnitude < (Binary64.ofNat 0x8000000000000000).magnitude then .ok (.int (Int64.ofInt x.truncate))
    else .error .wrongType
  | .str s => .ok (.text s)
  | .arr _ | .obj _ => .error .wrongType

/-- The JSON value of a field value; a date is written as its text. -/
def toJson : FieldValue → Json
  | .null => .null
  | .bool b => .bool b
  | .int i => .int i.toInt
  | .text s => .str s
  | .date instant => .str instant.text

/-- The form shown inside messages, such as `Text("red")`. -/
def shown : FieldValue → String
  | .null => "Null"
  | .bool b => "Bool(" ++ (if b then "true" else "false") ++ ")"
  | .int i => "Int(" ++ Decimal.ofInt i.toInt ++ ")"
  | .text s => "Text(" ++ Text.quoted s ++ ")"
  | .date instant => "Date(" ++ instant.shortText ++ ")"

end FieldValue

namespace FieldValues

/-- Reads members one after another; the first that is no field value is reported with its name. -/
def ofMembers (read : Json → Except ErrorCode FieldValue) :
    List (String × Json) → Except (String × ErrorCode) (List (String × FieldValue))
  | [] => .ok []
  | (name, value) :: rest =>
    match read value with
    | .error code => .error (name, code)
    | .ok first => (ofMembers read rest).map ((name, first) :: ·)

/-- The record as a JSON object. -/
def toJson (values : FieldValues) : Json :=
  .obj (values.entries.map fun entry => (entry.1, entry.2.toJson))

/-- The form shown inside messages. -/
def shown (values : FieldValues) : String :=
  let entries := values.entries.map fun entry => Text.quoted entry.1 ++ ": " ++ entry.2.shown
  "\x7b" ++ Text.joined ", " entries ++ "\x7d"

end FieldValues

end DocStore
