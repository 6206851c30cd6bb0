import DocStore.Field.Value
import DocStore.Schema.Basic

/-!
The texts in which field values are stored.

`~` stands for `null`, and a text of `~` alone gets one more in front, so that the two never meet.
Integers are base ten, truth values `true` and `false`, dates their UTC text and timestamps their
milliseconds since 1970.
-/

namespace DocStore

/-- The character that stands for `null`. -/
def nullChar : Char := '~'

/-- The stored text of `null`. -/
def nullText : String := "~"

/-- Whether a text is made of one or more `~` and nothing else. -/
def isNullRun (text : String) : Bool :=
  !text.isEmpty && text.toList.all (· = nullChar)

/-- The text under which a string is stored. -/
def escapeNullRun (text : String) : String :=
  if isNullRun text then nullText ++ text else text

/-- The string stored under a text. -/
def unescapeNullRun (stored : String) : String :=
  if isNullRun stored then String.ofList (stored.toList.drop 1) else stored

/-- A stored text that a field of this kind cannot hold. -/
structure DecodeError where
  stored : String
  kind : FieldKind
deriving DecidableEq, Repr

/-- The words for a stored text that cannot be decoded. -/
def DecodeError.message (e : DecodeError) : String :=
  "cannot decode '" ++ e.stored ++ "' as " ++ e.kind.name

namespace FieldKind

/-- The instant that a value denotes in a date field. -/
def instant? : FieldValue → Option Calendar.Instant
  | .date instant => some instant
  | .text s => Calendar.Instant.ofText? s
  | .int millis => Calendar.Instant.ofMillis? millis.toInt
  | _ => none

/-- The milliseconds that a value denotes in a timestamp field. -/
def millis? : FieldValue → Option Int
  | .int millis => some millis.toInt
  | .date instant => some instant.toMillis
  | .text s => (Calendar.Instant.ofText? s).map Calendar.Instant.toMillis
  | _ => none

/-- The stored text of a value that is not `null`, if the kind allows the value. -/
def encode? (kind : FieldKind) (value : FieldValue) : Option String :=
  match kind, value with
  | .string, .text s => some (escapeNullRun s)
  | .int, .int i => some (Decimal.ofInt i.toInt)
  | .boolean, .bool b => some (if b then "true" else "false")
  | .date, value => (instant? value).map Calendar.Instant.text
  | .timestamp, value => (millis? value).map Decimal.ofInt
  | _, _ => none

/-- The value of a stored text that is not the one of `null`. -/
def decode? (kind : FieldKind) (stored : String) : Option FieldValue :=
  match kind with
  | .string => some (.text (unescapeNullRun stored))
  | .int | .timestamp => (Decimal.int64? stored).map fun i => .int (Int64.ofInt i)
  | .boolean =>
    if stored = "true" then some (.bool true)
    else if stored = "false" then some (.bool false)
    else none
  | .date => (Calendar.Instant.ofText? stored).map .date

end FieldKind

namespace FieldType

/-- The stored text of a value. -/
def encode (type : FieldType) (value : FieldValue) : Except ErrorCode String :=
  if value.isNull then
    if type.allowNull then .ok nullText else .error .nullNotAllowed
  else
    match type.kind.encode? value with
    | some text => .ok text
    | none => .error .wrongType

/-- The value of a stored text. -/
def decode (type : FieldType) (stored : String) : Except DecodeError FieldValue :=
  if stored = nullText then .ok .null
  else
    match type.kind.decode? stored with
    | some value => .ok value
    | none => .error ⟨stored, type.kind⟩

end FieldType

namespace Collection

/-- Decodes a list of names and stored texts in turn, after the fields in `done`. Undeclared fields and a
name without a text are skipped. -/
def decodeFlat (collection : Collection) (done : FieldValues) :
    List String → Except DecodeError FieldValues
  | name :: stored :: rest =>
    match collection.field? name with
    | none => collection.decodeFlat done rest
    | some type =>
      match type.decode stored with
      | .error e => .error e
      | .ok value => collection.decodeFlat (done.insert name value) rest
  | _ => .ok done

/-- The record in a list of names and stored texts in turn. -/
def decodeRecord (collection : Collection) (flat : List String) : Except DecodeError FieldValues :=
  collection.decodeFlat ∅ flat

end Collection

end DocStore
