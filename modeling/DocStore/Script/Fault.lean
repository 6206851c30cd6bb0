import DocStore.Keyspace.Command

/-!
What goes wrong inside a command or a script, and the words for it.
-/

namespace DocStore.Script

/-- The kinds of values that a script computes with. -/
inductive Kind where
  | nil
  | boolean
  | number
  | string
  | table
deriving DecidableEq, Repr

/-- The word for a kind. -/
def Kind.name : Kind → String
  | .nil => "nil"
  | .boolean => "boolean"
  | .number => "number"
  | .string => "string"
  | .table => "table"

/-- A use of a value that not every kind allows. -/
inductive Use where
  | concatenate
  | lower
  | escape
  | compare
  | index
  | length
deriving DecidableEq, Repr

/-- The words for a use. -/
def Use.name : Use → String
  | .concatenate => "concatenate"
  | .lower => "lower"
  | .escape => "escape"
  | .compare => "compare"
  | .index => "index"
  | .length => "get length of"

/-- The cause of a failed command or script. -/
inductive Fault where
  /-- A command has too few arguments, or half of a pair. -/
  | argumentCount (command : Command)
  /-- A text that should be an integer is not. -/
  | notInteger
  /-- A text that should be a score is not. -/
  | notScore
  /-- There is no such command. -/
  | unknownCommand (name : String)
  /-- A value of this kind has no such use. -/
  | misused (use : Use) (kind : Kind)
  /-- A field is read from a variable that holds no table. -/
  | fieldOf (name : String) (kind : Kind)
  /-- A local variable is changed like a table but holds another kind. -/
  | notTable (name : String) (kind : Kind)
  /-- A variable is changed like a table but does not exist. -/
  | undefined (name : String)
  /-- Something other than a table is sorted. -/
  | sorted (kind : Kind)
  /-- A list to sort holds a text that is no number. -/
  | notId
  /-- Values of these kinds have no order. -/
  | unordered (left right : Kind)
  /-- A command argument is neither a text nor an integer. -/
  | argumentKind
  /-- Whatever else a store reports. -/
  | reported (text : String)
deriving DecidableEq, Repr

/-- The words for a fault. -/
def Fault.message : Fault → String
  | .argumentCount command =>
    "ERR wrong number of arguments for '" ++ Text.lowercase command.name ++ "' command"
  | .notInteger => "ERR value is not an integer or out of range"
  | .notScore => "ERR value is not a valid float"
  | .unknownCommand name => "ERR unknown command '" ++ name ++ "'"
  | .misused use kind => "attempt to " ++ use.name ++ " a " ++ kind.name ++ " value"
  | .fieldOf name kind => "attempt to index '" ++ name ++ "' (a " ++ kind.name ++ " value)"
  | .notTable name kind => "attempt to index local '" ++ name ++ "' (a " ++ kind.name ++ " value)"
  | .undefined name => "attempt to index global '" ++ name ++ "' (a nil value)"
  | .sorted kind => "bad argument #1 to 'sort' (table expected, got " ++ kind.name ++ ")"
  | .notId => "attempt to compare nil with nil"
  | .unordered left right => "attempt to compare " ++ left.name ++ " with " ++ right.name
  | .argumentKind => "Lua redis() command arguments must be strings or integers"
  | .reported text => text

end DocStore.Script
