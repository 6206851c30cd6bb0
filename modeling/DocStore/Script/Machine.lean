import DocStore.Keyspace.Perform
import DocStore.Script.Program
import DocStore.Script.Value

/-!
The state of a running script, and the single steps on it: variables in nested scopes, calls to the
keyspace, the journal of what calls have replaced, and the list of the calls themselves.

A step may fail; what it did to the state before it failed stays (`Run`).
-/

namespace DocStore.Script

/-- Variables of one scope. -/
abbrev Scope := SortedMap Value

/-- What a key held before a write. -/
structure Record where
  key : String
  entry : Option Entry
deriving DecidableEq, Repr

/-- The state of a running script. -/
structure Machine where
  /-- The store's content. -/
  space : Keyspace
  /-- The scopes within the outermost, innermost first. -/
  inner : List Scope
  /-- The outermost scope. -/
  outer : Scope
  /-- What writes have replaced, newest first, if that is recorded. -/
  journal : Option (List Record)
  /-- The commands carried out with their arguments, newest first, failed ones included. -/
  performed : List (Command × List String)
deriving DecidableEq

/-- A computation on a machine that may fail. -/
abbrev Run (α : Type) := ExceptT StoreError (StateM Machine) α

namespace Machine

/-- The machine that a program starts with. -/
def start (program : Program) (space : Keyspace) : Machine where
  space := space
  inner := []
  outer := ∅
  journal := if program.journal then some [] else none
  performed := []

/-- The first scope that has the variable. -/
def findIn? (name : String) : List Scope → Option Value
  | [] => none
  | scope :: rest =>
    match scope.find? name with
    | some value => some value
    | none => findIn? name rest

/-- The value of a variable in the innermost scope that has it. -/
def find? (machine : Machine) (name : String) : Option Value :=
  match findIn? name machine.inner with
  | some value => some value
  | none => machine.outer.find? name

/-- Changes a variable in the first scope that has it; `none` if no scope does. -/
def assignIn? (name : String) (value : Value) : List Scope → Option (List Scope)
  | [] => none
  | scope :: rest =>
    if scope.contains name then some (scope.insert name value :: rest)
    else (assignIn? name value rest).map (scope :: ·)

/-- Changes a variable in the innermost scope that has it, or else in the outermost scope. -/
def assign (machine : Machine) (name : String) (value : Value) : Machine :=
  match assignIn? name value machine.inner with
  | some inner => { machine with inner := inner }
  | none => { machine with outer := machine.outer.insert name value }

/-- Declares a variable in the innermost scope. -/
def declare (machine : Machine) (name : String) (value : Value) : Machine :=
  match machine.inner with
  | scope :: rest => { machine with inner := scope.insert name value :: rest }
  | [] => { machine with outer := machine.outer.insert name value }

/-- Opens a scope. -/
def openScope (machine : Machine) : Machine :=
  { machine with inner := ∅ :: machine.inner }

/-- Closes the innermost scope. -/
def closeScope (machine : Machine) : Machine :=
  { machine with inner := machine.inner.drop 1 }

/-- The keys that a journaled command may change. -/
def touched (command : Command) (args : List String) : List String :=
  if command = .del then args else args.take 1

/-- Records what the keys hold now, if the command is one to be recorded. -/
def record (machine : Machine) (command : Command) (args : List String) : Machine :=
  match machine.journal with
  | some journal =>
    if command.isJournaled then
      let records := (touched command args).map fun key => ⟨key, machine.space.find? key⟩
      { machine with journal := some (records.reverse ++ journal) }
    else machine
  | none => machine

/-- Puts back what the records say, in the order given. -/
def replay (space : Keyspace) (records : List Record) : Keyspace :=
  records.foldl (fun space record => space.restore record.key record.entry) space

/-- Puts back everything recorded, newest first, and stops recording. -/
def rollback (machine : Machine) : Machine :=
  match machine.journal with
  | some journal => { machine with space := replay machine.space journal, journal := none }
  | none => machine

end Machine

namespace Run

/-- Takes over the result of a computation that needs no machine. -/
def lift {α : Type} (result : Except StoreError α) : Run α :=
  fun machine => (result, machine)

/-- Fails. -/
def fail {α : Type} (fault : Fault) : Run α :=
  lift (.error (.script fault))

/-- Changes the machine. -/
def update (change : Machine → Machine) : Run Unit :=
  fun machine => (.ok (), change machine)

/-- The value of a variable; `nil` if there is none. -/
def lookup (name : String) : Run Value :=
  fun machine => (.ok ((machine.find? name).getD .nil), machine)

/-- Runs in a scope of its own, which is closed also after a failure. -/
def inScope {α : Type} (run : Run α) : Run α :=
  fun machine =>
    let (result, machine) := run machine.openScope
    (result, machine.closeScope)

/-- Changes the table in a variable. -/
def updateTable (name : String)
    (change : List Value → List (String × Value) → Value) : Run Unit :=
  fun machine =>
    match machine.find? name with
    | some (.table items fields) => (.ok (), machine.assign name (change items fields))
    | some other => (.error (.script (.notTable name other.kind)), machine)
    | none => (.error (.script (.undefined name)), machine)

/-- Runs a command on the keyspace, recording first what it may replace. -/
def command (command : Command) (args : List String) : Run Value :=
  fun machine =>
    let machine := machine.record command args
    let (result, space) := machine.space.execute command args
    (result.map Value.ofReply,
      { machine with space := space, performed := (command, args) :: machine.performed })

end Run

end DocStore.Script
