/-!
Reading arguments by a grammar of options, flags, places and subcommands.

Long options stand before or between the places, with their value behind `=` or in the next argument; `--`
ends them, and a lone `-` is an ordinary value. A value counts once the reader goes on to the next option or
place, so that a bad one is found before a later request for help, and a missing one likewise.
-/

namespace DocStore.CommandLine

/-- Why arguments give no task. -/
inductive ArgsError where
  /-- They do not follow the grammar. -/
  | usage
  /-- They ask for help or for the version. -/
  | display
deriving DecidableEq, Repr

/-- What an argument list may hold; `σ` gathers what has been entered. -/
structure Grammar (σ : Type) where
  /-- Options with a value. -/
  valued : String → Option (String → σ → Option σ)
  /-- Options without a value. -/
  flag : String → Option (σ → Option σ)
  /-- Long options that only show something. -/
  shows : List String
  /-- Short options that only show something. -/
  shortShows : List Char
  /-- Values by place. -/
  place : Nat → Option (String → σ → Option σ)
  /-- Words after which another grammar takes over. -/
  subcommands : List String

/-- How far the reading has come. -/
structure Reading (σ : Type) where
  entered : σ
  /-- An option that still needs its value. -/
  awaiting : Option (String → σ → Option σ) := none
  /-- A value that has been read but does not count yet. -/
  pending : Option (σ → Option σ) := none
  /-- The next place. -/
  place : Nat := 0

namespace Reading

variable {σ : Type}

/-- Lets the last value count. -/
def settle (reading : Reading σ) : Except ArgsError (Reading σ) :=
  match reading.awaiting, reading.pending with
  | some _, _ => .error .usage
  | none, none => .ok reading
  | none, some enter =>
    match enter reading.entered with
    | some entered => .ok { reading with entered := entered, pending := none }
    | none => .error .usage

/-- Lets the last value count, and then something at once. -/
def enter (reading : Reading σ) (change : σ → Option σ) : Except ArgsError (Reading σ) := do
  let reading ← reading.settle
  match change reading.entered with
  | some entered => .ok { reading with entered := entered }
  | none => .error .usage

/-- Reads the value of the next place. -/
def readPlace (grammar : Grammar σ) (reading : Reading σ) (value : String) :
    Except ArgsError (Reading σ) := do
  match grammar.place reading.place with
  | none => .error .usage
  | some enter =>
    let reading ← reading.settle
    .ok { reading with pending := some (enter value), place := reading.place + 1 }

/-- Reads values of places up to the end. -/
def readPlaces (grammar : Grammar σ) (reading : Reading σ) :
    List String → Except ArgsError (Reading σ)
  | [] => .ok reading
  | value :: rest => do (← reading.readPlace grammar value).readPlaces grammar rest

/-- Shows something, unless the last value is bad. -/
def show? (reading : Reading σ) : Except ArgsError (Reading σ) := do
  let _ ← reading.settle
  .error .display

/-- Reads a long option, with the value behind its `=` if there is one. -/
def readLong (grammar : Grammar σ) (reading : Reading σ) (name : String) (value : Option String) :
    Except ArgsError (Reading σ) := do
  match grammar.valued name, value with
  | some enter, some value => reading.enter (enter value)
  | some enter, none =>
    let reading ← reading.settle
    .ok { reading with awaiting := some enter }
  | none, some _ => .error .usage
  | none, none =>
    match grammar.flag name with
    | some change => reading.enter change
    | none => if grammar.shows.contains name then reading.show? else .error .usage

/-- Reads a short option. -/
def readShort (grammar : Grammar σ) (reading : Reading σ) (option : Char) :
    Except ArgsError (Reading σ) :=
  if grammar.shortShows.contains option then reading.show? else .error .usage

/-- Reads an argument that is no option. -/
def readValue (grammar : Grammar σ) (reading : Reading σ) (value : String) :
    Except ArgsError (Reading σ) :=
  match reading.awaiting with
  | some enter => .ok { reading with awaiting := none, pending := some (enter value) }
  | none => reading.readPlace grammar value

/-- A name and the value behind its `=`. -/
def splitLong (cs : List Char) : String × Option String :=
  let name := String.ofList (cs.takeWhile (· ≠ '='))
  match cs.dropWhile (· ≠ '=') with
  | [] => (name, none)
  | _ :: value => (name, some (String.ofList value))

/-- Reads one argument other than `--`. -/
def readArg (grammar : Grammar σ) (reading : Reading σ) (arg : String) :
    Except ArgsError (Reading σ) :=
  match arg.toList with
  | '-' :: '-' :: cs =>
    let (name, value) := splitLong cs
    reading.readLong grammar name value
  | '-' :: option :: _ => reading.readShort grammar option
  | _ => reading.readValue grammar arg

/-- Reads arguments up to the end or up to a subcommand; then what is left after it. -/
def read (grammar : Grammar σ) (reading : Reading σ) :
    List String → Except ArgsError (Reading σ × Option (String × List String))
  | [] => .ok (reading, none)
  | arg :: rest =>
    if reading.awaiting.isNone && grammar.subcommands.contains arg then
      .ok (reading, some (arg, rest))
    else if arg = "--" then (reading.readPlaces grammar rest).map fun reading => (reading, none)
    else
      match reading.readArg grammar arg with
      | .error e => .error e
      | .ok reading => reading.read grammar rest

end Reading

end DocStore.CommandLine
