import DocStore.Json.Written

/-!
Settings of a client, from JSON text or from the environment.

In JSON they are an object, whose unknown members are skipped whatever they hold, or a list in the order of
the fields. What is not given keeps its default.
-/

namespace DocStore.Client

/-- The settings of a client. -/
structure Config where
  /-- Where the store is. -/
  url : String := "redis://127.0.0.1:6379"
  /-- The namespace of all keys. -/
  ns : String := "rigid"
  /-- Whether scripts are loaded before their first run. -/
  preload : Bool := true
deriving DecidableEq, Repr

namespace Config

open DocStore.Json

/-- The text of a written string. -/
def text? : Written → Option String
  | .str text => text
  | _ => none

/-- A written truth value. -/
def bool? : Written → Option Bool
  | .bool b => some b
  | _ => none

/-- The names of the settings. -/
def names : List String := ["redis_url", "prefix", "preload_scripts"]

/-- Sets what a member gives; an unknown member changes nothing. -/
def setMember? (config : Config) (name : String) (value : Written) : Option Config :=
  match name with
  | "redis_url" => (text? value).map fun url => { config with url := url }
  | "prefix" => (text? value).map fun ns => { config with ns := ns }
  | "preload_scripts" => (bool? value).map fun preload => { config with preload := preload }
  | _ => some config

/-- Sets what the members give; a setting must not be given twice. -/
def setMembers? (config : Config) (given : List String) :
    List (Option String × Written) → Option Config
  | [] => some config
  | (none, _) :: _ => none
  | (some name, value) :: rest =>
    if given.contains name then none
    else
      match config.setMember? name value with
      | none => none
      | some config => config.setMembers? (if names.contains name then name :: given else given) rest

/-- Sets what the items give, in the order of the names. -/
def setItems? (config : Config) : List String → List Written → Option Config
  | _, [] => some config
  | [], _ :: _ => none
  | name :: names, value :: rest =>
    match config.setMember? name value with
    | none => none
    | some config => config.setItems? names rest

/-- The settings that a JSON text gives. -/
def ofText? (text : String) : Option Config :=
  match Written.ofText? text with
  | some (.obj members) => setMembers? {} [] members
  | some (.arr items) => setItems? {} names items
  | _ => none

/-- The settings that the environment gives; an empty variable counts as not set. -/
def ofEnvironment (lookup : String → Option String) : Config :=
  let given (name default : String) : String :=
    match lookup name with
    | some value => if value.isEmpty then default else value
    | none => default
  let start : Config := {}
  { start with url := given "RIGID_REDIS_URL" start.url, ns := given "RIGID_PREFIX" start.ns }

end Config

end DocStore.Client
