import DocStore.CommandLine.Grammar
import DocStore.Text.Decimal

/-!
The arguments of the command line: general options, a task, and what the task needs.
-/

namespace DocStore.CommandLine

/-- What the command line is asked to do. -/
inductive Task where
  | setSchema (revision : Nat) (file : String)
  | getSchema
  | schemaDigest
  | currentId (collection : String)
  | create (collection attrs : String)
  | update (collection : String) (id : Int) (attrs : String)
  | delete (collection : String) (id : Int)
  | get (collection : String) (id : Int)
  | exists (collection : String) (id : Int)
  | list (collection : String)
  | size (collection : String)
  | find (collection attrs : String)
  | findAll (collection attrs : String)
  | multi (file : String)
deriving DecidableEq, Repr

/-- The general options. -/
structure Options where
  url : Option String := none
  ns : Option String := none
  noPreload : Bool := false
  logJson : Bool := false
deriving DecidableEq, Repr

namespace Options

/-- Sets the address of the store, once. -/
def setUrl (value : String) (options : Options) : Option Options :=
  if options.url.isNone then some { options with url := some value } else none

/-- Sets the namespace, once. -/
def setNs (value : String) (options : Options) : Option Options :=
  if options.ns.isNone then some { options with ns := some value } else none

/-- Turns preloading off, once. -/
def setNoPreload (options : Options) : Option Options :=
  if options.noPreload then none else some { options with noPreload := true }

/-- Turns JSON logs on, once. -/
def setLogJson (options : Options) : Option Options :=
  if options.logJson then none else some { options with logJson := true }

end Options

/-- What a place of a task holds. -/
inductive Slot where
  | text
  | id
deriving DecidableEq, Repr

/-- The tasks by name, each with its places. -/
def slots : List (String × List Slot) :=
  [("set-schema", [.text]), ("get-schema", []), ("schema-hash", []), ("current-id", [.text]),
    ("create", [.text, .text]), ("update", [.text, .id, .text]), ("delete", [.text, .id]),
    ("get", [.text, .id]), ("exists", [.text, .id]), ("list", [.text]), ("size", [.text]),
    ("find", [.text, .text]), ("find-all", [.text, .text]), ("multi", [.text])]

/-- The word that asks for help on a task. -/
def helpWord : String := "help"

/-- What has been entered for a task. -/
structure Fields where
  revision : Option Nat := none
  id : Option Int := none
  texts : List String := []

namespace Fields

/-- Sets the revision, once. -/
def setRevision (value : String) (fields : Fields) : Option Fields :=
  match Decimal.word64? value with
  | none => none
  | some n => if fields.revision.isNone then some { fields with revision := some n } else none

/-- Enters the value of a place. -/
def enter (slot : Slot) (value : String) (fields : Fields) : Option Fields :=
  match slot with
  | .text => some { fields with texts := fields.texts ++ [value] }
  | .id => (Decimal.int64? value).map fun id => { fields with id := some id }

/-- The task with these fields, if none is missing. -/
def task? (fields : Fields) (name : String) : Option Task :=
  match name, fields.revision, fields.id, fields.texts with
  | "set-schema", some revision, _, [file] => some (.setSchema revision file)
  | "get-schema", _, _, [] => some .getSchema
  | "schema-hash", _, _, [] => some .schemaDigest
  | "current-id", _, _, [collection] => some (.currentId collection)
  | "create", _, _, [collection, attrs] => some (.create collection attrs)
  | "update", _, some id, [collection, attrs] => some (.update collection id attrs)
  | "delete", _, some id, [collection] => some (.delete collection id)
  | "get", _, some id, [collection] => some (.get collection id)
  | "exists", _, some id, [collection] => some (.exists collection id)
  | "list", _, _, [collection] => some (.list collection)
  | "size", _, _, [collection] => some (.size collection)
  | "find", _, _, [collection, attrs] => some (.find collection attrs)
  | "find-all", _, _, [collection, attrs] => some (.findAll collection attrs)
  | "multi", _, _, [file] => some (.multi file)
  | _, _, _, _ => none

end Fields

/-- The general options, up to the task. -/
def generalGrammar : Grammar Options where
  valued
    | "url" => some Options.setUrl
    | "prefix" => some Options.setNs
    | _ => none
  flag
    | "no-preload" => some Options.setNoPreload
    | "log-json" => some Options.setLogJson
    | _ => none
  shows := ["help", "version"]
  shortShows := ['h', 'V']
  place _ := none
  subcommands := helpWord :: slots.map Prod.fst

/-- The arguments of a task. -/
def taskGrammar (name : String) (places : List Slot) : Grammar Fields where
  valued option :=
    if name = "set-schema" ∧ option = "revision" then some Fields.setRevision else none
  flag _ := none
  shows := ["help"]
  shortShows := ['h']
  place i := places[i]?.map Fields.enter
  subcommands := []

/-- Asks for help on a task, or on help itself, or in general. -/
def readHelp : List String → ArgsError
  | [] => .display
  | [name] => if generalGrammar.subcommands.contains name then .display else .usage
  | _ => .usage

/-- Reads the arguments of a task. -/
def readTask (name : String) (args : List String) : Except ArgsError Task := do
  match slots.find? fun entry => entry.1 = name with
  | none => .error .usage
  | some (_, places) =>
    let start : Reading Fields := { entered := {} }
    let (reading, _) ← start.read (taskGrammar name places) args
    let reading ← reading.settle
    match reading.entered.task? name with
    | some task => .ok task
    | none => .error .usage

/-- Reads the arguments of the command line. -/
def readArgs (args : List String) : Except ArgsError (Options × Task) := do
  let start : Reading Options := { entered := {} }
  match ← start.read generalGrammar args with
  | (_, none) => .error .usage
  | (reading, some (word, rest)) =>
    if word = helpWord then .error (readHelp rest)
    else
      let task ← readTask word rest
      let reading ← reading.settle
      .ok (reading.entered, task)

end DocStore.CommandLine
