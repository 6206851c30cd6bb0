import DocStore.Client.Config
import DocStore.CommandLine.Dispatch
import DocStore.Session.Basic

/-!
The command line, on a store in memory. It prints one JSON value: the result, or the rejected operation.
-/

open DocStore DocStore.Client DocStore.CommandLine

/-- What is shown when help is asked for. -/
def usageText : String :=
  "Usage: [--url URL] [--prefix PREFIX] [--no-preload] [--log-json] TASK\n\n" ++
    "Tasks: set-schema --revision N FILE, get-schema, schema-hash, current-id C, create C ATTRS,\n" ++
    "update C ID ATTRS, delete C ID, get C ID, exists C ID, list C, size C, find C ATTRS,\n" ++
    "find-all C ATTRS, multi FILE"

/-- The text of the file that a task needs; `-` stands for standard input. -/
def readTaskFile (task : CommandLine.Task) : IO (Option String) := do
  match task.file? with
  | none => return none
  | some "-" => return some (← (← IO.getStdin).readToEnd)
  | some path =>
    try return some (← IO.FS.readFile path)
    catch _ => return none

/-- The settings from the environment, overridden by the options. -/
def readConfig (options : Options) : IO Config := do
  let url ← IO.getEnv "RIGID_REDIS_URL"
  let ns ← IO.getEnv "RIGID_PREFIX"
  let config := Config.ofEnvironment fun name => if name = "RIGID_PREFIX" then ns else url
  return ⟨options.url.getD config.url, options.ns.getD config.ns,
    config.preload && !options.noPreload⟩

/-- Does a task and prints its result. -/
def runTask (options : Options) (task : CommandLine.Task) : IO UInt32 := do
  let config ← readConfig options
  let text ← readTaskFile task
  match Handle.open? config.ns config.preload with
  | .error failure =>
    IO.eprintln ("Error: " ++ failure.message)
    return 1
  | .ok handle =>
    let action := dispatch handle (fun _ => text) task
    let start : Session.Station := ⟨{}, {}⟩
    match ((action.run.run .unloaded).run Session.Station.answer start).1.1 with
    | .ok (.ok value) =>
      IO.println value.normalised.text
      return 0
    | .ok (.error e) =>
      IO.eprintln ("Error: " ++ e.message)
      return 1
    | .error (.operation e) =>
      IO.println e.toJson.normalised.text
      return 1
    | .error failure =>
      IO.eprintln ("Error: " ++ failure.message)
      return 1

def main (args : List String) : IO UInt32 := do
  match readArgs args with
  | .ok (options, task) => runTask options task
  | .error .display =>
    IO.println usageText
    return 0
  | .error .usage =>
    IO.eprintln usageText
    return 2
