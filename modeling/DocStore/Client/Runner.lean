import DocStore.Store.Call

/-!
Running a compiled script on a store that keeps scripts by digest.

With `preload`, a script not remembered as loaded is loaded first. Otherwise it is run at once, and loaded
and run again only if the store answers that it does not hold it.
-/

namespace DocStore.Client

open DocStore.Store

/-- Loads a script and remembers it, if the store keeps it under its own digest. -/
def load (script : Script.Compiled) : Talk Unit := do
  let digest ← (Call.load script).ask
  if digest = script.digest then
    let _ ← Dialog.step (.markLoaded digest)
  else throw (.protocol (.otherDigest digest script.digest))

/-- Runs a script that may have to be loaded first. -/
def evaluate (preload : Bool) (script : Script.Compiled) (params : List String) : Talk Reply := do
  let known ← Dialog.step (.isLoaded script.digest)
  let run := (Call.eval script.digest params).ask
  if !known && preload then
    load script
    run
  else
    match ← Talk.result run with
    | .ok reply =>
      if !known then
        let _ ← Dialog.step (.markLoaded script.digest)
      return reply
    | .error (.noScript _) =>
      let _ ← Dialog.step .countReload
      load script
      run
    | .error e => throw e

end DocStore.Client
