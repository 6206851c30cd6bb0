import DocStore.Script.Eval
import DocStore.Store.Call

/-!
A store in memory: a keyspace and the scripts loaded so far. A call runs to its end before the next one.
-/

namespace DocStore.Store

/-- The state of a store in memory. -/
structure Memory where
  space : Keyspace := ∅
  /-- The loaded scripts, by digest. -/
  scripts : SortedMap Script.Program := ∅

namespace Memory

instance : Inhabited Memory := ⟨{}⟩

/-- The name of this kind of store. -/
def name : String := "in-memory"

/-- Runs a command on the keyspace. -/
def execute (memory : Memory) (command : Command) (args : List String) :
    Except StoreError Reply × Memory :=
  let (result, space) := memory.space.execute command args
  (result, { memory with space := space })

/-- Answers a call. -/
def answer (memory : Memory) : (call : Call) → Except StoreError call.Result × Memory
  | .get key =>
    let (result, memory) := memory.execute .get [key]
    (result.map Reply.text?, memory)
  | .set key value =>
    let (result, memory) := memory.execute .set [key, value]
    (result.map fun _ => (), memory)
  | .incr key =>
    let (result, memory) := memory.execute .incr [key]
    (result.map fun reply => reply.int?.getD 0, memory)
  | .command name args =>
    match Command.ofName? name with
    | none => (.error (.script (.unknownCommand name)), memory)
    | some command => memory.execute command args
  | .load script =>
    (.ok script.digest,
      { memory with scripts := memory.scripts.insert script.digest script.program })
  | .eval digest params =>
    match memory.scripts.find? digest with
    | none => (.error (.noScript digest), memory)
    | some program =>
      let (result, space) := program.run params memory.space
      (result, { memory with space := space })

/-- Forgets every loaded script. -/
def flushScripts (memory : Memory) : Memory :=
  { memory with scripts := ∅ }

end Memory

end DocStore.Store
