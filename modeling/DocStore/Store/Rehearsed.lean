import DocStore.Store.Memory
import DocStore.Store.Meter

/-!
A metered store in memory whose answers can be rehearsed: for each kind of call there is a queue of
results, and while it is not empty the next call takes its result from there and does not reach the
memory. The meter counts either way.
-/

namespace DocStore.Store

/-- The kinds of calls. -/
inductive CallKind where
  | get
  | set
  | incr
  | command
  | load
  | eval
deriving DecidableEq, Repr

/-- The kind of a call. -/
def Call.kind : Call → CallKind
  | .get _ => .get
  | .set _ _ => .set
  | .incr _ => .incr
  | .command _ _ => .command
  | .load _ => .load
  | .eval _ _ => .eval

/-- A reply as the result of a call: as a text, as an integer, or as it is. -/
def Call.ofReply (reply : Reply) : (call : Call) → call.Result
  | .get _ => reply.text?
  | .set _ _ => ()
  | .incr _ => reply.int?.getD 0
  | .command _ _ => reply
  | .load _ => reply.text?.getD ""
  | .eval _ _ => reply

/-- A result waiting for the next call of its kind. -/
structure Cue where
  kind : CallKind
  result : Except StoreError Reply

/-- A metered store in memory with rehearsed results, those that come first in front. -/
structure Rehearsed where
  memory : Memory := {}
  cues : List Cue := []
  meter : Meter := {}

namespace Rehearsed

instance : Inhabited Rehearsed := ⟨{}⟩

/-- The first cue of a kind, and the cues without it. -/
def takeCue? (kind : CallKind) : List Cue → Option (Except StoreError Reply × List Cue)
  | [] => none
  | cue :: rest =>
    if cue.kind = kind then some (cue.result, rest)
    else (takeCue? kind rest).map fun found => (found.1, cue :: found.2)

/-- Adds a cue behind all others. -/
def addCue (store : Rehearsed) (cue : Cue) : Rehearsed :=
  { store with cues := store.cues ++ [cue] }

/-- Answers a call. -/
def answer (store : Rehearsed) (call : Call) : Except StoreError call.Result × Rehearsed :=
  match takeCue? call.kind store.cues with
  | some (result, cues) =>
    let result := result.map fun reply => call.ofReply reply
    (result, { store with cues := cues, meter := store.meter.count call result })
  | none =>
    let (result, memory) := store.memory.answer call
    (result, { store with memory := memory, meter := store.meter.count call result })

end Rehearsed

end DocStore.Store
