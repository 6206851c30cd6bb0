import DocStore.Store.Call

/-!
Counting what passes between clients and a store.
-/

namespace DocStore.Store

/-- Counters of calls, failed ones included, and of the bytes sent with them. -/
structure Meter where
  gets : Nat := 0
  sets : Nat := 0
  incrs : Nat := 0
  commands : Nat := 0
  loads : Nat := 0
  evals : Nat := 0
  /-- Evaluations of scripts that the store did not hold. -/
  missingScripts : Nat := 0
  /-- UTF-8 bytes of keys, values, arguments, digests, command names and script texts. -/
  bytes : Nat := 0
deriving DecidableEq, Repr

namespace Meter

/-- Number of calls of any kind. -/
def calls (meter : Meter) : Nat :=
  meter.gets + meter.sets + meter.incrs + meter.commands + meter.loads + meter.evals

/-- The UTF-8 bytes of all the texts. -/
def byteCount (texts : List String) : Nat :=
  texts.foldl (fun count text => count + text.utf8ByteSize) 0

/-- Whether a result says that the store does not hold the script. -/
def lacksScript {α : Type} : Except StoreError α → Bool
  | .error (.noScript _) => true
  | _ => false

/-- Counts a call with its result. -/
def count (meter : Meter) : (call : Call) → Except StoreError call.Result → Meter
  | .get key, _ => { meter with gets := meter.gets + 1, bytes := meter.bytes + byteCount [key] }
  | .set key value, _ =>
    { meter with sets := meter.sets + 1, bytes := meter.bytes + byteCount [key, value] }
  | .incr key, _ => { meter with incrs := meter.incrs + 1, bytes := meter.bytes + byteCount [key] }
  | .command name args, _ =>
    { meter with commands := meter.commands + 1, bytes := meter.bytes + byteCount (name :: args) }
  | .load script, _ =>
    { meter with loads := meter.loads + 1, bytes := meter.bytes + byteCount [script.text] }
  | .eval digest params, result =>
    { meter with
      evals := meter.evals + 1
      missingScripts := meter.missingScripts + (if lacksScript result then 1 else 0)
      bytes := meter.bytes + byteCount (digest :: params) }

end Meter

end DocStore.Store
