import DocStore.Keyspace.StoreError
import DocStore.Script.Compiled

/-!
What a client asks of a store, and the talk between the two.

A `Dialog` is a client's side of the talk: a tree that asks for one step at a time and goes on with the
answer. The one who runs it decides what happens between two steps, so that the talks of several clients
can be mixed in any order.
-/

namespace DocStore.Store

/-- A call to the store. -/
inductive Call where
  /-- The text under a key. -/
  | get (key : String)
  /-- Puts a text under a key. -/
  | set (key value : String)
  /-- Counts one up and answers the new value. -/
  | incr (key : String)
  /-- Runs a command by its name. -/
  | command (name : String) (args : List String)
  /-- Loads a script and answers the digest under which the store keeps it. -/
  | load (script : Script.Compiled)
  /-- Runs a loaded script. -/
  | eval (digest : String) (params : List String)

/-- What a call answers when it succeeds. -/
abbrev Call.Result : Call → Type
  | .get _ => Option String
  | .set _ _ => Unit
  | .incr _ => Int
  | .command _ _ => Reply
  | .load _ => String
  | .eval _ _ => Reply

/-- One step of a client: a call to the store, or a look at its memory of loaded scripts. -/
inductive Step where
  | call (made : Call)
  /-- Whether the digest is remembered as loaded; counts a hit or a miss. -/
  | isLoaded (digest : String)
  /-- Remembers the digest as loaded. -/
  | markLoaded (digest : String)
  /-- Counts that the store had lost a script. -/
  | countReload

/-- What a step answers. -/
abbrev Step.Answer : Step → Type
  | .call made => Except StoreError made.Result
  | .isLoaded _ => Bool
  | .markLoaded _ => Unit
  | .countReload => Unit

/-- A client's side of the talk with a store, up to a result. -/
inductive Dialog (α : Type) where
  | done (result : α)
  | ask (step : Step) (next : step.Answer → Dialog α)

namespace Dialog

variable {α β : Type}

/-- Goes on with another dialog after the result. -/
def bind : Dialog α → (α → Dialog β) → Dialog β
  | .done result, next => next result
  | .ask step more, next => .ask step fun answer => (more answer).bind next

instance : Monad Dialog where
  pure := .done
  bind := .bind

/-- Asks for one step. -/
def step (step : Step) : Dialog step.Answer :=
  .ask step .done

/-- Runs a dialog to its end against someone who answers each step. -/
def run {σ : Type} (answer : (step : Step) → σ → step.Answer × σ) : Dialog α → σ → α × σ
  | .done result, state => (result, state)
  | .ask step next, state =>
    let (found, state) := answer step state
    (next found).run answer state

theorem run_bind {σ : Type} (answer : (step : Step) → σ → step.Answer × σ) (first : Dialog α)
    (next : α → Dialog β) (state : σ) :
    (first.bind next).run answer state =
      (next (first.run answer state).1).run answer (first.run answer state).2 := by
  induction first generalizing state with
  | done result => rfl
  | ask step more ih => exact ih _ _

end Dialog

/-- A dialog that may fail with a store error. -/
abbrev Talk (α : Type) := ExceptT StoreError Dialog α

/-- The result of a dialog that may fail, for the one who goes on either way. -/
def Talk.result {α : Type} (talk : Talk α) : Talk (Except StoreError α) :=
  ExceptT.lift talk

/-- Calls the store. -/
def Call.ask (call : Call) : Talk call.Result :=
  ExceptT.mk (Dialog.step (.call call))

end DocStore.Store
