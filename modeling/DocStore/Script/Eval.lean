import DocStore.Script.Machine

/-!
Running scripts on a keyspace.

Evaluation goes by recursion on the program. Operands are evaluated from left to right, and a failure
stops the script without undoing anything. `Program.run` gives the reply and the keyspace afterwards.
-/

namespace DocStore.Script

/-- An argument of a command: a text or an integer. -/
def argumentText : Value → Except StoreError String
  | .str s => .ok s
  | .int i => .ok (Decimal.ofInt i)
  | _ => .error (.script .argumentKind)

namespace Expr

mutual

/-- Evaluates an expression with the parameters `params`. -/
def eval (params : List String) : Expr → Run Value
  | .nil => pure .nil
  | .str s => pure (.str s)
  | .int i => pure (.int i)
  | .param n => pure (if n = 0 then .nil else (params[n - 1]?.map Value.str).getD .nil)
  | .var name => Run.lookup name
  | .field map name => do
    match ← Run.lookup map with
    | .table _ fields => pure ((Assoc.find? name fields).getD .nil)
    | other => Run.fail (.fieldOf map other.kind)
  | .index list place => do Run.lift ((← list.eval params).item place)
  | .concat parts => do pure (.str (← concatText params parts))
  | .lower e => do pure (.str (Text.lowercase (← Run.lift ((← e.eval params).text .lower))))
  | .escape e => do pure (.str (Value.doubled (← Run.lift ((← e.eval params).text .escape))))
  | .toMap e => do Run.lift (← e.eval params).toMap
  | .sortIds e => do Run.lift (← e.eval params).sortIds
  | .call command args => do Run.command command (← arguments params args)
  | .table items => do pure (.table (← evalAll params items) [])
  | .len e => do Run.lift (← e.eval params).length
  | .eq a b => do
    let left ← a.eval params
    let right ← b.eval params
    pure (.bool (left.same right))
  | .ne a b => do
    let left ← a.eval params
    let right ← b.eval params
    pure (.bool (!left.same right))
  | .gt a b => do
    let left ← a.eval params
    let right ← b.eval params
    Run.lift (left.greater right)
  | .and items => evalAnd params (.bool true) items
  | .or items => evalOr params (.bool false) items
  | .not e => do pure (.bool (!(← e.eval params).truthy))

/-- Evaluates expressions one after another. -/
def evalAll (params : List String) : List Expr → Run (List Value)
  | [] => pure []
  | e :: es => do
    let value ← e.eval params
    let values ← evalAll params es
    pure (value :: values)

/-- Evaluates expressions one after another and joins their texts. -/
def concatText (params : List String) : List Expr → Run String
  | [] => pure ""
  | e :: es => do
    let text ← Run.lift ((← e.eval params).text .concatenate)
    let rest ← concatText params es
    pure (text ++ rest)

/-- Evaluates the arguments of a command. -/
def arguments (params : List String) : List Expr → Run (List String)
  | [] => pure []
  | e :: es => do
    let text ← Run.lift (argumentText (← e.eval params))
    let rest ← arguments params es
    pure (text :: rest)

/-- Evaluates up to the first value that counts as false, and gives the value evaluated last. -/
def evalAnd (params : List String) (last : Value) : List Expr → Run Value
  | [] => pure last
  | e :: es => do
    let value ← e.eval params
    if value.truthy then evalAnd params value es else pure value

/-- Evaluates up to the first value that counts as true, and gives the value evaluated last. -/
def evalOr (params : List String) (last : Value) : List Expr → Run Value
  | [] => pure last
  | e :: es => do
    let value ← e.eval params
    if value.truthy then pure value else evalOr params value es

end

theorem eval_and (params : List String) (items : List Expr) :
    (and items).eval params = evalAnd params (.bool true) items := by
  unfold eval
  rfl

theorem eval_or (params : List String) (items : List Expr) :
    (or items).eval params = evalOr params (.bool false) items := by
  unfold eval
  rfl

end Expr

/-- How a statement ends: the script goes on, or it is over with a value. -/
inductive Flow where
  | next
  | over (value : Value)
deriving DecidableEq, Repr

namespace Stmt

mutual

/-- Runs a statement. -/
def run (params : List String) : Stmt → Run Flow
  | .declare name e => do
    let value ← e.eval params
    Run.update (·.declare name value)
    pure .next
  | .assign name e => do
    let value ← e.eval params
    Run.update (·.assign name value)
    pure .next
  | .setField map name e => do
    let value ← e.eval params
    Run.updateTable map fun items fields =>
      .table items (if value.isNil then Assoc.erase name fields else Assoc.insert name value fields)
    pure .next
  | .push list e => do
    let value ← e.eval params
    Run.updateTable list fun items fields => .table (items ++ [value]) fields
    pure .next
  | .call command args => do
    let texts ← Expr.arguments params args
    let _ ← Run.command command texts
    pure .next
  | .branch condition yes no => do
    if (← condition.eval params).truthy then Run.inScope (runAll params yes)
    else Run.inScope (runAll params no)
  | .finish e => do pure (.over (← e.eval params))
  | .abort e => do
    let value ← e.eval params
    Run.update Machine.rollback
    pure (.over value)
  | .block body => Run.inScope (runAll params body)

/-- Runs statements up to the first that ends the script. -/
def runAll (params : List String) : List Stmt → Run Flow
  | [] => pure .next
  | s :: ss => do
    match ← s.run params with
    | .next => runAll params ss
    | .over value => pure (.over value)

end

theorem run_block_eq (params : List String) (body : List Stmt) :
    (block body).run params = Run.inScope (runAll params body) := by
  unfold run
  rfl

end Stmt

/-- The reply of a script that ended like this; one that ran to its end without a value answers nothing. -/
def Flow.reply : Flow → Reply
  | .next => .nil
  | .over value => value.toReply

/-- Runs a program on a keyspace: how it ended, and the machine afterwards. -/
def Program.execution (program : Program) (params : List String) (space : Keyspace) :
    Except StoreError Flow × Machine :=
  Stmt.runAll params program.body (Machine.start program space)

/-- Runs a program on a keyspace: the reply or the failure, and the keyspace afterwards. -/
def Program.run (program : Program) (params : List String) (space : Keyspace) :
    Except StoreError Reply × Keyspace :=
  let (result, machine) := program.execution params space
  (result.map Flow.reply, machine.space)

end DocStore.Script
