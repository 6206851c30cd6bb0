import DocStore.Proofs.Script.Steps
import Mathlib.Data.List.Forall2

/-!
Evaluation by rewriting, for expressions and statements.

`Expr.Gives` says that an expression has a value and leaves the machine alone, which holds of every
expression without a call whose operands are of the right kind. Statements are equations of the form
"this statement, on this machine, goes on with that one".
-/

namespace DocStore.Script

/-- A list of texts reads as a table of them. -/
theorem ofReply_listReply (texts : List String) :
    Value.ofReply (Keyspace.listReply texts) = .table (texts.map .str) [] := by
  have hitems : Value.ofReplies (texts.map .bulk) = texts.map .str := by
    induction texts with
    | nil => rfl
    | cons text rest ih => simp [Value.ofReplies, Value.ofReply, ih]
  simp [Keyspace.listReply, Value.ofReply, hitems]

/-- The value that a text, or its absence, reads as. -/
def foundValue : Option String → Value
  | none => .bool false
  | some text => .str text

theorem same_foundValue (found : Option String) (text : String) :
    (foundValue found).same (.str text) = decide (found = some text) := by
  cases found <;> simp [foundValue, Value.same]

namespace Expr

/-- The expression has this value on the machine, and evaluating it changes nothing. -/
def Gives (params : List String) (machine : Machine) (e : Expr) (value : Value) : Prop :=
  e.eval params machine = (.ok value, machine)

/-- The expressions, as arguments of a command, have these texts, and evaluating them changes nothing. -/
def GiveTexts (params : List String) (machine : Machine) (es : List Expr) (texts : List String) : Prop :=
  arguments params es machine = (.ok texts, machine)

/-- The expressions, as parts of a longer text, make this text, and evaluating them changes nothing. -/
def GiveJoined (params : List String) (machine : Machine) (es : List Expr) (text : String) : Prop :=
  concatText params es machine = (.ok text, machine)

variable {params : List String} {machine : Machine}

theorem Gives.str (text : String) : Gives params machine (.str text) (.str text) := rfl

theorem Gives.int (i : Int) : Gives params machine (.int i) (.int i) := rfl

theorem Gives.param {number : Nat} {text : String} (h : params[number]? = some text) :
    Gives params machine (.param (number + 1)) (.str text) := by
  simp [Gives, eval, h, Run.pure_apply]

theorem Gives.var {name : String} {value : Value} (h : machine.find? name = some value) :
    Gives params machine (.var name) value := by
  simp [Gives, eval, Run.lookup, h]

theorem Gives.field {map : String} {items : List Value} {fields : List (String × Value)}
    (h : machine.find? map = some (.table items fields)) (name : String) :
    Gives params machine (.field map name) ((Assoc.find? name fields).getD .nil) := by
  have hlookup : Run.lookup map machine = (.ok (.table items fields), machine) := by
    simp [Run.lookup, h]
  unfold Gives eval
  rw [Run.bind_of_ok hlookup]
  rfl

theorem Gives.lower {e : Expr} {text : String} (h : Gives params machine e (.str text)) :
    Gives params machine (.lower e) (.str (Text.lowercase text)) := by
  unfold Gives eval
  rw [Run.bind_of_ok h]
  rfl

theorem Gives.escape {e : Expr} {text : String} (h : Gives params machine e (.str text)) :
    Gives params machine (.escape e) (.str (Value.doubled text)) := by
  unfold Gives eval
  rw [Run.bind_of_ok h]
  rfl

@[simp] theorem truthy_bool (b : Bool) : (Value.bool b).truthy = b := by
  cases b <;> rfl

@[simp] theorem truthy_str (text : String) : (Value.str text).truthy = true := rfl

section Operands

variable {a b : Expr} {left right value : Value} {first second : Machine}

theorem eval_eq (ha : a.eval params machine = (.ok left, first))
    (hb : b.eval params first = (.ok right, second)) :
    (Expr.eq a b).eval params machine = (.ok (.bool (left.same right)), second) := by
  unfold eval
  rw [Run.bind_of_ok ha, Run.bind_of_ok hb]
  rfl

theorem eval_ne (ha : a.eval params machine = (.ok left, first))
    (hb : b.eval params first = (.ok right, second)) :
    (Expr.ne a b).eval params machine = (.ok (.bool (!left.same right)), second) := by
  unfold eval
  rw [Run.bind_of_ok ha, Run.bind_of_ok hb]
  rfl

theorem eval_gt (ha : a.eval params machine = (.ok left, first))
    (hb : b.eval params first = (.ok right, second)) (hvalue : left.greater right = .ok value) :
    (Expr.gt a b).eval params machine = (.ok value, second) := by
  unfold eval
  rw [Run.bind_of_ok ha, Run.bind_of_ok hb, Run.lift_apply, hvalue]

theorem eval_len (ha : a.eval params machine = (.ok left, first))
    (hvalue : left.length = .ok value) : (Expr.len a).eval params machine = (.ok value, first) := by
  unfold eval
  rw [Run.bind_of_ok ha, Run.lift_apply, hvalue]

theorem eval_index {place : Int} (ha : a.eval params machine = (.ok left, first))
    (hvalue : left.item place = .ok value) :
    (Expr.index a place).eval params machine = (.ok value, first) := by
  unfold eval
  rw [Run.bind_of_ok ha, Run.lift_apply, hvalue]

theorem eval_toMap (ha : a.eval params machine = (.ok left, first))
    (hvalue : left.toMap = .ok value) : (Expr.toMap a).eval params machine = (.ok value, first) := by
  unfold eval
  rw [Run.bind_of_ok ha, Run.lift_apply, hvalue]

theorem eval_sortIds (ha : a.eval params machine = (.ok left, first))
    (hvalue : left.sortIds = .ok value) :
    (Expr.sortIds a).eval params machine = (.ok value, first) := by
  unfold eval
  rw [Run.bind_of_ok ha, Run.lift_apply, hvalue]

theorem evalAll_nil : evalAll params [] machine = (.ok [], machine) := rfl

theorem evalAll_cons {es : List Expr} {values : List Value}
    (ha : a.eval params machine = (.ok left, first))
    (hrest : evalAll params es first = (.ok values, second)) :
    evalAll params (a :: es) machine = (.ok (left :: values), second) := by
  unfold evalAll
  rw [Run.bind_of_ok ha, Run.bind_of_ok hrest]
  rfl

theorem eval_table {es : List Expr} {values : List Value}
    (h : evalAll params es machine = (.ok values, first)) :
    (Expr.table es).eval params machine = (.ok (.table values []), first) := by
  unfold eval
  rw [Run.bind_of_ok h]
  rfl

end Operands

theorem Gives.concat {es : List Expr} {text : String} (h : GiveJoined params machine es text) :
    Gives params machine (.concat es) (.str text) := by
  unfold Gives eval
  rw [Run.bind_of_ok h]
  rfl

theorem GiveJoined.nil : GiveJoined params machine [] "" := rfl

theorem GiveJoined.cons {e : Expr} {es : List Expr} {value : Value} {text rest : String}
    (h : Gives params machine e value) (htext : value.text .concatenate = .ok text)
    (hrest : GiveJoined params machine es rest) :
    GiveJoined params machine (e :: es) (text ++ rest) := by
  unfold GiveJoined concatText
  rw [Run.bind_of_ok h, Run.bind_of_ok (Run.lift_apply _ |>.trans (by rw [htext])),
    Run.bind_of_ok hrest]
  rfl

theorem GiveTexts.nil : GiveTexts params machine [] [] := rfl

theorem GiveTexts.cons {e : Expr} {es : List Expr} {value : Value} {text : String}
    {texts : List String} (h : Gives params machine e value) (htext : argumentText value = .ok text)
    (hrest : GiveTexts params machine es texts) :
    GiveTexts params machine (e :: es) (text :: texts) := by
  unfold GiveTexts arguments
  rw [Run.bind_of_ok h, Run.bind_of_ok (Run.lift_apply _ |>.trans (by rw [htext])),
    Run.bind_of_ok hrest]
  rfl

/-- A call whose arguments are known: the reply is read as a value. -/
theorem eval_call {command : Command} {args : List Expr} {texts : List String} {reply : Reply}
    (hargs : GiveTexts params machine args texts)
    (hreply : (machine.space.execute command texts).1 = .ok reply) :
    (Expr.call command args).eval params machine =
      (.ok (Value.ofReply reply), machine.perform command texts) := by
  unfold eval
  rw [Run.bind_of_ok hargs, Run.command_apply, hreply]
  rfl

/-- A conjunction of expressions without effect has the truth value of all of them together. -/
theorem Gives.and {es : List Expr} {values : List Value}
    (h : List.Forall₂ (Gives params machine) es values) (last : Value) (hlast : last.truthy = true) :
    ∃ value, evalAnd params last es machine = (.ok value, machine) ∧
      value.truthy = values.all Value.truthy := by
  induction h generalizing last with
  | nil => exact ⟨last, rfl, hlast⟩
  | @cons e value es values he _ ih =>
    cases htruthy : value.truthy with
    | true =>
      obtain ⟨result, hresult, hall⟩ := ih value htruthy
      refine ⟨result, ?_, by simp [hall, htruthy]⟩
      unfold evalAnd
      rw [Run.bind_of_ok he]
      simp only [htruthy, if_true]
      exact hresult
    | false =>
      refine ⟨value, ?_, by simp [htruthy]⟩
      unfold evalAnd
      rw [Run.bind_of_ok he]
      simp only [htruthy, Bool.false_eq_true, if_false]
      rfl

end Expr

namespace Stmt

variable {params : List String} {machine machine' : Machine} {scope : Scope} {e : Expr} {value : Value}

theorem run_declare (h : e.eval params machine = (.ok value, machine')) (name : String) :
    (declare name e).run params machine = (.ok .next, machine'.declare name value) := by
  unfold run
  rw [Run.bind_of_ok h]
  rfl

theorem run_assign (h : e.eval params machine = (.ok value, machine')) (name : String) :
    (assign name e).run params machine = (.ok .next, machine'.assign name value) := by
  unfold run
  rw [Run.bind_of_ok h]
  rfl

theorem run_setField {map : String} {items : List Value} {fields : List (String × Value)}
    (h : e.Gives params machine value) (hvalue : value.isNil = false)
    (hmap : machine.find? map = some (.table items fields)) (name : String) :
    (setField map name e).run params machine =
      (.ok .next, machine.assign map (.table items (Assoc.insert name value fields))) := by
  have hupdate : Run.updateTable map
      (fun items fields => .table items
        (if value.isNil then Assoc.erase name fields else Assoc.insert name value fields)) machine =
      (.ok (), machine.assign map (.table items (Assoc.insert name value fields))) := by
    simp [Run.updateTable, hmap, hvalue]
  unfold run
  rw [Run.bind_of_ok h, Run.bind_of_ok hupdate]
  rfl

theorem run_push {list : String} {items : List Value} {fields : List (String × Value)}
    (h : e.Gives params machine value) (hlist : machine.find? list = some (.table items fields)) :
    (push list e).run params machine =
      (.ok .next, machine.assign list (.table (items ++ [value]) fields)) := by
  have hupdate : Run.updateTable list (fun items fields => .table (items ++ [value]) fields) machine =
      (.ok (), machine.assign list (.table (items ++ [value]) fields)) := by
    simp [Run.updateTable, hlist]
  unfold run
  rw [Run.bind_of_ok h, Run.bind_of_ok hupdate]
  rfl

theorem run_call {command : Command} {args : List Expr} {texts : List String} {reply : Reply}
    (hargs : Expr.GiveTexts params machine args texts)
    (hreply : (machine.space.execute command texts).1 = .ok reply) :
    (call command args).run params machine = (.ok .next, machine.perform command texts) := by
  have hcommand : Run.command command texts machine =
      (.ok (Value.ofReply reply), machine.perform command texts) := by
    rw [Run.command_apply, hreply]
    rfl
  unfold run
  rw [Run.bind_of_ok hargs, Run.bind_of_ok hcommand]
  rfl

theorem run_finish (h : e.eval params machine = (.ok value, machine')) :
    (finish e).run params machine = (.ok (.over value), machine') := by
  unfold run
  rw [Run.bind_of_ok h]
  rfl

theorem run_abort (h : e.eval params machine = (.ok value, machine')) :
    (abort e).run params machine = (.ok (.over value), machine'.rollback) := by
  unfold run
  rw [Run.bind_of_ok h]
  rfl

/-- The scope of a block is gone when the block is over. -/
theorem run_block {body : List Stmt} {flow : Flow}
    (h : runAll params body (machine.within ∅) = (.ok flow, machine'.within scope)) :
    (block body).run params machine = (.ok flow, machine') := by
  rw [run_block_eq, Run.inScope_apply, h]
  rfl

/-- A branch is a block of the statements that its condition selects. -/
theorem run_branch {yes no : List Stmt} (h : e.eval params machine = (.ok value, machine')) :
    (branch e yes no).run params machine =
      (block (if value.truthy then yes else no)).run params machine' := by
  conv => lhs; unfold run
  rw [Run.bind_of_ok h, run_block_eq]
  split <;> rfl

theorem run_branch_of {yes no : List Stmt} {flow : Flow} {last : Machine}
    (h : e.eval params machine = (.ok value, machine'))
    (hbody : runAll params (if value.truthy then yes else no) (machine'.within ∅) =
      (.ok flow, last.within scope)) :
    (branch e yes no).run params machine = (.ok flow, last) :=
  (run_branch h).trans (run_block hbody)

theorem runAll_nil : runAll params [] machine = (.ok .next, machine) := rfl

theorem runAll_of_next {statement : Stmt} {rest : List Stmt}
    (h : statement.run params machine = (.ok .next, machine')) :
    runAll params (statement :: rest) machine = runAll params rest machine' := by
  conv => lhs; unfold runAll
  rw [Run.bind_of_ok h]

theorem runAll_of_over {statement : Stmt} {rest : List Stmt}
    (h : statement.run params machine = (.ok (.over value), machine')) :
    runAll params (statement :: rest) machine = (.ok (.over value), machine') := by
  unfold runAll
  rw [Run.bind_of_ok h]
  rfl

theorem runAll_of_error {statement : Stmt} {rest : List Stmt} {fault : StoreError}
    (h : statement.run params machine = (.error fault, machine')) :
    runAll params (statement :: rest) machine = (.error fault, machine') := by
  unfold runAll
  rw [Run.bind_of_error h]

theorem runAll_one {statement : Stmt} {flow : Flow}
    (h : statement.run params machine = (.ok flow, machine')) :
    runAll params [statement] machine = (.ok flow, machine') := by
  match flow, h with
  | .next, h => rw [runAll_of_next h, runAll_nil]
  | .over _, h => exact runAll_of_over h

end Stmt

end DocStore.Script
