import DocStore.Keyspace.Command

/-!
Scripts: statements over a small expression language, with the store's commands as calls.

A program can be rendered as text for a store that runs Lua (`Script.Printer`), or run directly on a
keyspace (`Script.Eval`). In a journaled program every write but `incr` is recorded, and `abort` undoes
what was recorded.
-/

namespace DocStore.Script

/-- An expression. Parameters and list places count from one. -/
inductive Expr where
  | nil
  | str (text : String)
  | int (value : Int)
  | param (number : Nat)
  | var (name : String)
  | field (map : String) (name : String)
  | index (list : Expr) (place : Int)
  | concat (parts : List Expr)
  | lower (inner : Expr)
  | escape (inner : Expr)
  | toMap (inner : Expr)
  | sortIds (inner : Expr)
  | call (command : Command) (args : List Expr)
  | table (items : List Expr)
  | len (inner : Expr)
  | eq (left right : Expr)
  | ne (left right : Expr)
  | gt (left right : Expr)
  | and (items : List Expr)
  | or (items : List Expr)
  | not (inner : Expr)
deriving Repr, Inhabited

/-- A statement. -/
inductive Stmt where
  /-- Declares a variable in the innermost scope. -/
  | declare (name : String) (value : Expr)
  /-- Changes a variable where it was declared. -/
  | assign (name : String) (value : Expr)
  /-- Sets a field of the table in a variable. -/
  | setField (map : String) (name : String) (value : Expr)
  /-- Appends to the table in a variable. -/
  | push (list : String) (value : Expr)
  /-- Runs a command for its effect. -/
  | call (command : Command) (args : List Expr)
  /-- Runs one of two branches. -/
  | branch (condition : Expr) (yes no : List Stmt)
  /-- Ends the script with a value. -/
  | finish (value : Expr)
  /-- Undoes what the journal has recorded, then ends the script with a value. -/
  | abort (value : Expr)
  /-- Runs statements in a scope of their own. -/
  | block (body : List Stmt)
deriving Repr, Inhabited

/-- A script: its statements, and whether writes are journaled. -/
structure Program where
  body : List Stmt
  journal : Bool
deriving Repr, Inhabited

/-- A branch with nothing to do otherwise. -/
def Stmt.when (condition : Expr) (yes : List Stmt) : Stmt :=
  .branch condition yes []

/-- One for a command that can change the keyspace, else zero. -/
def writeWeight (command : Command) : Nat :=
  if command.isWrite then 1 else 0

namespace Expr

mutual

/-- Number of calls in the expression that can change the keyspace. -/
def writeCalls : Expr → Nat
  | .nil | .str _ | .int _ | .param _ | .var _ | .field _ _ => 0
  | .index e _ | .lower e | .escape e | .toMap e | .sortIds e | .len e | .not e => e.writeCalls
  | .eq a b | .ne a b | .gt a b => a.writeCalls + b.writeCalls
  | .concat es | .table es | .and es | .or es => writeCallsAll es
  | .call command args => writeWeight command + writeCallsAll args

/-- Number of calls in all the expressions that can change the keyspace. -/
def writeCallsAll : List Expr → Nat
  | [] => 0
  | e :: es => e.writeCalls + writeCallsAll es

end

end Expr

namespace Stmt

mutual

/-- Number of calls in the statement that can change the keyspace. -/
def writeCalls : Stmt → Nat
  | .declare _ e | .assign _ e | .setField _ _ e | .push _ e | .finish e | .abort e => e.writeCalls
  | .call command args => writeWeight command + Expr.writeCallsAll args
  | .branch condition yes no => condition.writeCalls + writeCallsAll yes + writeCallsAll no
  | .block body => writeCallsAll body

/-- Number of calls in all the statements that can change the keyspace. -/
def writeCallsAll : List Stmt → Nat
  | [] => 0
  | s :: ss => s.writeCalls + writeCallsAll ss

end

end Stmt

/-- Number of calls in the program that can change the keyspace. -/
def Program.writeCalls (program : Program) : Nat :=
  Stmt.writeCallsAll program.body

end DocStore.Script
