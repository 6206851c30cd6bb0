import DocStore.Script.Program

/-!
Scripts inspected call by call.

An inspection asks something of every call, by its command and the expressions that stand for its arguments,
of every parameter that is looked up, by its number, and of every expression whose value is put into a
variable. What a script passes is read off its text.
-/

namespace DocStore.Script

/-- What is asked of a script. -/
structure Inspection where
  call : Command → List Expr → Prop
  param : Nat → Prop
  put : String → Expr → Prop

/-- Looks at nothing but the numbers of the parameters that are looked up. -/
def Inspection.reading (p : Nat → Prop) : Inspection where
  call _ _ := True
  param := p
  put _ _ := True

variable (inspection : Inspection)

namespace Expr

mutual

/-- The calls and the parameters in the expression pass. -/
@[simp] def Passes : Expr → Prop
  | .nil | .str _ | .int _ | .var _ | .field _ _ => True
  | .param number => inspection.param number
  | .index e _ | .lower e | .escape e | .toMap e | .sortIds e | .len e | .not e => e.Passes
  | .eq a b | .ne a b | .gt a b => a.Passes ∧ b.Passes
  | .concat es | .table es | .and es | .or es => PassesAll es
  | .call command args => inspection.call command args ∧ PassesAll args

/-- The calls and the parameters in the expressions pass. -/
@[simp] def PassesAll : List Expr → Prop
  | [] => True
  | e :: es => e.Passes ∧ PassesAll es

end

theorem passesAll_iff {es : List Expr} : PassesAll inspection es ↔ ∀ e ∈ es, e.Passes inspection := by
  induction es with
  | nil => simp [PassesAll]
  | cons e es ih => simp [PassesAll, ih]

end Expr

namespace Stmt

mutual

/-- The calls and the parameters in the statement pass, and so does what it puts into variables. -/
@[simp] def Passes : Stmt → Prop
  | .declare name e | .assign name e => e.Passes inspection ∧ inspection.put name e
  | .setField _ _ e | .push _ e | .finish e | .abort e => e.Passes inspection
  | .call command args => inspection.call command args ∧ Expr.PassesAll inspection args
  | .branch condition yes no => condition.Passes inspection ∧ PassesAll yes ∧ PassesAll no
  | .block body => PassesAll body

/-- The calls and the parameters in the statements pass, and so does what they put into variables. -/
@[simp] def PassesAll : List Stmt → Prop
  | [] => True
  | s :: ss => s.Passes ∧ PassesAll ss

end

theorem passesAll_iff {statements : List Stmt} :
    PassesAll inspection statements ↔ ∀ statement ∈ statements, statement.Passes inspection := by
  induction statements with
  | nil => simp [PassesAll]
  | cons s ss ih => simp [PassesAll, ih]

theorem passesAll_append {first second : List Stmt} :
    PassesAll inspection (first ++ second) ↔ PassesAll inspection first ∧ PassesAll inspection second := by
  simp only [passesAll_iff, List.forall_mem_append]

end Stmt

/-- The script passes the inspection. -/
def Program.Passes (program : Program) : Prop :=
  Stmt.PassesAll inspection program.body

end DocStore.Script
