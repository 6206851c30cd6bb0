import DocStore.Proofs.Script.Inspection
import DocStore.Proofs.Script.Rollback
import DocStore.Proofs.Script.Variables
import Mathlib.Data.List.Forall2

/-!
The commands that a script may carry out, read off its text.

A policy says which texts variables may hold, and which commands with which arguments are allowed. From the
former follows what each expression may give (`Expr.MayGive`), so that it can be checked call by call that
whatever is sent is allowed (`Policy.inspection`). Then it is, on every keyspace and however the script ends
(`Program.allowed_of_passes`).
-/

namespace DocStore.Script

/-- The text that stands for the value in an argument or in a longer text. -/
inductive Value.Spells : Value → String → Prop
  | str (text : String) : Spells (.str text) text
  | int (i : Int) : Spells (.int i) (Decimal.ofInt i)

theorem Value.spells_of_text {value : Value} {use : Use} {text : String} (h : value.text use = .ok text) :
    value.Spells text := by
  cases value with
  | str found =>
    cases h
    exact .str text
  | int i =>
    cases h
    exact .int i
  | _ => cases h

theorem Value.spells_of_argumentText {value : Value} {text : String} (h : argumentText value = .ok text) :
    value.Spells text := by
  cases value with
  | str found =>
    cases h
    exact .str text
  | int i =>
    cases h
    exact .int i
  | _ => cases h

/-- What a script is held to. -/
structure Policy where
  params : List String
  /-- The texts that stand for what a variable holds. -/
  held : String → String → Prop
  allowed : Command → List String → Prop

section Texts

variable (policy : Policy)

namespace Expr

mutual

/-- The text may stand for what the expression gives. -/
@[simp] def MayGive : Expr → String → Prop
  | .str found, text => text = found
  | .int i, text => text = Decimal.ofInt i
  | .param n, text => n ≠ 0 ∧ policy.params[n - 1]? = some text
  | .var name, text => policy.held name text
  | .concat es, text => MayJoin es text
  | .call command _, text => command = .incr → ∃ i, text = Decimal.ofInt i
  | _, _ => True

/-- The text may be that of the expressions joined. -/
@[simp] def MayJoin : List Expr → String → Prop
  | [], text => text = ""
  | e :: es, text => ∃ first rest, text = first ++ rest ∧ e.MayGive first ∧ MayJoin es rest

end

/-- The command is allowed with whatever the arguments may give. -/
def Permits (command : Command) (args : List Expr) : Prop :=
  ∀ texts, List.Forall₂ (MayGive policy) args texts → policy.allowed command texts

end Expr

/-- All calls are allowed, and variables get what they may hold. -/
def Policy.inspection : Inspection where
  call := Expr.Permits policy
  param _ := True
  put name e := ∀ text, e.MayGive policy text → policy.held name text

end Texts

variable {policy : Policy}

/-- Variables hold what they may, and only what is allowed has been carried out. -/
structure Machine.Obeys (policy : Policy) (machine : Machine) : Prop where
  holds : machine.Holds fun name value => ∀ text, value.Spells text → policy.held name text
  performed : ∀ entry ∈ machine.performed, policy.allowed entry.1 entry.2

theorem Machine.obeys_start (policy : Policy) (program : Program) (space : Keyspace) :
    (Machine.start program space).Obeys policy where
  holds := .start _ program space
  performed := by
    intro entry hentry
    cases hentry

/-- The computation keeps to the policy, and what it gives has the property. -/
def Run.Obeys {α : Type} (policy : Policy) (gives : α → Prop) (run : Run α) : Prop :=
  ∀ machine : Machine, machine.Obeys policy →
    (run machine).2.Obeys policy ∧ ∀ value, (run machine).1 = .ok value → gives value

namespace Run.Obeys

variable {α β : Type} {gives : α → Prop} {run : Run α}

theorem mono (h : Obeys policy gives run) {weaker : α → Prop} (hsub : ∀ value, gives value → weaker value) :
    Obeys policy weaker run := by
  intro machine hmachine
  obtain ⟨hafter, hgives⟩ := h machine hmachine
  exact ⟨hafter, fun value hvalue => hsub value (hgives value hvalue)⟩

theorem lift {result : Except StoreError α} (hgives : ∀ value, result = .ok value → gives value) :
    Obeys policy gives (Run.lift result) :=
  fun _ hmachine => ⟨hmachine, hgives⟩

theorem pure {value : α} (h : gives value) : Obeys policy gives (Pure.pure value) := by
  apply lift
  intro found hfound
  cases hfound
  exact h

theorem fail (fault : Fault) : Obeys policy gives (Run.fail fault : Run α) := by
  apply lift
  intro value hvalue
  cases hvalue

theorem bind (h : Obeys policy gives run) {next : α → Run β} {later : β → Prop}
    (hnext : ∀ value, gives value → Obeys policy later (next value)) : Obeys policy later (run >>= next) := by
  intro machine hmachine
  obtain ⟨hbetween, hgives⟩ := h machine hmachine
  cases hrun : run machine with
  | mk result between =>
    rw [hrun] at hbetween hgives
    cases result with
    | error e =>
      rw [bind_of_error hrun]
      refine ⟨hbetween, fun value hvalue => ?_⟩
      cases hvalue
    | ok value =>
      rw [bind_of_ok hrun]
      exact hnext value (hgives value rfl) between hbetween

/-- A variable that there is not stands for no text. -/
theorem lookup (name : String) :
    Obeys policy (fun value => ∀ text, value.Spells text → policy.held name text) (Run.lookup name) := by
  intro machine hmachine
  refine ⟨hmachine, fun value hvalue => ?_⟩
  cases hvalue
  cases hheld : machine.find? name with
  | none =>
    intro text htext
    cases htext
  | some found => exact hmachine.holds.of_find? hheld

theorem declare {name : String} {value : Value} (h : ∀ text, value.Spells text → policy.held name text) :
    Obeys policy (fun _ => True) (Run.update (·.declare name value)) := by
  intro machine hmachine
  refine ⟨⟨hmachine.holds.declare h, ?_⟩, fun _ _ => trivial⟩
  change ∀ entry ∈ (machine.declare name value).performed, policy.allowed entry.1 entry.2
  rw [Machine.performed_declare]
  exact hmachine.performed

theorem assign {name : String} {value : Value} (h : ∀ text, value.Spells text → policy.held name text) :
    Obeys policy (fun _ => True) (Run.update (·.assign name value)) := by
  intro machine hmachine
  refine ⟨⟨hmachine.holds.assign h, ?_⟩, fun _ _ => trivial⟩
  change ∀ entry ∈ (machine.assign name value).performed, policy.allowed entry.1 entry.2
  rw [Machine.performed_assign]
  exact hmachine.performed

theorem rollback : Obeys policy (fun _ => True) (Run.update Machine.rollback) := by
  intro machine hmachine
  refine ⟨⟨hmachine.holds.rollback, ?_⟩, fun _ _ => trivial⟩
  change ∀ entry ∈ machine.rollback.performed, policy.allowed entry.1 entry.2
  rw [Machine.performed_rollback]
  exact hmachine.performed

/-- A table stands for no text, so the variable may hold another one. -/
theorem updateTable (name : String) {change : List Value → List (String × Value) → Value}
    (hchange : ∀ items fields text, ¬(change items fields).Spells text) :
    Obeys policy (fun _ => True) (Run.updateTable name change) := by
  intro machine hmachine
  unfold Run.updateTable
  split
  · rename_i items fields _
    exact assign (fun text htext => absurd htext (hchange items fields text)) machine hmachine
  · exact ⟨hmachine, fun _ _ => trivial⟩
  · exact ⟨hmachine, fun _ _ => trivial⟩

theorem inScope (h : Obeys policy gives run) : Obeys policy gives (Run.inScope run) := by
  intro machine hmachine
  obtain ⟨hafter, hgives⟩ := h machine.openScope ⟨hmachine.holds.openScope, hmachine.performed⟩
  exact ⟨⟨hafter.holds.closeScope, hafter.performed⟩, hgives⟩

/-- Counting up gives an integer. -/
theorem command {command : Command} {args : List String} (h : policy.allowed command args) :
    Obeys policy (fun value => ∀ text, value.Spells text → command = .incr → ∃ i, text = Decimal.ofInt i)
      (Run.command command args) := by
  intro machine hmachine
  rw [command_apply]
  refine ⟨⟨hmachine.holds.perform command args, ?_⟩, ?_⟩
  · intro entry hentry
    rw [Machine.performed_perform] at hentry
    rcases List.mem_cons.1 hentry with rfl | hentry
    · exact h
    · exact hmachine.performed entry hentry
  · rintro value hvalue text htext rfl
    cases hresult : (machine.space.execute .incr args).1 with
    | error e =>
      rw [hresult] at hvalue
      cases hvalue
    | ok reply =>
      obtain ⟨i, rfl⟩ := Keyspace.int_of_execute_incr hresult
      rw [hresult] at hvalue
      cases hvalue
      cases htext
      exact ⟨i, rfl⟩

end Run.Obeys

namespace Expr

open Run.Obeys

mutual

theorem obeys_eval : ∀ e : Expr, e.Passes policy.inspection →
    Run.Obeys policy (fun value => ∀ text, value.Spells text → e.MayGive policy text) (e.eval policy.params)
  | .nil, _ => .pure fun text htext => by cases htext
  | .str found, _ => .pure fun text htext => by
    cases htext
    rfl
  | .int i, _ => .pure fun text htext => by
    cases htext
    rfl
  | .param n, _ => by
    apply Run.Obeys.pure
    intro text htext
    by_cases hn : n = 0
    · rw [if_pos hn] at htext
      cases htext
    · rw [if_neg hn] at htext
      cases hparam : policy.params[n - 1]? with
      | none =>
        rw [hparam] at htext
        cases htext
      | some found =>
        rw [hparam] at htext
        cases htext
        exact ⟨hn, hparam⟩
  | .var name, _ => lookup name
  | .field map name, _ => by
    unfold eval
    refine (lookup map).bind fun value _ => ?_
    cases value <;> first
      | exact .pure fun _ _ => trivial
      | exact fail _
  | .index e place, h => by
    unfold eval
    exact (obeys_eval e h).bind fun value _ => lift fun _ _ _ _ => trivial
  | .concat es, h => by
    unfold eval
    refine (obeys_concatText es h).bind fun text htext => .pure fun found hfound => ?_
    cases hfound
    exact htext
  | .lower e, h => by
    unfold eval
    exact (obeys_eval e h).bind fun value _ => (lift fun _ _ => trivial).bind fun _ _ =>
      .pure fun _ _ => trivial
  | .escape e, h => by
    unfold eval
    exact (obeys_eval e h).bind fun value _ => (lift fun _ _ => trivial).bind fun _ _ =>
      .pure fun _ _ => trivial
  | .toMap e, h | .sortIds e, h | .len e, h => by
    unfold eval
    exact (obeys_eval e h).bind fun value _ => lift fun _ _ _ _ => trivial
  | .call command args, h => by
    unfold eval
    exact (obeys_arguments args h.2).bind fun texts htexts => Run.Obeys.command (h.1 texts htexts)
  | .table items, h => by
    unfold eval
    exact (obeys_evalAll items h).bind fun _ _ => .pure fun _ _ => trivial
  | .eq a b, h | .ne a b, h => by
    unfold eval
    exact (obeys_eval a h.1).bind fun _ _ => (obeys_eval b h.2).bind fun _ _ => .pure fun _ _ => trivial
  | .gt a b, h => by
    unfold eval
    exact (obeys_eval a h.1).bind fun _ _ => (obeys_eval b h.2).bind fun _ _ => lift fun _ _ _ _ => trivial
  | .and items, h => by
    rw [eval_and]
    exact (obeys_evalAnd (.bool true) items h).mono fun _ _ _ _ => trivial
  | .or items, h => by
    rw [eval_or]
    exact (obeys_evalOr (.bool false) items h).mono fun _ _ _ _ => trivial
  | .not e, h => by
    unfold eval
    exact (obeys_eval e h).bind fun _ _ => .pure fun _ _ => trivial

theorem obeys_evalAll : ∀ es : List Expr, PassesAll policy.inspection es →
    Run.Obeys policy (fun _ => True) (evalAll policy.params es)
  | [], _ => .pure trivial
  | e :: es, h => by
    unfold evalAll
    exact (obeys_eval e h.1).bind fun _ _ => (obeys_evalAll es h.2).bind fun _ _ => .pure trivial

theorem obeys_concatText : ∀ es : List Expr, PassesAll policy.inspection es →
    Run.Obeys policy (MayJoin policy es) (concatText policy.params es)
  | [], _ => .pure rfl
  | e :: es, h => by
    unfold concatText
    refine (obeys_eval e h.1).bind fun value hvalue => ?_
    refine (lift fun text htext => hvalue text (Value.spells_of_text htext)).bind fun text htext => ?_
    exact (obeys_concatText es h.2).bind fun rest hrest => .pure ⟨text, rest, rfl, htext, hrest⟩

theorem obeys_arguments : ∀ es : List Expr, PassesAll policy.inspection es →
    Run.Obeys policy (List.Forall₂ (MayGive policy) es) (arguments policy.params es)
  | [], _ => .pure .nil
  | e :: es, h => by
    unfold arguments
    refine (obeys_eval e h.1).bind fun value hvalue => ?_
    refine (lift fun text htext => hvalue text (Value.spells_of_argumentText htext)).bind fun text htext => ?_
    exact (obeys_arguments es h.2).bind fun texts htexts => .pure (.cons htext htexts)

theorem obeys_evalAnd (last : Value) : ∀ es : List Expr, PassesAll policy.inspection es →
    Run.Obeys policy (fun _ => True) (evalAnd policy.params last es)
  | [], _ => .pure trivial
  | e :: es, h => by
    unfold evalAnd
    refine (obeys_eval e h.1).bind fun value _ => ?_
    split
    · exact obeys_evalAnd value es h.2
    · exact .pure trivial

theorem obeys_evalOr (last : Value) : ∀ es : List Expr, PassesAll policy.inspection es →
    Run.Obeys policy (fun _ => True) (evalOr policy.params last es)
  | [], _ => .pure trivial
  | e :: es, h => by
    unfold evalOr
    refine (obeys_eval e h.1).bind fun value _ => ?_
    split
    · exact .pure trivial
    · exact obeys_evalOr value es h.2

end

end Expr

namespace Stmt

open Run.Obeys

mutual

theorem obeys_run : ∀ statement : Stmt, statement.Passes policy.inspection →
    Run.Obeys policy (fun _ => True) (statement.run policy.params)
  | .declare name e, h => by
    unfold run
    exact (Expr.obeys_eval e h.1).bind fun value hvalue =>
      (Run.Obeys.declare fun text htext => h.2 text (hvalue text htext)).bind fun _ _ => .pure trivial
  | .assign name e, h => by
    unfold run
    exact (Expr.obeys_eval e h.1).bind fun value hvalue =>
      (Run.Obeys.assign fun text htext => h.2 text (hvalue text htext)).bind fun _ _ => .pure trivial
  | .setField map name e, h | .push map e, h => by
    unfold run
    exact (Expr.obeys_eval e h).bind fun _ _ =>
      (updateTable map fun _ _ _ htext => by cases htext).bind fun _ _ => .pure trivial
  | .call command args, h => by
    unfold run
    exact (Expr.obeys_arguments args h.2).bind fun texts htexts =>
      (Run.Obeys.command (h.1 texts htexts)).bind fun _ _ => .pure trivial
  | .branch condition yes no, h => by
    unfold run
    refine (Expr.obeys_eval condition h.1).bind fun value _ => ?_
    split
    · exact inScope (obeys_runAll yes h.2.1)
    · exact inScope (obeys_runAll no h.2.2)
  | .finish e, h => by
    unfold run
    exact (Expr.obeys_eval e h).bind fun _ _ => .pure trivial
  | .abort e, h => by
    unfold run
    exact (Expr.obeys_eval e h).bind fun _ _ => rollback.bind fun _ _ => .pure trivial
  | .block body, h => by
    rw [run_block_eq]
    exact inScope (obeys_runAll body h)

theorem obeys_runAll : ∀ statements : List Stmt, PassesAll policy.inspection statements →
    Run.Obeys policy (fun _ => True) (runAll policy.params statements)
  | [], _ => .pure trivial
  | s :: ss, h => by
    unfold runAll
    refine (obeys_run s h.1).bind fun flow _ => ?_
    match flow with
    | .next => exact obeys_runAll ss h.2
    | .over _ => exact .pure trivial

end

end Stmt

/-- What a script sends is allowed by a policy whose inspection it passes. -/
theorem Program.allowed_of_passes {program : Program} (h : program.Passes policy.inspection) (space : Keyspace) :
    ∀ entry ∈ (program.execution policy.params space).2.performed, policy.allowed entry.1 entry.2 :=
  (Stmt.obeys_runAll program.body h _ (Machine.obeys_start policy program space)).1.performed

end DocStore.Script
