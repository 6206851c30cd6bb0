import DocStore.Script.Eval

/-!
Evaluation by rewriting. Each construct of the script language gets one equation that says what it
does once its parts are known to succeed: expressions that leave the machine alone (`Expr.Gives`),
calls to the keyspace (`Machine.perform`), and blocks, whose scope is gone when they are over
(`Machine.within`). Longer programs are run by chaining these equations; none of them looks at what
the keyspace holds.
-/

namespace DocStore

/-- The keyspace after commands, one after another, failed ones included. -/
def Keyspace.executeAll (space : Keyspace) (commands : List (Command × List String)) : Keyspace :=
  commands.foldl (fun space entry => (space.execute entry.1 entry.2).2) space

theorem Keyspace.executeAll_cons (space : Keyspace) (command : Command) (args : List String)
    (rest : List (Command × List String)) :
    space.executeAll ((command, args) :: rest) = (space.execute command args).2.executeAll rest := rfl

theorem Keyspace.executeAll_nil (space : Keyspace) : space.executeAll [] = space := rfl

theorem Keyspace.executeAll_append (space : Keyspace) (first second : List (Command × List String)) :
    space.executeAll (first ++ second) = (space.executeAll first).executeAll second :=
  List.foldl_append

namespace Script

namespace Machine

/-- The machine after a command, whether it has failed or not. -/
def perform (machine : Machine) (command : Command) (args : List String) : Machine :=
  (Run.command command args machine).2

/-- The machine after commands, one after another. -/
def performAll (machine : Machine) (commands : List (Command × List String)) : Machine :=
  commands.foldl (fun machine entry => machine.perform entry.1 entry.2) machine

/-- The machine with one more scope inside the others. -/
def within (machine : Machine) (scope : Scope) : Machine :=
  { machine with inner := scope :: machine.inner }

variable (machine : Machine) (scope : Scope)

theorem record_space (command : Command) (args : List String) :
    (machine.record command args).space = machine.space := by
  unfold record
  split
  · split <;> rfl
  · rfl

theorem record_inner (command : Command) (args : List String) :
    (machine.record command args).inner = machine.inner := by
  unfold record
  split
  · split <;> rfl
  · rfl

theorem record_outer (command : Command) (args : List String) :
    (machine.record command args).outer = machine.outer := by
  unfold record
  split
  · split <;> rfl
  · rfl

@[simp] theorem perform_space (command : Command) (args : List String) :
    (machine.perform command args).space = (machine.space.execute command args).2 := by
  simp [perform, Run.command, record_space]

@[simp] theorem perform_inner (command : Command) (args : List String) :
    (machine.perform command args).inner = machine.inner := by
  simp [perform, Run.command, record_inner]

@[simp] theorem perform_outer (command : Command) (args : List String) :
    (machine.perform command args).outer = machine.outer := by
  simp [perform, Run.command, record_outer]

@[simp] theorem find?_perform (command : Command) (args : List String) (name : String) :
    (machine.perform command args).find? name = machine.find? name := by
  simp [find?]

@[simp] theorem performAll_nil : machine.performAll [] = machine := rfl

@[simp] theorem performAll_cons (command : Command) (args : List String)
    (rest : List (Command × List String)) :
    machine.performAll ((command, args) :: rest) = (machine.perform command args).performAll rest :=
  rfl

theorem performAll_append (first second : List (Command × List String)) :
    machine.performAll (first ++ second) = (machine.performAll first).performAll second :=
  List.foldl_append

@[simp] theorem performAll_space (commands : List (Command × List String)) :
    (machine.performAll commands).space = machine.space.executeAll commands := by
  induction commands generalizing machine with
  | nil => rfl
  | cons entry rest ih =>
    rw [performAll_cons, ih, perform_space]
    rfl

@[simp] theorem performAll_inner (commands : List (Command × List String)) :
    (machine.performAll commands).inner = machine.inner := by
  induction commands generalizing machine with
  | nil => rfl
  | cons entry rest ih => rw [performAll_cons, ih, perform_inner]

@[simp] theorem performAll_outer (commands : List (Command × List String)) :
    (machine.performAll commands).outer = machine.outer := by
  induction commands generalizing machine with
  | nil => rfl
  | cons entry rest ih => rw [performAll_cons, ih, perform_outer]

@[simp] theorem find?_performAll (commands : List (Command × List String)) (name : String) :
    (machine.performAll commands).find? name = machine.find? name := by
  simp [find?]

@[simp] theorem closeScope_within : (machine.within scope).closeScope = machine := rfl

@[simp] theorem within_space : (machine.within scope).space = machine.space := rfl

@[simp] theorem declare_within (name : String) (value : Value) :
    (machine.within scope).declare name value = machine.within (scope.insert name value) := rfl

@[simp] theorem perform_within (command : Command) (args : List String) :
    (machine.within scope).perform command args = (machine.perform command args).within scope := by
  have hrecord : (machine.within scope).record command args =
      (machine.record command args).within scope := by
    unfold record within
    dsimp only
    split
    · split <;> rfl
    · rfl
  unfold perform Run.command
  rw [hrecord]
  rfl

@[simp] theorem performAll_within (commands : List (Command × List String)) :
    (machine.within scope).performAll commands = (machine.performAll commands).within scope := by
  induction commands generalizing machine with
  | nil => rfl
  | cons entry rest ih => rw [performAll_cons, perform_within, ih, performAll_cons]

@[simp] theorem rollback_within :
    (machine.within scope).rollback = machine.rollback.within scope := by
  unfold rollback within
  dsimp only
  split <;> rfl

theorem find?_within (name : String) :
    (machine.within scope).find? name = (scope.find? name).or (machine.find? name) := by
  simp only [find?, within, findIn?]
  cases scope.find? name <;> rfl

theorem find?_open (name : String) : (machine.within ∅).find? name = machine.find? name := by
  rw [find?_within, SortedMap.find?_empty, Option.none_or]

/-- Commands do not depend on variables. -/
theorem perform_assign (name : String) (value : Value) (command : Command) (args : List String) :
    (machine.assign name value).perform command args =
      (machine.perform command args).assign name value := by
  have hscopes : ∀ (inner : List Scope) (outer : Scope),
      ({ machine with inner := inner, outer := outer } : Machine).perform command args =
        { machine.perform command args with inner := inner, outer := outer } := by
    intro inner outer
    simp only [perform, Run.command, record]
    split
    · split <;> rfl
    · rfl
  unfold assign
  rw [perform_inner, perform_outer]
  cases assignIn? name value machine.inner with
  | none => exact (hscopes machine.inner _).trans (by rw [← perform_inner machine command args])
  | some inner => exact (hscopes inner machine.outer).trans (by rw [← perform_outer machine command args])

theorem performAll_assign (name : String) (value : Value) (commands : List (Command × List String)) :
    (machine.assign name value).performAll commands = (machine.performAll commands).assign name value := by
  induction commands generalizing machine with
  | nil => rfl
  | cons entry rest ih => rw [performAll_cons, perform_assign, ih, performAll_cons]

theorem assign_space (name : String) (value : Value) : (machine.assign name value).space = machine.space := by
  unfold assign
  split <;> rfl

theorem rollback_assign_space (name : String) (value : Value) :
    (machine.assign name value).rollback.space = machine.rollback.space := by
  unfold rollback assign
  cases assignIn? name value machine.inner <;> cases machine.journal <;> rfl

theorem journal_performAll (h : machine.journal = none) (commands : List (Command × List String)) :
    (machine.performAll commands).journal = none := by
  induction commands generalizing machine with
  | nil => exact h
  | cons entry rest ih =>
    rw [performAll_cons]
    exact ih _ (by simp [perform, Run.command, record, h])

theorem rollback_of_none (h : machine.journal = none) : machine.rollback = machine := by
  simp [rollback, h]

/-- Assignments go to the innermost scope that has the variable. -/
theorem assign_within (name : String) (value : Value) :
    (machine.within scope).assign name value =
      if scope.contains name then machine.within (scope.insert name value)
      else (machine.assign name value).within scope := by
  simp only [assign, within, assignIn?]
  by_cases h : scope.contains name = true
  · simp [h]
  · cases hin : assignIn? name value machine.inner <;> simp [h]

theorem assign_of_inner_nil (h : machine.inner = []) (name : String) (value : Value) :
    machine.assign name value = { machine with outer := machine.outer.insert name value } := by
  simp [assign, h, assignIn?]

end Machine

namespace Run

variable {α β : Type} {machine machine' : Machine}

theorem bind_of_ok {run : Run α} {value : α} (h : run machine = (.ok value, machine'))
    (next : α → Run β) : (run >>= next) machine = next value machine' := by
  simp only [bind, ExceptT.bind, ExceptT.mk, StateT.bind, h]
  rfl

theorem bind_of_error {run : Run α} {e : StoreError} (h : run machine = (.error e, machine'))
    (next : α → Run β) : (run >>= next) machine = (.error e, machine') := by
  simp only [bind, ExceptT.bind, ExceptT.mk, StateT.bind, h]
  rfl

theorem pure_apply (value : α) : (pure value : Run α) machine = (.ok value, machine) := rfl

theorem lift_apply (result : Except StoreError α) :
    Run.lift result machine = (result, machine) := rfl

theorem inScope_apply (run : Run α) :
    inScope run machine = ((run (machine.within ∅)).1, (run (machine.within ∅)).2.closeScope) := rfl

theorem command_apply (command : Command) (args : List String) :
    Run.command command args machine =
      ((machine.space.execute command args).1.map Value.ofReply, machine.perform command args) := by
  simp [Run.command, Machine.record_space, Machine.perform]

end Run

end Script

end DocStore
