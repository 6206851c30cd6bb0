import DocStore.Proofs.Script.Inspection
import DocStore.Proofs.Script.Rollback

/-!
How often a program writes.

Calls that can change the keyspace are counted on the text of a program, and no run carries out more of them,
however it ends (`Program.countP_performed_le`). A program without such calls leaves the keyspace as it is
(`Program.space_run_of_writeCalls`), and which programs these are can be found by an inspection
(`Program.passes_readOnly_iff`).
-/

namespace DocStore.Script

/-- Admits calls that only read. -/
def Inspection.readOnly : Inspection where
  call command _ := command.isWrite = false
  param _ := True
  put _ _ := True

@[simp] theorem Inspection.readOnly_call (command : Command) (args : List Expr) :
    Inspection.readOnly.call command args ↔ command.isWrite = false := Iff.rfl

@[simp] theorem Inspection.readOnly_param (number : Nat) : Inspection.readOnly.param number := trivial

@[simp] theorem Inspection.readOnly_put (name : String) (e : Expr) : Inspection.readOnly.put name e := trivial

theorem writeWeight_eq_zero_iff {command : Command} : writeWeight command = 0 ↔ command.isWrite = false := by
  cases h : command.isWrite <;> simp [writeWeight, h]

namespace Expr

mutual

/-- An expression has no write call if and only if all its calls only read. -/
theorem passes_readOnly_iff : ∀ e : Expr, e.Passes .readOnly ↔ e.writeCalls = 0
  | .nil | .str _ | .int _ | .param _ | .var _ | .field _ _ => by simp [writeCalls]
  | .index e _ | .lower e | .escape e | .toMap e | .sortIds e | .len e | .not e => by
    simp only [Passes, writeCalls]
    exact passes_readOnly_iff e
  | .eq a b | .ne a b | .gt a b => by
    simp only [Passes, writeCalls, passes_readOnly_iff a, passes_readOnly_iff b, Nat.add_eq_zero_iff]
  | .concat es | .table es | .and es | .or es => by
    simp only [Passes, writeCalls]
    exact passesAll_readOnly_iff es
  | .call command args => by
    simp only [Passes, writeCalls, passesAll_readOnly_iff args, Nat.add_eq_zero_iff, writeWeight_eq_zero_iff,
      Inspection.readOnly_call]

theorem passesAll_readOnly_iff : ∀ es : List Expr, PassesAll .readOnly es ↔ writeCallsAll es = 0
  | [] => by simp [writeCallsAll]
  | e :: es => by
    simp only [PassesAll, writeCallsAll, passes_readOnly_iff e, passesAll_readOnly_iff es, Nat.add_eq_zero_iff]

end

end Expr

namespace Stmt

mutual

/-- A statement has no write call if and only if all its calls only read. -/
theorem passes_readOnly_iff : ∀ s : Stmt, s.Passes .readOnly ↔ s.writeCalls = 0
  | .declare _ e | .assign _ e | .setField _ _ e | .push _ e | .finish e | .abort e => by
    simp [writeCalls, Expr.passes_readOnly_iff e]
  | .call command args => by
    simp only [Passes, writeCalls, Expr.passesAll_readOnly_iff args, Nat.add_eq_zero_iff,
      writeWeight_eq_zero_iff, Inspection.readOnly_call]
  | .branch condition yes no => by
    simp only [Passes, writeCalls, Expr.passes_readOnly_iff condition, passesAll_readOnly_iff yes,
      passesAll_readOnly_iff no, Nat.add_eq_zero_iff, and_assoc]
  | .block body => by
    simp only [Passes, writeCalls]
    exact passesAll_readOnly_iff body

theorem passesAll_readOnly_iff : ∀ ss : List Stmt, PassesAll .readOnly ss ↔ writeCallsAll ss = 0
  | [] => by simp [writeCallsAll]
  | s :: ss => by
    simp only [PassesAll, writeCallsAll, passes_readOnly_iff s, passesAll_readOnly_iff ss, Nat.add_eq_zero_iff]

end

end Stmt

namespace Machine

variable {machine : Machine}

/-- A command that only reads changes nothing but the list of what was carried out. -/
theorem perform_of_reads {command : Command} (h : command.isWrite = false) (args : List String) :
    machine.perform command args = { machine with performed := (command, args) :: machine.performed } := by
  have hjournaled : command.isJournaled = false := by simp [Command.isJournaled, h]
  have hspace := machine.space.execute_of_reads h args
  have hrecord : machine.record command args = machine := by
    unfold record
    split <;> simp [hjournaled]
  simp only [perform, Run.command, hrecord, hspace]

theorem performAll_of_reads {commands : List (Command × List String)}
    (h : ∀ entry ∈ commands, entry.1.isWrite = false) :
    machine.performAll commands = { machine with performed := commands.reverse ++ machine.performed } := by
  induction commands generalizing machine with
  | nil => rfl
  | cons entry rest ih =>
    obtain ⟨command, args⟩ := entry
    rw [performAll_cons, ih fun other hother => h other (List.mem_cons_of_mem _ hother),
      perform_of_reads (h (command, args) List.mem_cons_self)]
    simp

/-- A rollback changes nothing if nothing has been recorded. -/
theorem space_rollback_of_unrecorded (h : ∀ journal ∈ machine.journal, journal = []) :
    machine.rollback.space = machine.space := by
  unfold rollback
  split
  · rename_i journal hjournal
    rw [h journal hjournal]
    rfl
  · rfl

end Machine

namespace Program

variable (program : Program) (params : List String) (space : Keyspace)

theorem passes_readOnly_iff : program.Passes .readOnly ↔ program.writeCalls = 0 :=
  Stmt.passesAll_readOnly_iff program.body

/-- What a run has carried out, and what it has left: the commands one after another, at most as many writes
among them as the program has calls for, and, if it aborts, a rollback. -/
theorem exists_performed : ∃ commands : List (Command × List String),
    (program.execution params space).2.performed = commands.reverse ∧
      commands.countP (fun entry => entry.1.isWrite) ≤ program.writeCalls ∧
      ((program.run params space).2 = ((Machine.start program space).performAll commands).space ∨
        (program.run params space).2 = ((Machine.start program space).performAll commands).rollback.space) := by
  have hstart : (Machine.start program space).bare = Machine.start program space := rfl
  have hrun : (program.run params space).2 = (program.execution params space).2.bare.space := rfl
  have hperformed : (program.execution params space).2.performed =
      (program.execution params space).2.bare.performed := rfl
  have hsettles := program.settles_execution params space
  rw [hrun, hperformed]
  generalize program.execution params space = outcome at hsettles
  generalize program.aborts params space = aborts at hsettles
  cases hsettles with
  | carried commands htrace =>
    rw [htrace.bare, hstart]
    refine ⟨commands, ?_, htrace.writes, .inl rfl⟩
    exact (Machine.performed_performAll _ commands).trans (List.append_nil _)
  | undone commands hundone =>
    rw [hundone.bare, hstart]
    refine ⟨commands, ?_, hundone.writes, .inr rfl⟩
    rw [Machine.performed_rollback]
    exact (Machine.performed_performAll _ commands).trans (List.append_nil _)

/-- A run carries out at most as many writes as the program has calls for. -/
theorem countP_performed_le :
    (program.execution params space).2.performed.countP (fun entry => entry.1.isWrite) ≤ program.writeCalls := by
  obtain ⟨commands, hperformed, hwrites, -⟩ := program.exists_performed params space
  rw [hperformed, List.countP_reverse]
  exact hwrites

variable {program}

/-- A program without write calls leaves the keyspace as it is. -/
theorem space_run_of_writeCalls (h : program.writeCalls = 0) : (program.run params space).2 = space := by
  obtain ⟨commands, -, hwrites, hspace⟩ := program.exists_performed params space
  have hreads : ∀ entry ∈ commands, entry.1.isWrite = false := by
    rw [h, Nat.le_zero, List.countP_eq_zero] at hwrites
    exact fun entry hentry => Bool.eq_false_iff.2 (hwrites entry hentry)
  rw [Machine.performAll_of_reads hreads] at hspace
  rcases hspace with hspace | hspace
  · exact hspace
  · rw [hspace, Machine.space_rollback_of_unrecorded]
    · rfl
    · intro journal hjournal
      simp only [Machine.start] at hjournal
      split at hjournal <;> simp_all

end Program

end DocStore.Script
