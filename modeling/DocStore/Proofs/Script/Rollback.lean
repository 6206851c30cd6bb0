import DocStore.Proofs.Script.Trace
import DocStore.Proofs.Text.Decimal

/-!
An abort is exact, whatever the program.

Once a journaled program has aborted, a key that it has not counted up holds what it held at the start, and
a key that it has changed in no other way than by counting keeps all that was counted
(`Program.find?_run_of_aborts`). It does not matter which commands were called, in what order, or where.
-/

namespace DocStore

/-- Number of times that the commands count the key up. -/
def Script.increments (key : String) (commands : List (Command × List String)) : Nat :=
  commands.countP fun entry => entry.1 = .incr && key ∈ entry.1.changes entry.2

/-- What a counter stands at; a missing one stands at zero. -/
def Keyspace.count? (space : Keyspace) (key : String) : Option Int :=
  match space.find? key with
  | none => some 0
  | some (.text text) => Decimal.int64? text
  | some _ => none

namespace Keyspace

open Script

variable {key : String}

/-- A key that is counted up holds the next number, which is also the reply. -/
theorem execute_incr_cons (space : Keyspace) (key : String) (rest : List String) :
    space.execute .incr (key :: rest) =
      match space.nextCount key with
      | .error e => (.error e, space)
      | .ok next => (.ok (.int next), space.put key (.text (Decimal.ofInt next))) := by
  simp only [execute, Request.read, perform, bind, Except.bind]
  split <;> rename_i heq <;> split at heq <;> cases heq <;> simp [*]

/-- Counting up replies an integer, if it does not fail. -/
theorem int_of_execute_incr {space : Keyspace} {args : List String} {reply : Reply}
    (h : (space.execute .incr args).1 = .ok reply) : ∃ i, reply = .int i := by
  cases args with
  | nil => cases h
  | cons key rest =>
    rw [execute_incr_cons] at h
    split at h
    · cases h
    · cases h
      exact ⟨_, rfl⟩

/-- A counter that is counted up stood at some number, and stands at the next one of 64 bits. -/
theorem find?_execute_incr {space : Keyspace} {args : List String} {reply : Reply}
    (h : (space.execute .incr args).1 = .ok reply) (hkey : key ∈ Command.incr.changes args) :
    ∃ first, space.count? key = some first ∧
      (space.execute .incr args).2.find? key =
        some (.text (Decimal.ofInt (Decimal.wrapped (first + 1)))) := by
  cases args with
  | nil => cases h
  | cons name rest =>
    obtain rfl : key = name := by simpa [Command.changes, Command.isWrite, Machine.touched] using hkey
    rw [execute_incr_cons] at h ⊢
    cases hnext : space.nextCount key with
    | error e =>
      rw [hnext] at h
      cases h
    | ok next =>
      have hcount : ∃ first, space.count? key = some first ∧ next = Decimal.wrapped (first + 1) := by
        unfold nextCount text? at hnext
        unfold count?
        cases hentry : space.find? key with
        | none =>
          rw [hentry] at hnext
          cases hnext
          exact ⟨0, rfl, rfl⟩
        | some entry =>
          rw [hentry] at hnext
          cases entry with
          | text text =>
            dsimp only at hnext ⊢
            cases hread : Decimal.int64? text with
            | none =>
              rw [hread] at hnext
              cases hnext
            | some first =>
              rw [hread] at hnext
              cases hnext
              exact ⟨first, rfl, rfl⟩
          | hash fields | set members | scored members => cases hnext
      obtain ⟨first, hfirst, rfl⟩ := hcount
      exact ⟨first, hfirst, by rw [find?_put, if_pos rfl]; rfl⟩

/-- A key that is changed in no other way than by counting stands at the number at the start, and one more
for each time, in 64 bits. -/
theorem find?_executeAll_of_incr {space : Keyspace} {commands : List (Command × List String)}
    (haccepts : space.Accepts commands)
    (h : ∀ entry ∈ commands, key ∈ entry.1.changes entry.2 → entry.1 = .incr) :
    if increments key commands = 0 then (space.executeAll commands).find? key = space.find? key
    else ∃ first, space.count? key = some first ∧
      (space.executeAll commands).find? key =
        some (.text (Decimal.ofInt (Decimal.wrapped (first + increments key commands)))) := by
  induction commands generalizing space with
  | nil => rfl
  | cons entry rest ih =>
    obtain ⟨command, args⟩ := entry
    obtain ⟨⟨reply, hreply⟩, hrest⟩ := haccepts
    have hnext := ih hrest fun other hother => h other (List.mem_cons_of_mem _ hother)
    rw [executeAll_cons]
    by_cases hchanged : key ∈ command.changes args
    · obtain rfl : command = .incr := h (command, args) List.mem_cons_self hchanged
      obtain ⟨first, hfirst, hafter⟩ := find?_execute_incr hreply hchanged
      have hone : increments key ((.incr, args) :: rest) = increments key rest + 1 := by
        simp [increments, hchanged]
      rw [hone, if_neg (Nat.succ_ne_zero _)]
      refine ⟨first, hfirst, ?_⟩
      split at hnext
      · rename_i hzero
        rw [hnext, hafter, hzero]
        rfl
      · obtain ⟨second, hsecond, hlast⟩ := hnext
        have hsame : second = Decimal.wrapped (first + 1) := by
          rw [count?, hafter] at hsecond
          dsimp only at hsecond
          rw [Decimal.int64?_ofInt (Decimal.inInt64_wrapped _)] at hsecond
          exact (Option.some.inj hsecond).symm
        rw [hlast, hsame, Decimal.wrapped_wrapped_add]
        push_cast
        rw [Int.add_assoc, Int.add_comm 1]
    · have hsame := find?_execute space hchanged
      have hnone : increments key ((command, args) :: rest) = increments key rest := by
        simp [increments, hchanged]
      rw [hnone]
      split at hnext
      · rename_i hzero
        rw [if_pos hzero, hnext, hsame]
      · rename_i hzero
        obtain ⟨first, hfirst, hlast⟩ := hnext
        rw [if_neg hzero]
        refine ⟨first, ?_, hlast⟩
        rw [← hfirst, count?, count?, hsame]

end Keyspace

namespace Script

namespace Machine

variable {machine : Machine} {journal : List Record} {commands : List (Command × List String)} {key : String}

theorem performed_declare (machine : Machine) (name : String) (value : Value) :
    (machine.declare name value).performed = machine.performed := by
  unfold declare
  split <;> rfl

theorem performed_assign (machine : Machine) (name : String) (value : Value) :
    (machine.assign name value).performed = machine.performed := by
  unfold assign
  split <;> rfl

theorem performed_perform (machine : Machine) (command : Command) (args : List String) :
    (machine.perform command args).performed = (command, args) :: machine.performed := by
  unfold perform Run.command record
  split
  · split <;> rfl
  · rfl

theorem performed_performAll (machine : Machine) (commands : List (Command × List String)) :
    (machine.performAll commands).performed = commands.reverse ++ machine.performed := by
  induction commands generalizing machine with
  | nil => rfl
  | cons entry rest ih =>
    rw [performAll_cons, ih, performed_perform, List.reverse_cons, List.append_assoc]
    rfl

theorem performed_rollback (machine : Machine) : machine.rollback.performed = machine.performed := by
  unfold rollback
  split <;> rfl

/-- A rollback gives back to a key what it held before the commands, unless they count it up. -/
theorem find?_rollback_of_not_incr (hjournal : machine.journal = some journal)
    (h : ∀ entry ∈ commands, entry.1 = .incr → key ∉ entry.1.changes entry.2) :
    (machine.performAll commands).rollback.space.find? key = (replay machine.space journal).find? key := by
  induction commands generalizing machine journal with
  | nil => simp [rollback, hjournal]
  | cons entry rest ih =>
    obtain ⟨command, args⟩ := entry
    have hhead := h (command, args) List.mem_cons_self
    rw [performAll_cons, ih (journal_perform hjournal command args) fun other hother =>
      h other (List.mem_cons_of_mem _ hother)]
    exact machine.find?_replay_perform journal hhead

/-- A rollback leaves a key as it is that the commands change in no other way than by counting. -/
theorem find?_rollback_of_incr (hjournal : machine.journal = some journal)
    (hkept : ∀ record ∈ journal, record.key ≠ key)
    (h : ∀ entry ∈ commands, key ∈ entry.1.changes entry.2 → entry.1 = .incr) :
    (machine.performAll commands).rollback.space.find? key =
      (machine.space.executeAll commands).find? key := by
  induction commands generalizing machine journal with
  | nil =>
    have hreplay := find?_replay hkept machine.space
    simpa [rollback, hjournal, Keyspace.executeAll_nil] using hreplay
  | cons entry rest ih =>
    obtain ⟨command, args⟩ := entry
    have hhead := h (command, args) List.mem_cons_self
    rw [performAll_cons, ih (journal_perform hjournal command args) ?_ fun other hother =>
      h other (List.mem_cons_of_mem _ hother), perform_space]
    · rfl
    · intro record hrecord hsame
      rcases List.mem_append.1 hrecord with hmem | hmem
      · obtain ⟨hjournaled, hchanged⟩ := machine.mem_recorded hmem
        rw [hsame] at hchanged
        obtain rfl : command = .incr := hhead hchanged
        cases hjournaled
      · exact hkept record hmem hsame

end Machine

namespace Program

variable {program : Program} {params : List String} {space : Keyspace}

/-- A journaled program that has aborted has given back every key that it has not counted up, and every key
that it has changed in no other way than by counting keeps all that was counted, in 64 bits. -/
theorem find?_run_of_aborts (hjournal : program.journal = true)
    (haborts : program.aborts params space = true) (key : String) :
    ((∀ entry ∈ (program.execution params space).2.performed,
          entry.1 = .incr → key ∉ entry.1.changes entry.2) →
        (program.run params space).2.find? key = space.find? key) ∧
      ((∀ entry ∈ (program.execution params space).2.performed,
          key ∈ entry.1.changes entry.2 → entry.1 = .incr) →
        increments key (program.execution params space).2.performed ≠ 0 →
          ∃ first, space.count? key = some first ∧
            (program.run params space).2.find? key = some (.text (Decimal.ofInt (Decimal.wrapped
              (first + increments key (program.execution params space).2.performed))))) := by
  have hsettles := program.settles_execution params space
  rw [haborts] at hsettles
  obtain ⟨commands, hundone⟩ : ∃ commands, Run.Undone program.writeCalls (Machine.start program space) commands
      (program.execution params space) := by
    cases hsettles with
    | undone commands hundone => exact ⟨commands, hundone⟩
  have hstart : (Machine.start program space).bare = Machine.start program space := rfl
  have hnone : (Machine.start program space).journal = some [] := by simp [Machine.start, hjournal]
  have hbare := hundone.bare
  rw [hstart] at hbare
  have hspace : (program.run params space).2 =
      ((Machine.start program space).performAll commands).rollback.space := by
    rw [← hbare]
    rfl
  have hperformed : (program.execution params space).2.performed = commands.reverse := by
    have hcarried := congrArg Machine.performed hbare
    rw [Machine.performed_rollback, Machine.performed_performAll] at hcarried
    exact hcarried.trans (List.append_nil _)
  rw [hspace, hperformed]
  have hcounts : increments key commands.reverse = increments key commands := List.countP_reverse
  constructor
  · intro huncounted
    exact Machine.find?_rollback_of_not_incr hnone fun entry hentry =>
      huncounted entry (List.mem_reverse.2 hentry)
  · intro hcounted hpositive
    have honly : ∀ entry ∈ commands, key ∈ entry.1.changes entry.2 → entry.1 = .incr :=
      fun entry hentry => hcounted entry (List.mem_reverse.2 hentry)
    rw [hcounts] at hpositive ⊢
    rw [Machine.find?_rollback_of_incr hnone (fun record hrecord => by cases hrecord) honly]
    have hstands := Keyspace.find?_executeAll_of_incr hundone.accepted honly
    rw [if_neg hpositive] at hstands
    exact hstands

/-- A program that puts a text, counts up, and aborts with what it gets for deleting two keys. -/
def turnedBack : Program where
  body :=
    [.call .set [.str "k", .str "v"], .branch (.call .incr [.str "n"])
      [.block [.abort (.call .del [.str "k", .str "m"])]] []]
  journal := true

/-- Nothing is left of that program's run but the count. -/
theorem find?_run_turnedBack :
    (turnedBack.run [] ⟨.ofList [("m", .text "x")]⟩).2.find? "k" = none ∧
      (turnedBack.run [] ⟨.ofList [("m", .text "x")]⟩).2.find? "m" = some (.text "x") ∧
      (turnedBack.run [] ⟨.ofList [("m", .text "x")]⟩).2.find? "n" = some (.text (Decimal.ofInt 1)) := by
  have haborts : turnedBack.aborts [] ⟨.ofList [("m", .text "x")]⟩ = true := by decide +kernel
  have hperformed : (turnedBack.execution [] ⟨.ofList [("m", .text "x")]⟩).2.performed =
      [(.del, ["k", "m"]), (.incr, ["n"]), (.set, ["k", "v"])] := by decide +kernel
  have hk := find?_run_of_aborts rfl haborts "k"
  have hm := find?_run_of_aborts rfl haborts "m"
  have hn := find?_run_of_aborts rfl haborts "n"
  rw [hperformed] at hk hm hn
  refine ⟨hk.1 (by decide), hm.1 (by decide), ?_⟩
  obtain ⟨first, hfirst, hlast⟩ := hn.2 (by decide) (by decide)
  cases hfirst
  exact hlast

end Program

end Script

end DocStore
