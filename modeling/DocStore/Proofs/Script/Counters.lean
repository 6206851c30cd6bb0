import DocStore.Proofs.Script.Evaluation
import DocStore.Proofs.Script.Rollback

/-!
Counters only move forward, as far as 64 bits go.

A key that no command changes but by counting it up stands, after any commands, as far ahead as there were
numbers drawn from it, and these are the next ones in order (`Keyspace.counts_draws`). That is so for a
script too, also if it fails or takes back what it has done (`Program.counts_draws`). The number after the
greatest of 64 bits is the least: up to there the numbers ascend (`Counts.ascends`).
-/

namespace DocStore

open Script

/-- The numbers drawn from a counter while it moves from one number on to another: all of those after the
former up to the latter, in order. -/
inductive Counts : Int → List Int → Int → Prop
  | stay (i : Int) : Counts i [] i
  | draw {i last : Int} {drawn : List Int} : Counts (Decimal.wrapped (i + 1)) drawn last →
    Counts i (Decimal.wrapped (i + 1) :: drawn) last

namespace Counts

variable {first between last : Int} {drawn later : List Int}

theorem append (h : Counts first drawn between) (hlater : Counts between later last) :
    Counts first (drawn ++ later) last := by
  induction h with
  | stay => exact hlater
  | draw _ ih => exact (ih hlater).draw

/-- A counter that does not run over its limit moves on by one for each number, and the numbers ascend. -/
theorem ascends (h : Counts first drawn last) (hfirst : Decimal.InInt64 first)
    (hlimit : Decimal.InInt64 (first + drawn.length)) :
    last = first + drawn.length ∧ (first :: drawn).Pairwise (· < ·) := by
  induction h with
  | stay i => exact ⟨by simp, List.pairwise_singleton _ _⟩
  | @draw i last rest _ ih =>
    simp only [Decimal.InInt64, List.length_cons] at hfirst hlimit
    have hnext : Decimal.InInt64 (i + 1) := ⟨by omega, by omega⟩
    have hrest : Decimal.InInt64 (i + 1 + rest.length) := ⟨by omega, by omega⟩
    rw [Decimal.wrapped_of_inInt64 hnext] at ih ⊢
    obtain ⟨hlast, hpairwise⟩ := ih hnext hrest
    refine ⟨by rw [hlast, List.length_cons]; omega, .cons (fun id hid => ?_) hpairwise⟩
    rcases List.mem_cons.1 hid with rfl | hid
    · exact Int.lt_succ i
    · exact Int.lt_trans (Int.lt_succ i) ((List.pairwise_cons.1 hpairwise).1 id hid)

end Counts

namespace Keyspace

variable {space : Keyspace} {key : String} {first : Int}

/-- The number that a counter stands at, by what is stored; a missing one stands at zero. -/
def stands? (space : Keyspace) (key : String) : Option Int :=
  match space.find? key with
  | none => some 0
  | some (.text text) => Decimal.int? text
  | some _ => none

/-- The numbers that the commands draw from the counter, in order. -/
def draws (key : String) (space : Keyspace) : List (Command × List String) → List Int
  | [] => []
  | (command, args) :: rest =>
    let later := draws key (space.execute command args).2 rest
    match (space.execute command args).1 with
    | .ok (.int i) => if command = .incr ∧ key ∈ command.changes args then i :: later else later
    | _ => later

theorem stands?_congr {left right : Keyspace} (h : left.find? key = right.find? key) :
    left.stands? key = right.stands? key := by
  rw [stands?, stands?, h]

/-- What can be counted up stands at the same number, whatever its size. -/
theorem stands?_of_count? (h : space.count? key = some first) : space.stands? key = some first := by
  unfold count? at h
  unfold stands?
  cases hfind : space.find? key with
  | none =>
    rw [hfind] at h
    exact h
  | some entry =>
    rw [hfind] at h
    cases entry with
    | text text => exact Decimal.int?_of_int64? h
    | hash fields | set members | scored members => cases h

theorem inInt64_of_count? (h : space.count? key = some first) : Decimal.InInt64 first := by
  unfold count? at h
  split at h
  · cases h
    decide
  · exact Decimal.inInt64_of_int64? h
  · cases h

/-- A counter that does not fail gives the next number. -/
theorem eq_of_nextCount {next : Int} (hfirst : space.stands? key = some first)
    (hnext : space.nextCount key = .ok next) : next = Decimal.wrapped (first + 1) := by
  unfold stands? at hfirst
  unfold nextCount text? at hnext
  cases hfind : space.find? key with
  | none =>
    rw [hfind] at hfirst hnext
    cases hfirst
    cases hnext
    rfl
  | some entry =>
    rw [hfind] at hfirst hnext
    cases entry with
    | text text =>
      dsimp only at hfirst hnext
      cases hread : Decimal.int64? text with
      | none =>
        rw [hread] at hnext
        cases hnext
      | some i =>
        rw [Decimal.int?_of_int64? hread] at hfirst
        rw [hread] at hnext
        cases hfirst
        cases hnext
        rfl
    | hash fields | set members | scored members => cases hnext

theorem nextCount_of_count? (h : space.count? key = some first) :
    space.nextCount key = .ok (Decimal.wrapped (first + 1)) := by
  unfold count? at h
  unfold nextCount text?
  cases hfind : space.find? key with
  | none =>
    rw [hfind] at h
    cases h
    rfl
  | some entry =>
    rw [hfind] at h
    cases entry with
    | text text =>
      dsimp only at h ⊢
      rw [h]
    | hash fields | set members | scored members => cases h

/-- A counter that is counted up gives the next number and stands there, or fails and stays. -/
theorem execute_incr_of_stands? (rest : List String) (h : space.stands? key = some first) :
    ((space.execute .incr (key :: rest)).1 = .ok (.int (Decimal.wrapped (first + 1))) ∧
        (space.execute .incr (key :: rest)).2.stands? key = some (Decimal.wrapped (first + 1))) ∨
      ∃ e, (space.execute .incr (key :: rest)).1 = .error e ∧ (space.execute .incr (key :: rest)).2 = space := by
  rw [execute_incr_cons]
  cases hnext : space.nextCount key with
  | error e => exact .inr ⟨e, rfl, rfl⟩
  | ok next =>
    obtain rfl := eq_of_nextCount h hnext
    refine .inl ⟨rfl, ?_⟩
    rw [stands?, find?_put, if_pos rfl]
    exact Decimal.int?_ofInt _

/-- What one command does to a counter that only counting up changes. -/
theorem counts_execute {command : Command} {args : List String} (hfirst : space.stands? key = some first)
    (h : key ∈ command.changes args → command = .incr) :
    ∃ last, Counts first (space.draws key [(command, args)]) last ∧
      (space.execute command args).2.stands? key = some last := by
  by_cases hchanged : key ∈ command.changes args
  · obtain rfl : command = .incr := h hchanged
    cases args with
    | nil => exact absurd hchanged List.not_mem_nil
    | cons name rest =>
      obtain rfl : key = name := by simpa [Command.changes, Command.isWrite, Machine.touched] using hchanged
      rcases execute_incr_of_stands? rest hfirst with ⟨hreply, hstands⟩ | ⟨e, hreply, hspace⟩
      · refine ⟨_, ?_, hstands⟩
        simp only [draws, hreply, hchanged, and_self, if_true]
        exact .draw (.stay _)
      · refine ⟨first, ?_, by rw [hspace, hfirst]⟩
        simp only [draws, hreply]
        exact .stay _
  · refine ⟨first, ?_, by rw [stands?_congr (find?_execute space hchanged), hfirst]⟩
    have hnone : space.draws key [(command, args)] = [] := by
      unfold draws
      split <;> simp [draws, hchanged]
    rw [hnone]
    exact .stay first

theorem draws_cons (key : String) (space : Keyspace) (command : Command) (args : List String)
    (rest : List (Command × List String)) :
    space.draws key ((command, args) :: rest) =
      space.draws key [(command, args)] ++ (space.execute command args).2.draws key rest := by
  simp only [draws]
  split
  · split <;> rfl
  · rfl

theorem draws_append (key : String) (space : Keyspace) (commands more : List (Command × List String)) :
    space.draws key (commands ++ more) = space.draws key commands ++ (space.executeAll commands).draws key more := by
  induction commands generalizing space with
  | nil => rfl
  | cons entry rest ih =>
    obtain ⟨command, args⟩ := entry
    rw [List.cons_append, draws_cons, ih, ← List.append_assoc, ← draws_cons, executeAll_cons]

/-- To count a counter up is to draw the next number. -/
theorem mem_draws {commands : List (Command × List String)} (more : List (Command × List String))
    (hfirst : (space.executeAll commands).count? key = some first) :
    Decimal.wrapped (first + 1) ∈ space.draws key (commands ++ (.incr, [key]) :: more) := by
  rw [draws_append, draws_cons]
  apply List.mem_append_right
  apply List.mem_append_left
  have hchanged : key ∈ Command.incr.changes [key] := List.mem_singleton.2 rfl
  have hreply : ((space.executeAll commands).execute .incr [key]).1 =
      .ok (.int (Decimal.wrapped (first + 1))) := by
    rw [execute_incr_cons, nextCount_of_count? hfirst]
  simp [draws, hreply, hchanged]

/-- A counter that only counting up changes gives the next numbers in order, and stands at the last of them. -/
theorem counts_draws {commands : List (Command × List String)} (hfirst : space.stands? key = some first)
    (h : ∀ entry ∈ commands, key ∈ entry.1.changes entry.2 → entry.1 = .incr) :
    ∃ last, Counts first (space.draws key commands) last ∧
      (space.executeAll commands).stands? key = some last := by
  induction commands generalizing space first with
  | nil => exact ⟨first, .stay first, hfirst⟩
  | cons entry rest ih =>
    obtain ⟨command, args⟩ := entry
    obtain ⟨between, hdrawn, hbetween⟩ := counts_execute hfirst (h (command, args) List.mem_cons_self)
    obtain ⟨last, hlater, hlast⟩ := ih hbetween fun other hother => h other (List.mem_cons_of_mem _ hother)
    refine ⟨last, ?_, hlast⟩
    rw [draws_cons]
    exact hdrawn.append hlater

end Keyspace

namespace Script

/-- What a key holds that only counting up has changed is not taken back. -/
theorem Machine.find?_rollback_of_only_incr {machine : Machine} {key : String}
    {commands : List (Command × List String)} (hjournal : ∀ records, machine.journal = some records → records = [])
    (h : ∀ entry ∈ commands, key ∈ entry.1.changes entry.2 → entry.1 = .incr) :
    (machine.performAll commands).rollback.space.find? key = (machine.space.executeAll commands).find? key := by
  cases hkept : machine.journal with
  | none => rw [rollback_of_none _ (journal_performAll _ hkept commands), performAll_space]
  | some records =>
    apply find?_rollback_of_incr hkept _ h
    rw [hjournal records hkept]
    exact fun record hrecord => absurd hrecord List.not_mem_nil

/-- The commands that statements have carried out, and what has become of them. -/
theorem Stmt.exists_performed (params : List String) (statements : List Stmt) (machine : Machine) :
    ∃ commands, (runAll params statements machine).2.performed = commands.reverse ++ machine.performed ∧
      ((runAll params statements machine).2.space = machine.space.executeAll commands ∨
        (runAll params statements machine).2.space = (machine.bare.performAll commands).rollback.space) := by
  have hsettles := settles_runAll params statements machine
  generalize runAll params statements machine = outcome at hsettles ⊢
  generalize abortsAll params statements machine = aborts at hsettles
  cases hsettles with
  | carried commands htrace =>
    refine ⟨commands, ?_, .inl ?_⟩
    · have hperformed := congrArg Machine.performed htrace.bare
      rwa [Machine.performed_performAll] at hperformed
    · have hspace := congrArg Machine.space htrace.bare
      rwa [Machine.performAll_space] at hspace
  | undone commands hundone =>
    refine ⟨commands, ?_, .inr ?_⟩
    · have hperformed := congrArg Machine.performed hundone.bare
      rwa [Machine.performed_rollback, Machine.performed_performAll] at hperformed
    · have hspace := congrArg Machine.space hundone.bare
      exact hspace

/-- What a statement has carried out stays so. -/
theorem Stmt.exists_performed_cons (params : List String) (statement : Stmt) (rest : List Stmt)
    (machine : Machine) : ∃ more, (runAll params (statement :: rest) machine).2.performed =
      more ++ (statement.run params machine).2.performed := by
  cases hrun : statement.run params machine with
  | mk result after =>
    cases result with
    | error e =>
      rw [runAll_of_error hrun]
      exact ⟨[], rfl⟩
    | ok flow =>
      cases flow with
      | next =>
        rw [runAll_of_next hrun]
        obtain ⟨commands, hperformed, -⟩ := exists_performed params rest after
        exact ⟨commands.reverse, hperformed⟩
      | «over» value =>
        rw [runAll_of_over hrun]
        exact ⟨[], rfl⟩

/-- A block that draws from a counter first counts it up, whatever comes after. -/
theorem Stmt.exists_performed_draw (params : List String) {machine : Machine} {counter : String} {first : Int}
    (hfirst : machine.space.count? counter = some first) (rest more : List Stmt) :
    ∃ later, (runAll params (.block (.declare "id" (.call .incr [.str counter]) :: rest) :: more)
      machine).2.performed = later ++ (.incr, [counter]) :: machine.performed := by
  have hreply : (machine.openScope.space.execute .incr [counter]).1 =
      .ok (.int (Decimal.wrapped (first + 1))) := by
    change (machine.space.execute .incr [counter]).1 = _
    rw [Keyspace.execute_incr_cons, Keyspace.nextCount_of_count? hfirst]
  have hargs : Expr.GiveTexts params machine.openScope [.str counter] [counter] :=
    .cons (Expr.Gives.str counter) rfl .nil
  have hid := Stmt.run_declare (Expr.eval_call hargs hreply) "id"
  obtain ⟨later, hlater⟩ := Stmt.exists_performed_cons params
    (.block (.declare "id" (.call .incr [.str counter]) :: rest)) more machine
  obtain ⟨inside, hinside⟩ := Stmt.exists_performed_cons params (.declare "id" (.call .incr [.str counter])) rest
    machine.openScope
  have hblock : ((Stmt.block (.declare "id" (.call .incr [.str counter]) :: rest)).run params machine).2.performed =
      (Stmt.runAll params (.declare "id" (.call .incr [.str counter]) :: rest) machine.openScope).2.performed := by
    unfold Stmt.run
    rfl
  refine ⟨later ++ inside, ?_⟩
  rw [hlater, hblock, hinside, hid, List.append_assoc, Machine.performed_declare, Machine.performed_perform]
  rfl

namespace Program

variable {program : Program} {params : List String} {space : Keyspace} {key : String} {first : Int}

/-- The numbers that the script draws from the counter, in order. -/
def draws (key : String) (program : Program) (params : List String) (space : Keyspace) : List Int :=
  space.draws key (program.execution params space).2.performed.reverse

/-- A script that has counted a counter up has drawn the next number from it. -/
theorem mem_draws {commands later : List (Command × List String)}
    (hperformed : (program.execution params space).2.performed = later ++ (.incr, [key]) :: commands.reverse)
    (hfirst : (space.executeAll commands).count? key = some first) :
    Decimal.wrapped (first + 1) ∈ program.draws key params space := by
  have hreverse : (program.execution params space).2.performed.reverse =
      commands ++ (.incr, [key]) :: later.reverse := by
    rw [hperformed]
    simp
  rw [draws, hreverse]
  exact Keyspace.mem_draws later.reverse hfirst

/-- A counter that a script changes by counting up only gives the next numbers in order, and stands at the last
of them, also if the script fails or aborts. -/
theorem counts_draws (hfirst : space.stands? key = some first)
    (h : ∀ entry ∈ (program.execution params space).2.performed,
      key ∈ entry.1.changes entry.2 → entry.1 = .incr) :
    ∃ last, Counts first (program.draws key params space) last ∧
      (program.run params space).2.stands? key = some last := by
  obtain ⟨commands, hperformed, hspace⟩ :=
    Stmt.exists_performed params program.body (Machine.start program space)
  have hcommands : (program.execution params space).2.performed.reverse = commands :=
    (congrArg List.reverse (hperformed.trans (List.append_nil _))).trans (List.reverse_reverse commands)
  have honly : ∀ entry ∈ commands, key ∈ entry.1.changes entry.2 → entry.1 = .incr := by
    intro entry hentry
    rw [← hcommands, List.mem_reverse] at hentry
    exact h entry hentry
  obtain ⟨last, hcounts, hlast⟩ := Keyspace.counts_draws hfirst honly
  rw [draws, hcommands]
  refine ⟨last, hcounts, ?_⟩
  rw [← hlast]
  apply Keyspace.stands?_congr
  rcases hspace with hspace | hspace
  · exact congrArg (Keyspace.find? · key) hspace
  · refine (congrArg (Keyspace.find? · key) hspace).trans ?_
    apply Machine.find?_rollback_of_only_incr _ honly
    intro records hrecords
    simp only [Machine.bare, Machine.start] at hrecords
    split at hrecords <;> cases hrecords
    rfl

end Program

end Script

end DocStore
