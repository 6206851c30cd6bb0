import DocStore.Proofs.Keyspace.Agreement

/-!
What any program does: it carries out commands, one after another, and nothing else.

Whatever a program is made of, the keyspace, the journal and the list of commands end as if these commands
had been carried out one by one (`Run.Traces`), at most as many writes among them as the program has calls
for. Only an abort does more: it ends the program, and puts back what has been recorded
(`Program.settles_execution`).
-/

namespace DocStore

/-- The commands succeed, one after another. -/
def Keyspace.Accepts (space : Keyspace) : List (Command × List String) → Prop
  | [] => True
  | (command, args) :: rest =>
    (∃ reply, (space.execute command args).1 = .ok reply) ∧ (space.execute command args).2.Accepts rest

theorem Keyspace.accepts_append (space : Keyspace) (first second : List (Command × List String)) :
    space.Accepts (first ++ second) ↔ space.Accepts first ∧ (space.executeAll first).Accepts second := by
  induction first generalizing space with
  | nil => simp [Accepts, executeAll_nil]
  | cons entry rest ih =>
    obtain ⟨command, args⟩ := entry
    simp only [List.cons_append, Accepts, executeAll_cons, ih, and_assoc]

namespace Script

namespace Machine

/-- The machine without its variables. -/
def bare (machine : Machine) : Machine :=
  { machine with inner := [], outer := ∅ }

variable (machine : Machine)

@[simp] theorem bare_declare (name : String) (value : Value) :
    (machine.declare name value).bare = machine.bare := by
  unfold declare
  split <;> rfl

@[simp] theorem bare_assign (name : String) (value : Value) :
    (machine.assign name value).bare = machine.bare := by
  unfold assign
  split <;> rfl

@[simp] theorem bare_perform (command : Command) (args : List String) :
    (machine.perform command args).bare = machine.bare.perform command args := by
  unfold perform Run.command record bare
  dsimp only
  split
  · split <;> rfl
  · rfl

@[simp] theorem bare_rollback : machine.rollback.bare = machine.bare.rollback := by
  unfold rollback bare
  dsimp only
  split <;> rfl

end Machine

namespace Value

theorem raises_text (use : Use) (value : Value) : Raises (value.text use) := by
  cases value <;> simp [text, Raises, StoreError.Raised]

theorem raises_argumentText (value : Value) : Raises (argumentText value) := by
  cases value <;> simp [argumentText, Raises, StoreError.Raised]

theorem raises_fieldsOfFlat (items : List Value) (done : List (String × Value)) :
    Raises (fieldsOfFlat done items) := by
  fun_induction fieldsOfFlat done items with
  | case1 done name value rest text _ ih => exact ih
  | case2 done name value rest e he =>
    have hname := raises_text .index name e he
    simpa [Raises] using hname
  | case3 => exact .ok _

theorem raises_toMap (value : Value) : Raises value.toMap := by
  cases value with
  | table items fields =>
    simp only [toMap]
    exact (raises_fieldsOfFlat items []).map _
  | _ => simp [toMap, Raises, StoreError.Raised]

theorem raises_sortKey (value : Value) : Raises value.sortKey := by
  have hread := raises_text .compare value
  unfold sortKey
  cases h : value.text .compare with
  | error e => simpa [Raises, h] using hread
  | ok text =>
    dsimp only
    split <;> simp [Raises, StoreError.Raised]

theorem raises_withSortKeys (ids : List Value) : Raises (withSortKeys ids) := by
  induction ids with
  | nil => exact .ok _
  | cons id rest ih =>
    have hread := raises_sortKey id
    unfold withSortKeys
    cases h : id.sortKey with
    | error e => simpa [Raises, h] using hread
    | ok key =>
      exact ih.map _

theorem raises_sortIds (value : Value) : Raises value.sortIds := by
  cases value with
  | table items fields => exact (raises_withSortKeys items).bind fun found => .ok _
  | _ => simp [sortIds, Raises, StoreError.Raised]

theorem raises_length (value : Value) : Raises value.length := by
  cases value <;> simp [length, Raises, StoreError.Raised]

theorem raises_greater (left right : Value) : Raises (left.greater right) := by
  cases left <;> cases right <;> simp [greater, Raises, StoreError.Raised]

theorem raises_item (place : Int) (value : Value) : Raises (value.item place) := by
  cases value <;> simp [item, Raises, StoreError.Raised]

end Value

namespace Run

variable {α β : Type}

/-- From the machine, the commands are carried out up to this outcome, at most `limit` of them writes. All
of them succeed unless the outcome is a failure. -/
structure Trace (limit : Nat) (machine : Machine) (commands : List (Command × List String))
    (outcome : Except StoreError α × Machine) : Prop where
  bare : outcome.2.bare = machine.bare.performAll commands
  writes : commands.countP (fun entry => entry.1.isWrite) ≤ limit
  accepted : ∀ value, outcome.1 = .ok value → machine.space.Accepts commands
  raises : Raises outcome.1

/-- From every machine the computation carries out commands, at most `limit` of them writes. -/
def Traces (limit : Nat) (run : Run α) : Prop :=
  ∀ machine, ∃ commands, Trace limit machine commands (run machine)

/-- The commands are carried out, and what has been recorded is put back: the script is over. -/
structure Undone (limit : Nat) (machine : Machine) (commands : List (Command × List String))
    (outcome : Except StoreError Flow × Machine) : Prop where
  bare : outcome.2.bare = (machine.bare.performAll commands).rollback
  writes : commands.countP (fun entry => entry.1.isWrite) ≤ limit
  accepted : machine.space.Accepts commands
  ends : ∃ value, outcome.1 = .ok (.over value)

/-- How a script goes on from the machine: it carries out commands, and puts back what has been recorded if
it aborts. -/
inductive Settles (limit : Nat) (machine : Machine) :
    Bool → Except StoreError Flow × Machine → Prop
  | carried {outcome : Except StoreError Flow × Machine} (commands : List (Command × List String)) :
      Trace limit machine commands outcome → Settles limit machine false outcome
  | undone {outcome : Except StoreError Flow × Machine} (commands : List (Command × List String)) :
      Undone limit machine commands outcome → Settles limit machine true outcome

section Sequences

variable {limit more : Nat} {machine between : Machine} {first second : List (Command × List String)}
  {value : α}

theorem Trace.space (h : Trace limit machine first ((.ok value : Except StoreError α), between)) :
    between.space = machine.space.executeAll first := by
  have hspace := congrArg Machine.space h.bare
  rwa [Machine.performAll_space] at hspace

/-- What goes on after a success carries out its commands after the others. -/
theorem Trace.append (h : Trace limit machine first ((.ok value : Except StoreError α), between))
    {outcome : Except StoreError β × Machine} (hnext : Trace more between second outcome) :
    Trace (limit + more) machine (first ++ second) outcome where
  bare := by rw [hnext.bare, h.bare, Machine.performAll_append]
  writes := by
    rw [List.countP_append]
    exact Nat.add_le_add h.writes hnext.writes
  accepted := by
    intro found hfound
    rw [Keyspace.accepts_append, ← h.space]
    exact ⟨h.accepted value rfl, hnext.accepted found hfound⟩
  raises := hnext.raises

/-- An abort after a success puts back also what was recorded before. -/
theorem Trace.undone (h : Trace limit machine first ((.ok value : Except StoreError α), between))
    {outcome : Except StoreError Flow × Machine} (hnext : Undone more between second outcome) :
    Undone (limit + more) machine (first ++ second) outcome where
  bare := by rw [hnext.bare, h.bare, Machine.performAll_append]
  writes := by
    rw [List.countP_append]
    exact Nat.add_le_add h.writes hnext.writes
  accepted := by
    rw [Keyspace.accepts_append, ← h.space]
    exact ⟨h.accepted value rfl, hnext.accepted⟩
  ends := hnext.ends

/-- What goes on after a success aborts if and only if the whole does, and puts back also what was recorded
before. -/
theorem Trace.settles (h : Trace limit machine first ((.ok value : Except StoreError α), between)) {aborts : Bool}
    {outcome : Except StoreError Flow × Machine} (hnext : Settles more between aborts outcome) :
    Settles (limit + more) machine aborts outcome := by
  cases hnext with
  | carried second htrace => exact .carried _ (h.append htrace)
  | undone second hundone => exact .undone _ (h.undone hundone)

/-- A failure ends whatever was to come. -/
theorem Trace.error {e : StoreError} (h : Trace limit machine first ((.error e : Except StoreError α), between))
    (hle : limit ≤ more) : Trace more machine first ((.error e : Except StoreError β), between) where
  bare := h.bare
  writes := Nat.le_trans h.writes hle
  accepted := by
    intro value hvalue
    cases hvalue
  raises := by
    intro found hfound
    cases hfound
    exact h.raises e rfl

end Sequences

namespace Traces

variable {limit more : Nat} {run : Run α}

theorem mono (h : Traces limit run) (hle : limit ≤ more) : Traces more run := by
  intro machine
  obtain ⟨commands, htrace⟩ := h machine
  exact ⟨commands, { htrace with writes := Nat.le_trans htrace.writes hle }⟩

/-- What only changes variables carries out nothing. -/
theorem of_bare (hbare : ∀ machine, (run machine).2.bare = machine.bare)
    (hraises : ∀ machine, Raises (run machine).1) (limit : Nat) : Traces limit run := fun machine =>
  ⟨[], hbare machine, Nat.zero_le limit, fun _ _ => trivial, hraises machine⟩

theorem lift {result : Except StoreError α} (h : Raises result) : Traces 0 (Run.lift result) :=
  of_bare (fun _ => rfl) (fun _ => h) 0

theorem pure (value : α) : Traces 0 (Pure.pure value : Run α) :=
  of_bare (fun _ => rfl) (fun _ => .ok value) 0

theorem lookup (name : String) : Traces 0 (Run.lookup name) :=
  of_bare (fun _ => rfl) (fun _ => .ok _) 0

theorem fail (fault : Fault) : Traces 0 (Run.fail fault : Run α) := by
  refine lift fun e he => ?_
  cases he
  trivial

theorem declare (name : String) (value : Value) : Traces 0 (Run.update (·.declare name value)) :=
  of_bare (fun machine => machine.bare_declare name value) (fun _ => .ok _) 0

theorem assign (name : String) (value : Value) : Traces 0 (Run.update (·.assign name value)) :=
  of_bare (fun machine => machine.bare_assign name value) (fun _ => .ok _) 0

theorem updateTable (name : String) (change : List Value → List (String × Value) → Value) :
    Traces 0 (Run.updateTable name change) := by
  refine of_bare (fun machine => ?_) (fun machine => ?_) 0
  · unfold Run.updateTable
    split <;> simp
  · unfold Run.updateTable
    split <;> simp [Raises, StoreError.Raised]

theorem command (command : Command) (args : List String) :
    Traces (writeWeight command) (Run.command command args) := by
  intro machine
  rw [command_apply]
  refine ⟨[(command, args)], machine.bare_perform command args, ?_, fun value hvalue => ⟨?_, trivial⟩,
    (Keyspace.raises_execute machine.space command args).map _⟩
  · cases hwrite : command.isWrite <;> simp [writeWeight, hwrite]
  · cases hresult : (machine.space.execute command args).1 with
    | error e =>
      rw [hresult] at hvalue
      cases hvalue
    | ok reply => exact ⟨reply, rfl⟩

theorem bind (h : Traces limit run) {next : α → Run β} (hnext : ∀ value, Traces more (next value)) :
    Traces (limit + more) (run >>= next) := by
  intro machine
  obtain ⟨first, htrace⟩ := h machine
  cases hrun : run machine with
  | mk result between =>
    rw [hrun] at htrace
    cases result with
    | error e =>
      rw [bind_of_error hrun]
      exact ⟨first, htrace.error (Nat.le_add_right limit more)⟩
    | ok value =>
      rw [bind_of_ok hrun]
      obtain ⟨second, hrest⟩ := hnext value between
      exact ⟨first ++ second, htrace.append hrest⟩

end Traces

end Run

namespace Expr

open Run.Traces

mutual

/-- An expression carries out no more writes than it has calls for. -/
theorem traces_eval (params : List String) : ∀ e : Expr, Run.Traces e.writeCalls (e.eval params)
  | .nil | .str _ | .int _ | .param _ => pure _
  | .var name => lookup name
  | .field map name => by
    unfold eval
    change Run.Traces (0 + 0) _
    refine (lookup map).bind fun value => ?_
    cases value <;> first
      | exact pure _
      | exact fail _
  | .index e place => by
    unfold eval
    exact (traces_eval params e).bind fun value => lift (value.raises_item place)
  | .concat es => by
    unfold eval
    exact (traces_concatText params es).bind fun text => pure _
  | .lower e => by
    unfold eval
    exact (traces_eval params e).bind fun value => (lift (value.raises_text .lower)).bind fun _ => pure _
  | .escape e => by
    unfold eval
    exact (traces_eval params e).bind fun value => (lift (value.raises_text .escape)).bind fun _ => pure _
  | .toMap e => by
    unfold eval
    exact (traces_eval params e).bind fun value => lift value.raises_toMap
  | .sortIds e => by
    unfold eval
    exact (traces_eval params e).bind fun value => lift value.raises_sortIds
  | .call command args => by
    unfold eval
    rw [writeCalls, Nat.add_comm]
    exact (traces_arguments params args).bind fun texts => Run.Traces.command command texts
  | .table items => by
    unfold eval
    exact (traces_evalAll params items).bind fun _ => pure _
  | .len e => by
    unfold eval
    exact (traces_eval params e).bind fun value => lift value.raises_length
  | .eq a b | .ne a b => by
    unfold eval
    exact (traces_eval params a).bind fun _ => (traces_eval params b).bind fun _ => pure _
  | .gt a b => by
    unfold eval
    exact (traces_eval params a).bind fun left =>
      (traces_eval params b).bind fun right => lift (left.raises_greater right)
  | .and items => by
    rw [eval_and]
    exact traces_evalAnd params (.bool true) items
  | .or items => by
    rw [eval_or]
    exact traces_evalOr params (.bool false) items
  | .not e => by
    unfold eval
    exact (traces_eval params e).bind fun _ => pure _

theorem traces_evalAll (params : List String) :
    ∀ es : List Expr, Run.Traces (writeCallsAll es) (evalAll params es)
  | [] => pure _
  | e :: es => by
    unfold evalAll
    exact (traces_eval params e).bind fun _ => (traces_evalAll params es).bind fun _ => pure _

theorem traces_concatText (params : List String) :
    ∀ es : List Expr, Run.Traces (writeCallsAll es) (concatText params es)
  | [] => pure _
  | e :: es => by
    unfold concatText
    exact (traces_eval params e).bind fun value =>
      ((lift (value.raises_text .concatenate)).bind fun _ =>
        (traces_concatText params es).bind fun _ => pure _).mono (by omega)

theorem traces_arguments (params : List String) :
    ∀ es : List Expr, Run.Traces (writeCallsAll es) (arguments params es)
  | [] => pure _
  | e :: es => by
    unfold arguments
    exact (traces_eval params e).bind fun value =>
      ((lift value.raises_argumentText).bind fun _ =>
        (traces_arguments params es).bind fun _ => pure _).mono (by omega)

theorem traces_evalAnd (params : List String) (last : Value) :
    ∀ es : List Expr, Run.Traces (writeCallsAll es) (evalAnd params last es)
  | [] => pure _
  | e :: es => by
    unfold evalAnd
    refine (traces_eval params e).bind fun value => ?_
    split
    · exact traces_evalAnd params value es
    · exact (Run.Traces.pure value).mono (Nat.zero_le _)

theorem traces_evalOr (params : List String) (last : Value) :
    ∀ es : List Expr, Run.Traces (writeCallsAll es) (evalOr params last es)
  | [] => pure _
  | e :: es => by
    unfold evalOr
    refine (traces_eval params e).bind fun value => ?_
    split
    · exact (Run.Traces.pure value).mono (Nat.zero_le _)
    · exact traces_evalOr params value es

end

end Expr

namespace Stmt

mutual

/-- Whether the statement ends the script by an abort. -/
def aborts (params : List String) : Stmt → Machine → Bool
  | .abort e, machine =>
    match e.eval params machine with
    | (.ok _, _) => true
    | (.error _, _) => false
  | .branch condition yes no, machine =>
    match condition.eval params machine with
    | (.ok value, after) =>
      if value.truthy then abortsAll params yes after.openScope else abortsAll params no after.openScope
    | (.error _, _) => false
  | .block body, machine => abortsAll params body machine.openScope
  | _, _ => false

/-- Whether one of the statements ends the script by an abort. -/
def abortsAll (params : List String) : List Stmt → Machine → Bool
  | [], _ => false
  | s :: ss, machine =>
    s.aborts params machine ||
      match s.run params machine with
      | (.ok .next, after) => abortsAll params ss after
      | _ => false

end

end Stmt

/-- Whether the program, run on the keyspace, ends by an abort. -/
def Program.aborts (program : Program) (params : List String) (space : Keyspace) : Bool :=
  Stmt.abortsAll params program.body (Machine.start program space)

namespace Run

variable {limit more : Nat} {run : Run Flow}

theorem Traces.settles (h : Traces limit run) (machine : Machine) :
    Settles limit machine false (run machine) := by
  obtain ⟨commands, htrace⟩ := h machine
  exact .carried commands htrace

theorem Settles.mono {machine : Machine} {aborts : Bool} {outcome : Except StoreError Flow × Machine}
    (h : Settles limit machine aborts outcome) (hle : limit ≤ more) : Settles more machine aborts outcome := by
  cases h with
  | carried commands htrace =>
    exact .carried commands { htrace with writes := Nat.le_trans htrace.writes hle }
  | undone commands hundone =>
    exact .undone commands { hundone with writes := Nat.le_trans hundone.writes hle }

/-- A scope makes no difference. -/
theorem Settles.inScope {machine : Machine} {aborts : Bool}
    (h : Settles limit machine.openScope aborts (run machine.openScope)) :
    Settles limit machine aborts (Run.inScope run machine) := by
  cases h with
  | carried commands htrace => exact .carried commands { htrace with bare := htrace.bare }
  | undone commands hundone => exact .undone commands { hundone with bare := hundone.bare }

end Run

namespace Stmt

open Run.Traces

mutual

/-- A statement carries out no more writes than it has calls for, and puts back what is recorded if and
only if it aborts. -/
theorem settles_run (params : List String) (s : Stmt) (machine : Machine) :
    Run.Settles s.writeCalls machine (s.aborts params machine) (s.run params machine) := by
  cases s with
  | declare name e =>
    unfold run
    exact ((Expr.traces_eval params e).bind fun value =>
      (Run.Traces.declare name value).bind fun _ => pure _).settles machine
  | assign name e =>
    unfold run
    exact ((Expr.traces_eval params e).bind fun value =>
      (Run.Traces.assign name value).bind fun _ => pure _).settles machine
  | setField map name e | push map e =>
    unfold run
    exact ((Expr.traces_eval params e).bind fun value =>
      (updateTable map _).bind fun _ => pure _).settles machine
  | call command args =>
    unfold run
    rw [writeCalls, Nat.add_comm]
    exact ((Expr.traces_arguments params args).bind fun texts =>
      (Run.Traces.command command texts).bind fun _ => pure _).settles machine
  | finish e =>
    unfold run
    exact ((Expr.traces_eval params e).bind fun _ => pure _).settles machine
  | branch condition yes no =>
    obtain ⟨commands, htrace⟩ := Expr.traces_eval params condition machine
    unfold run aborts
    cases hcondition : condition.eval params machine with
    | mk result after =>
      rw [hcondition] at htrace
      cases result with
      | error e =>
        rw [Run.bind_of_error hcondition]
        exact .carried commands (htrace.error (by simp only [writeCalls]; omega))
      | ok value =>
        rw [Run.bind_of_ok hcondition]
        dsimp only
        split
        · exact (htrace.settles (settles_runAll params yes after.openScope).inScope).mono (Nat.le_add_right _ _)
        · have hno := htrace.settles (settles_runAll params no after.openScope).inScope
          exact hno.mono (by simp only [writeCalls]; omega)
  | abort e =>
    obtain ⟨commands, htrace⟩ := Expr.traces_eval params e machine
    unfold run aborts
    cases he : e.eval params machine with
    | mk result after =>
      rw [he] at htrace
      cases result with
      | error e =>
        rw [Run.bind_of_error he]
        exact .carried commands (htrace.error (Nat.le_refl _))
      | ok value =>
        rw [Run.bind_of_ok he]
        refine .undone commands ⟨?_, htrace.writes, htrace.accepted value rfl, value, rfl⟩
        rw [← htrace.bare]
        exact after.bare_rollback
  | block body =>
    unfold run aborts
    exact (settles_runAll params body machine.openScope).inScope

theorem settles_runAll (params : List String) (statements : List Stmt) (machine : Machine) :
    Run.Settles (writeCallsAll statements) machine (abortsAll params statements machine)
      (runAll params statements machine) := by
  cases statements with
  | nil => exact (pure Flow.next).settles machine
  | cons s ss =>
    have hfirst := settles_run params s machine
    unfold runAll abortsAll
    cases hrun : s.run params machine with
    | mk result after =>
      rw [hrun] at hfirst
      generalize s.aborts params machine = aborts at hfirst ⊢
      cases hfirst with
      | undone commands hundone =>
        obtain ⟨value, hvalue⟩ := hundone.ends
        dsimp only at hvalue
        subst hvalue
        rw [Run.bind_of_ok hrun]
        exact .undone commands { hundone with writes := Nat.le_trans hundone.writes (Nat.le_add_right _ _) }
      | carried commands htrace =>
        rw [Bool.false_or]
        cases result with
        | error e =>
          rw [Run.bind_of_error hrun]
          exact .carried commands (htrace.error (Nat.le_add_right _ _))
        | ok flow =>
          rw [Run.bind_of_ok hrun]
          match flow, htrace with
          | .next, htrace => exact htrace.settles (settles_runAll params ss after)
          | .over value, htrace =>
            exact htrace.settles (((pure (Flow.over value)).settles after).mono (Nat.zero_le _))

end

end Stmt

/-- A program carries out no more writes than it has calls for, and puts back what is recorded if and only
if it aborts. -/
theorem Program.settles_execution (program : Program) (params : List String) (space : Keyspace) :
    Run.Settles program.writeCalls (Machine.start program space) (program.aborts params space)
      (program.execution params space) :=
  Stmt.settles_runAll params program.body (Machine.start program space)

/-- A program fails only with an error of its own. -/
theorem Program.raises_run (program : Program) (params : List String) (space : Keyspace) :
    Raises (program.run params space).1 := by
  have hsettles := program.settles_execution params space
  have hraises : Raises (program.execution params space).1 := by
    generalize program.execution params space = outcome at hsettles ⊢
    generalize program.aborts params space = aborts at hsettles
    cases hsettles with
    | carried commands htrace => exact htrace.raises
    | undone commands hundone =>
      obtain ⟨value, hvalue⟩ := hundone.ends
      rw [hvalue]
      exact .ok _
  exact hraises.map Flow.reply

end Script

end DocStore
