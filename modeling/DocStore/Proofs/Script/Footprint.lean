import DocStore.Proofs.Keyspace.Agreement
import DocStore.Proofs.Script.Inspection
import DocStore.Proofs.Script.Variables

/-!
The keys that a script reads and changes, read off its text.

A call names its keys by literals, by the variables `key` and `ikey`, and by texts that begin with one of
these. If all of them lie within `P` (`Program.Within`), the script leaves every other key alone and does
not depend on it, whatever the keyspace holds, and however the script ends.

Keys are made longer by what scripts compute, so `P` must be `Rooted`.
-/

namespace DocStore.Script

/-- The variables that scripts keep keys in. -/
@[simp] def IsKeyName (name : String) : Prop :=
  name = "key" ∨ name = "ikey"

section Texts

variable (P : String → Prop)

/-- What begins with a key within `P` is within `P`. -/
def Rooted : Prop :=
  ∀ key rest, P key → P (key ++ rest)

/-- The value is a key within `P`, or there is none yet. -/
def Value.IsKey : Value → Prop
  | .nil => True
  | .str text => P text
  | _ => False

/-- The expression is a key within `P`. -/
@[simp] def Expr.IsKey : Expr → Prop
  | .str text | .concat (.str text :: _) => P text
  | .var name | .concat (.var name :: _) => IsKeyName name
  | _ => False

namespace Expr

mutual

/-- The calls in the expression name keys within `P`. -/
@[simp] def Within : Expr → Prop
  | .nil | .str _ | .int _ | .param _ | .var _ | .field _ _ => True
  | .index e _ | .lower e | .escape e | .toMap e | .sortIds e | .len e | .not e => e.Within
  | .eq a b | .ne a b | .gt a b => a.Within ∧ b.Within
  | .concat es | .table es | .and es | .or es => WithinAll es
  | .call command args => (∀ e ∈ command.names args, e.IsKey P) ∧ WithinAll args

/-- The calls in the expressions name keys within `P`. -/
@[simp] def WithinAll : List Expr → Prop
  | [] => True
  | e :: es => e.Within ∧ WithinAll es

end

end Expr

namespace Stmt

mutual

/-- The calls in the statement name keys within `P`, and variables for keys hold such keys. -/
@[simp] def Within : Stmt → Prop
  | .declare name e | .assign name e => e.Within P ∧ (IsKeyName name → e.IsKey P)
  | .setField _ _ e | .push _ e | .finish e | .abort e => e.Within P
  | .call command args => (∀ e ∈ command.names args, e.IsKey P) ∧ Expr.WithinAll P args
  | .branch condition yes no => condition.Within P ∧ WithinAll yes ∧ WithinAll no
  | .block body => WithinAll body

/-- The calls in the statements name keys within `P`. -/
@[simp] def WithinAll : List Stmt → Prop
  | [] => True
  | s :: ss => s.Within ∧ WithinAll ss

end

theorem withinAll_iff {statements : List Stmt} :
    WithinAll P statements ↔ ∀ statement ∈ statements, statement.Within P := by
  induction statements with
  | nil => simp [WithinAll]
  | cons s ss ih => simp [WithinAll, ih]

theorem withinAll_append {first second : List Stmt} :
    WithinAll P (first ++ second) ↔ WithinAll P first ∧ WithinAll P second := by
  simp only [withinAll_iff, List.forall_mem_append]

end Stmt

/-- The calls in the program name keys within `P`. -/
def Program.Within (program : Program) : Prop :=
  Stmt.WithinAll P program.body

/-- Calls name keys within `P`, and variables for keys get such keys. -/
def Inspection.naming : Inspection where
  call command args := ∀ e ∈ command.names args, e.IsKey P
  param _ := True
  put name e := IsKeyName name → e.IsKey P

end Texts

section Passed

variable {P : String → Prop}

namespace Expr

mutual

theorem within_of_passes : ∀ e : Expr, e.Passes (.naming P) → e.Within P
  | .nil, _ | .str _, _ | .int _, _ | .param _, _ | .var _, _ | .field _ _, _ => trivial
  | .index e _, h | .lower e, h | .escape e, h | .toMap e, h | .sortIds e, h | .len e, h | .not e, h =>
    within_of_passes e h
  | .eq a b, h | .ne a b, h | .gt a b, h => ⟨within_of_passes a h.1, within_of_passes b h.2⟩
  | .concat es, h | .table es, h | .and es, h | .or es, h => withinAll_of_passesAll es h
  | .call _ args, h => ⟨h.1, withinAll_of_passesAll args h.2⟩

theorem withinAll_of_passesAll : ∀ es : List Expr, PassesAll (.naming P) es → WithinAll P es
  | [], _ => trivial
  | e :: es, h => ⟨within_of_passes e h.1, withinAll_of_passesAll es h.2⟩

end

end Expr

namespace Stmt

mutual

theorem within_of_passes : ∀ s : Stmt, s.Passes (.naming P) → s.Within P
  | .declare _ e, h | .assign _ e, h => ⟨e.within_of_passes h.1, h.2⟩
  | .setField _ _ e, h | .push _ e, h | .finish e, h | .abort e, h => e.within_of_passes h
  | .call _ args, h => ⟨h.1, Expr.withinAll_of_passesAll args h.2⟩
  | .branch condition yes no, h =>
    ⟨condition.within_of_passes h.1, withinAll_of_passesAll yes h.2.1, withinAll_of_passesAll no h.2.2⟩
  | .block body, h => withinAll_of_passesAll body h

theorem withinAll_of_passesAll : ∀ statements : List Stmt, PassesAll (.naming P) statements →
    WithinAll P statements
  | [], _ => trivial
  | s :: ss, h => ⟨within_of_passes s h.1, withinAll_of_passesAll ss h.2⟩

end

end Stmt

end Passed

namespace Machine

variable {P : String → Prop} {machine first second : Machine}

/-- Variables for keys hold keys within `P`, and so does the journal. -/
structure Proper (P : String → Prop) (machine : Machine) : Prop where
  scopes : ∀ scope ∈ machine.outer :: machine.inner, ∀ name value, IsKeyName name →
    scope.find? name = some value → value.IsKey P
  journal : ∀ records, machine.journal = some records → ∀ record ∈ records, P record.key

/-- The machines differ at most in what they hold outside of `P`, and in what was carried out. -/
structure Alike (P : String → Prop) (first second : Machine) : Prop where
  inner : first.inner = second.inner
  outer : first.outer = second.outer
  journal : first.journal = second.journal
  space : Keyspace.Agree P first.space second.space

theorem Proper.holds (h : machine.Proper P) : machine.Holds fun name value => IsKeyName name → value.IsKey P :=
  fun scope hscope name value hvalue hname => h.scopes scope hscope name value hname hvalue

theorem Proper.of_holds (h : machine.Holds fun name value => IsKeyName name → value.IsKey P)
    (hjournal : ∀ records, machine.journal = some records → ∀ record ∈ records, P record.key) : machine.Proper P :=
  ⟨fun scope hscope name value hname hvalue => h scope hscope name value hvalue hname, hjournal⟩

theorem Proper.isKey_of_find? (h : machine.Proper P) {name : String} (hname : IsKeyName name)
    {value : Value} (hvalue : machine.find? name = some value) : value.IsKey P :=
  h.holds.of_find? hvalue hname

theorem Alike.find? (h : Alike P first second) (name : String) : first.find? name = second.find? name := by
  simp only [Machine.find?, h.inner, h.outer]

theorem Proper.start (P : String → Prop) (program : Program) (space : Keyspace) :
    (Machine.start program space).Proper P := by
  apply Proper.of_holds (Holds.start _ program space)
  intro records hrecords record hrecord
  simp only [Machine.start] at hrecords
  split at hrecords <;> cases hrecords
  cases hrecord

theorem Proper.declare (h : machine.Proper P) {name : String} {value : Value}
    (hvalue : IsKeyName name → value.IsKey P) : (machine.declare name value).Proper P := by
  apply Proper.of_holds (h.holds.declare hvalue)
  unfold Machine.declare
  split <;> exact h.journal

theorem Proper.assign (h : machine.Proper P) {name : String} {value : Value}
    (hvalue : IsKeyName name → value.IsKey P) : (machine.assign name value).Proper P := by
  apply Proper.of_holds (h.holds.assign hvalue)
  unfold Machine.assign
  split <;> exact h.journal

theorem Proper.openScope (h : machine.Proper P) : machine.openScope.Proper P :=
  .of_holds h.holds.openScope h.journal

theorem Proper.closeScope (h : machine.Proper P) : machine.closeScope.Proper P :=
  .of_holds h.holds.closeScope h.journal

theorem Proper.perform (h : machine.Proper P) {command : Command} {args : List String}
    (hargs : ∀ key ∈ command.names args, P key) : (machine.perform command args).Proper P where
  scopes := by simpa using h.scopes
  journal := by
    intro records hrecords record hrecord
    cases hjournal : machine.journal with
    | none => simp [Machine.perform, Run.command, Machine.record, hjournal] at hrecords
    | some before =>
      by_cases hjournaled : command.isJournaled = true
      · simp only [Machine.perform, Run.command, Machine.record, hjournal, hjournaled, if_true,
          Option.some.injEq] at hrecords
        rw [← hrecords] at hrecord
        rcases List.mem_append.1 hrecord with hmem | hmem
        · obtain ⟨key, hkey, rfl⟩ := List.mem_map.1 (List.mem_reverse.1 hmem)
          exact hargs key (command.touched_subset_names args hkey)
        · exact h.journal before hjournal record hmem
      · have hsame : (machine.perform command args).journal = machine.journal := by
          simp [Machine.perform, Run.command, Machine.record, hjournal, hjournaled]
        exact h.journal records (hsame.symm.trans hrecords) record hrecord

theorem Proper.rollback (h : machine.Proper P) : machine.rollback.Proper P := by
  unfold Machine.rollback
  split
  · exact ⟨h.scopes, fun records hrecords => by cases hrecords⟩
  · exact h

theorem Proper.find?_rollback (h : machine.Proper P) {key : String} (hkey : ¬P key) :
    machine.rollback.space.find? key = machine.space.find? key := by
  unfold Machine.rollback
  split
  · rename_i records hrecords
    refine find?_replay (fun record hrecord hsame => ?_) machine.space
    rw [← hsame] at hkey
    exact hkey (h.journal records hrecords record hrecord)
  · rfl

theorem Alike.declare (h : Alike P first second) (name : String) (value : Value) :
    Alike P (first.declare name value) (second.declare name value) := by
  unfold Machine.declare
  rw [h.inner]
  cases second.inner with
  | nil => exact ⟨rfl, by rw [h.outer], h.journal, h.space⟩
  | cons scope rest => exact ⟨rfl, h.outer, h.journal, h.space⟩

theorem Alike.assign (h : Alike P first second) (name : String) (value : Value) :
    Alike P (first.assign name value) (second.assign name value) := by
  unfold Machine.assign
  rw [h.inner]
  cases assignIn? name value second.inner with
  | none => exact ⟨rfl, by rw [h.outer], h.journal, h.space⟩
  | some inner => exact ⟨rfl, h.outer, h.journal, h.space⟩

theorem Alike.openScope (h : Alike P first second) : Alike P first.openScope second.openScope :=
  ⟨congrArg (∅ :: ·) h.inner, h.outer, h.journal, h.space⟩

theorem Alike.closeScope (h : Alike P first second) : Alike P first.closeScope second.closeScope :=
  ⟨congrArg (List.drop 1) h.inner, h.outer, h.journal, h.space⟩

theorem Alike.perform (h : Alike P first second) {command : Command} {args : List String}
    (hargs : ∀ key ∈ command.names args, P key) :
    Alike P (first.perform command args) (second.perform command args) where
  inner := by simpa using h.inner
  outer := by simpa using h.outer
  journal := by
    have hheld : (touched command args).map (fun key => Record.mk key (first.space.find? key)) =
        (touched command args).map fun key => ⟨key, second.space.find? key⟩ :=
      List.map_congr_left fun key hkey => by
        rw [h.space key (hargs key (command.touched_subset_names args hkey))]
    simp only [Machine.perform, Run.command, Machine.record, h.journal, hheld]
    split
    · split <;> simp_all [h.journal]
    · exact h.journal
  space := by simpa using (h.space.execute hargs).2

theorem agree_replay {left right : Keyspace} (h : Keyspace.Agree P left right) (records : List Record) :
    Keyspace.Agree P (replay left records) (replay right records) := by
  induction records generalizing left right with
  | nil => exact h
  | cons record rest ih => exact ih (h.restore record.key record.entry)

theorem Alike.rollback (h : Alike P first second) : Alike P first.rollback second.rollback := by
  unfold Machine.rollback
  rw [h.journal]
  cases hjournal : second.journal with
  | none => exact h
  | some records => exact ⟨h.inner, h.outer, rfl, agree_replay h.space records⟩

end Machine

/-- How a computation goes on from a machine, next to how it goes on from one that is alike. -/
structure Run.Follows {α : Type} (P : String → Prop) (gives : α → Prop) (start : Machine)
    (first second : Except StoreError α × Machine) : Prop where
  proper : first.2.Proper P
  frame : ∀ key, ¬P key → first.2.space.find? key = start.space.find? key
  same : first.1 = second.1
  alike : Machine.Alike P first.2 second.2
  gives : ∀ value, first.1 = .ok value → gives value

/-- The computation leaves everything outside of `P` alone and does not depend on it; what it gives has
the property. -/
def Run.Within {α : Type} (P : String → Prop) (gives : α → Prop) (run : Run α) : Prop :=
  ∀ first second : Machine, first.Proper P → Machine.Alike P first second →
    Follows P gives first (run first) (run second)

namespace Run.Within

variable {P : String → Prop} {α β : Type} {gives : α → Prop} {run : Run α}

theorem mono (h : Within P gives run) {weaker : α → Prop} (hsub : ∀ value, gives value → weaker value) :
    Within P weaker run := fun first second hproper halike =>
  { h first second hproper halike with
    gives := fun value hvalue => hsub value ((h first second hproper halike).gives value hvalue) }

theorem lift {result : Except StoreError α} (hgives : ∀ value, result = .ok value → gives value) :
    Within P gives (Run.lift result) :=
  fun _ _ hproper halike => ⟨hproper, fun _ _ => rfl, rfl, halike, hgives⟩

theorem pure {value : α} (h : gives value) : Within P gives (Pure.pure value) :=
  lift fun found hfound => by
    cases hfound
    exact h

theorem bind (h : Within P gives run) {next : α → Run β} {later : β → Prop}
    (hnext : ∀ value, gives value → Within P later (next value)) : Within P later (run >>= next) := by
  intro first second hproper halike
  have hrun := h first second hproper halike
  cases hfirst : run first with
  | mk result between =>
    cases hsecond : run second with
    | mk other between' =>
      rw [hfirst, hsecond] at hrun
      obtain rfl : result = other := hrun.same
      cases result with
      | error e =>
        rw [bind_of_error hfirst, bind_of_error hsecond]
        refine ⟨hrun.proper, hrun.frame, rfl, hrun.alike, fun value hvalue => ?_⟩
        cases hvalue
      | ok value =>
        rw [bind_of_ok hfirst, bind_of_ok hsecond]
        have hrest := hnext value (hrun.gives value rfl) between between' hrun.proper hrun.alike
        exact { hrest with frame := fun key hkey => (hrest.frame key hkey).trans (hrun.frame key hkey) }

theorem lookup (name : String) :
    Within P (fun value => IsKeyName name → value.IsKey P) (Run.lookup name) := by
  intro first second hproper halike
  refine ⟨hproper, fun _ _ => rfl, by simp [Run.lookup, halike.find? name], halike, ?_⟩
  intro value hvalue hname
  cases hvalue
  cases hheld : first.find? name with
  | none => trivial
  | some found => exact hproper.isKey_of_find? hname hheld

theorem fail (fault : Fault) : Within P gives (Run.fail fault : Run α) :=
  lift fun value hvalue => by cases hvalue

theorem declare {name : String} {value : Value} (h : IsKeyName name → value.IsKey P) :
    Within P (fun _ => True) (Run.update (·.declare name value)) := by
  intro first second hproper halike
  refine ⟨hproper.declare h, fun key _ => ?_, rfl, halike.declare name value, fun _ _ => trivial⟩
  simp only [Run.update, Machine.declare]
  split <;> rfl

theorem assign {name : String} {value : Value} (h : IsKeyName name → value.IsKey P) :
    Within P (fun _ => True) (Run.update (·.assign name value)) := by
  intro first second hproper halike
  refine ⟨hproper.assign h, fun key _ => ?_, rfl, halike.assign name value, fun _ _ => trivial⟩
  simp only [Run.update, Machine.assign_space]

theorem rollback : Within P (fun _ => True) (Run.update Machine.rollback) := fun _ _ hproper halike =>
  ⟨hproper.rollback, fun _ hkey => hproper.find?_rollback hkey, rfl, halike.rollback, fun _ _ => trivial⟩

/-- A table is never a key, so the variable that holds one is none for keys. -/
theorem updateTable (name : String) (change : List Value → List (String × Value) → Value) :
    Within P (fun _ => True) (Run.updateTable name change) := by
  intro first second hproper halike
  have hsame := halike.find? name
  unfold Run.updateTable
  rw [← hsame]
  cases hheld : first.find? name with
  | none => exact ⟨hproper, fun _ _ => rfl, rfl, halike, fun _ _ => trivial⟩
  | some value =>
    cases value with
    | table items fields =>
      have hname : ¬IsKeyName name := fun hname => hproper.isKey_of_find? hname hheld
      exact ⟨hproper.assign fun h => absurd h hname, fun key _ => by simp only [Machine.assign_space], rfl,
        halike.assign _ _, fun _ _ => trivial⟩
    | _ => exact ⟨hproper, fun _ _ => rfl, rfl, halike, fun _ _ => trivial⟩

theorem inScope (h : Within P gives run) : Within P gives (Run.inScope run) := by
  intro first second hproper halike
  have hrun := h first.openScope second.openScope hproper.openScope halike.openScope
  exact { hrun with proper := hrun.proper.closeScope, alike := hrun.alike.closeScope }

theorem command {command : Command} {args : List String} (h : ∀ key ∈ command.names args, P key) :
    Within P (fun _ => True) (Run.command command args) := by
  intro first second hproper halike
  rw [command_apply, command_apply, ← (halike.space.execute h).1]
  refine ⟨hproper.perform h, fun key hkey => ?_, rfl, halike.perform h, fun _ _ => trivial⟩
  rw [Machine.perform_space]
  exact Keyspace.find?_execute _ fun hmem => hkey (h key (command.changes_subset_names args hmem))

end Run.Within

section Runs

variable {P : String → Prop}

theorem Value.IsKey.text {value : Value} (h : value.IsKey P) {use : Use} {text : String}
    (htext : value.text use = .ok text) : P text := by
  cases value with
  | str found =>
    cases htext
    exact h
  | nil => cases htext
  | _ => exact absurd h id

theorem Value.IsKey.argumentText {value : Value} (h : value.IsKey P) {text : String}
    (htext : argumentText value = .ok text) : P text := by
  cases value with
  | str found =>
    cases htext
    exact h
  | nil => cases htext
  | _ => exact absurd h id

theorem Expr.IsKey.head {e : Expr} {es : List Expr} (h : (Expr.concat (e :: es)).IsKey P) : e.IsKey P := by
  cases e <;> first
    | exact h
    | exact absurd h id

/-- Keys among the arguments of a command. -/
theorem names_of_arguments {command : Command} {args : List Expr} {texts : List String}
    (h : ∀ e ∈ command.names args, e.IsKey P)
    (htexts : List.Forall₂ (fun e text => Expr.IsKey P e → P text) args texts) :
    ∀ key ∈ command.names texts, P key := by
  intro key hkey
  obtain ⟨e, he, hgives⟩ := Command.exists_of_mem_names htexts hkey
  exact hgives (h e he)

namespace Expr

open Run.Within

mutual

theorem within_eval (hP : Rooted P) (params : List String) :
    ∀ e : Expr, e.Within P →
    Run.Within P (fun value => e.IsKey P → value.IsKey P) (e.eval params)
  | .nil, _ => .pure fun _ => trivial
  | .str _, _ => .pure id
  | .int _, _ | .param _, _ => .pure fun h => absurd h id
  | .var name, _ => lookup name
  | .field map name, _ => by
    unfold eval
    refine (lookup map).bind fun value _ => ?_
    cases value <;> first
      | exact .pure fun h => absurd h id
      | exact fail _
  | .index e place, h => by
    unfold eval
    exact (within_eval hP params e h).bind fun value _ => lift fun _ _ h => absurd h id
  | .concat es, h => by
    unfold eval
    exact (within_concatText hP params es h).bind fun text htext => .pure htext
  | .lower e, h => by
    unfold eval
    exact (within_eval hP params e h).bind fun value _ =>
      (lift fun _ _ => trivial).bind fun _ _ => .pure fun h => absurd h id
  | .escape e, h => by
    unfold eval
    exact (within_eval hP params e h).bind fun value _ =>
      (lift fun _ _ => trivial).bind fun _ _ => .pure fun h => absurd h id
  | .toMap e, h => by
    unfold eval
    exact (within_eval hP params e h).bind fun value _ => lift fun _ _ h => absurd h id
  | .sortIds e, h => by
    unfold eval
    exact (within_eval hP params e h).bind fun value _ => lift fun _ _ h => absurd h id
  | .call command args, h => by
    unfold eval
    exact (within_arguments hP params args h.2).bind fun texts htexts =>
      (Run.Within.command (names_of_arguments h.1 htexts)).mono fun _ _ h => absurd h id
  | .table items, h => by
    unfold eval
    exact (within_evalAll hP params items h).bind fun _ _ => .pure fun h => absurd h id
  | .len e, h => by
    unfold eval
    exact (within_eval hP params e h).bind fun value _ => lift fun _ _ h => absurd h id
  | .eq a b, h | .ne a b, h => by
    unfold eval
    exact (within_eval hP params a h.1).bind fun _ _ => (within_eval hP params b h.2).bind fun _ _ =>
      .pure fun h => absurd h id
  | .gt a b, h => by
    unfold eval
    exact (within_eval hP params a h.1).bind fun left _ => (within_eval hP params b h.2).bind fun right _ =>
      lift fun _ _ h => absurd h id
  | .and items, h => by
    rw [eval_and]
    exact (within_evalAnd hP params (.bool true) items h).mono fun _ _ h => absurd h id
  | .or items, h => by
    rw [eval_or]
    exact (within_evalOr hP params (.bool false) items h).mono fun _ _ h => absurd h id
  | .not e, h => by
    unfold eval
    exact (within_eval hP params e h).bind fun _ _ => .pure fun h => absurd h id

theorem within_evalAll (hP : Rooted P) (params : List String) :
    ∀ es : List Expr, WithinAll P es →
    Run.Within P (fun _ => True) (evalAll params es)
  | [], _ => .pure trivial
  | e :: es, h => by
    unfold evalAll
    exact (within_eval hP params e h.1).bind fun _ _ =>
      (within_evalAll hP params es h.2).bind fun _ _ => .pure trivial

theorem within_concatText (hP : Rooted P) (params : List String) :
    ∀ es : List Expr, WithinAll P es →
    Run.Within P (fun text => (Expr.concat es).IsKey P → P text) (concatText params es)
  | [], _ => .pure fun h => absurd h id
  | e :: es, h => by
    unfold concatText
    refine (within_eval hP params e h.1).bind fun value hvalue => ?_
    refine (lift fun text htext hkey => (hvalue hkey).text htext).bind fun text htext => ?_
    exact (within_concatText hP params es h.2).bind fun rest _ =>
      .pure fun hkey => hP text rest (htext hkey.head)

theorem within_arguments (hP : Rooted P) (params : List String) :
    ∀ es : List Expr, WithinAll P es →
    Run.Within P (List.Forall₂ (fun e text => Expr.IsKey P e → P text) es) (arguments params es)
  | [], _ => .pure .nil
  | e :: es, h => by
    unfold arguments
    refine (within_eval hP params e h.1).bind fun value hvalue => ?_
    refine (lift fun text htext hkey => (hvalue hkey).argumentText htext).bind fun text htext => ?_
    exact (within_arguments hP params es h.2).bind fun texts htexts => .pure (.cons htext htexts)

theorem within_evalAnd (hP : Rooted P) (params : List String) (last : Value) :
    ∀ es : List Expr, WithinAll P es →
    Run.Within P (fun _ => True) (evalAnd params last es)
  | [], _ => .pure trivial
  | e :: es, h => by
    unfold evalAnd
    refine (within_eval hP params e h.1).bind fun value _ => ?_
    split
    · exact within_evalAnd hP params value es h.2
    · exact .pure trivial

theorem within_evalOr (hP : Rooted P) (params : List String) (last : Value) :
    ∀ es : List Expr, WithinAll P es →
    Run.Within P (fun _ => True) (evalOr params last es)
  | [], _ => .pure trivial
  | e :: es, h => by
    unfold evalOr
    refine (within_eval hP params e h.1).bind fun value _ => ?_
    split
    · exact .pure trivial
    · exact within_evalOr hP params value es h.2

end

end Expr

namespace Stmt

open Run.Within

mutual

theorem within_run (hP : Rooted P) (params : List String) :
    ∀ statement : Stmt, statement.Within P →
    Run.Within P (fun _ => True) (statement.run params)
  | .declare name e, h => by
    unfold run
    exact (Expr.within_eval hP params e h.1).bind fun value hvalue =>
      (Run.Within.declare fun hname => hvalue (h.2 hname)).bind fun _ _ => .pure trivial
  | .assign name e, h => by
    unfold run
    exact (Expr.within_eval hP params e h.1).bind fun value hvalue =>
      (Run.Within.assign fun hname => hvalue (h.2 hname)).bind fun _ _ => .pure trivial
  | .setField map name e, h | .push map e, h => by
    unfold run
    exact (Expr.within_eval hP params e h).bind fun _ _ =>
      (updateTable map _).bind fun _ _ => .pure trivial
  | .call command args, h => by
    unfold run
    exact (Expr.within_arguments hP params args h.2).bind fun texts htexts =>
      (Run.Within.command (names_of_arguments h.1 htexts)).bind fun _ _ => .pure trivial
  | .branch condition yes no, h => by
    unfold run
    refine (Expr.within_eval hP params condition h.1).bind fun value _ => ?_
    split
    · exact inScope (within_runAll hP params yes h.2.1)
    · exact inScope (within_runAll hP params no h.2.2)
  | .finish e, h => by
    unfold run
    exact (Expr.within_eval hP params e h).bind fun _ _ => .pure trivial
  | .abort e, h => by
    unfold run
    exact (Expr.within_eval hP params e h).bind fun _ _ => rollback.bind fun _ _ => .pure trivial
  | .block body, h => by
    rw [run_block_eq]
    exact inScope (within_runAll hP params body h)

theorem within_runAll (hP : Rooted P) (params : List String) :
    ∀ statements : List Stmt, WithinAll P statements →
    Run.Within P (fun _ => True) (runAll params statements)
  | [], _ => .pure trivial
  | s :: ss, h => by
    unfold runAll
    refine (within_run hP params s h.1).bind fun flow _ => ?_
    match flow with
    | .next => exact within_runAll hP params ss h.2
    | .over _ => exact .pure trivial

end

end Stmt

namespace Program

variable {program : Program} (hP : Rooted P) (params : List String)

include hP

theorem follows_execution (h : program.Within P) {left right : Keyspace} (hagree : Keyspace.Agree P left right) :
    Run.Follows P (fun _ => True) (Machine.start program left) (program.execution params left)
      (program.execution params right) :=
  Stmt.within_runAll hP params program.body h _ _ (.start P program left) ⟨rfl, rfl, rfl, hagree⟩

/-- A script leaves keys outside of its own alone. -/
theorem find?_run (h : program.Within P) (space : Keyspace) {key : String} (hkey : ¬P key) :
    (program.run params space).2.find? key = space.find? key :=
  (follows_execution hP params h fun _ _ => rfl).frame key hkey

/-- A script does not depend on keys outside of its own. -/
theorem agree_run (h : program.Within P) {left right : Keyspace} (hagree : Keyspace.Agree P left right) :
    (program.run params left).1 = (program.run params right).1 ∧
      Keyspace.Agree P (program.run params left).2 (program.run params right).2 := by
  have hfollows := follows_execution hP params h hagree
  exact ⟨congrArg (Except.map Flow.reply) hfollows.same, hfollows.alike.space⟩

/-- Keyspaces that agree on more than the script's own keys agree on as much after it. -/
theorem agree_run_of_imp {Q : String → Prop} (h : program.Within P) (hPQ : ∀ key, P key → Q key)
    {left right : Keyspace} (hagree : Keyspace.Agree Q left right) :
    (program.run params left).1 = (program.run params right).1 ∧
      Keyspace.Agree Q (program.run params left).2 (program.run params right).2 := by
  have hrun := agree_run hP params h fun key hkey => hagree key (hPQ key hkey)
  refine ⟨hrun.1, fun key hkey => ?_⟩
  by_cases hown : P key
  · exact hrun.2 key hown
  · rw [find?_run hP params h left hown, find?_run hP params h right hown]
    exact hagree key hkey

end Program

end Runs

end DocStore.Script
