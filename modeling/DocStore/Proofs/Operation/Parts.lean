import DocStore.Proofs.Documents.IndexSpec
import DocStore.Proofs.Documents.Sound
import DocStore.Proofs.Operation.Check

/-!
The parts that operations are put together from.

Every part runs in the scope of its operation and either goes on, with one variable changed and some
commands carried out, or ends the script. Loops over indices are run here once: for the checks of unique
indices, and for any script that works on the keys of its own index only.
-/

namespace DocStore

theorem SortedMap.insert_insert {β : Type} (map : SortedMap β) (name : String) (first second : β) :
    (map.insert name first).insert name second = map.insert name second := by
  refine SortedMap.ext fun key => ?_
  simp only [SortedMap.find?_insert]
  split <;> rfl

namespace Operation

open DocStore.Script DocStore.Layout

/-- The parameters after the first `start` ones begin with these texts. -/
def ParamsAt (params : List String) (start : Nat) (texts : List String) : Prop :=
  ∀ i text, texts[i]? = some text → params[start + i]? = some text

theorem ParamsAt.head {params : List String} {start : Nat} {text : String} {texts : List String}
    (h : ParamsAt params start (text :: texts)) : params[start]? = some text :=
  h 0 text rfl

theorem ParamsAt.tail {params : List String} {start : Nat} {text : String} {texts : List String}
    (h : ParamsAt params start (text :: texts)) : ParamsAt params (start + 1) texts := by
  intro i found hfound
  have hnext := h (i + 1) found (by simpa using hfound)
  rw [Nat.add_assoc, Nat.add_comm 1 i]
  exact hnext

theorem ParamsAt.left {params : List String} {start : Nat} {first second : List String}
    (h : ParamsAt params start (first ++ second)) : ParamsAt params start first := by
  intro i text htext
  refine h i text ?_
  rw [List.getElem?_append_left (List.getElem?_eq_some_iff.1 htext).1]
  exact htext

theorem ParamsAt.right {params : List String} {start : Nat} {first second : List String}
    (h : ParamsAt params start (first ++ second)) :
    ParamsAt params (start + first.length) second := by
  intro i text htext
  have hlater := h (first.length + i) text (by
    rw [List.getElem?_append_right (Nat.le_add_right _ _), Nat.add_sub_cancel_left]
    exact htext)
  rwa [← Nat.add_assoc] at hlater

theorem paramsAt_append (before texts after : List String) :
    ParamsAt (before ++ texts ++ after) before.length texts := by
  intro i text h
  have hi : i < texts.length := by
    by_contra hnot
    rw [List.getElem?_eq_none (by omega)] at h
    cases h
  rw [List.append_assoc, List.getElem?_append_right (by omega), Nat.add_sub_cancel_left,
    List.getElem?_append_left hi]
  exact h

section Fields

variable {params : List String} {machine : Machine} {scope : Scope} {map : String} {row : Row}

theorem runAll_setFields {start : Nat} {encoded : List (String × String)}
    (hparams : ParamsAt params start (encoded.map Prod.snd)) (hmap : scope.find? map = some row.table)
    (rest : List Stmt) :
    Stmt.runAll params (setFields map (start + 1) encoded ++ rest) (machine.within scope) =
      Stmt.runAll params rest (machine.within (scope.insert map (Row.table (row.overlay encoded)))) := by
  induction encoded generalizing start scope row with
  | nil =>
    rw [SortedMap.overlay_nil, Index.insert_self hmap]
    rfl
  | cons entry more ih =>
    obtain ⟨name, text⟩ := entry
    have hfound : (machine.within scope).find? map = some row.table := by
      rw [Machine.find?_within, hmap]
      rfl
    have hset := Stmt.run_setField (Expr.Gives.param hparams.head) rfl
      hfound name
    rw [Row.table_insert, Machine.assign_within,
      if_pos (SortedMap.contains_iff.2 ⟨_, hmap⟩)] at hset
    have hmap' : (scope.insert map (Row.table (row.insert name text))).find? map =
        some (Row.table (row.insert name text)) := by
      rw [SortedMap.find?_insert, if_pos rfl]
    have hnext := ih hparams.tail hmap'
    rw [SortedMap.insert_insert] at hnext
    rw [setFields, List.cons_append, Stmt.runAll_of_next hset, hnext, SortedMap.overlay_cons]

theorem giveTexts_fieldArgs (hmap : machine.find? map = some row.table)
    {encoded : List (String × String)} (h : ∀ entry ∈ encoded, row.find? entry.1 = some entry.2) :
    Expr.GiveTexts params machine (fieldArgs map encoded)
      (encoded.flatMap fun entry => [entry.1, entry.2]) := by
  induction encoded with
  | nil => exact .nil
  | cons entry rest ih =>
    have hrest := ih fun other hother => h other (List.mem_cons_of_mem _ hother)
    exact .cons (.str entry.1) rfl
      (.cons (Index.gives_field hmap (h entry List.mem_cons_self)) rfl hrest)

theorem gives_recordKey {e : Expr} {value : Value} {id : Int} (he : e.Gives params machine value)
    (htext : value.text .concatenate = .ok (Decimal.ofInt id)) (ns collection : String) :
    (recordKeyExpr ns collection e).Gives params machine
      (.str (recordKey ns collection (Decimal.ofInt id))) := by
  have hjoined := Expr.GiveJoined.cons (Expr.Gives.str
    (recordStem ns collection)) rfl (Expr.GiveJoined.cons he htext Expr.GiveJoined.nil)
  rw [String.append_empty] at hjoined
  exact Expr.Gives.concat hjoined

theorem eval_answer {payload : List Expr} {values : List Value} {after : Machine}
    (h : Expr.evalAll params payload machine = (.ok values, after)) (method : Method) (code : String) :
    (answer method code payload).eval params machine =
      (.ok (.table (.str method.name :: .str code :: values) []), after) :=
  Expr.eval_table (Expr.evalAll_cons (Expr.Gives.str method.name)
    (Expr.evalAll_cons (Expr.Gives.str code) h))

end Fields

section Rejections

variable {params : List String} {machine : Machine}

/-- A missing record ends the script. -/
theorem run_rejectIfMissing {e : Expr} {key : String} (he : e.Gives params machine (.str key))
    (method : Method) :
    (rejectIfMissing method e).run params machine =
      if machine.space.contains key then (.ok .next, machine.perform .exists [key])
      else (.ok (.over (Verdict.notFound method).value), (machine.perform .exists [key]).rollback) := by
  have hreply := congrArg Prod.fst (Keyspace.execute_exists machine.space key)
  have hcall := Expr.eval_call (.cons he rfl .nil) hreply
  have hcondition := Expr.eval_eq hcall (Expr.Gives.int 0)
  have hsame : (Value.ofReply (.int (if machine.space.contains key then 1 else 0))).same (.int 0) =
      !machine.space.contains key := by
    cases machine.space.contains key <;> rfl
  rw [hsame] at hcondition
  unfold rejectIfMissing Stmt.when
  cases hcontains : machine.space.contains key with
  | true =>
    rw [hcontains] at hcondition
    exact Stmt.run_branch_of hcondition rfl
  | false =>
    rw [hcontains] at hcondition
    refine (@Stmt.run_branch_of _ _ _ ∅) hcondition ?_
    rw [← Machine.rollback_within]
    exact Stmt.runAll_of_over (Stmt.run_abort (eval_answer Expr.evalAll_nil method _))

/-- Conflicts end the script. -/
theorem run_rejectConflicts {names : List String}
    (h : machine.find? "conflicts" = some (.table (names.map .str) [])) (method : Method) :
    (rejectConflicts method).run params machine =
      if names = [] then (.ok .next, machine)
      else (.ok (.over (Verdict.notUnique method names).value), machine.rollback) := by
  have hvar : Expr.Gives params machine (.var "conflicts") (.table (names.map .str) []) := .var h
  have hlength : (Value.table (names.map .str) []).length = .ok (.int names.length) := by
    have htake : (names.map Value.str).takeWhile (!·.isNil) = names.map Value.str := by
      induction names with
      | nil => rfl
      | cons name rest ih => simp [Value.isNil]
    simp [Value.length, htake]
  have hcondition := Expr.eval_gt
    (Expr.eval_len hvar hlength) (Expr.Gives.int 0) rfl
  unfold rejectConflicts Stmt.when
  cases names with
  | nil => exact Stmt.run_branch_of hcondition rfl
  | cons name rest =>
    refine (@Stmt.run_branch_of _ _ _ ∅) hcondition ?_
    have hpayload : Expr.evalAll params [.var "conflicts"] (machine.within ∅) =
        (.ok [.table ((name :: rest).map .str) []], machine.within ∅) :=
      Expr.evalAll_cons (Expr.Gives.var ((Machine.find?_open _ _).trans h)) Expr.evalAll_nil
    rw [Expr.truthy_bool, if_pos (by simp), ← Machine.rollback_within]
    exact Stmt.runAll_of_over (Stmt.run_abort (eval_answer hpayload method _))

end Rejections

section Loops

variable {params : List String} {machine : Machine} {scope : Scope} {map : String} {row : Row}

theorem uniqueChecks_cons (ns collection map : String) (own : Option Expr) (entry : String × Index)
    (rest : List (String × Index)) :
    uniqueChecks ns collection map own (entry :: rest) =
      (if entry.2.unique then [entry.2.checkUnique entry.1 (indexKey ns collection entry.2) map own]
        else []) ++ uniqueChecks ns collection map own rest := by
  unfold uniqueChecks
  rw [List.filter_cons]
  split <;> simp

theorem conflicts_cons (docs : Documents) (entry : String × Index) (rest : List (String × Index))
    (row : Row) (own : Option Int) :
    docs.conflicts (entry :: rest) row own =
      (if docs.clashes row own entry then [entry.1] else []) ++ docs.conflicts rest row own := by
  rw [Documents.conflicts_eq, Documents.conflicts_eq, List.filter_cons]
  split <;> simp

/-- The checks of unique indices only read, and gather exactly the conflicts. -/
theorem runAll_uniqueChecks {docs : Documents} {ns collection : String} {own : Option Expr}
    {ownId : Option Int} {names : List String} {indices : List (String × Index)}
    (hbounded : docs.Bounded) (hown : ∀ other, Index.Owns params other own ownId)
    (hmap : scope.find? map = some row.table) (hlocal : map ∉ Index.locals) (hne : map ≠ "conflicts")
    (hfields : ∀ entry ∈ indices, ∀ field ∈ entry.2.fields, row.contains field.name = true)
    (hfiles : ∀ entry ∈ indices,
      Files machine.space (indexKey ns collection entry.2) (docs.Holds entry.2))
    (hone : ∀ entry ∈ indices, entry.2.unique = true → ∀ composite a b,
      docs.Holds entry.2 composite a → docs.Holds entry.2 composite b → a = b)
    (hconflicts : scope.find? "conflicts" = some (.table (names.map .str) [])) :
    ∃ commands, Confined (fun _ => False) commands ∧ ∀ rest,
      Stmt.runAll params (uniqueChecks ns collection map own indices ++ rest) (machine.within scope) =
        Stmt.runAll params rest ((machine.performAll commands).within (scope.insert "conflicts"
          (.table ((names ++ docs.conflicts indices row ownId).map .str) []))) := by
  induction indices generalizing machine scope names with
  | nil =>
    refine ⟨[], .nil, fun rest => ?_⟩
    have hnone : docs.conflicts [] row ownId = [] := rfl
    rw [hnone, List.append_nil, Index.insert_self hconflicts]
    rfl
  | cons entry more ih =>
    have hmore : ∀ {P : String × Index → Prop}, (∀ other ∈ entry :: more, P other) →
        ∀ other ∈ more, P other := fun h other hother => h other (List.mem_cons_of_mem _ hother)
    cases hunique : entry.2.unique with
    | false =>
      obtain ⟨commands, hconfined, hrun⟩ := ih hmap (hmore hfields) (hmore hfiles) (hmore hone) hconflicts
      refine ⟨commands, hconfined, fun rest => ?_⟩
      have hclash : docs.clashes row ownId entry = false := by simp [Documents.clashes, hunique]
      rw [uniqueChecks_cons, conflicts_cons, hunique, hclash]
      exact hrun rest
    | true =>
      have hfound : (machine.within scope).find? map = some row.table := by
        rw [Machine.find?_within, hmap]
        rfl
      have hclash : docs.clashes row ownId entry = true ↔ entry.2.complete row = true ∧
          ∃ id, docs.Holds entry.2 (entry.2.compositeOf row) id ∧ some id ≠ ownId := by
        rw [Documents.clashes_iff hbounded]
        simp [hunique]
      have hcheck := (@Index.run_checkUnique entry.2 _ _ _ _ _ _ _ entry.1) hfound hlocal
        (hfields entry List.mem_cons_self) hconflicts (hown _) (hfiles entry List.mem_cons_self)
        (hone entry List.mem_cons_self hunique _) hclash
      have hread : Confined (fun _ => False)
          [(.hget, [indexKey ns collection entry.2, entry.2.compositeOf row])] :=
        .cons (by decide) (by simp [Command.changes, Command.isWrite]) .nil
      have hspace : (machine.perform .hget
          [indexKey ns collection entry.2, entry.2.compositeOf row]).space = machine.space := by
        rw [Machine.perform_space]
        exact hread.executeAll_eq machine.space
      let named := scope.insert "conflicts" (.table ((names ++
        if docs.clashes row ownId entry then [entry.1] else []).map .str) [])
      have hmap' : named.find? map = some row.table := by
        rw [SortedMap.find?_insert, if_neg hne, hmap]
      obtain ⟨commands, hconfined, hrun⟩ := ih hmap' (hmore hfields)
        (fun other hother => hspace ▸ hmore hfiles other hother) (hmore hone)
        (by rw [SortedMap.find?_insert, if_pos rfl])
      refine ⟨(.hget, [indexKey ns collection entry.2, entry.2.compositeOf row]) :: commands,
        hread.append hconfined, fun rest => ?_⟩
      rw [uniqueChecks_cons, hunique, if_pos rfl, List.append_assoc, List.singleton_append,
        Stmt.runAll_of_next hcheck, hrun, SortedMap.insert_insert, conflicts_cons, List.append_assoc]
      rfl

/-- Scripts that work on the keys of their own index each, one after another. -/
theorem runAll_scripts {indices : List (String × Index)} {script : Index → Stmt} {key : Index → String}
    {H H' : Index → String → Int → Prop}
    (hscript : ∀ entry ∈ indices, ∀ other : Machine, (∀ name, other.find? name = machine.find? name) →
      Files other.space (key entry.2) (H entry.2) →
      ∃ commands, (script entry.2).run params other = (.ok .next, other.performAll commands) ∧
        Confined (IndexKey (key entry.2)) commands ∧
        Files (other.space.executeAll commands) (key entry.2) (H' entry.2))
    (hapart : indices.Pairwise fun a b => ∀ probe, IndexKey (key a.2) probe → ¬IndexKey (key b.2) probe)
    (hfiles : ∀ entry ∈ indices, Files machine.space (key entry.2) (H entry.2)) :
    ∃ commands, Confined (fun probe => ∃ entry ∈ indices, IndexKey (key entry.2) probe) commands ∧
      (∀ entry ∈ indices, Files (machine.space.executeAll commands) (key entry.2) (H' entry.2)) ∧
      ∀ rest, Stmt.runAll params (indices.map (fun entry => script entry.2) ++ rest) machine =
        Stmt.runAll params rest (machine.performAll commands) := by
  induction indices generalizing machine with
  | nil => exact ⟨[], .nil, fun entry hentry => absurd hentry List.not_mem_nil, fun rest => rfl⟩
  | cons entry more ih =>
    obtain ⟨hhead, hmore⟩ := List.pairwise_cons.1 hapart
    obtain ⟨first, hrun, hconfined, hfirst⟩ := hscript entry List.mem_cons_self machine
      (fun _ => rfl) (hfiles entry List.mem_cons_self)
    obtain ⟨others, hothers, hdone, hrest⟩ := ih
      (fun other hother probe hprobe => hscript other (List.mem_cons_of_mem _ hother) probe fun name =>
        (hprobe name).trans (Machine.find?_performAll machine first name)) hmore
      (fun other hother => by
        refine (hfiles other (List.mem_cons_of_mem _ hother)).of_find?_eq fun probe hprobe => ?_
        rw [Machine.performAll_space]
        exact hconfined.find?_executeAll _ fun hentry => hhead other hother probe hentry hprobe)
    rw [Machine.performAll_space] at hdone
    refine ⟨first ++ others, ?_, fun other hother => ?_, fun rest => ?_⟩
    · refine (hconfined.mono fun probe hprobe => ⟨entry, List.mem_cons_self, hprobe⟩).append
        (hothers.mono ?_)
      rintro probe ⟨other, hother, hprobe⟩
      exact ⟨other, List.mem_cons_of_mem _ hother, hprobe⟩
    · rw [Keyspace.executeAll_append]
      rcases List.mem_cons.1 hother with rfl | hother
      · refine hfirst.of_find?_eq fun probe hprobe => hothers.find?_executeAll _ ?_
        rintro ⟨other, hother, hkey⟩
        exact hhead other hother probe hprobe hkey
      · exact hdone other hother
    · rw [List.map_cons, List.cons_append, Stmt.runAll_of_next hrun, hrest, Machine.performAll_append]

end Loops

end Operation

end DocStore
