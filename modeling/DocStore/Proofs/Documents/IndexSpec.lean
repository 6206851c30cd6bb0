import DocStore.Proofs.Documents.Answers
import DocStore.Proofs.Documents.IndexScript

/-!
The index scripts, run on content that files known ids.

These are the lemmas that the operations go by: whatever else a machine holds, entering and removing
change what is filed by exactly one id, and looking for conflicts and searching only read.
-/

namespace DocStore.Index

open DocStore.Script DocStore.Layout

variable (index : Index) {params : List String} {machine : Machine} {map key : String} {row : Row}
  {H : String → Int → Prop}

/-- Entering an id of a record that is new to the index, and alone there if the index is unique. -/
theorem run_addEntry {e : Expr} {value : Value} {id : Int} (hmap : machine.find? map = some row.table)
    (hlocal : map ∉ locals) (hfields : ∀ field ∈ index.fields, row.contains field.name = true)
    (he : Steady params machine e value) (htext : argumentText value = .ok (Decimal.ofInt id))
    (hfiles : Files machine.space key H) (hnew : ¬H (index.compositeOf row) id)
    (halone : index.unique = true → index.complete row = true →
      ∀ other, ¬H (index.compositeOf row) other) :
    ∃ commands, (index.addEntry key map e).run params machine = (.ok .next, machine.performAll commands) ∧
      Confined (IndexKey key) commands ∧
      Files (machine.space.executeAll commands) key fun composite other =>
        H composite other ∨
          (index.enters row = true ∧ composite = index.compositeOf row ∧ other = id) := by
  obtain ⟨fields, hhash, hsets⟩ := hfiles
  obtain ⟨members, hset, hfiled⟩ := hsets (index.compositeOf row)
  cases hunique : index.unique with
  | true =>
    refine ⟨_, run_addEntry_unique index hunique hmap hlocal hfields he htext hhash,
      (confined_addUnique _ _ _ _).mono fun _ => indexKey_of_entryKey, ?_⟩
    cases hcomplete : index.complete row with
    | true =>
      have hadded := (@files_addUnique _ _ _ _ id) hhash hsets hset hfiled (halone hunique hcomplete)
      refine hadded.congr fun composite other => ?_
      simp [enters, hunique, hcomplete]
    | false =>
      refine Files.congr ⟨fields, hhash, hsets⟩ fun composite other => ?_
      simp [enters, hunique, hcomplete]
  | false =>
    refine ⟨_, run_addEntry_shared index hunique hmap hlocal hfields he htext hhash hset,
      (confined_addShared _ _ _ _ _).mono fun _ => indexKey_of_entryKey, ?_⟩
    have hadded := files_addShared hhash hsets hset hfiled hnew
    refine hadded.congr fun composite other => ?_
    simp [enters, hunique]

/-- Removing an id; a unique index must hold no more than one. -/
theorem run_removeEntry {e : Expr} {id : Int} (hmap : machine.find? map = some row.table)
    (hlocal : map ∉ locals) (hfields : ∀ field ∈ index.fields, row.contains field.name = true)
    (he : Steady params machine e (.str (Decimal.ofInt id))) (hfiles : Files machine.space key H)
    (hone : index.unique = true → ∀ a b, H (index.compositeOf row) a → H (index.compositeOf row) b → a = b) :
    ∃ commands, (index.removeEntry key map e).run params machine =
        (.ok .next, machine.performAll commands) ∧
      Confined (IndexKey key) commands ∧
      Files (machine.space.executeAll commands) key fun composite other =>
        H composite other ∧ ¬(composite = index.compositeOf row ∧ other = id) := by
  obtain ⟨fields, hhash, hsets⟩ := hfiles
  obtain ⟨members, hset, hfiled⟩ := hsets (index.compositeOf row)
  cases hunique : index.unique with
  | true =>
    exact ⟨_, run_removeEntry_unique index hunique hmap hlocal hfields he hhash,
      (confined_removeUnique _ _ _ _).mono fun _ => indexKey_of_entryKey,
      files_removeUnique hhash hsets hset hfiled (hone hunique)⟩
  | false =>
    exact ⟨_, run_removeEntry_shared index hunique hmap hlocal hfields he hhash hset,
      (confined_removeShared _ _ _ _ _).mono fun _ => indexKey_of_entryKey,
      files_removeShared hhash hsets hset hfiled⟩

/-- The expression of the id of the record being written, if it has one already. -/
def Owns (params : List String) (machine : Machine) : Option Expr → Option Int → Prop
  | none, none => True
  | some e, some id => Steady params machine e (.str (Decimal.ofInt id))
  | _, _ => False

theorem Owns.of_steady {other : Machine} {own : Option Expr} {id : Option Int} (h : Owns params machine own id)
    (hsteady : ∀ e value, Steady params machine e value → Steady params other e value) :
    Owns params other own id := by
  cases own with
  | none =>
    cases id with
    | none => trivial
    | some id => cases h
  | some e =>
    cases id with
    | none => cases h
    | some id => exact hsteady e _ h

/-- The condition that a holder is not the record being written itself. -/
def otherThan : Option Expr → List Expr
  | none => []
  | some id => [.ne (.var "holder") id]

/-- What a unique index holds under a composite value: nothing, or one id in the hash. -/
theorem found_of_filed {entry : Option String} {members : NameSet} {held : Int → Prop}
    (hfiled : Filed held entry members) (hone : ∀ a b, held a → held b → a = b) :
    (entry = none ∧ ∀ id, ¬held id) ∨
      ∃ id, entry = some (Decimal.ofInt id) ∧ ∀ other, held other ↔ other = id := by
  cases hfiled with
  | empty hnone => exact .inl ⟨rfl, hnone⟩
  | sole id hsole => exact .inr ⟨id, rfl, hsole⟩
  | many hne ha hb => exact absurd (hone _ _ ha hb) hne

/-- The conditions of the search for conflicts hold together exactly if another record is held. -/
theorem gives_clash {entry : Option String} {members : NameSet} {held : Int → Prop} {own : Option Expr}
    {ownId : Option Int}
    (hmap : machine.find? map = some row.table)
    (hfields : ∀ field ∈ index.fields, row.contains field.name = true)
    (hholder : machine.find? "holder" = some (foundValue entry)) (hown : Owns params machine own ownId)
    (hfiled : Filed held entry members) (hone : ∀ a b, held a → held b → a = b) :
    ∃ value, (every (index.nonNull map ++ [.var "holder"] ++ otherThan own)).Gives params machine value ∧
      (value.truthy = true ↔ index.complete row = true ∧ ∃ id, held id ∧ some id ≠ ownId) := by
  have hpresent := (@forall₂_nonNull params _ _ _ index) hmap hfields
  have hvar : Expr.Gives params machine (.var "holder") (foundValue entry) := .var hholder
  cases own with
  | none =>
    cases ownId with
    | some id => cases hown
    | none =>
      obtain ⟨value, hvalue, htruthy⟩ := gives_every
        (List.rel_append (List.rel_append hpresent (.cons hvar .nil)) .nil)
      refine ⟨value, hvalue, ?_⟩
      rw [htruthy, List.all_append, List.all_append, all_present]
      rcases found_of_filed hfiled hone with ⟨rfl, hnone⟩ | ⟨id, rfl, hsole⟩
      · simp [foundValue, hnone]
      · simp [foundValue, hsole]
  | some e =>
    cases ownId with
    | none => cases hown
    | some own =>
      have hne := Expr.eval_ne hvar hown.gives
      rw [same_foundValue] at hne
      obtain ⟨value, hvalue, htruthy⟩ := gives_every
        (List.rel_append (List.rel_append hpresent (.cons hvar .nil)) (.cons hne .nil))
      refine ⟨value, hvalue, ?_⟩
      rw [htruthy, List.all_append, List.all_append, all_present]
      rcases found_of_filed hfiled hone with ⟨rfl, hnone⟩ | ⟨id, rfl, hsole⟩
      · simp [foundValue, hnone]
      · have htext : Decimal.ofInt id = Decimal.ofInt own ↔ id = own :=
          ⟨Decimal.ofInt_injective, congrArg Decimal.ofInt⟩
        simp [foundValue, hsole, htext]

/-- A variable that is set to what it holds stays as it is. -/
theorem insert_self {scope : Scope} {name : String} {value : Value} (h : scope.find? name = some value) :
    scope.insert name value = scope := by
  refine SortedMap.ext fun key => ?_
  rw [SortedMap.find?_insert]
  split
  · rename_i heq
    rw [heq, h]
  · rfl

/-- The check of a unique index adds its name to the list of conflicts exactly if it holds another record
under the composite value of a complete one. -/
theorem run_checkUnique {scope : Scope} {name : String} {names : List String} {own : Option Expr}
    {ownId : Option Int} {clash : Bool} (hmap : (machine.within scope).find? map = some row.table)
    (hlocal : map ∉ locals) (hfields : ∀ field ∈ index.fields, row.contains field.name = true)
    (hconflicts : scope.find? "conflicts" = some (.table (names.map .str) []))
    (hown : Owns params (machine.within scope) own ownId) (hfiles : Files machine.space key H)
    (hone : ∀ a b, H (index.compositeOf row) a → H (index.compositeOf row) b → a = b)
    (hclash : clash = true ↔
      index.complete row = true ∧ ∃ id, H (index.compositeOf row) id ∧ some id ≠ ownId) :
    (index.checkUnique name key map own).run params (machine.within scope) = (.ok .next,
      (machine.perform .hget [key, index.compositeOf row]).within (scope.insert "conflicts"
        (.table ((names ++ if clash then [name] else []).map .str) []))) := by
  obtain ⟨fields, hhash, hsets⟩ := hfiles
  obtain ⟨members, hset, hfiled⟩ := hsets (index.compositeOf row)
  have hkeys := (@runAll_declareKeys index params _ _ key) hmap hlocal hfields
  generalize index.compositeOf row = composite at hset hfiled hkeys hone hclash ⊢
  generalize hentry : fields.find? composite = entry at hfiled
  unfold checkUnique
  refine (@Stmt.run_block _ _ _ (holderScope key composite (foundValue entry))) ?_
  rw [hkeys, (@runAll_declareHolder _ (machine.within scope)) hhash, hentry, Machine.perform_within]
  have hmap' : (((machine.perform .hget [key, composite]).within scope).within
      (holderScope key composite (foundValue entry))).find? map = some row.table := by
    rw [Machine.find?_within, find?_holderScope hlocal, Option.none_or, Machine.find?_within,
      Machine.find?_perform, ← Machine.find?_within]
    exact hmap
  have hown' : Owns params (((machine.perform .hget [key, composite]).within scope).within
      (holderScope key composite (foundValue entry))) own ownId := by
    refine Owns.of_steady hown fun e value he => ?_
    have hread := he.perform .hget [key, composite]
    rw [Machine.perform_within] at hread
    exact hread.within fun _ hname => find?_holderScope hname _ _ _
  obtain ⟨condition, hcondition, htruthy⟩ :=
    index.gives_clash hmap' hfields (find?_holder _ _ _ _) hown' hfiled hone
  refine Stmt.runAll_one ((@Stmt.run_branch_of _ _ _ ∅) hcondition ?_)
  rw [← hclash] at htruthy
  rw [Bool.eq_iff_iff.2 htruthy]
  cases clash with
  | false =>
    rw [if_neg (by simp), if_neg (by simp), List.append_nil, insert_self hconflicts]
    rfl
  | true =>
    have hlist : ((((machine.perform .hget [key, composite]).within scope).within
        (holderScope key composite (foundValue entry))).within ∅).find? "conflicts" =
        some (.table (names.map .str) []) := by
      rw [Machine.find?_open, Machine.find?_within, find?_holderScope (by decide), Option.none_or,
        Machine.find?_within, hconflicts]
      rfl
    have hpush := Stmt.run_push ((@Expr.Gives.str params) name) hlist
    have houter : scope.contains "conflicts" = true := SortedMap.contains_iff.2 ⟨_, hconflicts⟩
    have hinner : (holderScope key composite (foundValue entry)).contains "conflicts" = false := by
      rw [SortedMap.contains, find?_holderScope (by decide)]
      rfl
    rw [Machine.assign_within, if_neg (by decide), Machine.assign_within, if_neg (by simp [hinner]),
      Machine.assign_within, if_pos houter] at hpush
    rw [if_pos rfl, if_pos rfl, List.map_append]
    exact Stmt.runAll_one hpush

/-- With no holder in the hash, the set holds the texts of all of them. -/
theorem members_of_filed {members : NameSet} {held : Int → Prop} {ids : List Int}
    (hfiled : Filed held none members) (hids : ∀ id, id ∈ ids ↔ held id) :
    members = NameSet.ofList (ids.map Decimal.ofInt) := by
  refine NameSet.ext fun name => ?_
  rw [NameSet.contains_ofList]
  generalize hentry : (none : Option String) = entry at hfiled
  cases hfiled with
  | empty hnone => simp [SortedMap.contains, hids, hnone]
  | sole id hsole => cases hentry
  | many hne ha hb hmany => simp [hmany, hids, eq_comm]

/-- A search leaves the ids under the composite value in the variable. -/
theorem run_search {scope : Scope} {ids : List Int}
    (hmap : (machine.within scope).find? map = some row.table) (hlocal : map ∉ locals)
    (hfields : ∀ field ∈ index.fields, row.contains field.name = true)
    (hscope : scope.contains "ids" = true) (hfiles : Files machine.space key H)
    (hids : ∀ id, id ∈ ids ↔ H (index.compositeOf row) id) :
    ∃ commands, (Stmt.block (index.search key map)).run params (machine.within scope) = (.ok .next,
        (machine.performAll commands).within
          (scope.insert "ids" (.table ((foundTexts ids).map .str) []))) ∧
      Confined (fun _ => False) commands := by
  obtain ⟨fields, hhash, hsets⟩ := hfiles
  obtain ⟨members, hset, hfiled⟩ := hsets (index.compositeOf row)
  have hkeys := (@runAll_declareKeys index params _ _ key) hmap hlocal hfields
  generalize index.compositeOf row = composite at hset hfiled hkeys hids ⊢
  have hread : Confined (fun _ => False) [(.hget, [key, composite])] :=
    .cons (by decide) (by simp [Command.changes, Command.isWrite]) .nil
  have hinner : ∀ value, (holderScope key composite value).contains "ids" = false := by
    intro value
    rw [SortedMap.contains, find?_holderScope (by decide)]
    rfl
  unfold search
  cases hentry : fields.find? composite with
  | some text =>
    refine ⟨[(.hget, [key, composite])], ?_, hread⟩
    have hsole : foundTexts ids = [text] := by
      rw [hentry] at hfiled
      generalize hsome : some text = entry at hfiled
      cases hfiled with
      | sole id hsole =>
        rw [foundTexts_sole fun other => (hids other).trans (hsole other), Option.some.inj hsome]
      | empty => cases hsome
      | many => cases hsome
    refine (@Stmt.run_block _ _ _ (holderScope key composite (.str text))) ?_
    rw [hkeys, (@runAll_declareHolder _ (machine.within scope)) hhash, hentry,
      Machine.perform_within]
    have hholder := find?_holder ((machine.perform .hget [key, composite]).within scope) key composite
      (.str text)
    refine Stmt.runAll_one ((@Stmt.run_branch_of _ _ _ ∅) (Expr.Gives.var hholder) ?_)
    have hassign := Stmt.run_assign (Expr.eval_table ((@Expr.evalAll_cons params)
      (Expr.Gives.var ((Machine.find?_open _ _).trans hholder)) Expr.evalAll_nil)) "ids"
    rw [Machine.assign_within, if_neg (by decide), Machine.assign_within, if_neg (by simp [hinner]),
      Machine.assign_within, if_pos hscope] at hassign
    rw [hsole]
    exact Stmt.runAll_one hassign
  | none =>
    rw [hentry] at hfiled
    refine ⟨[(.hget, [key, composite]), (.smembers, [holdersKey key composite])], ?_,
      .cons (by decide) (by simp [Command.changes, Command.isWrite])
        (.cons (by decide) (by simp [Command.changes, Command.isWrite]) .nil)⟩
    refine (@Stmt.run_block _ _ _ (holderScope key composite (.bool false))) ?_
    rw [hkeys, (@runAll_declareHolder _ (machine.within scope)) hhash, hentry,
      Machine.perform_within]
    refine Stmt.runAll_one ((@Stmt.run_branch_of _ _ _ ∅)
      (Expr.Gives.var (find?_holder _ key composite (.bool false))) ?_)
    have hspace : (machine.perform .hget [key, composite]).space = machine.space := by
      rw [Machine.perform_space, Keyspace.execute_hget hhash]
    have hlist := Keyspace.execute_smembers (hspace ▸ hset)
    have hkeyed := (keyed_holderScope ((machine.perform .hget [key, composite]).within scope) key
      composite (.bool false)).open_
    have hcall := Expr.eval_call ((@giveTexts_holders params) hkeyed .nil)
      (congrArg Prod.fst hlist)
    rw [members_of_filed hfiled hids] at hcall
    have hassign := Stmt.run_assign (Expr.eval_sortIds hcall (sortIds_holders ids)) "ids"
    simp only [Machine.perform_within] at hassign
    rw [Machine.assign_within, if_neg (by decide), Machine.assign_within, if_neg (by simp [hinner]),
      Machine.assign_within, if_pos hscope] at hassign
    exact Stmt.runAll_one hassign

end DocStore.Index
