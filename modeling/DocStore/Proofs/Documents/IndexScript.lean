import DocStore.Proofs.Documents.Composite
import DocStore.Proofs.Documents.IndexCommands

/-!
The scripts that enter an id in an index, remove it, look for conflicts and search.

Every script works in a scope of its own, so whatever a caller's variables hold stays as it is, and it
carries out commands that only depend on the content (`IndexCommands`).
-/

namespace DocStore.Index

open DocStore.Script DocStore.Layout

/-- The names that the scripts declare for themselves. -/
def locals : List String := ["ikey", "comp", "holder", "last"]

/-- The machines have the same variables, but for the names that the scripts declare. -/
def Agrees (other machine : Machine) : Prop :=
  ∀ name, name ∉ locals → other.find? name = machine.find? name

theorem Agrees.refl (machine : Machine) : Agrees machine machine := fun _ _ => rfl

/-- The expression has this value, whatever the scripts declare for themselves. -/
def Steady (params : List String) (machine : Machine) (e : Expr) (value : Value) : Prop :=
  ∀ other, Agrees other machine → e.Gives params other value

theorem Steady.var {params : List String} {machine : Machine} {name : String} {value : Value}
    (hname : name ∉ locals) (h : machine.find? name = some value) :
    Steady params machine (.var name) value :=
  fun _ hother => Expr.Gives.var ((hother name hname).trans h)

theorem Steady.param {params : List String} (machine : Machine) {number : Nat} {text : String}
    (h : params[number]? = some text) : Steady params machine (.param (number + 1)) (.str text) :=
  fun _ _ => Expr.Gives.param h

namespace Steady

variable {params : List String} {machine : Machine} {e : Expr} {value : Value}

theorem gives (h : Steady params machine e value) : e.Gives params machine value :=
  h machine (Agrees.refl machine)

theorem perform (h : Steady params machine e value) (command : Command) (args : List String) :
    Steady params (machine.perform command args) e value :=
  fun other hother => h other fun name hname =>
    (hother name hname).trans (Machine.find?_perform machine command args name)

theorem within (h : Steady params machine e value) {scope : Scope}
    (hscope : ∀ name, name ∉ locals → scope.find? name = none) :
    Steady params (machine.within scope) e value :=
  fun other hother => h other fun name hname => by
    rw [hother name hname, Machine.find?_within, hscope name hname, Option.none_or]

theorem open_ (h : Steady params machine e value) : Steady params (machine.within ∅) e value :=
  h.within fun name _ => SortedMap.find?_empty name

end Steady

/-- The scope with the key and the composite value. -/
def keysScope (key composite : String) : Scope :=
  ((∅ : Scope).insert "ikey" (.str key)).insert "comp" (.str composite)

/-- The scope with also what the hash holds. -/
def holderScope (key composite : String) (holder : Value) : Scope :=
  (keysScope key composite).insert "holder" holder

theorem find?_keysScope {name : String} (h : name ∉ locals) (key composite : String) :
    (keysScope key composite).find? name = none := by
  simp only [locals, List.mem_cons, List.not_mem_nil, or_false, not_or] at h
  simp [keysScope, SortedMap.find?_insert, h]

theorem find?_holderScope {name : String} (h : name ∉ locals) (key composite : String) (holder : Value) :
    (holderScope key composite holder).find? name = none := by
  have hne : name ≠ "holder" := by
    rintro rfl
    exact h (by decide)
  rw [holderScope, SortedMap.find?_insert, if_neg hne, find?_keysScope h]

/-- The variables of a machine say which index and which composite value it is about. -/
def Keyed (machine : Machine) (key composite : String) : Prop :=
  machine.find? "ikey" = some (.str key) ∧ machine.find? "comp" = some (.str composite)

section Keyed

variable {params : List String} {machine : Machine} {key composite : String}

theorem keyed_keysScope (machine : Machine) (key composite : String) :
    Keyed (machine.within (keysScope key composite)) key composite := by
  constructor <;> simp [Machine.find?_within, keysScope, SortedMap.find?_insert]

theorem keyed_holderScope (machine : Machine) (key composite : String) (holder : Value) :
    Keyed (machine.within (holderScope key composite holder)) key composite := by
  constructor <;> simp [Machine.find?_within, holderScope, keysScope, SortedMap.find?_insert]

theorem find?_holder (machine : Machine) (key composite : String) (holder : Value) :
    (machine.within (holderScope key composite holder)).find? "holder" = some holder := by
  simp [Machine.find?_within, holderScope, SortedMap.find?_insert]

theorem Keyed.perform (h : Keyed machine key composite) (command : Command) (args : List String) :
    Keyed (machine.perform command args) key composite :=
  ⟨(Machine.find?_perform _ _ _ _).trans h.1, (Machine.find?_perform _ _ _ _).trans h.2⟩

theorem Keyed.within (h : Keyed machine key composite) {scope : Scope}
    (hikey : scope.find? "ikey" = none) (hcomp : scope.find? "comp" = none) :
    Keyed (machine.within scope) key composite := by
  constructor
  · rw [Machine.find?_within, hikey, Option.none_or, h.1]
  · rw [Machine.find?_within, hcomp, Option.none_or, h.2]

theorem Keyed.open_ (h : Keyed machine key composite) : Keyed (machine.within ∅) key composite :=
  h.within (SortedMap.find?_empty _) (SortedMap.find?_empty _)

theorem giveTexts_keys (h : Keyed machine key composite) :
    Expr.GiveTexts params machine [.var "ikey", .var "comp"] [key, composite] :=
  .cons (.var h.1) rfl (.cons (.var h.2) rfl .nil)

theorem giveTexts_enter (h : Keyed machine key composite) {e : Expr} {value : Value} {text : String}
    (he : e.Gives params machine value) (htext : argumentText value = .ok text) :
    Expr.GiveTexts params machine [.var "ikey", .var "comp", e] [key, composite, text] :=
  .cons (.var h.1) rfl (.cons (.var h.2) rfl (.cons he htext .nil))

theorem gives_holders (h : Keyed machine key composite) :
    Expr.Gives params machine holders (.str (holdersKey key composite)) := by
  have hjoined := (@Expr.GiveJoined.cons params) (Expr.Gives.var h.1) rfl
    (Expr.GiveJoined.cons (Expr.Gives.str holdersMark) rfl
      (Expr.GiveJoined.cons (Expr.Gives.var h.2) rfl Expr.GiveJoined.nil))
  rw [String.append_empty, ← String.append_assoc] at hjoined
  exact Expr.Gives.concat hjoined

theorem giveTexts_holders (h : Keyed machine key composite) {es : List Expr} {texts : List String}
    (hrest : Expr.GiveTexts params machine es texts) :
    Expr.GiveTexts params machine (holders :: es) (holdersKey key composite :: texts) :=
  .cons (gives_holders h) rfl hrest

theorem eval_holder {fields : SortedMap String} (h : Keyed machine key composite)
    (hhash : machine.space.find? key = (Entry.hash fields).kept) :
    holder.eval params machine =
      (.ok (foundValue (fields.find? composite)), machine.perform .hget [key, composite]) := by
  have hreply := congrArg Prod.fst (Keyspace.execute_hget hhash composite)
  have hcall := Expr.eval_call ((@giveTexts_keys params) h) hreply
  unfold holder
  rw [hcall]
  cases fields.find? composite <;> rfl

end Keyed

section Scripts

variable (index : Index) {params : List String} {machine : Machine} {map key : String} {row : Row}

theorem runAll_declareKeys (hmap : machine.find? map = some row.table) (hlocal : map ∉ locals)
    (hfields : ∀ field ∈ index.fields, row.contains field.name = true) (rest : List Stmt) :
    Stmt.runAll params (index.declareKeys key map ++ rest) (machine.within ∅) =
      Stmt.runAll params rest (machine.within (keysScope key (index.compositeOf row))) := by
  have hne : map ≠ "ikey" := by
    rintro rfl
    exact hlocal (by decide)
  have hmap' : (machine.within ((∅ : Scope).insert "ikey" (.str key))).find? map = some row.table := by
    rw [Machine.find?_within, SortedMap.find?_insert, if_neg hne]
    exact hmap
  have hcomposite := (@gives_composite params _ _ _ index) hmap' hfields
  simp only [declareKeys, List.cons_append, List.nil_append]
  rw [Stmt.runAll_of_next (Stmt.run_declare (Expr.Gives.str key) "ikey"), Machine.declare_within,
    Stmt.runAll_of_next (Stmt.run_declare hcomposite "comp"), Machine.declare_within]
  rfl

theorem runAll_declareHolder {composite : String} {fields : SortedMap String}
    (hhash : machine.space.find? key = (Entry.hash fields).kept) (rest : List Stmt) :
    Stmt.runAll params (.declare "holder" holder :: rest) (machine.within (keysScope key composite)) =
      Stmt.runAll params rest ((machine.perform .hget [key, composite]).within
        (holderScope key composite (foundValue (fields.find? composite)))) := by
  have heval := (@eval_holder params) (keyed_keysScope machine key composite) hhash
  rw [Stmt.runAll_of_next (Stmt.run_declare heval "holder"), Machine.perform_within,
    Machine.declare_within]
  rfl

variable {id : Expr} {value : Value} {text : String} {fields : SortedMap String}

theorem run_addEntry_unique (hunique : index.unique = true) (hmap : machine.find? map = some row.table)
    (hlocal : map ∉ locals) (hfields : ∀ field ∈ index.fields, row.contains field.name = true)
    (hid : Steady params machine id value) (htext : argumentText value = .ok text)
    (hhash : machine.space.find? key = (Entry.hash fields).kept) :
    (index.addEntry key map id).run params machine = (.ok .next,
      machine.performAll (addUnique key (index.compositeOf row) text (index.complete row))) := by
  unfold addEntry
  rw [if_pos hunique]
  refine (@Stmt.run_block _ _ _ (keysScope key (index.compositeOf row))) ?_
  rw [runAll_declareKeys index hmap hlocal hfields]
  have hmap' : (machine.within (keysScope key (index.compositeOf row))).find? map = some row.table := by
    rw [Machine.find?_within, find?_keysScope hlocal]
    exact hmap
  obtain ⟨condition, hcondition, htruthy⟩ :=
    gives_every (index.forall₂_nonNull hmap' hfields)
  rw [all_present] at htruthy
  refine Stmt.runAll_one ((@Stmt.run_branch_of _ _ _ ∅) hcondition ?_)
  rw [htruthy]
  cases index.complete row with
  | false => rfl
  | true =>
    have hkeyed := (keyed_keysScope machine key (index.compositeOf row)).open_
    have hown := (hid.within fun _ hname => find?_keysScope hname key (index.compositeOf row)).open_
    obtain ⟨reply, hreply⟩ := Keyspace.execute_hset_one hhash (index.compositeOf row) text
    have hrun := Stmt.runAll_one (Stmt.run_call (giveTexts_enter hkeyed hown.gives htext)
      (congrArg Prod.fst hreply))
    simp only [Machine.perform_within] at hrun
    exact hrun

/-- With one holder so far, both move to the set. -/
theorem runAll_enterSecond {composite first : String} {members : NameSet}
    (hkeyed : Keyed machine key composite) (hfirst : machine.find? "holder" = some (.str first))
    (hid : Steady params machine id value) (htext : argumentText value = .ok text)
    (hhash : machine.space.find? key = (Entry.hash fields).kept)
    (hset : machine.space.find? (holdersKey key composite) = (Entry.set members).kept) :
    Stmt.runAll params
      [.call .hdel [.var "ikey", .var "comp"], .call .sadd [holders, .var "holder", id]] machine =
      (.ok .next, machine.performAll
        [(.hdel, [key, composite]), (.sadd, [holdersKey key composite, first, text])]) := by
  obtain ⟨dropped, hdrop⟩ := Keyspace.execute_hdel hhash composite
  have hset' : (machine.perform .hdel [key, composite]).space.find? (holdersKey key composite) =
      (Entry.set members).kept := by
    rw [Machine.perform_space, hdrop, Keyspace.find?_put_kept, if_neg (holdersKey_ne key composite)]
    exact hset
  obtain ⟨added, hadd⟩ := Keyspace.execute_sadd hset' first [text]
  have hholder : Expr.Gives params (machine.perform .hdel [key, composite]) (.var "holder")
      (.str first) := .var ((Machine.find?_perform _ _ _ _).trans hfirst)
  have hargs := giveTexts_holders (hkeyed.perform .hdel [key, composite])
    (.cons hholder rfl (.cons (hid.perform .hdel [key, composite]).gives htext .nil))
  rw [Stmt.runAll_of_next (Stmt.run_call (giveTexts_keys hkeyed) (congrArg Prod.fst hdrop))]
  exact Stmt.runAll_one (Stmt.run_call hargs (congrArg Prod.fst hadd))

/-- With no holder in the hash, the id joins those in the set, or is the first. -/
theorem run_enterOther {composite : String} {members : NameSet} (hkeyed : Keyed machine key composite)
    (hid : Steady params machine id value) (htext : argumentText value = .ok text)
    (hhash : machine.space.find? key = (Entry.hash fields).kept)
    (hset : machine.space.find? (holdersKey key composite) = (Entry.set members).kept) :
    (Stmt.branch (.gt (.call .scard [holders]) (.int 0)) [.call .sadd [holders, id]]
      [.call .hset [.var "ikey", .var "comp", id]]).run params machine =
      (.ok .next, machine.performAll ((.scard, [holdersKey key composite]) ::
        if 0 < members.size then [(.sadd, [holdersKey key composite, text])]
        else [(.hset, [key, composite, text])])) := by
  have hcard := Keyspace.execute_scard hset
  have hcount := Expr.eval_call ((@giveTexts_holders params) hkeyed .nil)
    (congrArg Prod.fst hcard)
  have hspace : ((machine.perform .scard [holdersKey key composite]).within ∅).space = machine.space := by
    rw [Machine.within_space, Machine.perform_space, hcard]
  have hcondition := Expr.eval_gt hcount
    (Expr.Gives.int 0) rfl
  have hown := (hid.perform .scard [holdersKey key composite]).open_.gives
  have hkeyed' := (hkeyed.perform .scard [holdersKey key composite]).open_
  refine (@Stmt.run_branch_of _ _ _ ∅) hcondition ?_
  rw [Expr.truthy_bool]
  by_cases hsize : 0 < members.size
  · obtain ⟨added, hadd⟩ := Keyspace.execute_sadd (hspace ▸ hset) text []
    have hrun := Stmt.run_call (giveTexts_holders hkeyed' (.cons hown htext .nil))
      (congrArg Prod.fst hadd)
    rw [Machine.perform_within] at hrun
    rw [if_pos hsize, if_pos (by simpa using hsize)]
    exact Stmt.runAll_one hrun
  · obtain ⟨added, hadd⟩ := Keyspace.execute_hset_one (hspace ▸ hhash) composite text
    have hrun := Stmt.run_call (giveTexts_enter hkeyed' hown htext) (congrArg Prod.fst hadd)
    rw [Machine.perform_within] at hrun
    rw [if_neg hsize, if_neg (by simpa using hsize)]
    exact Stmt.runAll_one hrun

theorem run_addEntry_shared {members : NameSet} (hshared : index.unique = false)
    (hmap : machine.find? map = some row.table) (hlocal : map ∉ locals)
    (hfields : ∀ field ∈ index.fields, row.contains field.name = true)
    (hid : Steady params machine id value) (htext : argumentText value = .ok text)
    (hhash : machine.space.find? key = (Entry.hash fields).kept)
    (hset : machine.space.find? (holdersKey key (index.compositeOf row)) = (Entry.set members).kept) :
    (index.addEntry key map id).run params machine = (.ok .next,
      machine.performAll (addShared key (index.compositeOf row) text
        (fields.find? (index.compositeOf row)) members)) := by
  have hkeys := (@runAll_declareKeys index params _ _ key) hmap hlocal hfields
  generalize index.compositeOf row = composite at hset hkeys ⊢
  unfold addEntry
  rw [if_neg (by simp [hshared])]
  refine (@Stmt.run_block _ _ _ (holderScope key composite (foundValue (fields.find? composite)))) ?_
  rw [hkeys, runAll_declareHolder hhash]
  have hspace : (machine.perform .hget [key, composite]).space = machine.space := by
    rw [Machine.perform_space, Keyspace.execute_hget hhash]
  refine Stmt.runAll_one ((@Stmt.run_branch_of _ _ _ ∅)
    (Expr.Gives.var (find?_holder _ _ _ _)) ?_)
  have hkeyed := (keyed_holderScope (machine.perform .hget [key, composite]) key composite
    (foundValue (fields.find? composite))).open_
  have hown := ((hid.perform .hget [key, composite]).within fun _ hname => find?_holderScope hname key
    composite (foundValue (fields.find? composite))).open_
  unfold addShared
  cases hentry : fields.find? composite with
  | some first =>
    rw [hentry] at hkeyed hown
    have hfirst := (Machine.find?_open _ _).trans
      (find?_holder (machine.perform .hget [key, composite]) key composite (.str first))
    have hrun := runAll_enterSecond hkeyed hfirst hown htext (hspace ▸ hhash) (hspace ▸ hset)
    simp only [Machine.performAll_within] at hrun
    exact hrun
  | none =>
    rw [hentry] at hkeyed hown
    have hrun := run_enterOther hkeyed hown htext (hspace ▸ hhash) (hspace ▸ hset)
    simp only [Machine.performAll_within] at hrun
    exact Stmt.runAll_one hrun

theorem runAll_drop {composite : String} (hkeyed : Keyed machine key composite)
    (hhash : machine.space.find? key = (Entry.hash fields).kept) :
    Stmt.runAll params [.call .hdel [.var "ikey", .var "comp"]] machine =
      (.ok .next, machine.performAll [(.hdel, [key, composite])]) := by
  obtain ⟨dropped, hdrop⟩ := Keyspace.execute_hdel hhash composite
  exact Stmt.runAll_one (Stmt.run_call (giveTexts_keys hkeyed) (congrArg Prod.fst hdrop))

theorem run_removeEntry_unique (hunique : index.unique = true)
    (hmap : machine.find? map = some row.table) (hlocal : map ∉ locals)
    (hfields : ∀ field ∈ index.fields, row.contains field.name = true)
    (hid : Steady params machine id (.str text))
    (hhash : machine.space.find? key = (Entry.hash fields).kept) :
    (index.removeEntry key map id).run params machine = (.ok .next,
      machine.performAll (removeUnique key (index.compositeOf row) text
        (fields.find? (index.compositeOf row)))) := by
  have hkeys := (@runAll_declareKeys index params _ _ key) hmap hlocal hfields
  generalize index.compositeOf row = composite at hkeys ⊢
  unfold removeEntry
  rw [if_pos hunique]
  refine (@Stmt.run_block _ _ _ (keysScope key composite)) ?_
  rw [hkeys]
  have hkeyed := keyed_keysScope machine key composite
  have hown := hid.within fun _ hname => find?_keysScope hname key composite
  have hcondition := Expr.eval_eq (eval_holder hkeyed hhash)
    (hown.perform .hget [key, composite]).gives
  rw [Machine.perform_within, same_foundValue] at hcondition
  refine Stmt.runAll_one ((@Stmt.run_branch_of _ _ _ ∅) hcondition ?_)
  rw [Expr.truthy_bool]
  unfold removeUnique
  by_cases hheld : fields.find? composite = some text
  · have hrun := (@runAll_drop params) (hkeyed.perform .hget [key, composite]).open_ (by
      rw [Machine.within_space, Machine.perform_space, Machine.within_space,
        Keyspace.execute_hget hhash]
      exact hhash)
    rw [Machine.perform_within, Machine.performAll_within, Machine.performAll_within] at hrun
    rw [if_pos hheld, if_pos (by simpa using hheld)]
    exact hrun
  · rw [if_neg hheld, if_neg (by simpa using hheld)]
    rfl

/-- What a script has in variables after it has listed the members of a set and found one. -/
def lastScope : List String → Scope
  | [last] => (∅ : Scope).insert "last" (.str last)
  | _ => ∅

/-- A holder left alone in the set moves back to the hash. -/
theorem run_moveBack {composite : String} {members : NameSet} (hkeyed : Keyed machine key composite)
    (hhash : machine.space.find? key = (Entry.hash fields).kept)
    (hset : machine.space.find? (holdersKey key composite) = (Entry.set members).kept) :
    (Stmt.when (.eq (.call .scard [holders]) (.int 1))
      [.declare "last" (.index (.call .smembers [holders]) 1), .call .del [holders],
        .call .hset [.var "ikey", .var "comp", .var "last"]]).run params machine =
      (.ok .next, machine.performAll ((.scard, [holdersKey key composite]) ::
        match members.keys with
        | [last] =>
          [(.smembers, [holdersKey key composite]), (.del, [holdersKey key composite]),
            (.hset, [key, composite, last])]
        | _ => [])) := by
  have hcard := Keyspace.execute_scard hset
  have hcount := Expr.eval_call ((@giveTexts_holders params) hkeyed .nil)
    (congrArg Prod.fst hcard)
  have hcondition := Expr.eval_eq hcount (Expr.Gives.int 1)
  have hone : (Value.ofReply (.int members.size)).same (.int 1) = decide (members.keys.length = 1) := by
    rw [← SortedMap.size_eq_length_keys]
    simp only [Value.ofReply, Value.same, decide_eq_decide]
    omega
  rw [hone] at hcondition
  have hspace : (machine.perform .scard [holdersKey key composite]).space = machine.space := by
    rw [Machine.perform_space, hcard]
  refine (@Stmt.run_branch_of _ _ _ (lastScope members.keys)) hcondition ?_
  rw [Expr.truthy_bool, Machine.performAll_cons]
  rw [← hspace] at hhash hset
  have hkeyed' := hkeyed.perform .scard [holdersKey key composite]
  generalize machine.perform .scard [holdersKey key composite] = counted at hkeyed' hhash hset ⊢
  rcases hkeys : members.keys with _ | ⟨last, _ | ⟨second, more⟩⟩
  · rfl
  · -- listing the set, removing it and writing the hash, with the holder in a variable between
    have hlist := Keyspace.execute_smembers hset
    have hlisted := Expr.eval_call ((@giveTexts_holders params) hkeyed'.open_ .nil)
      (congrArg Prod.fst hlist)
    have hlast := (@Expr.eval_index _ _ _ _ _ _ 1) hlisted (by rw [hkeys]; rfl)
    rw [Machine.perform_within] at hlast
    have hdeclare := Stmt.run_declare hlast "last"
    rw [Machine.declare_within] at hdeclare
    have hspace' : (counted.perform .smembers [holdersKey key composite]).space = counted.space := by
      rw [Machine.perform_space, hlist]
    have hkeyed'' := (@Keyed.within _ _ _
      (hkeyed'.perform .smembers [holdersKey key composite])
      ((∅ : Scope).insert "last" (.str last))) (by simp [SortedMap.find?_insert])
      (by simp [SortedMap.find?_insert])
    obtain ⟨removed, hremove⟩ := Keyspace.execute_del
      (counted.perform .smembers [holdersKey key composite]).space (holdersKey key composite)
    have hdel := Stmt.run_call ((@giveTexts_holders params) hkeyed'' .nil)
      (congrArg Prod.fst hremove)
    rw [Machine.perform_within] at hdel
    have hhash' : ((counted.perform .smembers [holdersKey key composite]).perform .del
        [holdersKey key composite]).space.find? key = (Entry.hash fields).kept := by
      rw [Machine.perform_space, hremove, Keyspace.find?_restore,
        if_neg (holdersKey_ne key composite).symm, hspace']
      exact hhash
    obtain ⟨entered, henter⟩ := Keyspace.execute_hset_one hhash' composite last
    have hvar : Expr.Gives params (((counted.perform .smembers [holdersKey key composite]).perform .del
        [holdersKey key composite]).within ((∅ : Scope).insert "last" (.str last))) (.var "last")
        (.str last) := .var (by simp [Machine.find?_within, SortedMap.find?_insert])
    have hkeyed3 := hkeyed''.perform .del [holdersKey key composite]
    rw [Machine.perform_within] at hkeyed3
    have hset := Stmt.run_call (giveTexts_enter hkeyed3 hvar rfl) (congrArg Prod.fst henter)
    rw [Machine.perform_within] at hset
    exact (Stmt.runAll_of_next hdeclare).trans ((Stmt.runAll_of_next hdel).trans (Stmt.runAll_one hset))
  · rfl

/-- With no entry for the id in the hash it is dropped from the set. -/
theorem runAll_dropShared {composite : String} {members : NameSet} (hkeyed : Keyed machine key composite)
    (hid : Steady params machine id (.str text))
    (hhash : machine.space.find? key = (Entry.hash fields).kept)
    (hset : machine.space.find? (holdersKey key composite) = (Entry.set members).kept) :
    Stmt.runAll params [.call .srem [holders, id],
      .when (.eq (.call .scard [holders]) (.int 1))
        [.declare "last" (.index (.call .smembers [holders]) 1), .call .del [holders],
          .call .hset [.var "ikey", .var "comp", .var "last"]]] machine =
      (.ok .next, machine.performAll ((.srem, [holdersKey key composite, text]) ::
        (.scard, [holdersKey key composite]) ::
        match (members.erase text).keys with
        | [last] =>
          [(.smembers, [holdersKey key composite]), (.del, [holdersKey key composite]),
            (.hset, [key, composite, last])]
        | _ => [])) := by
  obtain ⟨dropped, hdrop⟩ := Keyspace.execute_srem hset text
  have hset' : (machine.perform .srem [holdersKey key composite, text]).space.find?
      (holdersKey key composite) = (Entry.set (members.erase text)).kept := by
    rw [Machine.perform_space, hdrop, Keyspace.find?_put_kept, if_pos rfl]
  have hhash' : (machine.perform .srem [holdersKey key composite, text]).space.find? key =
      (Entry.hash fields).kept := by
    rw [Machine.perform_space, hdrop, Keyspace.find?_put_kept,
      if_neg (holdersKey_ne key composite).symm]
    exact hhash
  rw [Stmt.runAll_of_next (Stmt.run_call
    (giveTexts_holders hkeyed (.cons hid.gives rfl .nil)) (congrArg Prod.fst hdrop)),
    Machine.performAll_cons]
  exact Stmt.runAll_one (run_moveBack (hkeyed.perform .srem _) hhash' hset')

theorem run_removeEntry_shared {members : NameSet} (hshared : index.unique = false)
    (hmap : machine.find? map = some row.table) (hlocal : map ∉ locals)
    (hfields : ∀ field ∈ index.fields, row.contains field.name = true)
    (hid : Steady params machine id (.str text))
    (hhash : machine.space.find? key = (Entry.hash fields).kept)
    (hset : machine.space.find? (holdersKey key (index.compositeOf row)) = (Entry.set members).kept) :
    (index.removeEntry key map id).run params machine = (.ok .next,
      machine.performAll (removeShared key (index.compositeOf row) text
        (fields.find? (index.compositeOf row)) members)) := by
  have hkeys := (@runAll_declareKeys index params _ _ key) hmap hlocal hfields
  generalize index.compositeOf row = composite at hset hkeys ⊢
  unfold removeEntry
  rw [if_neg (by simp [hshared])]
  refine (@Stmt.run_block _ _ _ (keysScope key composite)) ?_
  rw [hkeys]
  have hkeyed := keyed_keysScope machine key composite
  have hown := hid.within fun _ hname => find?_keysScope hname key composite
  have hcondition := Expr.eval_eq (eval_holder hkeyed hhash)
    (hown.perform .hget [key, composite]).gives
  rw [Machine.perform_within, same_foundValue] at hcondition
  refine Stmt.runAll_one ((@Stmt.run_branch_of _ _ _ ∅) hcondition ?_)
  have hkeyed' := (hkeyed.perform .hget [key, composite]).open_
  have hown' := (hown.perform .hget [key, composite]).open_
  rw [Machine.perform_within] at hkeyed' hown'
  have hspace : (machine.perform .hget [key, composite]).space = machine.space := by
    rw [Machine.perform_space, Keyspace.execute_hget hhash]
  rw [Expr.truthy_bool]
  unfold removeShared
  by_cases hheld : fields.find? composite = some text
  · have hrun := (@runAll_drop params) hkeyed' (hspace ▸ hhash)
    simp only [Machine.performAll_within] at hrun
    rw [if_pos hheld, if_pos (by simpa using hheld)]
    exact hrun
  · have hrun := runAll_dropShared hkeyed' hown' (hspace ▸ hhash) (hspace ▸ hset)
    simp only [Machine.performAll_within] at hrun
    rw [if_neg hheld, if_neg (by simpa using hheld)]
    exact hrun

end Scripts

end DocStore.Index
