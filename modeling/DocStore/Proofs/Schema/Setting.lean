import DocStore.Operation.Build
import DocStore.Proofs.Documents.Answers
import DocStore.Proofs.Keyspace.Agreement

/-!
The script that stores a schema, run on any keyspace: it stores the schema where none is, or where it is
told to replace one; otherwise it accepts the one that is stored already, and no other.
-/

namespace DocStore

open DocStore.Script DocStore.Layout

/-- Where a schema's text and revision are put. -/
def Keyspace.withSchema (space : Keyspace) (ns text revision : String) : Keyspace :=
  (space.put (schemaKey ns) (.text text)).put (revisionKey ns) (.text revision)

/-- Whether the text found is that of the schema, and the revision is the one stored. -/
def Keyspace.holdsSchema (space : Keyspace) (ns text revision : String) (found : Option String) :
    Except StoreError Bool :=
  if found = some text then (space.text? (revisionKey ns)).map fun found => decide (found = some revision)
  else .ok false

/-- Stores a schema, unless one is found that must not be replaced. -/
def Keyspace.setSchema (space : Keyspace) (ns text revision : String) (overwrite : Bool) :
    Except StoreError Bool × Keyspace :=
  match space.text? (schemaKey ns) with
  | .error e => (.error e, space)
  | .ok found =>
    if found.isSome && !overwrite then (space.holdsSchema ns text revision found, space)
    else (.ok true, space.withSchema ns text revision)

/-- The answer to a schema that is stored, or is not since another one exists. -/
def setSchemaReply (stored : Bool) : Reply :=
  .array [.bulk Method.setSchema.name, .bulk (if stored then noError else ErrorCode.schemaExists.name)]

namespace Script

variable {machine machine' : Machine} {params : List String}

theorem Machine.find?_assign_of_inner_nil (h : machine.inner = []) (name : String) (value : Value) :
    (machine.assign name value).find? name = some value := by
  rw [Machine.assign_of_inner_nil machine h, Machine.find?, h, Machine.findIn?, SortedMap.find?_insert,
    if_pos rfl]

theorem Expr.eval_get {key : String} {found : Option String} (h : machine.space.text? key = .ok found) :
    (Expr.call .get [.str key]).eval params machine =
      (.ok (foundValue found), machine.perform .get [key]) := by
  have hexecute := Keyspace.execute_get h
  rw [Expr.eval_call (.cons (.str key) rfl .nil) (congrArg Prod.fst hexecute)]
  cases found <;> rfl

theorem Expr.eval_get_of_error {key : String} {e : StoreError} (h : machine.space.text? key = .error e) :
    (Expr.call .get [.str key]).eval params machine = (.error e, machine.perform .get [key]) := by
  have hargs : Expr.GiveTexts params machine [.str key] [key] := .cons (.str key) rfl .nil
  unfold Expr.eval
  rw [Run.bind_of_ok hargs, Run.command_apply, Keyspace.execute_get_of_error h]
  rfl

theorem Machine.perform_get_space (machine : Machine) (key : String) :
    (machine.perform .get [key]).space = machine.space := by
  rw [Machine.perform_space]
  cases h : machine.space.text? key with
  | error e => rw [Keyspace.execute_get_of_error h]
  | ok found => rw [Keyspace.execute_get h]

theorem Expr.Gives.eq {a b : Expr} {left right : Value} (ha : a.Gives params machine left)
    (hb : b.Gives params machine right) : (Expr.eq a b).Gives params machine (.bool (left.same right)) :=
  Expr.eval_eq ha hb

theorem Expr.eval_and_of_false {a b : Expr} {value : Value} (ha : a.eval params machine = (.ok value, machine'))
    (hvalue : value.truthy = false) : (Expr.and [a, b]).eval params machine = (.ok value, machine') := by
  conv => lhs; unfold eval evalAnd
  rw [Run.bind_of_ok ha, if_neg (by simp [hvalue])]
  rfl

theorem Expr.eval_and_of_true {a b : Expr} {value : Value} (ha : a.eval params machine = (.ok value, machine'))
    (hvalue : value.truthy = true) : (Expr.and [a, b]).eval params machine = b.eval params machine' := by
  conv => lhs; unfold eval evalAnd
  rw [Run.bind_of_ok ha, if_pos hvalue]
  conv => lhs; unfold evalAnd
  cases hb : b.eval params machine' with
  | mk result later =>
    cases result with
    | error e => rw [Run.bind_of_error hb]
    | ok value =>
      rw [Run.bind_of_ok hb]
      split
      · unfold evalAnd
        rfl
      · rfl

theorem Stmt.run_declare_of_error {e : Expr} {fault : StoreError}
    (h : e.eval params machine = (.error fault, machine')) (name : String) :
    (Stmt.declare name e).run params machine = (.error fault, machine') := by
  unfold run
  rw [Run.bind_of_error h]

theorem Stmt.run_branch_of_error {e : Expr} {yes no : List Stmt} {fault : StoreError}
    (h : e.eval params machine = (.error fault, machine')) :
    (Stmt.branch e yes no).run params machine = (.error fault, machine') := by
  unfold run
  rw [Run.bind_of_error h]

theorem Stmt.run_block_of_error {body : List Stmt} {scope : Scope} {fault : StoreError}
    (h : runAll params body (machine.within ∅) = (.error fault, machine'.within scope)) :
    (Stmt.block body).run params machine = (.error fault, machine') := by
  unfold run
  rw [Run.inScope_apply, h]
  rfl

end Script

section Run

variable {ns text revision : String} {overwrite : Bool} {space : Keyspace} {machine : Machine} {scope : Scope}

/-- The parameters of the script. -/
def setSchemaParams (text revision : String) (overwrite : Bool) : List String :=
  [text, revision, if overwrite then "1" else "0"]

/-- The condition that there is a schema, and the script is not told to replace it. -/
def compares : Expr :=
  .and [.var "current", .eq (.param 3) (.str "0")]

theorem eval_compares {found : Option String} (h : machine.find? "current" = some (foundValue found)) :
    ∃ value, compares.eval (setSchemaParams text revision overwrite) machine = (.ok value, machine) ∧
      value.truthy = (found.isSome && !overwrite) := by
  have hflag : Expr.Gives (setSchemaParams text revision overwrite) machine (.param 3)
      (.str (if overwrite then "1" else "0")) := .param rfl
  obtain ⟨value, hvalue, htruthy⟩ :=
    Expr.Gives.and (.cons (.var h) (.cons (hflag.eq (.str "0")) .nil)) (.bool true) rfl
  refine ⟨value, by unfold compares Expr.eval; exact hvalue, htruthy.trans ?_⟩
  cases found <;> cases overwrite <;> rfl

/-- The value of the answer to a schema that is stored, or is not since another one exists. -/
def setSchemaValue (stored : Bool) : Value :=
  .table [.str Method.setSchema.name, .str (if stored then noError else ErrorCode.schemaExists.name)] []

theorem eval_answer (params : List String) (machine : Machine) (stored : Bool) :
    (Operation.answer .setSchema (if stored then noError else ErrorCode.schemaExists.name) []).eval params machine =
      (.ok (setSchemaValue stored), machine) :=
  Expr.eval_table (Expr.evalAll_cons (Expr.Gives.str _) (Expr.evalAll_cons (Expr.Gives.str _) Expr.evalAll_nil))

theorem run_succeed (params : List String) (machine : Machine) :
    (Operation.succeed .setSchema []).run params machine =
      (.ok .next, machine.assign "ret" (setSchemaValue true)) :=
  Stmt.run_assign (eval_answer params machine true) "ret"

/-- The statements that store a schema. -/
theorem runAll_store (ns text revision : String) (overwrite : Bool) (machine : Machine) :
    Stmt.runAll (setSchemaParams text revision overwrite)
        [.call .set [.str (schemaKey ns), .param 1], .call .set [.str (revisionKey ns), .param 2],
          Operation.succeed .setSchema []] machine =
      (.ok .next, (machine.performAll [(.set, [schemaKey ns, text]), (.set, [revisionKey ns, revision])]).assign
        "ret" (setSchemaValue true)) := by
  have htext : ∀ machine, Expr.GiveTexts (setSchemaParams text revision overwrite) machine
      [.str (schemaKey ns), .param 1] [schemaKey ns, text] := fun machine =>
    .cons (.str _) rfl (.cons (.param rfl) rfl .nil)
  have hrevision : ∀ machine, Expr.GiveTexts (setSchemaParams text revision overwrite) machine
      [.str (revisionKey ns), .param 2] [revisionKey ns, revision] := fun machine =>
    .cons (.str _) rfl (.cons (.param rfl) rfl .nil)
  rw [Stmt.runAll_of_next (Stmt.run_call (htext _) (congrArg Prod.fst (Keyspace.execute_set _ _ _))),
    Stmt.runAll_of_next (Stmt.run_call (hrevision _) (congrArg Prod.fst (Keyspace.execute_set _ _ _))),
    Stmt.runAll_one (run_succeed _ _)]
  rfl

/-- The condition that what is stored is what the script is given. -/
def sameSchema (ns : String) : Expr :=
  .and [.eq (.var "current") (.param 1), .eq (.call .get [.str (revisionKey ns)]) (.param 2)]

theorem eval_sameText {current : String} (h : machine.find? "current" = some (.str current)) :
    Expr.Gives (setSchemaParams text revision overwrite) machine (.eq (.var "current") (.param 1))
      (.bool (decide (current = text))) :=
  (Expr.Gives.var h).eq (.param rfl)

theorem eval_sameSchema_of_ne {current : String} (h : machine.find? "current" = some (.str current))
    (hne : current ≠ text) :
    (sameSchema ns).eval (setSchemaParams text revision overwrite) machine = (.ok (.bool false), machine) := by
  have hfirst := (@eval_sameText text revision overwrite) h
  rw [decide_eq_false hne] at hfirst
  exact Expr.eval_and_of_false hfirst rfl

theorem eval_sameSchema {found : Option String} (h : machine.find? "current" = some (.str text))
    (hfound : machine.space.text? (revisionKey ns) = .ok found) :
    (sameSchema ns).eval (setSchemaParams text revision overwrite) machine =
      (.ok (.bool (decide (found = some revision))), machine.perform .get [revisionKey ns]) := by
  have hsecond : (Expr.eq (.call .get [.str (revisionKey ns)]) (.param 2)).eval
      (setSchemaParams text revision overwrite) machine =
      (.ok (.bool ((foundValue found).same (.str revision))), machine.perform .get [revisionKey ns]) :=
    Expr.eval_eq (Expr.eval_get hfound) (Expr.Gives.param rfl)
  rw [sameSchema, Expr.eval_and_of_true (eval_sameText h) (by simp), hsecond, same_foundValue]

theorem eval_sameSchema_of_error {e : StoreError} (h : machine.find? "current" = some (.str text))
    (hfound : machine.space.text? (revisionKey ns) = .error e) :
    (sameSchema ns).eval (setSchemaParams text revision overwrite) machine =
      (.error e, machine.perform .get [revisionKey ns]) := by
  rw [sameSchema, Expr.eval_and_of_true (eval_sameText h) (by simp)]
  unfold Expr.eval
  rw [Run.bind_of_error (Expr.eval_get_of_error hfound)]

/-- The statement that compares what is stored with what the script is given. -/
def compare (ns : String) : Stmt :=
  .branch (sameSchema ns) [Operation.succeed .setSchema []]
    [.finish (Operation.answer .setSchema ErrorCode.schemaExists.name [])]

theorem run_compare {value : Value} {later : Machine} {params : List String}
    (h : (sameSchema ns).eval params machine = (.ok value, later)) :
    (compare ns).run params machine =
      if value.truthy then (.ok .next, later.assign "ret" (setSchemaValue true))
      else (.ok (.over (setSchemaValue false)), later) := by
  cases htruthy : value.truthy with
  | true =>
    refine (@Stmt.run_branch_of _ _ _ ∅) h ?_
    rw [htruthy, if_pos rfl, Stmt.runAll_one (run_succeed params _), Machine.assign_within,
      if_neg (by simp [SortedMap.contains])]
  | false =>
    refine (@Stmt.run_branch_of _ _ _ ∅) h ?_
    rw [htruthy, if_neg (by simp)]
    exact Stmt.runAll_one (Stmt.run_finish (eval_answer params _ false))

/-- The block that stores a schema or compares it with the stored one. -/
def storeOrCompare (ns : String) : Stmt :=
  .block [.declare "current" (.call .get [.str (schemaKey ns)]),
    .branch compares [compare ns]
      [.call .set [.str (schemaKey ns), .param 1], .call .set [.str (revisionKey ns), .param 2],
        Operation.succeed .setSchema []]]

theorem setSchemaProgram_eq (ns : String) : setSchemaProgram ns =
    ⟨[.declare "ret" (Operation.answer .none noError []), storeOrCompare ns, .finish (.var "ret")], false⟩ :=
  rfl

/-- How a run of the block shows what has become of the schema. -/
inductive Settles : Except StoreError Bool → Except StoreError Flow × Machine → Prop
  | error (e : StoreError) (later : Machine) : Settles (.error e) (.error e, later)
  | stored {later : Machine} : later.find? "ret" = some (setSchemaValue true) →
      Settles (.ok true) (.ok .next, later)
  | other (later : Machine) : Settles (.ok false) (.ok (.over (setSchemaValue false)), later)

/-- The machine in the block, once it has looked for a schema. -/
def looked (ns : String) (found : Option String) (machine : Machine) : Machine :=
  (machine.perform .get [schemaKey ns]).within (SortedMap.insert ∅ "current" (foundValue found))

theorem find?_looked (ns : String) (found : Option String) (machine : Machine) :
    (looked ns found machine).find? "current" = some (foundValue found) := by
  rw [looked, Machine.find?_within, SortedMap.find?_insert, if_pos rfl, Option.some_or]

theorem run_storeOrCompare_of {found : Option String} (h : machine.space.text? (schemaKey ns) = .ok found)
    {result : Except StoreError Flow} {later : Machine} {scope : Scope}
    (hbody : Stmt.runAll (setSchemaParams text revision overwrite)
      (if found.isSome && !overwrite then [compare ns]
        else [.call .set [.str (schemaKey ns), .param 1], .call .set [.str (revisionKey ns), .param 2],
          Operation.succeed .setSchema []]) ((looked ns found machine).within ∅) =
      (result, (later.within scope).within ∅)) :
    (storeOrCompare ns).run (setSchemaParams text revision overwrite) machine = (result, later) := by
  have hdeclare := (@Stmt.run_declare (setSchemaParams text revision overwrite))
    ((@Expr.eval_get (machine.within ∅)) h) "current"
  rw [Machine.perform_within, Machine.declare_within] at hdeclare
  obtain ⟨value, hvalue, htruthy⟩ := eval_compares
    (find?_looked ns found machine)
  rw [← htruthy] at hbody
  cases result with
  | error e =>
    refine (@Stmt.run_block_of_error _ _ _ _ scope) ?_
    rw [Stmt.runAll_of_next hdeclare]
    exact Stmt.runAll_of_error ((Stmt.run_branch hvalue).trans (Stmt.run_block_of_error hbody))
  | ok flow =>
    refine (@Stmt.run_block _ _ _ scope) ?_
    rw [Stmt.runAll_of_next hdeclare]
    exact Stmt.runAll_one (Stmt.run_branch_of hvalue hbody)

theorem run_storeOrCompare (hinner : machine.inner = []) :
    Settles (machine.space.setSchema ns text revision overwrite).1
        ((storeOrCompare ns).run (setSchemaParams text revision overwrite) machine) ∧
      ((storeOrCompare ns).run (setSchemaParams text revision overwrite) machine).2.space =
        (machine.space.setSchema ns text revision overwrite).2 := by
  unfold Keyspace.setSchema
  cases hcurrent : machine.space.text? (schemaKey ns) with
  | error e =>
    have hdeclare := (@Stmt.run_declare_of_error _ _ (setSchemaParams text revision overwrite))
      ((@Expr.eval_get_of_error (machine.within ∅)) hcurrent) "current"
    rw [Machine.perform_within] at hdeclare
    have hblock : (storeOrCompare ns).run (setSchemaParams text revision overwrite) machine =
      (.error e, machine.perform .get [schemaKey ns]) := Stmt.run_block_of_error (Stmt.runAll_of_error hdeclare)
    rw [hblock]
    exact ⟨.error e _, Machine.perform_get_space machine _⟩
  | ok found =>
    have hspace := Machine.perform_get_space machine (schemaKey ns)
    dsimp only
    cases hcompares : (found.isSome && !overwrite) with
    | false =>
      have hbody := runAll_store ns text revision overwrite ((looked ns found machine).within ∅)
      rw [looked, Machine.performAll_within, Machine.performAll_within, Machine.assign_within,
        if_neg (by simp [SortedMap.contains]), Machine.assign_within,
        if_neg (by simp [SortedMap.contains, SortedMap.find?_insert])] at hbody
      rw [run_storeOrCompare_of hcurrent (by rw [hcompares]; exact hbody), if_neg (by simp)]
      refine ⟨.stored (Machine.find?_assign_of_inner_nil (by simp [hinner]) _ _), ?_⟩
      simp only [Machine.assign_space, Machine.performAll_space, hspace]
      rfl
    | true =>
      obtain ⟨current, rfl⟩ := Option.isSome_iff_exists.1 (Bool.and_eq_true_iff.1 hcompares).1
      have hheld : ((looked ns (some current) machine).within ∅).find? "current" = some (.str current) := by
        rw [Machine.find?_open, find?_looked]
        rfl
      rw [if_pos rfl, Keyspace.holdsSchema]
      by_cases hsame : current = text
      · subst hsame
        rw [if_pos rfl]
        have hlooked : ((looked ns (some current) machine).within ∅).space = machine.space := hspace
        have hlater := (Machine.perform_get_space (machine.perform .get [schemaKey ns]) (revisionKey ns)).trans hspace
        cases hrevision : machine.space.text? (revisionKey ns) with
        | error e =>
          have hcompare := (@eval_sameSchema_of_error _ _ revision overwrite) hheld
            (by rw [hlooked, hrevision])
          rw [Machine.perform_within, looked, Machine.perform_within] at hcompare
          rw [run_storeOrCompare_of hcurrent (by
            rw [hcompares, if_pos rfl]
            exact Stmt.runAll_of_error (Stmt.run_branch_of_error hcompare))]
          exact ⟨.error e _, hlater⟩
        | ok found =>
          have hcompare := run_compare ((@eval_sameSchema _ _ revision overwrite) hheld
            (by rw [hlooked, hrevision]))
          rw [Machine.perform_within, looked, Machine.perform_within, Expr.truthy_bool] at hcompare
          simp only [Except.map]
          generalize decide (found = some revision) = same at hcompare ⊢
          cases same with
          | true =>
            rw [if_pos rfl, Machine.assign_within, if_neg (by simp [SortedMap.contains]), Machine.assign_within,
              if_neg (by simp [SortedMap.contains, SortedMap.find?_insert])] at hcompare
            rw [run_storeOrCompare_of hcurrent (by
              rw [hcompares, if_pos rfl]
              exact Stmt.runAll_one hcompare)]
            refine ⟨.stored (Machine.find?_assign_of_inner_nil (by simp [hinner]) _ _), ?_⟩
            rw [Machine.assign_space, hlater]
          | false =>
            rw [if_neg (by simp)] at hcompare
            rw [run_storeOrCompare_of hcurrent (by
              rw [hcompares, if_pos rfl]
              exact Stmt.runAll_one hcompare)]
            exact ⟨.other _, hlater⟩
      · have hcompare := run_compare ((@eval_sameSchema_of_ne ns _ revision overwrite) hheld hsame)
        rw [if_neg (by simp [Value.truthy])] at hcompare
        rw [run_storeOrCompare_of hcurrent (by rw [hcompares, if_pos rfl, Stmt.runAll_one hcompare]; rfl),
          if_neg (by simpa using hsame)]
        exact ⟨.other _, hspace⟩

theorem toReply_setSchemaValue (stored : Bool) : (setSchemaValue stored).toReply = setSchemaReply stored := by
  simp [setSchemaValue, setSchemaReply, Value.toReply_table, Value.toReplies_cons, Value.toReplies_nil,
    Value.toReply_str]

/-- The script does what `Keyspace.setSchema` does, and says so. -/
theorem run_setSchemaProgram (ns text revision : String) (overwrite : Bool) (space : Keyspace) :
    (setSchemaProgram ns).run (setSchemaParams text revision overwrite) space =
      ((space.setSchema ns text revision overwrite).1.map setSchemaReply,
        (space.setSchema ns text revision overwrite).2) := by
  let machine := (Machine.start (setSchemaProgram ns) space).declare "ret"
    (.table [.str Method.none.name, .str noError] [])
  have hret : (Stmt.declare "ret" (Operation.answer .none noError [])).run
      (setSchemaParams text revision overwrite) (Machine.start (setSchemaProgram ns) space) =
        (.ok .next, machine) :=
    Stmt.run_declare (Expr.eval_table (Expr.evalAll_cons (Expr.Gives.str _)
      (Expr.evalAll_cons (Expr.Gives.str _) Expr.evalAll_nil))) "ret"
  obtain ⟨hsettles, hspace⟩ := (@run_storeOrCompare _ _ _ _ machine) rfl
  have hexecution : (setSchemaProgram ns).execution (setSchemaParams text revision overwrite) space =
      Stmt.runAll (setSchemaParams text revision overwrite) [storeOrCompare ns, .finish (.var "ret")]
        machine := by
    rw [Program.execution, setSchemaProgram_eq]
    exact Stmt.runAll_of_next hret
  rw [Program.run, hexecution]
  have hstart : machine.space = space := rfl
  rw [hstart] at hsettles hspace
  generalize hrun : (storeOrCompare ns).run (setSchemaParams text revision overwrite) machine = run at hsettles hspace
  generalize (space.setSchema ns text revision overwrite).1 = result at hsettles ⊢
  cases hsettles with
  | error e later =>
    rw [Stmt.runAll_of_error hrun, ← hspace]
    rfl
  | stored hvalue =>
    rw [Stmt.runAll_of_next hrun, Stmt.runAll_one (Stmt.run_finish (Expr.Gives.var hvalue)), ← hspace]
    simp only [Except.map, Flow.reply, toReply_setSchemaValue]
  | other later =>
    rw [Stmt.runAll_of_over hrun, ← hspace]
    simp only [Except.map, Flow.reply, toReply_setSchemaValue]

/-- The script fails only with an error of its own. -/
theorem Keyspace.raises_setSchema (space : Keyspace) (ns text revision : String) (overwrite : Bool) :
    Raises (space.setSchema ns text revision overwrite).1 := by
  have hschema := Keyspace.raises_text? space (schemaKey ns)
  have hrevision := Keyspace.raises_text? space (revisionKey ns)
  unfold Keyspace.setSchema Keyspace.holdsSchema
  split
  · rename_i e heq
    simpa [Raises] using hschema e heq
  · split
    · split
      · exact hrevision.map _
      · exact .ok _
    · exact .ok _

end Run

end DocStore
