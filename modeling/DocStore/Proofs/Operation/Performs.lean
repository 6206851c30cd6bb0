import DocStore.Proofs.Documents.Changes
import DocStore.Proofs.Operation.Parts

/-!
What it means that the script of an operation does its work.

A script that stops takes everything back that the journal holds and ends with its verdict; any other
leaves the verdict in `ret` and goes on (`Machine.settle`). `Performs` says that an operation settles
the machine with the verdict of the model, touches no key of another collection, and counts up no
key but its own counter.
-/

namespace DocStore

open DocStore.Script DocStore.Layout

/-- How a script goes on after a verdict, and the machine it goes on with. -/
def Script.Machine.settle (machine : Machine) (verdict : Verdict) : Except StoreError Flow × Machine :=
  if verdict.stops then (.ok (.over verdict.value), machine.rollback)
  else (.ok .next, machine.assign "ret" verdict.value)

/-- As a block, the statements come to this verdict and leave these documents. -/
def Performs (ns collection : String) (coll : Collection) (params : List String) (body : List Stmt)
    (machine : Machine) (result : Verdict × Documents) : Prop :=
  ∃ commands, (Stmt.block body).run params machine = (machine.performAll commands).settle result.1 ∧
    Tame (· = nextIdKey ns collection) (DataKey ns collection coll) commands ∧
    Keeps ns collection coll result.2 (machine.space.executeAll commands)

/-- Commands on the data of a collection count nothing up. -/
theorem Script.Confined.tame {ns collection : String} {coll : Collection} {P : String → Prop}
    {commands : List (Command × List String)} (h : Confined P commands)
    (hname : isValidName collection = true) (hcoll : coll.WellFormed)
    (hP : ∀ key, P key → DataKey ns collection coll key) :
    Tame (· = nextIdKey ns collection) (DataKey ns collection coll) commands :=
  Tame.ofConfined h fun key hkey => ⟨hP key hkey, fun heq =>
    not_counter_of_data hname hcoll (hP key hkey) ⟨collection, hname, heq⟩⟩

namespace Operation

variable {params : List String} {machine : Machine} {scope : Scope}

/-- A script that goes on leaves its answer in `ret`. -/
theorem runAll_succeed {payload : List Expr} {values : List Value} {after : Machine}
    (h : Expr.evalAll params payload (machine.within scope) = (.ok values, after.within scope))
    (hret : scope.contains "ret" = false) (method : Method) :
    Stmt.runAll params [succeed method payload] (machine.within scope) = (.ok .next,
      (after.assign "ret" (.table (.str method.name :: .str noError :: values) [])).within scope) := by
  have hassign := Stmt.run_assign (eval_answer h method noError) "ret"
  rw [Machine.assign_within, if_neg (by simp [hret])] at hassign
  exact Stmt.runAll_one hassign

/-- A block whose statements go on settles the machine with a verdict that does not stop. -/
theorem settle_of_next {body : List Stmt} {after : Machine} {verdict : Verdict}
    (h : Stmt.runAll params body (machine.within ∅) =
      (.ok .next, (after.assign "ret" verdict.value).within scope)) (hstops : verdict.stops = false) :
    (Stmt.block body).run params machine = after.settle verdict := by
  rw [Machine.settle, hstops]
  exact Stmt.run_block h

/-- A block whose statements end the script settles the machine with a verdict that stops. -/
theorem settle_of_over {body : List Stmt} {after : Machine} {verdict : Verdict}
    (h : Stmt.runAll params body (machine.within ∅) =
      (.ok (.over verdict.value), after.rollback.within scope)) (hstops : verdict.stops = true) :
    (Stmt.block body).run params machine = after.settle verdict := by
  rw [Machine.settle, hstops]
  exact Stmt.run_block h

section Records

variable {ns collection : String} {coll : Collection} {docs : Documents} {id : Int} {start : Nat}

/-- The variable with the key of a record. -/
def keyScope (ns collection : String) (id : Int) : Scope :=
  (∅ : Scope).insert "key" (.str (recordKey ns collection (Decimal.ofInt id)))

/-- Whether the key of a record holds something. -/
def lookUp (ns collection : String) (id : Int) : Command × List String :=
  (.exists, [recordKey ns collection (Decimal.ofInt id)])

theorem confined_lookUp (ns collection : String) (id : Int) :
    Confined (fun _ => False) [lookUp ns collection id] :=
  .cons (by decide) (by simp [Command.changes, Command.isWrite]) .nil

/-- A record is looked up first, and if it is missing nothing else happens. -/
theorem runAll_lookUp (hkeeps : Keeps ns collection coll docs machine.space)
    (hparam : params[start]? = some (Decimal.ofInt id)) (method : Method) (rest : List Stmt) :
    Stmt.runAll params (.declare "key" (recordKeyExpr ns collection (.param (start + 1))) ::
        rejectIfMissing method (.var "key") :: rest) (machine.within ∅) =
      if (docs.rows id).isSome then
        Stmt.runAll params rest
          ((machine.performAll [lookUp ns collection id]).within (keyScope ns collection id))
      else (.ok (.over (Verdict.notFound method).value),
        (machine.performAll [lookUp ns collection id]).rollback.within (keyScope ns collection id)) := by
  have hkey := Stmt.run_declare (gives_recordKey ((@Expr.Gives.param _ (machine.within ∅)) hparam)
    rfl ns collection) "key"
  rw [Machine.declare_within] at hkey
  have hfound : (machine.within (keyScope ns collection id)).find? "key" =
      some (.str (recordKey ns collection (Decimal.ofInt id))) := by
    rw [Machine.find?_within, keyScope, SortedMap.find?_insert, if_pos rfl]
    rfl
  have hreject := (@run_rejectIfMissing params) (.var hfound) method
  rw [Machine.within_space, hkeeps.contains_record] at hreject
  rw [Stmt.runAll_of_next hkey]
  cases hrow : (docs.rows id).isSome with
  | true =>
    rw [hrow, if_pos rfl, Machine.perform_within] at hreject
    exact Stmt.runAll_of_next hreject
  | false =>
    rw [hrow, if_neg (by simp), Machine.perform_within, Machine.rollback_within] at hreject
    exact Stmt.runAll_of_over hreject

/-- What is done to a record that is missing. -/
theorem performs_of_missing (hkeeps : Keeps ns collection coll docs machine.space)
    (hparam : params[start]? = some (Decimal.ofInt id)) (hrow : docs.rows id = none) (method : Method)
    (rest : List Stmt) :
    Performs ns collection coll params
      (.declare "key" (recordKeyExpr ns collection (.param (start + 1))) ::
        rejectIfMissing method (.var "key") :: rest) machine (.notFound method, docs) := by
  have hrun := runAll_lookUp hkeeps hparam method rest
  rw [hrow] at hrun
  refine ⟨[lookUp ns collection id], settle_of_over hrun rfl, ?_, ?_⟩
  · exact Tame.ofConfined (confined_lookUp ns collection id) fun _ => False.elim
  · rw [(confined_lookUp ns collection id).executeAll_eq]
    exact hkeeps

/-- Everything that the key of a record holds. -/
def readRecord (ns collection : String) (id : Int) : Command × List String :=
  (.hgetall, [recordKey ns collection (Decimal.ofInt id)])

theorem confined_readRecord (ns collection : String) (id : Int) :
    Confined (fun _ => False) [readRecord ns collection id] :=
  .cons (by decide) (by simp [Command.changes, Command.isWrite]) .nil

/-- The stored record is put into a variable. -/
theorem run_declareStored {row : Row}
    (hrow : machine.space.find? (recordKey ns collection (Decimal.ofInt id)) = (Entry.hash row).kept)
    (hkey : scope.find? "key" = some (.str (recordKey ns collection (Decimal.ofInt id)))) (name : String) :
    (Stmt.declare name storedRecord).run params (machine.within scope) = (.ok .next,
      (machine.performAll [readRecord ns collection id]).within (scope.insert name row.table)) := by
  have hvar : (machine.within scope).find? "key" =
      some (.str (recordKey ns collection (Decimal.ofInt id))) := by
    rw [Machine.find?_within, hkey]
    rfl
  have hreply := congrArg Prod.fst (Keyspace.execute_hgetall hrow)
  have hstored := Expr.eval_toMap ((@Expr.eval_call params)
    (.cons (.var hvar) rfl .nil) hreply) (Row.toMap_flat row)
  have hrun := Stmt.run_declare hstored name
  rwa [Machine.perform_within, Machine.declare_within] at hrun

end Records

end Operation

end DocStore
