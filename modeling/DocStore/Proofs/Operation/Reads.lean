import DocStore.Proofs.Operation.Performs
import DocStore.Proofs.Operation.Create
import DocStore.Proofs.Operation.Delete
import DocStore.Proofs.Operation.Update

/-!
Operations that only read, and then all operations together.
-/

namespace DocStore.Operation

open DocStore.Script DocStore.Layout

variable {ns collection : String} {coll : Collection} {docs : Documents} {params : List String}
  {machine : Machine} {id : Int} {start : Nat}

/-- The script of an operation that only reads. -/
theorem performs_of_reads {body : List Stmt} {verdict : Verdict}
    {commands : List (Command × List String)} (hkeeps : Keeps ns collection coll docs machine.space)
    (hreads : Confined (fun _ => False) commands)
    (hrun : (Stmt.block body).run params machine = (machine.performAll commands).settle verdict) :
    Performs ns collection coll params body machine (verdict, docs) := by
  refine ⟨commands, hrun, Tame.ofConfined hreads fun _ => False.elim, ?_⟩
  rw [hreads.executeAll_eq]
  exact hkeeps

theorem confined_read {command : Command} (h : command.isWrite = false) (hincr : command ≠ .incr)
    (args : List String) : Confined (fun _ => False) [(command, args)] :=
  .cons hincr (by simp [Command.changes, h]) .nil

/-- Reading a record answers its stored texts. -/
theorem performs_get (hcoll : coll.WellFormed)
    (hsound : docs.Sound coll) (hkeeps : Keeps ns collection coll docs machine.space)
    (hparam : params[start]? = some (Decimal.ofInt id)) :
    Performs ns collection coll params (getFragment ns collection (start + 1) id).body machine
      ((Work.get id).apply collection coll docs) := by
  simp only [Work.apply]
  cases hrow : docs.rows id with
  | none => exact performs_of_missing hkeeps hparam hrow .get _
  | some row =>
    have hlook := confined_lookUp ns collection id
    have hread := confined_readRecord ns collection id
    have hkept : (machine.performAll [lookUp ns collection id]).space.find?
        (recordKey ns collection (Decimal.ofInt id)) = (Entry.hash row).kept := by
      rw [Machine.performAll_space, hlook.executeAll_eq, hkeeps.row_kept hcoll hsound, hrow,
        Option.getD_some]
    have hkey : ((machine.performAll [lookUp ns collection id]).within (keyScope ns collection id)).find?
        "key" = some (.str (recordKey ns collection (Decimal.ofInt id))) := by
      simp [Machine.find?_within, keyScope, SortedMap.find?_insert]
    have hcall := (@Expr.eval_call params) (.cons (.var hkey) rfl .nil)
      (congrArg Prod.fst (Keyspace.execute_hgetall hkept))
    rw [ofReply_listReply, Machine.perform_within] at hcall
    have hanswer := runAll_succeed (Expr.evalAll_cons hcall
      (Expr.evalAll_cons (Expr.Gives.str collection) Expr.evalAll_nil)) rfl .get
    have hrun := runAll_lookUp hkeeps hparam .get
      [succeed .get [.call .hgetall [.var "key"], .str collection]]
    rw [hrow, if_pos (by rfl), hanswer] at hrun
    exact performs_of_reads hkeeps (hlook.append hread)
      (settle_of_next hrun rfl)

/-- Asking for a record that is missing ends the script, as an answer that is no error. -/
theorem performs_exists (hkeeps : Keeps ns collection coll docs machine.space)
    (hparam : params[start]? = some (Decimal.ofInt id)) :
    Performs ns collection coll params (existsFragment ns collection (start + 1) id).body machine
      ((Work.exists id).apply collection coll docs) := by
  refine performs_of_reads hkeeps (confined_lookUp ns collection id) ?_
  have hreply := congrArg Prod.fst
    (Keyspace.execute_exists (machine.within ∅).space (recordKey ns collection (Decimal.ofInt id)))
  rw [Machine.within_space, hkeeps.contains_record] at hreply
  have hcall := Expr.eval_call (.cons (gives_recordKey ((@Expr.Gives.param _ (machine.within ∅))
    hparam) rfl ns collection) rfl .nil) hreply
  rw [Machine.perform_within] at hcall
  have hcondition := Expr.eval_eq hcall (Expr.Gives.int 0)
  cases hrow : (docs.rows id).isSome with
  | true =>
    rw [hrow] at hcondition
    have hgo : (Stmt.when (.eq (.call .exists [recordKeyExpr ns collection (.param (start + 1))]) (.int 0))
        [.abort (answer .exists noError [.int 0])]).run params (machine.within ∅) =
          (.ok .next, (machine.performAll [lookUp ns collection id]).within ∅) :=
      Stmt.run_branch_of hcondition rfl
    refine (@settle_of_next _ _ ∅) ?_ rfl
    exact (Stmt.runAll_of_next hgo).trans
      (runAll_succeed (Expr.evalAll_cons (Expr.Gives.int 1) Expr.evalAll_nil) rfl .exists)
  | false =>
    rw [hrow] at hcondition
    have hend : (Stmt.when (.eq (.call .exists [recordKeyExpr ns collection (.param (start + 1))]) (.int 0))
        [.abort (answer .exists noError [.int 0])]).run params (machine.within ∅) =
          (.ok (.over (Verdict.exists false).value),
            (machine.performAll [lookUp ns collection id]).rollback.within ∅) := by
      refine (@Stmt.run_branch_of _ _ _ ∅) hcondition ?_
      rw [← Machine.rollback_within, ← Machine.rollback_within]
      exact Stmt.runAll_of_over (Stmt.run_abort
        (eval_answer (Expr.evalAll_cons (Expr.Gives.int 0) Expr.evalAll_nil) .exists noError))
    exact settle_of_over (Stmt.runAll_of_over hend) rfl

theorem range_all (items : List String) : Keyspace.range items 0 (-1) = items := by
  cases items with
  | nil => rfl
  | cons item rest =>
    have hstart : ¬(0 : Int) < 0 := by decide
    have hstop : (-1 : Int) < 0 := by decide
    have hlast : ¬((item :: rest).length : Int) + -1 < 0 := by
      rw [List.length_cons]
      omega
    have hcount : (((item :: rest).length : Int) + -1 - 0 + 1).toNat = (item :: rest).length := by omega
    rw [Keyspace.range, if_neg hstart, if_pos hstop, if_neg hlast, hcount]
    exact List.take_length
/-- Listing answers the live ids by their scores. -/
theorem performs_list (hkeeps : Keeps ns collection coll docs machine.space) :
    Performs ns collection coll params (listFragment ns collection).body machine
      (Work.list.apply collection coll docs) := by
  have hzrange := (@Keyspace.execute_zrange (machine.within ∅).space _ _ hkeeps.ids (Decimal.ofInt 0)
    (Decimal.ofInt (-1))) (Decimal.int64?_ofInt (by decide)) (Decimal.int64?_ofInt (by decide))
  rw [range_all] at hzrange
  have hcall := (@Expr.eval_call params) (.cons (.str (idsKey ns collection)) rfl
    (.cons (.int 0) rfl (.cons (.int (-1)) rfl .nil))) (congrArg Prod.fst hzrange)
  rw [ofReply_listReply, Machine.perform_within] at hcall
  exact performs_of_reads hkeeps (confined_read (by rfl) (by decide) _)
    (settle_of_next
      (runAll_succeed (Expr.evalAll_cons hcall Expr.evalAll_nil) rfl .list) rfl)

/-- Asking for the size counts the live ids. -/
theorem performs_size (hkeeps : Keeps ns collection coll docs machine.space) :
    Performs ns collection coll params (sizeFragment ns collection).body machine
      (Work.size.apply collection coll docs) := by
  have hzcard := (@Keyspace.execute_zcard (machine.within ∅).space) hkeeps.ids
  rw [size_scores (docs.ids_ascending.imp fun h => Int.ne_of_lt h)] at hzcard
  have hcall := (@Expr.eval_call params) (.cons (.str (idsKey ns collection)) rfl .nil)
    (congrArg Prod.fst hzcard)
  rw [Machine.perform_within] at hcall
  exact performs_of_reads hkeeps (confined_read (by rfl) (by decide) _)
    (settle_of_next
      (runAll_succeed (Expr.evalAll_cons hcall Expr.evalAll_nil) rfl .size) rfl)

/-- The variables of a search. -/
def findScope (row : Row) (texts : List String) : Scope :=
  ((∅ : Scope).insert "probe" row.table).insert "ids" (.table (texts.map .str) [])

/-- A search answers the holders of the composite value of what it is given. -/
theorem performs_find {method : Method} {index : Index} {probe : List (String × String)}
    (hsound : docs.Sound coll) (hkeeps : Keeps ns collection coll docs machine.space)
    (hfits : (Work.find method index probe).Fits coll)
    (hparams : ParamsAt params start (probe.map Prod.snd)) :
    Performs ns collection coll params (findBody ns collection (start + 1) method index probe) machine
      ((Work.find method index probe).apply collection coll docs) := by
  obtain ⟨hmethod, ⟨name, hentry⟩, -, hfields⟩ := hfits
  have hset := (@runAll_setFields _ machine ((∅ : Scope).insert "probe" (Row.table ∅))) hparams
    (by rw [SortedMap.find?_insert, if_pos rfl])
  rw [SortedMap.insert_insert, ← SortedMap.ofList_eq_overlay] at hset
  generalize hrow : SortedMap.ofList probe = row at hset
  obtain ⟨commands, hsearch, hconfined⟩ := (@Index.run_search index _ _ "probe" _ _ _
    (findScope row [])) (by simp [findScope, Machine.find?_within, SortedMap.find?_insert]) (by decide)
    (fun field hfield => hrow ▸ (SortedMap.contains_ofList _).2 (hfields field hfield)) rfl
    (hkeeps.index (name, index) hentry) fun id => Documents.mem_holders hsound.bounded
  rw [findScope, SortedMap.insert_insert] at hsearch
  have hids : ((machine.performAll commands).within
      (findScope row (foundTexts (docs.holders index (index.compositeOf row))))).find? "ids" =
        some (.table ((foundTexts (docs.holders index (index.compositeOf row))).map .str) []) := by
    simp [findScope, Machine.find?_within, SortedMap.find?_insert]
  have hbody : Stmt.runAll params (findBody ns collection (start + 1) method index probe)
      (machine.within ∅) = Stmt.runAll params [succeed method [.var "ids"]]
        ((machine.performAll commands).within
          (findScope row (foundTexts (docs.holders index (index.compositeOf row))))) := by
    rw [findBody, List.append_assoc, List.singleton_append,
      Stmt.runAll_of_next (Stmt.run_declare (Expr.eval_table Expr.evalAll_nil) "probe"),
      Machine.declare_within]
    refine (hset _).trans ?_
    rw [Stmt.runAll_of_next (Stmt.run_declare (Expr.eval_table Expr.evalAll_nil) "ids"),
      Machine.declare_within]
    exact Stmt.runAll_of_next hsearch
  have hanswer := hbody.trans (runAll_succeed (Expr.evalAll_cons (Expr.Gives.var hids) Expr.evalAll_nil)
    rfl method)
  have hvalue : (Verdict.ids method (docs.holders index (index.compositeOf row))).value =
      .table [.str method.name, .str noError,
        .table ((foundTexts (docs.holders index (index.compositeOf row))).map .str) []] [] := by
    rcases hmethod with rfl | rfl <;> rfl
  rw [← hvalue] at hanswer
  simp only [Work.apply, hrow]
  exact performs_of_reads hkeeps hconfined (settle_of_next hanswer rfl)

end DocStore.Operation
