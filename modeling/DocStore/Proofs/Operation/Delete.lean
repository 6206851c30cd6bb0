import DocStore.Proofs.Operation.Writes

/-!
Deletions.

The stored record says where its entries in the indices are. They go first, then its place among the live
ids, and its hash last.
-/

namespace DocStore.Operation

open DocStore.Script DocStore.Layout

variable {ns collection : String} {coll : Collection} {docs : Documents} {params : List String}
  {machine : Machine} {id : Int} {row : Row} {start : Nat}

/-- The variables of a deletion. -/
def deleteScope (ns collection : String) (id : Int) (row : Row) : Scope :=
  (keyScope ns collection id).insert "old" row.table

/-- The part of a deletion that writes. -/
def deleteWrites (coll : Collection) (ns collection : String) (firstParam : Nat) : List Stmt :=
  removeEntries ns collection "old" (.param firstParam) coll.indices.entries ++
    [.call .zrem [.str (idsKey ns collection), .param firstParam], .call .del [.var "key"],
      succeed .delete []]

theorem deleteFragment_body (coll : Collection) (ns collection : String) (firstParam : Nat) (id : Int) :
    (deleteFragment coll ns collection firstParam id).body =
      .declare "key" (recordKeyExpr ns collection (.param firstParam)) ::
        rejectIfMissing .delete (.var "key") :: .declare "old" storedRecord ::
          deleteWrites coll ns collection firstParam := by
  simp [deleteFragment, deleteWrites]

/-- A record that is taken out of the indices and the live ids, and whose hash is dropped, is removed. -/
theorem keeps_removed (hname : isValidName collection = true) (hcoll : coll.WellFormed)
    (hsound : docs.Sound coll) (hkeeps : Keeps ns collection coll docs machine.space)
    {removed : List (Command × List String)}
    (hremoved : Confined (IndicesKey ns collection coll.indices.entries) removed)
    (hleft : ∀ entry ∈ coll.indices.entries, Files (machine.space.executeAll removed)
      (indexKey ns collection entry.2) fun composite other => docs.Holds entry.2 composite other ∧ other ≠ id) :
    Keeps ns collection coll (docs.remove id)
      (((machine.space.executeAll removed).put (idsKey ns collection)
        (.scored ((scores docs.ids).erase (Decimal.ofInt id)))).restore
          (recordKey ns collection (Decimal.ofInt id)) none) := by
  obtain ⟨hcounter, -, hrows⟩ := find?_indices hname hcoll (List.Sublist.refl _) hremoved machine.space
  refine hkeeps.remove hsound.bounded (hsound.remove id).bounded ?_ ?_ ?_ (fun other hother => ?_)
    fun entry hentry => ?_
  · rw [Keyspace.find?_restore, if_neg (record_ne_nextId hname id).symm, Keyspace.find?_put_kept,
      if_neg (ids_ne_nextId hname).symm, hcounter]
  · rw [Keyspace.find?_restore, if_neg (record_ne_ids hname id).symm, Keyspace.find?_put_kept,
      if_pos rfl]
  · rw [Keyspace.find?_restore, if_pos rfl]
  · rw [Keyspace.find?_restore, if_neg fun heq => hother (recordKey_inj hname heq),
      Keyspace.find?_put_kept, if_neg (record_ne_ids hname other), hrows]
  · refine ((hleft entry hentry).of_find?_eq fun probe hprobe => ?_).congr fun composite other =>
      Documents.holds_remove
    have hindex := fits_of_mem hcoll hentry
    rw [Keyspace.find?_restore, if_neg, Keyspace.find?_put_kept, if_neg]
    · rintro rfl
      exact ids_not_indexKey hname hcoll hindex hprobe
    · rintro rfl
      exact record_not_indexKey hname hcoll hindex id hprobe

/-- Removing a record that is there. -/
theorem runAll_deleteWrites (hname : isValidName collection = true) (hcoll : coll.WellFormed)
    (hsound : docs.Sound coll) (hkeeps : Keeps ns collection coll docs machine.space)
    (hrow : docs.rows id = some row) (hparam : params[start]? = some (Decimal.ofInt id)) :
    ∃ commands, Tame (· = nextIdKey ns collection) (DataKey ns collection coll) commands ∧
      Keeps ns collection coll (docs.remove id) (machine.space.executeAll commands) ∧
      Stmt.runAll params (deleteWrites coll ns collection (start + 1))
          (machine.within (deleteScope ns collection id row)) =
        (.ok .next, ((machine.performAll commands).assign "ret" Verdict.deleted.value).within
          (deleteScope ns collection id row)) := by
  have hsub := List.Sublist.refl coll.indices.entries
  have hold : ∀ other : Machine, (other.within (deleteScope ns collection id row)).find? "old" =
      some row.table := fun other => by
    simp [Machine.find?_within, deleteScope, SortedMap.find?_insert]
  have hkey : ∀ other : Machine, (other.within (deleteScope ns collection id row)).find? "key" =
      some (.str (recordKey ns collection (Decimal.ofInt id))) := fun other => by
    simp [Machine.find?_within, deleteScope, keyScope, SortedMap.find?_insert]
  have hret : (deleteScope ns collection id row).contains "ret" = false := rfl
  generalize deleteScope ns collection id row = scope at hold hkey hret ⊢
  -- The indices.
  obtain ⟨removed, hremoved, hleft, hremove⟩ := runAll_removeEntries hname hcoll hsub hsound hrow
    (hold machine) (by decide)
    (Index.Steady.param _ hparam) hkeeps.index
  rw [Machine.within_space] at hleft
  have hids := (find?_indices hname hcoll hsub hremoved machine.space).2.1
  -- The live ids and the record's hash.
  have hlive : (machine.performAll removed).space.find? (idsKey ns collection) =
      (Entry.scored (scores docs.ids)).kept := by
    rw [Machine.performAll_space, hids, hkeeps.ids]
  obtain ⟨zremReply, hzrem⟩ := Keyspace.execute_zrem hlive (Decimal.ofInt id)
  have hleave := (@Stmt.run_call _ ((machine.performAll removed).within scope))
    (.cons (.str (idsKey ns collection)) rfl (.cons (.param hparam) rfl .nil)) (congrArg Prod.fst hzrem)
  rw [Machine.perform_within] at hleave
  have hdrop := (@Stmt.run_call params (((machine.performAll removed).perform .zrem
    [idsKey ns collection, Decimal.ofInt id]).within scope)) (.cons (.var (hkey _)) rfl .nil)
    (congrArg Prod.fst (Keyspace.execute_del _ (recordKey ns collection (Decimal.ofInt id))).choose_spec)
  rw [Machine.perform_within] at hdrop
  refine ⟨removed ++ [(.zrem, [idsKey ns collection, Decimal.ofInt id]),
    (.del, [recordKey ns collection (Decimal.ofInt id)])], ?_, ?_, ?_⟩
  · refine (hremoved.tame hname hcoll fun _ => dataKey_indices hsub).append
      (Confined.tame (P := DataKey ns collection coll) (.cons (by decide) ?_ (.cons (by decide) ?_ .nil))
        hname hcoll fun _ h => h)
    · simp [Command.changes, Command.isWrite, Machine.touched, DataKey]
    · intro key hkey
      rw [List.mem_singleton.1 hkey]
      exact .inr (.inl ⟨id, rfl⟩)
  · have hafter : machine.space.executeAll (removed ++ [(.zrem, [idsKey ns collection, Decimal.ofInt id]),
        (.del, [recordKey ns collection (Decimal.ofInt id)])]) =
        ((machine.space.executeAll removed).put (idsKey ns collection)
          (.scored ((scores docs.ids).erase (Decimal.ofInt id)))).restore
            (recordKey ns collection (Decimal.ofInt id)) none := by
      rw [← Machine.performAll_space, Machine.performAll_append, Machine.performAll_cons,
        Machine.performAll_cons, Machine.performAll_nil, Machine.perform_space,
        (Keyspace.execute_del _ _).choose_spec, Machine.perform_space, hzrem, Machine.performAll_space]
    rw [hafter]
    exact keeps_removed hname hcoll hsound hkeeps hremoved hleft
  · rw [deleteWrites, hremove, Machine.performAll_within, Stmt.runAll_of_next hleave,
      Stmt.runAll_of_next hdrop, runAll_succeed Expr.evalAll_nil hret, Machine.performAll_append]
    rfl

/-- A deletion does its work. -/
theorem performs_delete (hname : isValidName collection = true) (hcoll : coll.WellFormed)
    (hsound : docs.Sound coll) (hkeeps : Keeps ns collection coll docs machine.space)
    (hparam : params[start]? = some (Decimal.ofInt id)) :
    Performs ns collection coll params (deleteFragment coll ns collection (start + 1) id).body machine
      ((Work.delete id).apply collection coll docs) := by
  rw [deleteFragment_body]
  simp only [Work.apply]
  cases hrow : docs.rows id with
  | none => exact performs_of_missing hkeeps hparam hrow .delete _
  | some row =>
    rw [if_pos (by rfl)]
    have hspace : (machine.performAll [lookUp ns collection id]).space = machine.space := by
      rw [Machine.performAll_space, (confined_lookUp ns collection id).executeAll_eq]
    have hreads := (confined_lookUp ns collection id).append (confined_readRecord ns collection id)
    have hold := (@run_declareStored params _ (keyScope ns collection id))
      (by rw [hspace, hkeeps.row_kept hcoll hsound, hrow, Option.getD_some])
      (by rw [keyScope, SortedMap.find?_insert, if_pos rfl]) "old"
    rw [← Machine.performAll_append] at hold
    generalize [lookUp ns collection id] ++ [readRecord ns collection id] = reads at hreads hold
    have hspace' : (machine.performAll reads).space = machine.space := by
      rw [Machine.performAll_space, hreads.executeAll_eq]
    obtain ⟨commands, htame, hremoved, hwrite⟩ := runAll_deleteWrites hname hcoll
      hsound (hspace'.symm ▸ hkeeps) hrow hparam
    have hrun := runAll_lookUp hkeeps hparam .delete (.declare "old" storedRecord ::
      deleteWrites coll ns collection (start + 1))
    rw [hrow, if_pos (by rfl), Stmt.runAll_of_next hold] at hrun
    have hall := hrun.trans hwrite
    rw [← Machine.performAll_append] at hall
    refine ⟨reads ++ commands, settle_of_next hall rfl,
      (hreads.tame hname hcoll fun _ => False.elim).append htame, ?_⟩
    rw [Keyspace.executeAll_append, ← Machine.performAll_space]
    exact hremoved

end DocStore.Operation
