import DocStore.Proofs.Operation.Writes
import Mathlib.Data.List.Pairwise

/-!
Updates.

The record is read twice, and the new values are laid over the second copy. Only the indices with a field
among those that change are asked, and only in these the record moves; in all others its composite
value stays what it was.
-/

namespace DocStore.Operation

open DocStore.Script DocStore.Layout

variable {ns collection : String} {coll : Collection} {docs : Documents} {params : List String}
  {machine : Machine} {changes : List (String × String)} {id : Int} {row : Row} {start : Nat}

/-- The variables of an update. -/
def updateScope (ns collection : String) (id : Int) (old new : Row) (conflicts : List String) : Scope :=
  (((keyScope ns collection id).insert "old" old.table).insert "new" new.table).insert "conflicts"
    (.table (conflicts.map .str) [])

/-- The part of an update that writes. -/
def updateWrites (coll : Collection) (ns collection : String) (firstParam : Nat)
    (changes : List (String × String)) : List Stmt :=
  removeEntries ns collection "old" (.param firstParam) (touchedBy coll changes) ++
    (addEntries ns collection "new" (.param firstParam) (touchedBy coll changes) ++
      [.call .hset (.var "key" :: fieldArgs "new" changes), succeed .update [.int 1]])

theorem updateBody_eq (coll : Collection) (ns collection : String) (firstParam : Nat)
    (changes : List (String × String)) :
    updateBody coll ns collection firstParam changes =
      .declare "key" (recordKeyExpr ns collection (.param firstParam)) ::
        rejectIfMissing .update (.var "key") :: .declare "old" storedRecord ::
          .declare "new" storedRecord :: (setFields "new" (firstParam + 1) changes ++
            (.declare "conflicts" (.table []) ::
              (uniqueChecks ns collection "new" (some (.param firstParam)) (touchedBy coll changes) ++
                (rejectConflicts .update :: updateWrites coll ns collection firstParam changes)))) := by
  simp [updateBody, updateWrites]

theorem touchedBy_sublist (coll : Collection) (changes : List (String × String)) :
    (touchedBy coll changes).Sublist coll.indices.entries :=
  List.filter_sublist

/-- The record after an update has the declared fields. -/
theorem fields_overlay (hsound : docs.Sound coll) (hrow : docs.rows id = some row)
    (hfits : (Work.update id changes).Fits coll) (name : String) :
    (row.overlay changes).contains name = true ↔ coll.definition.contains name = true := by
  rw [Work.contains_overlay fun other hother => (hsound.fields id row hrow other).2
    (hfits.2.2 other hother)]
  exact hsound.fields id row hrow name

/-- Reading the record and gathering the conflicts. -/
theorem runAll_prepareUpdate (hcoll : coll.WellFormed)
    (hsound : docs.Sound coll) (hkeeps : Keeps ns collection coll docs machine.space)
    (hrow : docs.rows id = some row) (hfits : (Work.update id changes).Fits coll)
    (hparams : ParamsAt params start (Decimal.ofInt id :: changes.map Prod.snd)) :
    ∃ commands, Confined (fun _ => False) commands ∧
      Stmt.runAll params (updateBody coll ns collection (start + 1) changes) (machine.within ∅) =
        Stmt.runAll params (rejectConflicts .update :: updateWrites coll ns collection (start + 1) changes)
          ((machine.performAll commands).within (updateScope ns collection id row (row.overlay changes)
            (docs.conflicts (touchedBy coll changes) (row.overlay changes) (some id)))) := by
  have hkept : machine.space.find? (recordKey ns collection (Decimal.ofInt id)) =
      (Entry.hash row).kept := by
    rw [hkeeps.row_kept hcoll hsound, hrow, Option.getD_some]
  have hspace : ∀ {commands}, Confined (fun _ => False) commands →
      (machine.performAll commands).space = machine.space := fun h => by
    rw [Machine.performAll_space, h.executeAll_eq]
  -- Both copies of the record.
  have hlook := confined_lookUp ns collection id
  have hread := confined_readRecord ns collection id
  have hfirst := (@run_declareStored params _ (keyScope ns collection id))
    ((hspace hlook).symm ▸ hkept) (by rw [keyScope, SortedMap.find?_insert, if_pos rfl]) "old"
  rw [← Machine.performAll_append] at hfirst
  have hsecond := (@run_declareStored params _
    ((keyScope ns collection id).insert "old" row.table))
    ((hspace (hlook.append hread)).symm ▸ hkept) (by simp [keyScope, SortedMap.find?_insert]) "new"
  rw [← Machine.performAll_append] at hsecond
  have hreads := (hlook.append hread).append hread
  generalize hcopied : machine.performAll (([lookUp ns collection id] ++ [readRecord ns collection id]) ++
    [readRecord ns collection id]) = copied at hsecond
  have hcopiedSpace : copied.space = machine.space := hcopied ▸ hspace hreads
  -- The new values.
  have hfields := (@runAll_setFields _ copied
    (((keyScope ns collection id).insert "old" row.table).insert "new" row.table))
    hparams.tail (by rw [SortedMap.find?_insert, if_pos rfl])
  rw [SortedMap.insert_insert] at hfields
  -- The conflicts.
  obtain ⟨commands, hconfined, hchecks⟩ := (@runAll_uniqueChecks _ _
    (updateScope ns collection id row (row.overlay changes) []) "new" _ _ _ _
    (some (.param (start + 1))) (some id)) hsound.bounded
    (fun other => Index.Steady.param other hparams.head)
    (by simp [updateScope, SortedMap.find?_insert]) (by decide) (by decide)
    (fun entry hentry field hfield => (fields_overlay hsound hrow hfits _).2
      ((fits_of_mem hcoll ((touchedBy_sublist coll changes).subset hentry)).2.1 field hfield))
    (fun entry hentry => hcopiedSpace ▸ hkeeps.index entry
      ((touchedBy_sublist coll changes).subset hentry))
    (fun entry hentry => hsound.unique entry ((touchedBy_sublist coll changes).subset hentry))
    (by rw [updateScope, SortedMap.find?_insert, if_pos rfl])
  refine ⟨_, hreads.append hconfined, ?_⟩
  rw [updateBody_eq, runAll_lookUp hkeeps hparams.head, hrow, if_pos (by rfl),
    Stmt.runAll_of_next hfirst, Stmt.runAll_of_next hsecond, hfields,
    Stmt.runAll_of_next (Stmt.run_declare (Expr.eval_table Expr.evalAll_nil) "conflicts"),
    Machine.declare_within, Machine.performAll_append, hcopied]
  refine (hchecks _).trans ?_
  rw [List.nil_append, updateScope, SortedMap.insert_insert]
  rfl

/-- An index that an update does not touch keeps what it holds. -/
theorem files_untouched (hname : isValidName collection = true) (hcoll : coll.WellFormed)
    (hkeeps : Keeps ns collection coll docs machine.space) (hrow : docs.rows id = some row)
    {commands : List (Command × List String)} {entry : String × Index}
    (hconfined : Confined (IndicesKey ns collection (touchedBy coll changes)) commands)
    (hentry : entry ∈ coll.indices.entries) (huntouched : entry.2.touches (changes.map Prod.fst) = false) :
    Files (machine.space.executeAll commands) (indexKey ns collection entry.2)
      ((docs.put id (row.overlay changes)).Holds entry.2) := by
  refine ((hkeeps.index entry hentry).of_find?_eq fun probe hprobe => ?_).congr fun composite other =>
    Documents.holds_put_of_same hrow (Index.find?_untouched huntouched)
  refine hconfined.find?_executeAll _ ?_
  rintro ⟨other, hother, hprobe'⟩
  obtain ⟨hmem, htouched⟩ := List.mem_filter.1 hother
  have hne : entry ≠ other := by
    rintro rfl
    rw [huntouched] at htouched
    cases htouched
  have hsymm : Std.Symm fun a b : String × Index => a.2.names ≠ b.2.names := ⟨fun _ _ h => h.symm⟩
  have hnames := hcoll.2.2.2.2.forall hentry hmem hne
  exact indexKey_apart hname hcoll (fits_of_mem hcoll hentry) (fits_of_mem hcoll hmem) hnames hprobe hprobe'

/-- A record that has moved in the touched indices and is written over is kept. -/
theorem keeps_moved (hname : isValidName collection = true) (hcoll : coll.WellFormed)
    (hsound : docs.Sound coll) (hkeeps : Keeps ns collection coll docs machine.space)
    (hrow : docs.rows id = some row) (hfits : (Work.update id changes).Fits coll)
    (hafter : (docs.put id (row.overlay changes)).Bounded) {moved : List (Command × List String)}
    (hmoved : Confined (IndicesKey ns collection (touchedBy coll changes)) moved)
    (hfiles : ∀ entry ∈ touchedBy coll changes, Files (machine.space.executeAll moved)
      (indexKey ns collection entry.2) ((docs.put id (row.overlay changes)).Holds entry.2)) :
    Keeps ns collection coll (docs.put id (row.overlay changes))
      ((machine.space.executeAll moved).put (recordKey ns collection (Decimal.ofInt id))
        (.hash (row.overlay changes))) := by
  obtain ⟨hcounter, hids, hrows⟩ := find?_indices hname hcoll (touchedBy_sublist coll changes) hmoved machine.space
  have hlive : ∀ other, other ∈ docs.ids ↔ other ∈ docs.ids ∨ other = id := fun other => by
    refine ⟨.inl, ?_⟩
    rintro (hother | rfl)
    · exact hother
    · exact (Documents.mem_ids hsound.bounded).2 ⟨row, hrow⟩
  refine hkeeps.put hsound.bounded hafter ?_ ?_ ?_ (fun other hother => ?_) fun entry hentry => ?_
  · rw [Keyspace.find?_put_kept, if_neg (record_ne_nextId hname id).symm, hcounter]
  · rw [Keyspace.find?_put_kept, if_neg (record_ne_ids hname id).symm, hids, hkeeps.ids,
      ← scores_insert hlive]
  · rw [Keyspace.find?_put_kept, if_pos rfl, Row.kept hcoll (fields_overlay hsound hrow hfits)]
  · rw [Keyspace.find?_put_kept, if_neg fun heq => hother (recordKey_inj hname heq), hrows]
  · have hindex : Files (machine.space.executeAll moved) (indexKey ns collection entry.2)
        ((docs.put id (row.overlay changes)).Holds entry.2) := by
      cases htouched : entry.2.touches (changes.map Prod.fst) with
      | true => exact hfiles entry (List.mem_filter.2 ⟨hentry, htouched⟩)
      | false => exact files_untouched hname hcoll hkeeps hrow hmoved hentry htouched
    refine hindex.of_find?_eq fun probe hprobe => ?_
    rw [Keyspace.find?_put_kept, if_neg]
    rintro rfl
    exact record_not_indexKey hname hcoll (fits_of_mem hcoll hentry) id hprobe

/-- Writing an update that no unique index objects to. -/
theorem runAll_writeUpdate (hname : isValidName collection = true) (hcoll : coll.WellFormed)
    (hsound : docs.Sound coll) (hkeeps : Keeps ns collection coll docs machine.space)
    (hrow : docs.rows id = some row) (hfits : (Work.update id changes).Fits coll)
    (hparams : ParamsAt params start (Decimal.ofInt id :: changes.map Prod.snd))
    (hnone : docs.conflicts (touchedBy coll changes) (row.overlay changes) (some id) = []) :
    ∃ commands, Tame (· = nextIdKey ns collection) (DataKey ns collection coll) commands ∧
      Keeps ns collection coll (docs.put id (row.overlay changes)) (machine.space.executeAll commands) ∧
      Stmt.runAll params (updateWrites coll ns collection (start + 1) changes)
          (machine.within (updateScope ns collection id row (row.overlay changes) [])) =
        (.ok .next, ((machine.performAll commands).assign "ret" Verdict.updated.value).within
          (updateScope ns collection id row (row.overlay changes) [])) := by
  have hsub := touchedBy_sublist coll changes
  have hfields := fields_overlay hsound hrow hfits
  have hold : ∀ other : Machine, (other.within (updateScope ns collection id row
      (row.overlay changes) [])).find? "old" = some row.table := fun other => by
    simp [Machine.find?_within, updateScope, SortedMap.find?_insert]
  have hnew : ∀ other : Machine, (other.within (updateScope ns collection id row
      (row.overlay changes) [])).find? "new" = some (Row.table (row.overlay changes)) := fun other => by
    simp [Machine.find?_within, updateScope, SortedMap.find?_insert]
  have hkey : ∀ other : Machine, (other.within (updateScope ns collection id row
      (row.overlay changes) [])).find? "key" =
        some (.str (recordKey ns collection (Decimal.ofInt id))) := fun other => by
    simp [Machine.find?_within, updateScope, keyScope, SortedMap.find?_insert]
  generalize hscope : updateScope ns collection id row (row.overlay changes) [] = scope
    at hold hnew hkey ⊢
  have hret : scope.contains "ret" = false := by
    rw [← hscope]
    rfl
  -- The indices.
  obtain ⟨removed, hremoved, hleft, hremove⟩ := runAll_removeEntries hname hcoll hsub hsound hrow
    (hold machine) (by decide)
    (Index.Steady.param _ hparams.head) fun entry hentry => hkeeps.index entry (hsub.subset hentry)
  obtain ⟨added, hadded, hfiles, hadd⟩ := (@runAll_addEntries _ _ _ _ _ _
    ((machine.performAll removed).within scope)) hname hcoll hsub hsound.bounded hfields (hnew _)
    (by decide) (Index.Steady.param _ hparams.head) rfl hnone fun entry hentry => by
      rw [Machine.within_space, Machine.performAll_space]
      exact hleft entry hentry
  rw [Machine.within_space, Machine.performAll_space, ← Keyspace.executeAll_append] at hfiles
  have hmoved := hremoved.append hadded
  have hrows := (find?_indices hname hcoll hsub hmoved machine.space).2.2
  -- The record's hash.
  have hkept : ((machine.performAll (removed ++ added)).within scope).space.find?
      (recordKey ns collection (Decimal.ofInt id)) = (Entry.hash row).kept := by
    rw [Machine.within_space, Machine.performAll_space, hrows, hkeeps.row_kept hcoll hsound, hrow,
      Option.getD_some]
  obtain ⟨args, hwrite, hwritten, hspace⟩ := (@run_writeFields params) (.var (hkey _)) (hnew _)
    (fun entry hentry => SortedMap.find?_overlay_of_mem _ hfits.2.1 hentry) hfits.1 hkept
  rw [Machine.perform_within] at hwrite
  rw [Machine.perform_within, Machine.within_space, Machine.within_space, Machine.performAll_space]
    at hspace
  refine ⟨(removed ++ added) ++ [(.hset, args)], ?_, ?_, ?_⟩
  · exact (hmoved.tame hname hcoll fun _ => dataKey_indices hsub).append (hwritten.tame_record hname hcoll)
  · have hafter : machine.space.executeAll ((removed ++ added) ++ [(.hset, args)]) =
        (machine.space.executeAll (removed ++ added)).put (recordKey ns collection (Decimal.ofInt id))
          (.hash (row.overlay changes)) := by
      rw [← Machine.performAll_space, Machine.performAll_append, Machine.performAll_cons,
        Machine.performAll_nil, hspace]
    have hbounded : (docs.put id (row.overlay changes)).Bounded :=
      (hsound.put (hsound.bounded id row hrow) hfields
        ((Documents.conflicts_touched hsound hrow).trans hnone)).bounded
    rw [hafter]
    exact keeps_moved hname hcoll hsound hkeeps hrow hfits hbounded hmoved hfiles
  · rw [updateWrites, hremove, Machine.performAll_within, hadd, Machine.performAll_within,
      ← Machine.performAll_append, Stmt.runAll_of_next hwrite,
      runAll_succeed (Expr.evalAll_cons (Expr.Gives.int 1) Expr.evalAll_nil) hret,
      Machine.performAll_append _ (removed ++ added)]
    rfl

/-- An update does its work. -/
theorem performs_update (hname : isValidName collection = true) (hcoll : coll.WellFormed)
    (hsound : docs.Sound coll) (hkeeps : Keeps ns collection coll docs machine.space)
    (hfits : (Work.update id changes).Fits coll)
    (hparams : ParamsAt params start (Decimal.ofInt id :: changes.map Prod.snd)) :
    Performs ns collection coll params (updateBody coll ns collection (start + 1) changes) machine
      ((Work.update id changes).apply collection coll docs) := by
  simp only [Work.apply, Work.applyUpdate]
  cases hrow : docs.rows id with
  | none =>
    rw [updateBody_eq]
    exact performs_of_missing hkeeps hparams.head hrow .update _
  | some row =>
    obtain ⟨commands, hconfined, hprepare⟩ := runAll_prepareUpdate hcoll hsound
      hkeeps hrow hfits hparams
    have htame := (@Confined.tame ns _ _ _ _ hconfined) hname hcoll fun _ => False.elim
    have hspace : (machine.performAll commands).space = machine.space := by
      rw [Machine.performAll_space, hconfined.executeAll_eq]
    have hkeeps' := hspace.symm ▸ hkeeps
    simp only
    rw [Documents.conflicts_touched hsound hrow, ← touchedBy]
    have hconflicts : ((machine.performAll commands).within (updateScope ns collection id row
        (row.overlay changes) (docs.conflicts (touchedBy coll changes) (row.overlay changes)
          (some id)))).find? "conflicts" = some (.table ((docs.conflicts (touchedBy coll changes)
            (row.overlay changes) (some id)).map .str) []) := by
      simp [Machine.find?_within, updateScope, SortedMap.find?_insert]
    have hreject := (@run_rejectConflicts params) hconflicts .update
    cases hnames : docs.conflicts (touchedBy coll changes) (row.overlay changes) (some id) with
    | cons name rest =>
      rw [hnames] at hreject hprepare
      rw [if_neg (List.cons_ne_nil _ _), Machine.rollback_within] at hreject
      refine ⟨commands, settle_of_over (hprepare.trans (Stmt.runAll_of_over hreject)) rfl, htame, ?_⟩
      rw [← Machine.performAll_space]
      exact hkeeps'
    | nil =>
      rw [hnames] at hreject hprepare
      rw [if_pos rfl] at hreject
      obtain ⟨others, hothers, hput, hwrite⟩ := runAll_writeUpdate hname hcoll hsound
        hkeeps' hrow hfits hparams hnames
      have hrun := hprepare.trans ((Stmt.runAll_of_next hreject).trans hwrite)
      rw [← Machine.performAll_append] at hrun
      refine ⟨commands ++ others, settle_of_next hrun rfl, htame.append hothers, ?_⟩
      rw [Keyspace.executeAll_append, ← Machine.performAll_space]
      exact hput

end DocStore.Operation
