import DocStore.Proofs.Operation.Writes

/-!
Creations.

An id is drawn first, and stays drawn whatever follows. Then the unique indices are asked, and only if
none of them objects the record is written: its hash, its entries in all indices, and its place among
the live ids.
-/

namespace DocStore.Operation

open DocStore.Script DocStore.Layout

variable {ns collection : String} {coll : Collection} {docs : Documents} {params : List String}
  {machine : Machine} {encoded : List (String × String)}

/-- The variables of a creation. -/
def createScope (id : Int) (row : Row) (conflicts : List String) : Scope :=
  (((∅ : Scope).insert "id" (.int id)).insert "rec" row.table).insert "conflicts"
    (.table (conflicts.map .str) [])

theorem createBody_eq (coll : Collection) (ns collection : String) (firstParam : Nat)
    (encoded : List (String × String)) :
    createBody coll ns collection firstParam encoded =
      .declare "id" (.call .incr [.str (nextIdKey ns collection)]) :: .declare "rec" (.table []) ::
        (setFields "rec" firstParam encoded ++ (.declare "conflicts" (.table []) ::
          (uniqueChecks ns collection "rec" none coll.indices.entries ++ (rejectConflicts .create ::
            .call .hset (recordKeyExpr ns collection (.var "id") :: fieldArgs "rec" encoded) ::
              (addEntries ns collection "rec" (.var "id") coll.indices.entries ++
                [.call .zadd [.str (idsKey ns collection), .var "id", .var "id"],
                  succeed .create [.var "id"]]))))) := by
  simp [createBody]

/-- Drawing an id and gathering the conflicts. -/
theorem runAll_prepareCreate (hname : isValidName collection = true) (hcoll : coll.WellFormed)
    (hsound : docs.Sound coll) (hkeeps : Keeps ns collection coll docs machine.space)
    (hdrawn : Decimal.InInt64 (docs.drawn + 1)) (hfits : (Work.create encoded).Fits coll)
    {start : Nat} (hparams : ParamsAt params start (encoded.map Prod.snd)) :
    ∃ commands, Tame (· = nextIdKey ns collection) (DataKey ns collection coll) commands ∧
      Keeps ns collection coll docs.draw (machine.space.executeAll commands) ∧
      Stmt.runAll params (createBody coll ns collection (start + 1) encoded) (machine.within ∅) =
        Stmt.runAll params (rejectConflicts .create ::
          .call .hset (recordKeyExpr ns collection (.var "id") :: fieldArgs "rec" encoded) ::
            (addEntries ns collection "rec" (.var "id") coll.indices.entries ++
              [.call .zadd [.str (idsKey ns collection), .var "id", .var "id"],
                succeed .create [.var "id"]]))
          ((machine.performAll commands).within (createScope docs.draw.drawn (SortedMap.ofList encoded)
            (docs.draw.conflicts coll.indices.entries (SortedMap.ofList encoded) none))) := by
  have hincr := Keyspace.execute_incr hdrawn hkeeps.counter
  have hdrawnKeeps : Keeps ns collection coll docs.draw
      (machine.perform .incr [nextIdKey ns collection]).space := by
    rw [Machine.perform_space, hincr]
    refine hkeeps.draw hname hcoll hsound.bounded ?_ fun key hkey => ?_
    · rw [Keyspace.find?_put_kept, if_pos rfl]
      rfl
    · rw [Keyspace.find?_put_kept, if_neg hkey]
  have hid := Stmt.run_declare ((@Expr.eval_call params (machine.within ∅))
    (.cons (.str (nextIdKey ns collection)) rfl .nil) (congrArg Prod.fst hincr)) "id"
  rw [Machine.perform_within, Machine.declare_within] at hid
  have hfields := (@runAll_setFields _ (machine.perform .incr [nextIdKey ns collection])
    (((∅ : Scope).insert "id" (.int docs.draw.drawn)).insert "rec" (Row.table ∅)))
    hparams (by rw [SortedMap.find?_insert, if_pos rfl])
  rw [SortedMap.insert_insert, ← SortedMap.ofList_eq_overlay] at hfields
  obtain ⟨commands, hconfined, hchecks⟩ := (@runAll_uniqueChecks _ _
    (createScope docs.draw.drawn (SortedMap.ofList encoded) []) "rec" _ _ _ _ none none)
    (Documents.bounded_draw hsound.bounded) (fun _ => trivial)
    (by simp [createScope, SortedMap.find?_insert]) (by decide) (by decide)
    (fun entry hentry field hfield => (SortedMap.contains_ofList _).2
      ((hfits.2 _).2 ((fits_of_mem hcoll hentry).2.1 field hfield)))
    hdrawnKeeps.index hsound.draw.unique
    (by rw [createScope, SortedMap.find?_insert, if_pos rfl])
  refine ⟨(.incr, [nextIdKey ns collection]) :: commands, ?_, ?_, ?_⟩
  · refine (@Tame.append _ _ [(.incr, [nextIdKey ns collection])]) ?_
      (hconfined.tame hname hcoll fun _ => False.elim)
    intro entry hentry
    rw [List.mem_singleton.1 hentry]
    exact .inl ⟨rfl, by simp [Command.changes, Command.isWrite, Machine.touched]⟩
  · rw [Keyspace.executeAll_cons, hconfined.executeAll_eq, ← Machine.perform_space]
    exact hdrawnKeeps
  · rw [createBody_eq, Stmt.runAll_of_next hid,
      Stmt.runAll_of_next (Stmt.run_declare (Expr.eval_table Expr.evalAll_nil) "rec"),
      Machine.declare_within]
    refine (hfields _).trans ?_
    rw [Stmt.runAll_of_next (Stmt.run_declare (Expr.eval_table Expr.evalAll_nil) "conflicts"),
      Machine.declare_within]
    refine (hchecks _).trans ?_
    rw [List.nil_append, createScope, SortedMap.insert_insert]
    rfl

section Written

variable {space : Keyspace} {id : Int} {row : Row} {entries : List (Command × List String)}

/-- The hash of a new record may be written before its entries: no index holds the record yet. -/
theorem files_written (hname : isValidName collection = true) (hcoll : coll.WellFormed)
    (hkeeps : Keeps ns collection coll docs space) (hnew : docs.rows id = none) {entry : String × Index}
    (hentry : entry ∈ coll.indices.entries) :
    Files (space.put (recordKey ns collection (Decimal.ofInt id)) (.hash row)) (indexKey ns collection entry.2)
      fun composite other => docs.Holds entry.2 composite other ∧ other ≠ id := by
  refine ((hkeeps.index entry hentry).of_find?_eq fun probe hprobe => ?_).congr
    fun composite other => and_iff_left_of_imp ?_
  · rw [Keyspace.find?_put_kept, if_neg]
    rintro rfl
    exact record_not_indexKey hname hcoll (fits_of_mem hcoll hentry) id hprobe
  · rintro ⟨found, hfound, -⟩ rfl
    rw [hnew] at hfound
    cases hfound

/-- A record that is written, has its entries in the indices and is put among the live ids is kept. -/
theorem keeps_written (hname : isValidName collection = true) (hcoll : coll.WellFormed)
    (hbounded : docs.Bounded) (hkeeps : Keeps ns collection coll docs space)
    (hafter : (docs.put id row).Bounded)
    (hfields : ∀ name, row.contains name = true ↔ coll.definition.contains name = true)
    (hentered : Confined (IndicesKey ns collection coll.indices.entries) entries)
    (hfiles : ∀ entry ∈ coll.indices.entries,
      Files ((space.put (recordKey ns collection (Decimal.ofInt id)) (.hash row)).executeAll entries)
        (indexKey ns collection entry.2) ((docs.put id row).Holds entry.2)) :
    Keeps ns collection coll (docs.put id row)
      (((space.put (recordKey ns collection (Decimal.ofInt id)) (.hash row)).executeAll entries).put
        (idsKey ns collection)
        (.scored ((scores docs.ids).insert (Decimal.ofInt id) (scoreOf (Decimal.ofInt id))))) := by
  obtain ⟨hcounter, -, hrows⟩ := find?_indices hname hcoll (List.Sublist.refl _) hentered
    (space.put (recordKey ns collection (Decimal.ofInt id)) (.hash row))
  refine hkeeps.put hbounded hafter ?_ ?_ ?_ (fun other hother => ?_) fun entry hentry => ?_
  · rw [Keyspace.find?_put_kept, if_neg (ids_ne_nextId hname).symm, hcounter,
      Keyspace.find?_put_kept, if_neg (record_ne_nextId hname id).symm]
  · rw [Keyspace.find?_put_kept, if_pos rfl]
  · rw [Keyspace.find?_put_kept, if_neg (record_ne_ids hname id), hrows, Keyspace.find?_put_kept,
      if_pos rfl, Row.kept hcoll hfields]
  · rw [Keyspace.find?_put_kept, if_neg (record_ne_ids hname other), hrows, Keyspace.find?_put_kept,
      if_neg fun heq => hother (recordKey_inj hname heq)]
  · refine (hfiles entry hentry).of_find?_eq fun probe hprobe => ?_
    rw [Keyspace.find?_put_kept, if_neg]
    rintro rfl
    exact ids_not_indexKey hname hcoll (fits_of_mem hcoll hentry) hprobe

/-- What writes a record is done to the collection's own keys. -/
theorem tame_written (hname : isValidName collection = true) (hcoll : coll.WellFormed) {args : List String}
    (hwritten : Confined (· = recordKey ns collection (Decimal.ofInt id)) [(.hset, args)])
    (hentered : Confined (IndicesKey ns collection coll.indices.entries) entries) :
    Tame (· = nextIdKey ns collection) (DataKey ns collection coll) ((.hset, args) :: (entries ++
      [(.zadd, [idsKey ns collection, Decimal.ofInt id, Decimal.ofInt id])])) := by
  refine Tame.append (hwritten.tame_record hname hcoll)
    (.append (hentered.tame hname hcoll fun _ => dataKey_indices (List.Sublist.refl _)) ?_)
  refine Confined.tame (P := (· = idsKey ns collection)) (.cons (by decide) ?_ .nil) hname hcoll ?_
  · simp [Command.changes, Command.isWrite, Machine.touched]
  · rintro _ rfl
    exact .inl rfl

end Written

/-- Writing a record that no unique index objects to. -/
theorem runAll_writeCreate (hname : isValidName collection = true) (hcoll : coll.WellFormed)
    (hsound : docs.Sound coll) (hkeeps : Keeps ns collection coll docs machine.space) {id : Int}
    (hid : 0 < id ∧ id ≤ docs.drawn) (hnew : docs.rows id = none)
    (hfits : (Work.create encoded).Fits coll)
    (hnone : docs.conflicts coll.indices.entries (SortedMap.ofList encoded) none = []) :
    ∃ commands, Tame (· = nextIdKey ns collection) (DataKey ns collection coll) commands ∧
      Keeps ns collection coll (docs.put id (SortedMap.ofList encoded))
        (machine.space.executeAll commands) ∧
      Stmt.runAll params (.call .hset (recordKeyExpr ns collection (.var "id") :: fieldArgs "rec" encoded) ::
          (addEntries ns collection "rec" (.var "id") coll.indices.entries ++
            [.call .zadd [.str (idsKey ns collection), .var "id", .var "id"],
              succeed .create [.var "id"]]))
          (machine.within (createScope id (SortedMap.ofList encoded) [])) =
        (.ok .next, ((machine.performAll commands).assign "ret" (Verdict.created id).value).within
          (createScope id (SortedMap.ofList encoded) [])) := by
  have hfields : ∀ name, (SortedMap.ofList encoded).contains name = true ↔
      coll.definition.contains name = true := fun name => (SortedMap.contains_ofList name).trans (hfits.2 name)
  have hvar : ∀ other : Machine, (other.within (createScope id (SortedMap.ofList encoded) [])).find? "id" =
      some (.int id) := fun other => by
    simp [Machine.find?_within, createScope, SortedMap.find?_insert]
  have hrec : ∀ other : Machine, (other.within (createScope id (SortedMap.ofList encoded) [])).find? "rec" =
      some (Row.table (SortedMap.ofList encoded)) := fun other => by
    simp [Machine.find?_within, createScope, SortedMap.find?_insert]
  generalize hscope : createScope id (SortedMap.ofList encoded) [] = scope at hvar hrec ⊢
  have hret : scope.contains "ret" = false := by
    rw [← hscope]
    rfl
  -- The record's hash.
  have hmissing := hkeeps.row_kept hcoll hsound id
  rw [hnew, Option.getD_none] at hmissing
  have hne : encoded ≠ [] := by
    rintro rfl
    obtain ⟨name, hdeclared⟩ := hcoll.field
    simpa using (hfits.2 name).2 hdeclared
  obtain ⟨args, hwrite, hwritten, hspace⟩ := run_writeFields
    (gives_recordKey (.var (hvar machine)) rfl ns collection) (hrec machine) (fun entry hentry => by
      rw [SortedMap.ofList_eq_overlay]
      exact SortedMap.find?_overlay_of_mem _ hfits.1 hentry) hne hmissing
  rw [Machine.perform_within] at hwrite
  rw [Machine.perform_within, Machine.within_space, Machine.within_space,
    ← SortedMap.ofList_eq_overlay] at hspace
  -- The indices.
  have hown := Documents.conflicts_own hsound.bounded hnew coll.indices.entries (SortedMap.ofList encoded)
  obtain ⟨entries, hentered, hfiles, hentries⟩ := runAll_addEntries hname hcoll (List.Sublist.refl _)
    hsound.bounded hfields (hrec _) (by decide) (Index.Steady.var (by decide) (hvar _)) rfl
    (hown.trans hnone) (fun entry hentry => by
      rw [Machine.within_space, hspace]
      exact files_written hname hcoll hkeeps hnew hentry)
  rw [Machine.within_space, hspace] at hfiles
  have hids := (find?_indices hname hcoll (List.Sublist.refl _) hentered
    (machine.space.put (recordKey ns collection (Decimal.ofInt id)) (.hash (SortedMap.ofList encoded)))).2.1
  -- The live ids.
  have hlive : (((machine.perform .hset args).performAll entries).space).find? (idsKey ns collection) =
      (Entry.scored (scores docs.ids)).kept := by
    rw [Machine.performAll_space, hspace, hids, Keyspace.find?_put_kept,
      if_neg (record_ne_ids hname id).symm]
    exact hkeeps.ids
  obtain ⟨reply, hzadd⟩ := Keyspace.execute_zadd hlive (ofText?_scoreOf id) (Decimal.ofInt id)
  have hjoin := (@Stmt.run_call params)
    (.cons (.str (idsKey ns collection)) rfl (.cons (.var (hvar _)) rfl (.cons (.var (hvar _)) rfl .nil)))
    (congrArg Prod.fst hzadd)
  rw [Machine.perform_within] at hjoin
  have hbounded := (hsound.put hid hfields (hown.trans hnone)).bounded
  refine ⟨(.hset, args) :: (entries ++
    [(.zadd, [idsKey ns collection, Decimal.ofInt id, Decimal.ofInt id])]),
    tame_written hname hcoll hwritten hentered, ?_, ?_⟩
  · have hafter : machine.space.executeAll ((.hset, args) :: (entries ++
        [(.zadd, [idsKey ns collection, Decimal.ofInt id, Decimal.ofInt id])])) =
        ((machine.space.put (recordKey ns collection (Decimal.ofInt id))
          (.hash (SortedMap.ofList encoded))).executeAll entries).put (idsKey ns collection)
          (.scored ((scores docs.ids).insert (Decimal.ofInt id) (scoreOf (Decimal.ofInt id)))) := by
      rw [← Machine.performAll_space, Machine.performAll_cons, Machine.performAll_append,
        Machine.performAll_cons, Machine.performAll_nil, Machine.perform_space, hzadd,
        Machine.performAll_space, hspace]
    rw [hafter]
    exact keeps_written hname hcoll hsound.bounded hkeeps hbounded hfields hentered hfiles
  · rw [Stmt.runAll_of_next hwrite, hentries, Machine.performAll_within, Stmt.runAll_of_next hjoin,
      runAll_succeed (Expr.evalAll_cons (Expr.Gives.var (hvar _)) Expr.evalAll_nil) hret,
      Machine.performAll_cons, Machine.performAll_append]
    rfl

/-- A creation does its work. -/
theorem performs_create (hname : isValidName collection = true) (hcoll : coll.WellFormed)
    (hsound : docs.Sound coll) (hkeeps : Keeps ns collection coll docs machine.space)
    (hdrawn : Decimal.InInt64 (docs.drawn + 1)) (hfits : (Work.create encoded).Fits coll)
    {start : Nat} (hparams : ParamsAt params start (encoded.map Prod.snd)) :
    Performs ns collection coll params (createBody coll ns collection (start + 1) encoded) machine
      ((Work.create encoded).apply collection coll docs) := by
  obtain ⟨commands, htame, hdraw, hprepare⟩ := runAll_prepareCreate hname hcoll
    hsound hkeeps hdrawn hfits hparams
  have hconflicts : ((machine.performAll commands).within (createScope docs.draw.drawn
      (SortedMap.ofList encoded) (docs.draw.conflicts coll.indices.entries (SortedMap.ofList encoded)
        none))).find? "conflicts" = some (.table ((docs.draw.conflicts coll.indices.entries
          (SortedMap.ofList encoded) none).map .str) []) := by
    simp [Machine.find?_within, createScope, SortedMap.find?_insert]
  have hreject := (@run_rejectConflicts params) hconflicts .create
  simp only [Work.apply, Work.applyCreate]
  cases hnames : docs.draw.conflicts coll.indices.entries (SortedMap.ofList encoded) none with
  | cons name rest =>
    rw [hnames] at hreject hprepare
    rw [if_neg (List.cons_ne_nil _ _), Machine.rollback_within] at hreject
    exact ⟨commands, settle_of_over (hprepare.trans (Stmt.runAll_of_over hreject)) rfl, htame, hdraw⟩
  | nil =>
    rw [hnames] at hreject hprepare
    rw [if_pos rfl] at hreject
    rw [← Machine.performAll_space] at hdraw
    obtain ⟨others, hothers, hput, hwrite⟩ := runAll_writeCreate hname hcoll hsound.draw hdraw
      ⟨by simp only [Documents.draw]; omega, Int.le_refl _⟩
      (Documents.rows_draw hsound.bounded) hfits hnames
    have hrun := hprepare.trans ((Stmt.runAll_of_next hreject).trans hwrite)
    rw [← Machine.performAll_append] at hrun
    refine ⟨commands ++ others, settle_of_next hrun rfl, htame.append hothers, ?_⟩
    rw [Keyspace.executeAll_append, ← Machine.performAll_space]
    exact hput

end DocStore.Operation
