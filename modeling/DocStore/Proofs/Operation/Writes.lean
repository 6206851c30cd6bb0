import DocStore.Proofs.Operation.Performs

/-!
Writing a record: its hash, and its entries in the indices.

The scripts of the indices run one after another and know nothing of each other. What they do together
is to take one record out of its old places and to put it into its new ones.
-/

namespace DocStore

open DocStore.Script DocStore.Layout

section Keys

variable {ns collection : String} {coll : Collection} {indices : List (String × Index)}
  {commands : List (Command × List String)}

/-- The keys of some indices of a collection. -/
def IndicesKey (ns collection : String) (indices : List (String × Index)) (probe : String) : Prop :=
  ∃ entry ∈ indices, IndexKey (indexKey ns collection entry.2) probe

theorem dataKey_indices (hsub : indices.Sublist coll.indices.entries) {probe : String}
    (h : IndicesKey ns collection indices probe) : DataKey ns collection coll probe := by
  obtain ⟨entry, hentry, hprobe⟩ := h
  exact .inr (.inr ⟨entry, hsub.subset hentry, hprobe⟩)

/-- Work on indices leaves the counter, the live ids and the records alone. -/
theorem find?_indices (hname : isValidName collection = true) (hcoll : coll.WellFormed)
    (hsub : indices.Sublist coll.indices.entries)
    (h : Confined (IndicesKey ns collection indices) commands) (space : Keyspace) :
    (space.executeAll commands).find? (nextIdKey ns collection) =
        space.find? (nextIdKey ns collection) ∧
      (space.executeAll commands).find? (idsKey ns collection) = space.find? (idsKey ns collection) ∧
      ∀ id, (space.executeAll commands).find? (recordKey ns collection (Decimal.ofInt id)) =
        space.find? (recordKey ns collection (Decimal.ofInt id)) := by
  refine ⟨h.find?_executeAll space ?_, h.find?_executeAll space ?_,
    fun id => h.find?_executeAll space ?_⟩
  · rintro ⟨entry, hentry, hprobe⟩
    exact nextId_not_indexKey hname hcoll (fits_of_mem hcoll (hsub.subset hentry)) hprobe
  · rintro ⟨entry, hentry, hprobe⟩
    exact ids_not_indexKey hname hcoll (fits_of_mem hcoll (hsub.subset hentry)) hprobe
  · rintro ⟨entry, hentry, hprobe⟩
    exact record_not_indexKey hname hcoll (fits_of_mem hcoll (hsub.subset hentry)) id hprobe

/-- What is done to the hash of a record is done to the collection's own keys. -/
theorem Script.Confined.tame_record {id : Int} (h : Confined (· = recordKey ns collection (Decimal.ofInt id)) commands)
    (hname : isValidName collection = true) (hcoll : coll.WellFormed) :
    Tame (· = nextIdKey ns collection) (DataKey ns collection coll) commands := by
  refine h.tame hname hcoll ?_
  rintro _ rfl
  exact .inr (.inl ⟨id, rfl⟩)

end Keys

/-- Machines with the same variables agree on steady expressions. -/
theorem Index.Steady.congr {params : List String} {machine other : Machine} {e : Expr} {value : Value}
    (h : Steady params machine e value) (hother : ∀ name, other.find? name = machine.find? name) :
    Steady params other e value :=
  fun found hfound => h found fun name hname => (hfound name hname).trans (hother name)

namespace Operation

section Entries

variable {ns collection : String} {coll : Collection} {docs : Documents}
  {indices : List (String × Index)} {params : List String} {machine : Machine} {map : String} {row : Row}
  {e : Expr} {id : Int}

/-- A record is taken out of indices. -/
theorem runAll_removeEntries (hname : isValidName collection = true) (hcoll : coll.WellFormed)
    (hsub : indices.Sublist coll.indices.entries) (hsound : docs.Sound coll)
    (hrow : docs.rows id = some row) (hmap : machine.find? map = some row.table)
    (hlocal : map ∉ Index.locals) (he : Index.Steady params machine e (.str (Decimal.ofInt id)))
    (hfiles : ∀ entry ∈ indices,
      Files machine.space (indexKey ns collection entry.2) (docs.Holds entry.2)) :
    ∃ commands, Confined (IndicesKey ns collection indices) commands ∧
      (∀ entry ∈ indices, Files (machine.space.executeAll commands) (indexKey ns collection entry.2)
        fun composite other => docs.Holds entry.2 composite other ∧ other ≠ id) ∧
      ∀ rest, Stmt.runAll params (removeEntries ns collection map e indices ++ rest) machine =
        Stmt.runAll params rest (machine.performAll commands) := by
  refine (@runAll_scripts _ _ _ (fun index => index.removeEntry (indexKey ns collection index) map e)
    _ docs.Holds fun index composite other => docs.Holds index composite other ∧ other ≠ id)
    (fun entry hentry other hother hfiles => ?_) (indices_apart hname hcoll hsub) hfiles
  obtain ⟨commands, hrun, hconfined, hafter⟩ := entry.2.run_removeEntry
    ((hother map).trans hmap) hlocal (hsound.index_fields hcoll hrow (hsub.subset hentry))
    (he.congr hother) hfiles
    (fun hunique => hsound.unique entry (hsub.subset hentry) hunique (entry.2.compositeOf row))
  refine ⟨commands, hrun, hconfined, hafter.congr fun composite holder => ?_⟩
  exact (Documents.holds_drop hrow).symm

/-- A record is put into indices that do not hold it and do not object. -/
theorem runAll_addEntries (hname : isValidName collection = true) (hcoll : coll.WellFormed)
    (hsub : indices.Sublist coll.indices.entries) (hbounded : docs.Bounded)
    (hfields : ∀ name, row.contains name = true ↔ coll.definition.contains name = true)
    (hmap : machine.find? map = some row.table) (hlocal : map ∉ Index.locals) {value : Value}
    (he : Index.Steady params machine e value) (htext : argumentText value = .ok (Decimal.ofInt id))
    (hnone : docs.conflicts indices row (some id) = [])
    (hfiles : ∀ entry ∈ indices, Files machine.space (indexKey ns collection entry.2)
      fun composite other => docs.Holds entry.2 composite other ∧ other ≠ id) :
    ∃ commands, Confined (IndicesKey ns collection indices) commands ∧
      (∀ entry ∈ indices, Files (machine.space.executeAll commands) (indexKey ns collection entry.2)
        ((docs.put id row).Holds entry.2)) ∧
      ∀ rest, Stmt.runAll params (addEntries ns collection map e indices ++ rest) machine =
        Stmt.runAll params rest (machine.performAll commands) := by
  refine (@runAll_scripts _ _ _ fun index => index.addEntry (indexKey ns collection index) map e)
    (H := fun index composite other => docs.Holds index composite other ∧ other ≠ id)
    (fun entry hentry other hother hfiles => ?_) (indices_apart hname hcoll hsub) hfiles
  have hindex := fits_of_mem hcoll (hsub.subset hentry)
  obtain ⟨commands, hrun, hconfined, hafter⟩ := entry.2.run_addEntry
    ((hother map).trans hmap) hlocal (fun field hfield => (hfields _).2 (hindex.2.1 field hfield))
    (he.congr hother) htext hfiles (fun h => h.2 rfl) (fun hunique hcomplete holder hholder => by
      have hown := (Documents.conflicts_eq_nil hbounded).1 hnone entry hentry hunique hcomplete
        holder hholder.1
      exact hholder.2 (Option.some.inj hown))
  exact ⟨commands, hrun, hconfined, hafter.congr fun composite holder => Documents.holds_put⟩

end Entries

/-- The fields given are written over a record's hash. -/
theorem run_writeFields {params : List String} {machine : Machine} {map key : String} {row old : Row}
    {e : Expr} {encoded : List (String × String)} (he : e.Gives params machine (.str key))
    (hmap : machine.find? map = some row.table)
    (hrow : ∀ entry ∈ encoded, row.find? entry.1 = some entry.2) (hne : encoded ≠ [])
    (hold : machine.space.find? key = (Entry.hash old).kept) :
    ∃ args, (Stmt.call .hset (e :: fieldArgs map encoded)).run params machine =
        (.ok .next, machine.perform .hset args) ∧
      Confined (· = key) [(.hset, args)] ∧
      (machine.perform .hset args).space = machine.space.put key (.hash (old.overlay encoded)) := by
  obtain ⟨first, rest, rfl⟩ := List.exists_cons_of_ne_nil hne
  obtain ⟨reply, hhset⟩ := Keyspace.execute_hset hold first rest
  refine ⟨_, Stmt.run_call (.cons he rfl (giveTexts_fieldArgs hmap hrow)) (congrArg Prod.fst hhset),
    .cons (by decide) (by simp [Command.changes, Command.isWrite, Machine.touched]) .nil, ?_⟩
  rw [Machine.perform_space, hhset]

end Operation

end DocStore
