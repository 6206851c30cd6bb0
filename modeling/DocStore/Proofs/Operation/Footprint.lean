import DocStore.Proofs.Operation.Blocks
import DocStore.Proofs.Operation.Inspection
import DocStore.Proofs.Script.Footprint

/-!
Operations reach no other keys than those of documents: counters, ids, records and indices, all of which
begin with the stem of a collection. What a schema's collections are called does not matter for that, nor
what the keyspace holds.
-/

namespace DocStore

open DocStore.Script DocStore.Layout

/-- The key begins with the stem of a collection. -/
def Layout.DocumentKey (ns key : String) : Prop :=
  ∃ collection rest, key = Layout.recordStem ns collection ++ rest

namespace Layout

variable {ns : String} (collection : String)

theorem rooted_documentKey (ns : String) : Rooted (DocumentKey ns) := by
  rintro key more ⟨collection, rest, rfl⟩
  exact ⟨collection, rest ++ more, by rw [String.append_assoc]⟩

theorem documentKey_nextIdKey : DocumentKey ns (nextIdKey ns collection) :=
  ⟨collection, "nextid", by simp [nextIdKey, recordStem, String.append_assoc]⟩

theorem documentKey_idsKey : DocumentKey ns (idsKey ns collection) :=
  ⟨collection, "ids", by simp [idsKey, recordStem, String.append_assoc]⟩

theorem documentKey_recordStem : DocumentKey ns (recordStem ns collection) :=
  ⟨collection, "", by simp⟩

theorem documentKey_indexKey (index : Index) : DocumentKey ns (indexKey ns collection index) :=
  ⟨collection, "i:" ++ Text.joined ":" index.names.keys, by
    rw [indexKey, recordStem, show ":i:" = ":" ++ "i:" from rfl]
    simp only [String.append_assoc]⟩

end Layout

section Admitted

variable {ns : String} (collection : String)

/-- Whatever names keys of documents may be named. -/
theorem allows_naming {key : Expr} (hkey : key.IsKey (DocumentKey ns)) :
    (Inspection.naming (DocumentKey ns)).Allows key := by
  apply Inspection.Allows.of_names
  intro command args hnames name hname
  rw [hnames name hname]
  exact hkey

theorem admits_naming : (Inspection.naming (DocumentKey ns)).Admits ns collection where
  draw := (@allows_naming ns (.str (nextIdKey ns collection)) (documentKey_nextIdKey collection)).alone .incr
  ids := allows_naming (documentKey_idsKey collection)
  key := allows_naming (.inl rfl)
  indexKey := allows_naming (.inr rfl)
  holders := allows_naming (.inr rfl)
  created := allows_naming (documentKey_recordStem collection)
  putDraw := by
    intro hname
    simp at hname
  putIndexKey := fun index _ => documentKey_indexKey collection index
  putOther := by
    rintro name e - hkey hindexKey (rfl | rfl)
    · exact absurd rfl hkey
    · exact absurd rfl hindexKey

theorem admitsId_naming (id : Expr) : (Inspection.naming (DocumentKey ns)).AdmitsId ns collection id where
  stored := allows_naming (documentKey_recordStem collection)
  putKey := fun _ => documentKey_recordStem collection

end Admitted

/-- An operation reaches keys of documents only. -/
theorem Operation.withinAll_compile {ns : String} {schema : Schema} {op : Operation} {firstParam : Nat}
    {fragment : Operation.Fragment} (h : op.compile ns schema firstParam = .ok fragment) :
    Stmt.WithinAll (DocumentKey ns) fragment.body := by
  obtain ⟨task, -, rfl⟩ := exists_task_of_compile h
  apply Stmt.withinAll_of_passesAll
  exact Task.passesAll_fragment (admits_naming task.collection) (fun _ _ _ => trivial)
    fun _ _ _ => admitsId_naming task.collection _

namespace Build

variable {ns : String} {schema : Schema}

/-- The script of operations reaches keys of documents only. -/
theorem within_finish {ops : List Operation} {program : Program} {params : List String}
    (h : (ofList ns schema ops).finish = .ok (some (program, params))) :
    program.Within (DocumentKey ns) := by
  obtain ⟨rfl, -⟩ := of_finish h
  have hbody : Stmt.WithinAll (DocumentKey ns) (ofList ns schema ops).body := by
    apply (Stmt.withinAll_iff _).2
    intro s hs
    obtain ⟨op, fragment, before, after, hcompile, rfl, -⟩ := isBlock_ofList s hs
    exact Operation.withinAll_compile hcompile
  apply (Stmt.withinAll_append _).2
  constructor
  · exact ⟨by simp [Operation.answer], hbody⟩
  · exact ⟨trivial, trivial⟩

end Build

end DocStore
