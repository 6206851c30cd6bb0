import DocStore.Proofs.Operation.Moves
import DocStore.Proofs.Script.Policy

/-!
Nothing that operations do reaches the key of a counter but by drawing an id.

The keys that they write are literals, or begin with the stem of a collection and end with an id, or begin with
the key of an index. None of these is the key of a counter, whatever the names are. Since an id may be one that
the script has drawn itself, or come with the parameters, a policy follows both (`counterPolicy`).
-/

namespace DocStore

open DocStore.Script

namespace Layout

variable {ns other collection third : String}

/-- Operations on the collection change the key at most by drawing ids. -/
structure Aloof (ns collection key : String) : Prop where
  record : ∀ id, recordKey ns collection (Decimal.ofInt id) ≠ key
  ids : idsKey ns collection ≠ key
  index : ∀ (index : Index) (more : String), indexKey ns collection index ++ more ≠ key

/-- What follows the stem of a collection in the key of a counter. -/
theorem eq_nextid_of_stem (hns : isValidName ns = true) (hother : isValidName other = true)
    (hcollection : isValidName collection = true) (hthird : isValidName third = true) {rest : String}
    (h : recordStem ns collection ++ rest = nextIdKey other third) : rest = "nextid" := by
  have hlists := congrArg String.toList h
  simp only [recordStem, nextIdKey, String.toList_append, List.append_assoc] at hlists
  have hstems := eq_of_append_cons_eq (notMem_of_isValidName hns rfl) (notMem_of_isValidName hother rfl) hlists
  have hrests := eq_of_append_cons_eq (notMem_of_isValidName hcollection rfl) (notMem_of_isValidName hthird rfl)
    hstems.2
  exact String.toList_inj.1 hrests.2

theorem aloof_counter (hns : isValidName ns = true) (hother : isValidName other = true)
    (hcollection : isValidName collection = true) (hthird : isValidName third = true) :
    Aloof ns collection (nextIdKey other third) where
  record := by
    intro id h
    have hid := eq_nextid_of_stem hns hother hcollection hthird h
    have hmem : 'n' ∈ (Decimal.ofInt id).toList := by
      rw [hid]
      decide
    exact Decimal.notMem_ofInt (by decide) (by decide) id hmem
  ids := by
    intro h
    have hids := @eq_nextid_of_stem _ _ _ _ hns hother hcollection hthird "ids"
      (by simpa [recordStem, idsKey, String.append_assoc] using h)
    exact absurd hids (by decide)
  index := by
    intro index more h
    have hindex := @eq_nextid_of_stem _ _ _ _ hns hother hcollection hthird
      ("i:" ++ (Text.joined ":" index.names.keys ++ more)) (by
        rw [← h, indexKey, recordStem, show ":i:" = ":" ++ "i:" from rfl]
        simp only [String.append_assoc])
    have hfirst := congrArg (fun text => text.toList.head?) hindex
    simp at hfirst

/-- A key of the schema has one colon, and that of a counter two. -/
theorem ne_nextIdKey_of_word {word : String} (hns : isValidName ns = true) (hother : isValidName other = true)
    (hword : ':' ∉ word.toList) :
    ns ++ ":" ++ word ≠ nextIdKey other third := by
  intro h
  have hlists := congrArg String.toList h
  simp only [nextIdKey, String.toList_append, List.append_assoc] at hlists
  have hstems := eq_of_append_cons_eq (notMem_of_isValidName hns rfl) (notMem_of_isValidName hother rfl) hlists
  have hrest : word.toList = third.toList ++ ":nextid".toList := hstems.2
  rw [hrest] at hword
  exact hword (List.mem_append_right _ List.mem_cons_self)

theorem schemaKey_ne_nextIdKey (hns : isValidName ns = true) (hother : isValidName other = true) :
    schemaKey ns ≠ nextIdKey other third := by
  have hkey : schemaKey ns = ns ++ ":" ++ "_schema" := by
    rw [String.append_assoc]
    rfl
  rw [hkey]
  exact ne_nextIdKey_of_word hns hother (by decide)

theorem revisionKey_ne_nextIdKey (hns : isValidName ns = true) (hother : isValidName other = true) :
    revisionKey ns ≠ nextIdKey other third := by
  have hkey : revisionKey ns = ns ++ ":" ++ "_schemaRevision" := by
    rw [String.append_assoc]
    rfl
  rw [hkey]
  exact ne_nextIdKey_of_word hns hother (by decide)

end Layout

open Layout

/-- The key may be changed by counting it up only. What variables hold is no other way to it: `key` and what
begins with `ikey` are not the key, and `id` is an integer. -/
def counterPolicy (counter : String) (params : List String) : Policy where
  params := params
  held name text :=
    (name = "id" → ∃ i, text = Decimal.ofInt i) ∧ (name = "key" → text ≠ counter) ∧
      (name = "ikey" → ∀ more, text ++ more ≠ counter)
  allowed command args := counter ∈ command.changes args → command = .incr

section Policies

variable {counter : String} {params : List String}

@[simp] theorem params_counterPolicy : (counterPolicy counter params).params = params := rfl

@[simp] theorem held_counterPolicy {name text : String} :
    (counterPolicy counter params).held name text ↔
      (name = "id" → ∃ i, text = Decimal.ofInt i) ∧ (name = "key" → text ≠ counter) ∧
        (name = "ikey" → ∀ more, text ++ more ≠ counter) := Iff.rfl

theorem permits_incr (args : List Expr) : Expr.Permits (counterPolicy counter params) .incr args :=
  fun _ _ _ => rfl

/-- Of all other variables the policy asks nothing. -/
theorem put_counterPolicy (name : String) (e : Expr) (hid : name ≠ "id") (hkey : name ≠ "key")
    (hindexKey : name ≠ "ikey") : (counterPolicy counter params).inspection.put name e := by
  intro text _
  simp [hid, hkey, hindexKey]

/-- Whatever is not the key may be named. -/
theorem allows_of_not_mayGive {e : Expr} (he : ¬e.MayGive (counterPolicy counter params) counter) :
    (counterPolicy counter params).inspection.Allows e := by
  apply Inspection.Allows.of_names
  intro command args hnames texts htexts hchanged
  obtain ⟨name, hname, hgives⟩ := Command.exists_of_mem_names htexts (command.changes_subset_names texts hchanged)
  rw [hnames name hname] at hgives
  exact absurd hgives he

theorem not_mayGive_key : ¬(Expr.var "key").MayGive (counterPolicy counter params) counter :=
  fun h => h.2.1 rfl rfl

theorem not_mayGive_ikey : ¬(Expr.var "ikey").MayGive (counterPolicy counter params) counter :=
  fun h => h.2.2 rfl "" (String.append_empty)

theorem not_mayGive_holders : ¬Index.holders.MayGive (counterPolicy counter params) counter := by
  rintro ⟨first, rest, heq, hfirst, -⟩
  exact hfirst.2.2 rfl rest heq.symm

theorem mayGive_id {text : String} (h : (Expr.var "id").MayGive (counterPolicy counter params) text) :
    ∃ i, text = Decimal.ofInt i :=
  h.1 rfl

theorem mayGive_param {n : Nat} {id : Int} (hparam : params[n - 1]? = some (Decimal.ofInt id)) {text : String}
    (h : (Expr.param n).MayGive (counterPolicy counter params) text) : ∃ i, text = Decimal.ofInt i := by
  obtain ⟨-, hfound⟩ := h
  rw [params_counterPolicy, hparam] at hfound
  exact ⟨id, (Option.some.inj hfound).symm⟩

variable {ns collection : String} (h : Aloof ns collection counter)
include h

/-- What follows the stem of a collection in the key of a record is an id. -/
theorem ne_counter_of_recordKey {id : Expr}
    (hid : ∀ text, id.MayGive (counterPolicy counter params) text → ∃ i, text = Decimal.ofInt i) (text : String)
    (htext : (Operation.recordKeyExpr ns collection id).MayGive (counterPolicy counter params) text) :
    text ≠ counter := by
  obtain ⟨stem, rest, rfl, rfl, found, last, rfl, hfound, rfl⟩ := htext
  obtain ⟨i, rfl⟩ := hid found hfound
  rw [String.append_empty]
  exact h.record i

theorem allows_recordKey {id : Expr}
    (hid : ∀ text, id.MayGive (counterPolicy counter params) text → ∃ i, text = Decimal.ofInt i) :
    (counterPolicy counter params).inspection.Allows (Operation.recordKeyExpr ns collection id) := by
  apply allows_of_not_mayGive
  intro hgives
  exact ne_counter_of_recordKey h hid counter hgives rfl

theorem admits_counter : (counterPolicy counter params).inspection.Admits ns collection where
  draw := permits_incr _
  ids := by
    apply allows_of_not_mayGive
    intro hgives
    exact h.ids hgives.symm
  key := allows_of_not_mayGive not_mayGive_key
  indexKey := allows_of_not_mayGive not_mayGive_ikey
  holders := allows_of_not_mayGive not_mayGive_holders
  created := allows_recordKey h fun _ => mayGive_id
  putDraw := by
    intro text htext
    have hdrawn := htext rfl
    simpa using hdrawn
  putIndexKey := by
    rintro index text rfl
    simpa using h.index index
  putOther := put_counterPolicy

theorem admitsId_counter {n : Nat} {id : Int} (hparam : params[n - 1]? = some (Decimal.ofInt id)) :
    (counterPolicy counter params).inspection.AdmitsId ns collection (.param n) where
  stored := allows_recordKey h fun _ => mayGive_param hparam
  putKey := by
    intro text htext
    have hne := ne_counter_of_recordKey h (fun _ => mayGive_param hparam) text htext
    simpa using hne

end Policies

/-- The block of an operation does nothing to a counter but draw an id. -/
theorem Operation.passesAll_compile {ns counter : String} {schema : Schema} {op : Operation} {fragment : Fragment}
    {before after : List String}
    (haloof : ∀ name coll, schema.collection? name = some coll → Aloof ns name counter)
    (h : op.compile ns schema (before.length + 1) = .ok fragment) :
    Stmt.PassesAll (counterPolicy counter (before ++ (fragment.params ++ after))).inspection fragment.body := by
  obtain ⟨task, htask, rfl⟩ := exists_task_of_compile h
  obtain ⟨coll, work, hcoll, -, rfl⟩ := work_of_check htask
  have hhere := haloof _ coll hcoll
  apply Task.passesAll_fragment (admits_counter hhere) fun _ _ _ => trivial
  intro id rest hparams
  have hfound : (before ++ ((Task.fragment ns (before.length + 1) ⟨op.collection, coll, work⟩).params ++
      after))[before.length + 1 - 1]? = some (Decimal.ofInt id) := by
    simp [hparams]
  exact admitsId_counter hhere hfound

/-- Scripts that clients run do nothing to a counter but draw ids from it. -/
theorem Script.Program.Serves.passes {ns other third : String} {program : Program} {params : List String}
    (h : program.Serves ns params) (hns : isValidName ns = true) (hother : isValidName other = true)
    (hthird : isValidName third = true) :
    program.Passes (counterPolicy (nextIdKey other third) params).inspection := by
  cases h with
  | @operations value schema ops _ _ hschema h =>
    obtain ⟨rfl, rfl⟩ := Build.of_finish h
    have hwell := Schema.wellFormed_of_ofJson hschema
    apply (Stmt.passesAll_append _).2
    constructor
    · refine ⟨by simp [Operation.answer, put_counterPolicy], (Stmt.passesAll_iff _).2 fun s hs => ?_⟩
      obtain ⟨op, fragment, before, after, hcompile, rfl, hparams⟩ := Build.isBlock_ofList s hs
      rw [hparams]
      exact Operation.passesAll_compile (fun name coll hcoll =>
        aloof_counter hns hother (hwell.collection hcoll).1 hthird) hcompile
    · exact ⟨trivial, trivial⟩
  | setSchema params =>
    have hschema : (counterPolicy (nextIdKey other third) params).inspection.Allows (.str (schemaKey ns)) := by
      apply allows_of_not_mayGive
      intro hgives
      exact schemaKey_ne_nextIdKey hns hother hgives.symm
    have hrevision : (counterPolicy (nextIdKey other third) params).inspection.Allows (.str (revisionKey ns)) := by
      apply allows_of_not_mayGive
      intro hgives
      exact revisionKey_ne_nextIdKey hns hother hgives.symm
    have hparam : ∀ number, (counterPolicy (nextIdKey other third) params).inspection.param number :=
      fun _ => trivial
    simp [Program.Passes, setSchemaProgram, Operation.succeed, Operation.answer, hschema.first,
      hrevision.first, hparam, put_counterPolicy]

end DocStore
