import DocStore.Proofs.Keyspace.Agreement
import DocStore.Proofs.Operation.Check
import DocStore.Proofs.Script.Inspection

/-!
What operations pass.

The calls of operations name few keys, few variables are put to use in them, and parameters are looked up only
where the operation has put its own. An inspection that admits these (`Inspection.Admits`), and the key of the
record whose id is given, is passed by the block of every operation (`Task.passesAll_fragment`), and so by every
script of operations.
-/

namespace DocStore

open DocStore.Script DocStore.Layout

namespace Script.Inspection

/-- A command may name the key that the expression gives, if it names no other. -/
def Allows (inspection : Inspection) (key : Expr) : Prop :=
  ∀ command rest, (command = .del ∨ command = .exists → rest = []) → inspection.call command (key :: rest)

namespace Allows

variable {inspection : Inspection} {key : Expr}

/-- It is enough to look at what a command names. -/
theorem of_names (h : ∀ command args, (∀ name ∈ command.names args, name = key) → inspection.call command args) :
    inspection.Allows key := by
  intro command rest hrest
  apply h
  intro name hname
  exact Command.eq_of_mem_names hrest hname

variable (h : inspection.Allows key) {command : Command}
include h

theorem first (rest : List Expr) (hdel : command ≠ .del) (hexists : command ≠ .exists) :
    inspection.call command (key :: rest) := by
  apply h
  rintro (rfl | rfl)
  · exact absurd rfl hdel
  · exact absurd rfl hexists

theorem alone (command : Command) : inspection.call command [key] :=
  h command [] fun _ => rfl

end Allows

variable (inspection : Inspection) (ns collection : String)

/-- The inspection admits the keys of a collection, and what operations on it keep in variables. -/
structure Admits : Prop where
  draw : inspection.call .incr [.str (nextIdKey ns collection)]
  ids : inspection.Allows (.str (idsKey ns collection))
  key : inspection.Allows (.var "key")
  indexKey : inspection.Allows (.var "ikey")
  holders : inspection.Allows Index.holders
  created : inspection.Allows (Operation.recordKeyExpr ns collection (.var "id"))
  putDraw : inspection.put "id" (.call .incr [.str (nextIdKey ns collection)])
  putIndexKey : ∀ index : Index, inspection.put "ikey" (.str (Layout.indexKey ns collection index))
  putOther : ∀ name e, name ≠ "id" → name ≠ "key" → name ≠ "ikey" → inspection.put name e

/-- The inspection admits the key of the record under an id that is given. -/
structure AdmitsId (id : Expr) : Prop where
  stored : inspection.Allows (Operation.recordKeyExpr ns collection id)
  putKey : inspection.put "key" (Operation.recordKeyExpr ns collection id)

/-- The inspection admits as many parameters from the given number on. -/
def AdmitsParams (firstParam count : Nat) : Prop :=
  ∀ number, firstParam ≤ number → number < firstParam + count → inspection.param number

end Script.Inspection

variable {inspection : Inspection} {ns collection : String}

namespace Index

variable {map : String} {id : Expr} (index : Index)

theorem passesAll_delimited {es : List Expr} (h : ∀ e ∈ es, e.Passes inspection) :
    Expr.PassesAll inspection (delimited es) := by
  fun_induction delimited es with
  | case1 => trivial
  | case2 part => exact ⟨h part List.mem_cons_self, trivial⟩
  | case3 part next rest ih =>
    exact ⟨h part List.mem_cons_self, trivial, ih fun e he => h e (List.mem_cons_of_mem _ he)⟩

theorem passes_composite (map : String) : (index.composite map).Passes inspection := by
  apply passesAll_delimited
  intro e he
  obtain ⟨field, _, rfl⟩ := List.mem_map.1 he
  unfold part
  split <;> trivial

theorem passes_every {conditions : List Expr} (h : ∀ e ∈ conditions, e.Passes inspection) :
    (every conditions).Passes inspection := by
  unfold every
  split
  · exact h _ List.mem_cons_self
  · exact (Expr.passesAll_iff inspection).2 h

theorem passes_nonNull (map : String) : ∀ e ∈ index.nonNull map, e.Passes inspection := by
  intro e he
  obtain ⟨field, _, rfl⟩ := List.mem_map.1 he
  exact ⟨trivial, trivial⟩

theorem passes_holders : holders.Passes inspection := ⟨trivial, trivial, trivial, trivial⟩

section Admitted

variable (h : inspection.Admits ns collection)
include h

theorem passesAll_declareKeys (map : String) :
    Stmt.PassesAll inspection (index.declareKeys (indexKey ns collection index) map) := by
  have hcomposite := @passes_composite inspection index map
  simp [declareKeys, h.putIndexKey, h.putOther, hcomposite]

theorem passes_holder : holder.Passes inspection := by
  have hcall := @Inspection.Allows.first _ _ h.indexKey .hget [.var "comp"] (by decide) (by decide)
  exact ⟨hcall, trivial, trivial, trivial⟩

theorem passes_checkUnique (map name : String) {own : Option Expr} (hown : ∀ id ∈ own, id.Passes inspection) :
    (index.checkUnique name (indexKey ns collection index) map own).Passes inspection := by
  have hevery : ∀ other : List Expr, (∀ e ∈ other, e.Passes inspection) →
      (every (index.nonNull map ++ [.var "holder"] ++ other)).Passes inspection := by
    intro other hother
    apply passes_every
    intro e he
    simp only [List.mem_append, List.mem_singleton] at he
    rcases he with (he | rfl) | he
    · exact index.passes_nonNull map e he
    · trivial
    · exact hother e he
  apply (Stmt.passesAll_append inspection).2
  constructor
  · exact index.passesAll_declareKeys h map
  · refine ⟨⟨passes_holder h, h.putOther _ _ (by decide) (by decide) (by decide)⟩,
      ⟨hevery _ ?_, ⟨trivial, trivial⟩, trivial⟩, trivial⟩
    cases own with
    | none => exact fun e he => absurd he List.not_mem_nil
    | some id =>
      intro e he
      rw [List.mem_singleton.1 he]
      exact ⟨trivial, hown id rfl⟩

theorem passes_addEntry (map : String) (hid : id.Passes inspection) :
    (index.addEntry (indexKey ns collection index) map id).Passes inspection := by
  have hevery := @passes_every inspection _ (index.passes_nonNull map)
  have hholder := passes_holder h
  unfold addEntry
  split
  · apply (Stmt.passesAll_append inspection).2
    constructor
    · exact index.passesAll_declareKeys h map
    · simp [Stmt.when, hevery, hid, h.indexKey.first]
  · apply (Stmt.passesAll_append inspection).2
    constructor
    · exact index.passesAll_declareKeys h map
    · simp [hid, hholder, passes_holders, h.indexKey.first, h.holders.first, h.putOther]

theorem passes_removeEntry (map : String) (hid : id.Passes inspection) :
    (index.removeEntry (indexKey ns collection index) map id).Passes inspection := by
  have hholder := passes_holder h
  unfold removeEntry
  split
  · apply (Stmt.passesAll_append inspection).2
    constructor
    · exact index.passesAll_declareKeys h map
    · simp [Stmt.when, hid, hholder, h.indexKey.first]
  · apply (Stmt.passesAll_append inspection).2
    constructor
    · exact index.passesAll_declareKeys h map
    · simp [Stmt.when, hid, hholder, passes_holders, h.indexKey.first, h.holders.first, h.holders.alone, h.putOther]

theorem passesAll_search (map : String) :
    Stmt.PassesAll inspection (index.search (indexKey ns collection index) map) := by
  have hholder := passes_holder h
  apply (Stmt.passesAll_append inspection).2
  constructor
  · exact index.passesAll_declareKeys h map
  · simp [hholder, passes_holders, h.holders.first, h.putOther]

end Admitted

end Index

namespace Operation

variable {coll : Collection} {firstParam : Nat}

theorem passesAll_setFields (map : String) {param : Nat} {encoded : List (String × String)}
    (h : inspection.AdmitsParams param encoded.length) :
    Stmt.PassesAll inspection (setFields map param encoded) := by
  induction encoded generalizing param with
  | nil => trivial
  | cons entry rest ih =>
    rw [List.length_cons] at h
    exact ⟨h param (by omega) (by omega), ih fun number hfirst hlast => h number (by omega) (by omega)⟩

theorem passesAll_fieldArgs (map : String) (encoded : List (String × String)) :
    Expr.PassesAll inspection (fieldArgs map encoded) := by
  induction encoded with
  | nil => trivial
  | cons entry rest ih => exact ⟨trivial, trivial, ih⟩

theorem passes_recordKey {id : Expr} (hid : id.Passes inspection) :
    (recordKeyExpr ns collection id).Passes inspection :=
  ⟨trivial, hid, trivial⟩

section Admitted

variable (h : inspection.Admits ns collection)
include h

theorem passesAll_uniqueChecks (map : String) {own : Option Expr} (hown : ∀ id ∈ own, id.Passes inspection)
    (indices : List (String × Index)) :
    Stmt.PassesAll inspection (uniqueChecks ns collection map own indices) := by
  apply (Stmt.passesAll_iff inspection).2
  intro statement hstatement
  obtain ⟨entry, _, rfl⟩ := List.mem_map.1 hstatement
  exact entry.2.passes_checkUnique h map entry.1 hown

theorem passesAll_addEntries (map : String) {id : Expr} (hid : id.Passes inspection)
    (indices : List (String × Index)) : Stmt.PassesAll inspection (addEntries ns collection map id indices) := by
  apply (Stmt.passesAll_iff inspection).2
  intro statement hstatement
  obtain ⟨entry, _, rfl⟩ := List.mem_map.1 hstatement
  exact entry.2.passes_addEntry h map hid

theorem passesAll_removeEntries (map : String) {id : Expr} (hid : id.Passes inspection)
    (indices : List (String × Index)) :
    Stmt.PassesAll inspection (removeEntries ns collection map id indices) := by
  apply (Stmt.passesAll_iff inspection).2
  intro statement hstatement
  obtain ⟨entry, _, rfl⟩ := List.mem_map.1 hstatement
  exact entry.2.passes_removeEntry h map hid

theorem passesAll_createBody {encoded : List (String × String)}
    (hparams : inspection.AdmitsParams firstParam encoded.length) :
    Stmt.PassesAll inspection (createBody coll ns collection firstParam encoded) := by
  have hfields := passesAll_setFields "rec" hparams
  have hunique := fun indices => @passesAll_uniqueChecks _ _ _ h "rec" none (by simp) indices
  have hadd := fun indices => @passesAll_addEntries _ _ _ h "rec" (.var "id") trivial indices
  have hkey := @passes_recordKey inspection ns collection (.var "id") trivial
  simp [createBody, Stmt.passesAll_append, hfields, passesAll_fieldArgs, hunique, hadd, hkey, h.draw,
    h.putDraw, h.created.first, h.ids.first, h.putOther, rejectConflicts, reject, succeed, answer, Stmt.when]

theorem passesAll_listFragment : Stmt.PassesAll inspection (listFragment ns collection).body := by
  simp [listFragment, h.ids.first, h.putOther, succeed, answer]

theorem passesAll_sizeFragment : Stmt.PassesAll inspection (sizeFragment ns collection).body := by
  simp [sizeFragment, h.ids.first, h.putOther, succeed, answer]

theorem passesAll_findBody (method : Method) (index : Index) {probe : List (String × String)}
    (hparams : inspection.AdmitsParams firstParam probe.length) :
    Stmt.PassesAll inspection (findBody ns collection firstParam method index probe) := by
  have hfields := passesAll_setFields "probe" hparams
  have hsearch := index.passesAll_search h "probe"
  simp [findBody, Stmt.passesAll_append, hfields, hsearch, h.putOther, succeed, answer]

variable (hid : inspection.AdmitsId ns collection (.param firstParam))
include hid

theorem passesAll_updateBody {changes : List (String × String)}
    (hparams : inspection.AdmitsParams firstParam (changes.length + 1)) :
    Stmt.PassesAll inspection (updateBody coll ns collection firstParam changes) := by
  have hown : (Expr.param firstParam).Passes inspection := hparams firstParam (by omega) (by omega)
  have hfields := @passesAll_setFields inspection "new" (firstParam + 1) changes
    fun number hfirst hlast => hparams number (by omega) (by omega)
  have hunique := fun indices => @passesAll_uniqueChecks _ _ _ h "new" (some (.param firstParam))
    (fun id hid => by
      cases hid
      exact hown) indices
  have hadd := fun indices => passesAll_addEntries h "new" hown indices
  have hremove := fun indices => passesAll_removeEntries h "old" hown indices
  have hkey := @passes_recordKey inspection ns collection _ hown
  simp [updateBody, Stmt.passesAll_append, hfields, passesAll_fieldArgs, hunique, hadd, hremove, hkey,
    hid.putKey, h.key.first, h.key.alone, h.putOther, rejectIfMissing, rejectConflicts, storedRecord, reject,
    succeed, answer, Stmt.when]

variable (hparam : inspection.param firstParam)
include hparam

theorem passesAll_deleteFragment (id : Int) :
    Stmt.PassesAll inspection (deleteFragment coll ns collection firstParam id).body := by
  have hremove := fun indices => @passesAll_removeEntries _ _ _ h "old" (.param firstParam) hparam indices
  have hkey := @passes_recordKey inspection ns collection (.param firstParam) hparam
  simp [deleteFragment, Stmt.passesAll_append, hparam, hremove, hkey, hid.putKey, h.key.first, h.key.alone, h.ids.first,
    h.putOther, rejectIfMissing, storedRecord, reject, succeed, answer, Stmt.when]

theorem passesAll_getFragment (id : Int) :
    Stmt.PassesAll inspection (getFragment ns collection firstParam id).body := by
  have hkey := @passes_recordKey inspection ns collection (.param firstParam) hparam
  simp [getFragment, hkey, hid.putKey, h.key.alone, h.putOther, rejectIfMissing, reject, succeed, answer, Stmt.when]

theorem passesAll_existsFragment (id : Int) :
    Stmt.PassesAll inspection (existsFragment ns collection firstParam id).body := by
  have hkey := @passes_recordKey inspection ns collection (.param firstParam) hparam
  simp [existsFragment, hkey, hid.stored.alone, h.putOther, succeed, answer, Stmt.when]

end Admitted

end Operation

/-- The block of a task passes an inspection that admits the keys of its collection and the task's own parameters.
The first of these matters for the keys only if it is an id. -/
theorem Task.passesAll_fragment {task : Task} {firstParam : Nat} (h : inspection.Admits ns task.collection)
    (hparams : inspection.AdmitsParams firstParam (task.fragment ns firstParam).params.length)
    (hid : ∀ id rest, (task.fragment ns firstParam).params = Decimal.ofInt id :: rest →
      inspection.AdmitsId ns task.collection (.param firstParam)) :
    Stmt.PassesAll inspection (task.fragment ns firstParam).body := by
  have hfirst : ∀ id rest, (task.fragment ns firstParam).params = Decimal.ofInt id :: rest →
      inspection.param firstParam := by
    intro id rest hrest
    exact hparams firstParam (Nat.le_refl _) (by rw [hrest, List.length_cons]; omega)
  obtain ⟨collection, coll, work⟩ := task
  cases work with
  | create row =>
    apply Operation.passesAll_createBody h
    simpa [fragment] using hparams
  | update id changes =>
    apply Operation.passesAll_updateBody h (hid id _ rfl)
    simpa [fragment] using hparams
  | delete id => exact Operation.passesAll_deleteFragment h (hid id _ rfl) (hfirst id _ rfl) id
  | get id => exact Operation.passesAll_getFragment h (hid id _ rfl) (hfirst id _ rfl) id
  | «exists» id => exact Operation.passesAll_existsFragment h (hid id _ rfl) (hfirst id _ rfl) id
  | list => exact Operation.passesAll_listFragment h
  | size => exact Operation.passesAll_sizeFragment h
  | find method index probe =>
    apply Operation.passesAll_findBody h method index
    simpa [fragment] using hparams

end DocStore
