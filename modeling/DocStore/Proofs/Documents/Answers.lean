import DocStore.Proofs.Binary64.Integers
import DocStore.Proofs.Documents.Composite
import DocStore.Proofs.Documents.Files

/-!
Verdicts as scripts answer them.

A script lists ids by the doubles that their texts read as, and ids that read as the same double by
their texts. Both ways of listing, of live ids and of holders, keep to that.
-/

namespace DocStore

open DocStore.Script

/-- The rank of the double that a text reads as. -/
def rankOf (text : String) : Int :=
  match Binary64.ofText? text with
  | some x => x.rank
  | none => 0

/-- Live ids with their scores. -/
def scores (ids : List Int) : SortedMap Binary64 :=
  SortedMap.ofList (ids.map fun id => (Decimal.ofInt id, (Binary64.ofText? (Decimal.ofInt id)).getD default))

/-- Live ids as a script lists them. -/
def listedTexts (ids : List Int) : List String :=
  Keyspace.byScore (scores ids)

/-- The holders of a composite value as a script lists them. -/
def foundTexts (ids : List Int) : List String :=
  (NameSet.ofList (ids.map Decimal.ofInt)).keys.mergeSort fun a b => decide (rankOf a ≤ rankOf b)

/-- The value with which a script answers. -/
def Verdict.value : Verdict → Value
  | .created id => .table [.str Method.create.name, .str noError, .int id] []
  | .updated => .table [.str Method.update.name, .str noError, .int 1] []
  | .deleted => .table [.str Method.delete.name, .str noError] []
  | .notFound method => .table [.str method.name, .str ErrorCode.notFound.name] []
  | .notUnique method indices =>
    .table [.str method.name, .str ErrorCode.notUnique.name, .table (indices.map .str) []] []
  | .row collection texts =>
    .table [.str Method.get.name, .str noError, .table (texts.flat.map .str) [], .str collection] []
  | .exists found => .table [.str Method.exists.name, .str noError, .int (if found then 1 else 0)] []
  | .ids .list live =>
    .table [.str Method.list.name, .str noError, .table ((listedTexts live).map .str) []] []
  | .ids method found =>
    .table [.str method.name, .str noError, .table ((foundTexts found).map .str) []] []
  | .size count => .table [.str Method.size.name, .str noError, .int count] []

namespace Script.Value

theorem toReply_table (items : List Value) :
    (table items []).toReply = .array (toReplies items) := by
  rw [toReply]
  intro text _ hfield
  cases hfield

theorem toReplies_cons {value : Value} (h : value ≠ .nil) (rest : List Value) :
    toReplies (value :: rest) = value.toReply :: toReplies rest := by
  rw [toReplies]
  exact h

theorem toReply_str (text : String) : (str text).toReply = .bulk text := by
  rw [toReply]

theorem toReply_int (i : Int) : (int i).toReply = .int i := by
  rw [toReply]

theorem toReplies_nil : toReplies [] = [] := by
  rw [toReplies]

theorem toReplies_texts (texts : List String) :
    toReplies (texts.map .str) = texts.map .bulk := by
  induction texts with
  | nil => exact toReplies_nil
  | cons text rest ih => rw [List.map_cons, toReplies_cons (by simp), ih, toReply_str, List.map_cons]

end Script.Value

/-- The reply with which a script answers. -/
def Verdict.reply : Verdict → Reply
  | .created id => .array [.bulk Method.create.name, .bulk noError, .int id]
  | .updated => .array [.bulk Method.update.name, .bulk noError, .int 1]
  | .deleted => .array [.bulk Method.delete.name, .bulk noError]
  | .notFound method => .array [.bulk method.name, .bulk ErrorCode.notFound.name]
  | .notUnique method indices =>
    .array [.bulk method.name, .bulk ErrorCode.notUnique.name, .array (indices.map .bulk)]
  | .row collection texts =>
    .array [.bulk Method.get.name, .bulk noError, .array (texts.flat.map .bulk), .bulk collection]
  | .exists found =>
    .array [.bulk Method.exists.name, .bulk noError, .int (if found then 1 else 0)]
  | .ids .list live =>
    .array [.bulk Method.list.name, .bulk noError, .array ((listedTexts live).map .bulk)]
  | .ids method found => .array [.bulk method.name, .bulk noError, .array ((foundTexts found).map .bulk)]
  | .size count => .array [.bulk Method.size.name, .bulk noError, .int count]

theorem Verdict.toReply_value (verdict : Verdict) : verdict.value.toReply = verdict.reply := by
  cases verdict with
  | ids method found =>
    cases method <;>
      simp [value, reply, Value.toReply_table, Value.toReplies_cons, Value.toReplies_nil,
        Value.toReplies_texts, Value.toReply_str]
  | created | updated | deleted | notFound | notUnique | row | «exists» | size =>
    simp [value, reply, Value.toReply_table, Value.toReplies_cons, Value.toReplies_nil,
      Value.toReplies_texts, Value.toReply_str, Value.toReply_int]

theorem withSortKeys_texts {texts : List String} (h : ∀ text ∈ texts, ∃ x, Binary64.ofText? text = some x) :
    Value.withSortKeys (texts.map .str) = .ok (texts.map fun text => (rankOf text, .str text)) := by
  induction texts with
  | nil => rfl
  | cons text rest ih =>
    obtain ⟨x, hx⟩ := h text List.mem_cons_self
    have hkey : Value.sortKey (.str text) = .ok (rankOf text) := by
      simp [Value.sortKey, Value.text, rankOf, hx]
    simp [Value.withSortKeys, hkey, ih fun other hother => h other (List.mem_cons_of_mem _ hother),
      Except.map]

/-- Sorting the names in a set of holders. -/
theorem sortIds_holders (ids : List Int) :
    (Value.ofReply (Keyspace.listReply (NameSet.ofList (ids.map Decimal.ofInt)).keys)).sortIds =
      .ok (.table ((foundTexts ids).map .str) []) := by
  have hread : ∀ text ∈ (NameSet.ofList (ids.map Decimal.ofInt)).keys,
      ∃ x, Binary64.ofText? text = some x := by
    intro text htext
    rw [SortedMap.mem_keys_iff, NameSet.contains_ofList] at htext
    obtain ⟨id, -, rfl⟩ := List.mem_map.1 htext
    exact Binary64.ofText?_ofInt id
  have hsort := List.map_mergeSort (r := fun a b => decide (rankOf a ≤ rankOf b))
    (s := fun (a b : Int × Value) => decide (a.1 ≤ b.1))
    (f := fun text => (rankOf text, Value.str text))
    (l := (NameSet.ofList (ids.map Decimal.ofInt)).keys) fun _ _ _ _ => rfl
  rw [ofReply_listReply]
  simp only [Value.sortIds, withSortKeys_texts hread, bind, Except.bind, foundTexts,
    ← hsort, List.map_map]
  rfl

/-- A single holder is listed as it is. -/
theorem foundTexts_sole {ids : List Int} {id : Int} (h : ∀ other, other ∈ ids ↔ other = id) :
    foundTexts ids = [Decimal.ofInt id] := by
  have hkeys : (NameSet.ofList (ids.map Decimal.ofInt)).keys = [Decimal.ofInt id] := by
    refine SortedMap.keys_eq_singleton fun name => ?_
    rw [NameSet.contains_ofList]
    simp [h, eq_comm]
  rw [foundTexts, hkeys, List.mergeSort_singleton]

end DocStore
