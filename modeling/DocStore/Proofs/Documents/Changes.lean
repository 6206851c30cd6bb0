import DocStore.Proofs.Documents.Keeps
import Mathlib.Data.List.Nodup

/-!
What a change to the documents changes under their keys.

Drawing an id moves the counter only. Putting and removing a record moves its hash, its place among the
live ids and its entries in the indices; what each of these must hold afterwards is said here, whichever
commands bring it about.
-/

namespace DocStore

open DocStore.Script DocStore.Layout

/-- The double that a text reads as. -/
def scoreOf (text : String) : Binary64 :=
  (Binary64.ofText? text).getD default

theorem ofText?_scoreOf (id : Int) :
    Binary64.ofText? (Decimal.ofInt id) = some (scoreOf (Decimal.ofInt id)) := by
  obtain ⟨x, hx⟩ := Binary64.ofText?_ofInt id
  simp [scoreOf, hx]

section Scores

variable {ids ids' : List Int} {id : Int}

theorem find?_scores (ids : List Int) (name : String) :
    (scores ids).find? name =
      if name ∈ ids.map Decimal.ofInt then some (scoreOf name) else none := by
  have hagree := (@SortedMap.find?_overlay_of_agree _ (fun name => some (scoreOf name)) ∅
    (ids.map fun id => (Decimal.ofInt id, scoreOf (Decimal.ofInt id)))) (by simp) name
  rw [List.map_map] at hagree
  rw [scores, SortedMap.ofList_eq_overlay]
  exact hagree

theorem scores_insert (h : ∀ other, other ∈ ids' ↔ other ∈ ids ∨ other = id) :
    scores ids' = (scores ids).insert (Decimal.ofInt id) (scoreOf (Decimal.ofInt id)) := by
  refine SortedMap.ext fun name => ?_
  have hmem : name ∈ ids'.map Decimal.ofInt ↔ name = Decimal.ofInt id ∨ name ∈ ids.map Decimal.ofInt := by
    simp only [List.mem_map, h]
    constructor
    · rintro ⟨other, hother | rfl, rfl⟩
      · exact .inr ⟨other, hother, rfl⟩
      · exact .inl rfl
    · rintro (rfl | ⟨other, hother, rfl⟩)
      · exact ⟨id, .inr rfl, rfl⟩
      · exact ⟨other, .inl hother, rfl⟩
  rw [find?_scores, SortedMap.find?_insert, find?_scores]
  by_cases hname : name = Decimal.ofInt id
  · rw [if_pos (hmem.2 (.inl hname)), if_pos hname, hname]
  · simp [hmem, hname]

theorem scores_erase (h : ∀ other, other ∈ ids' ↔ other ∈ ids ∧ other ≠ id) :
    scores ids' = (scores ids).erase (Decimal.ofInt id) := by
  refine SortedMap.ext fun name => ?_
  have hmem : name ∈ ids'.map Decimal.ofInt ↔ name ≠ Decimal.ofInt id ∧ name ∈ ids.map Decimal.ofInt := by
    simp only [List.mem_map, h]
    constructor
    · rintro ⟨other, ⟨hother, hne⟩, rfl⟩
      exact ⟨fun heq => hne (Decimal.ofInt_injective heq), other, hother, rfl⟩
    · rintro ⟨hne, other, hother, rfl⟩
      exact ⟨other, ⟨hother, fun heq => hne (congrArg Decimal.ofInt heq)⟩, rfl⟩
  rw [find?_scores, SortedMap.find?_erase, find?_scores]
  by_cases hname : name = Decimal.ofInt id
  · rw [if_neg fun hin => (hmem.1 hin).1 hname, if_pos hname]
  · simp [hmem, hname]

theorem scores_congr (h : ∀ other, other ∈ ids' ↔ other ∈ ids) : scores ids' = scores ids := by
  refine SortedMap.ext fun name => ?_
  rw [find?_scores, find?_scores]
  simp only [List.mem_map, h]

theorem keys_scores (hnodup : ids.Nodup) : (scores ids).keys.Perm (ids.map Decimal.ofInt) := by
  have hnodup' : (ids.map Decimal.ofInt).Nodup :=
    hnodup.map fun _ _ => Decimal.ofInt_injective
  refine (List.perm_ext_iff_of_nodup (scores ids).keys_nodup hnodup').2 fun name => ?_
  rw [SortedMap.mem_keys_iff, SortedMap.contains, find?_scores]
  split <;> simp_all

theorem size_scores (hnodup : ids.Nodup) : (scores ids).size = ids.length := by
  rw [SortedMap.size_eq_length_keys, (keys_scores hnodup).length_eq, List.length_map]

end Scores

namespace Documents

variable {docs : Documents} {id other : Int} {row : Row}

theorem mem_ids_put (h : docs.Bounded) (h' : (docs.put id row).Bounded) :
    other ∈ (docs.put id row).ids ↔ other ∈ docs.ids ∨ other = id := by
  rw [mem_ids h', mem_ids h]
  by_cases heq : other = id
  · simp [heq]
  · simp [rows_put_of_ne heq, heq]

theorem mem_ids_remove (h : docs.Bounded) (h' : (docs.remove id).Bounded) :
    other ∈ (docs.remove id).ids ↔ other ∈ docs.ids ∧ other ≠ id := by
  rw [mem_ids h', mem_ids h]
  by_cases heq : other = id
  · simp [heq]
  · simp [rows_remove_of_ne heq, heq]

/-- A record is held under its own composite value only. -/
theorem holds_drop (hrow : docs.rows id = some row) {index : Index} {composite : String} :
    (docs.Holds index composite other ∧ ¬(composite = index.compositeOf row ∧ other = id)) ↔
      docs.Holds index composite other ∧ other ≠ id := by
  refine and_congr_right fun hholds => ?_
  constructor
  · rintro hnot rfl
    obtain ⟨found, hfound, -, hcomposite⟩ := hholds
    rw [hrow] at hfound
    cases hfound
    exact hnot ⟨hcomposite.symm, rfl⟩
  · rintro hne ⟨-, heq⟩
    exact hne heq

/-- The records of a collection have every field of its indices. -/
theorem Sound.index_fields {coll : Collection} (h : docs.Sound coll) (hcoll : coll.WellFormed)
    (hrow : docs.rows id = some row) {entry : String × Index} (hentry : entry ∈ coll.indices.entries) :
    ∀ field ∈ entry.2.fields, row.contains field.name = true :=
  fun field hfield => (h.fields id row hrow field.name).2
    ((fits_of_mem hcoll hentry).2.1 field hfield)

end Documents

theorem Collection.WellFormed.field {coll : Collection} (h : coll.WellFormed) :
    ∃ name, coll.definition.contains name = true := by
  by_contra hnone
  push Not at hnone
  have hempty : coll.definition.isEmpty = true := by
    refine SortedMap.isEmpty_iff.2 fun name => ?_
    have hname := hnone name
    rw [SortedMap.contains] at hname
    simpa using hname
  rw [h.1] at hempty
  cases hempty

/-- A record with the declared fields is not empty. -/
theorem Row.kept {coll : Collection} (hcoll : coll.WellFormed) {row : Row}
    (hfields : ∀ name, row.contains name = true ↔ coll.definition.contains name = true) :
    (Entry.hash row).kept = some (.hash row) := by
  have hempty : row.isEmpty = false := by
    obtain ⟨name, hname⟩ := hcoll.field
    cases hempty : row.isEmpty with
    | false => rfl
    | true =>
      have hnone := SortedMap.isEmpty_iff.1 hempty name
      obtain ⟨text, htext⟩ := SortedMap.contains_iff.1 ((hfields name).2 hname)
      rw [hnone] at htext
      cases htext
  simp [Entry.kept, Entry.isEmpty, hempty]

namespace Keeps

variable {ns collection : String} {coll : Collection} {docs : Documents} {space after : Keyspace}
  {id : Int} {row : Row}

theorem contains_record (h : Keeps ns collection coll docs space) (id : Int) :
    space.contains (recordKey ns collection (Decimal.ofInt id)) = (docs.rows id).isSome := by
  rw [Keyspace.contains, h.rows]
  cases docs.rows id <;> rfl

/-- What the key of a record holds, as the commands on hashes see it. -/
theorem row_kept (h : Keeps ns collection coll docs space) (hcoll : coll.WellFormed)
    (hsound : docs.Sound coll) (id : Int) :
    space.find? (recordKey ns collection (Decimal.ofInt id)) =
      (Entry.hash ((docs.rows id).getD ∅)).kept := by
  rw [h.rows]
  cases hrow : docs.rows id with
  | none => rfl
  | some row => exact (Row.kept hcoll (hsound.fields id row hrow)).symm

/-- Only the counter moves. -/
theorem draw (h : Keeps ns collection coll docs space) (hname : isValidName collection = true)
    (hcoll : coll.WellFormed) (hbounded : docs.Bounded)
    (hcounter : after.find? (nextIdKey ns collection) =
      some (.text (Decimal.ofInt (docs.drawn + 1))))
    (hother : ∀ key, key ≠ nextIdKey ns collection → after.find? key = space.find? key) :
    Keeps ns collection coll docs.draw after where
  counter := hcounter
  ids := by
    rw [hother _ (ids_ne_nextId hname), h.ids, scores_congr fun id => ?_]
    rw [Documents.mem_ids hbounded, Documents.mem_ids (Documents.bounded_draw hbounded)]
    rfl
  rows := fun id => (hother _ (record_ne_nextId hname id)).trans (h.rows id)
  index := by
    intro entry hentry
    refine (h.index entry hentry).of_find?_eq fun probe hprobe => hother _ ?_
    rintro rfl
    exact nextId_not_indexKey hname hcoll (fits_of_mem hcoll hentry) hprobe

/-- A record is put under an id. -/
theorem put (h : Keeps ns collection coll docs space)
    (hbounded : docs.Bounded) (hbounded' : (docs.put id row).Bounded)
    (hcounter : after.find? (nextIdKey ns collection) = space.find? (nextIdKey ns collection))
    (hids : after.find? (idsKey ns collection) =
      (Entry.scored ((scores docs.ids).insert (Decimal.ofInt id) (scoreOf (Decimal.ofInt id)))).kept)
    (hrow : after.find? (recordKey ns collection (Decimal.ofInt id)) = some (.hash row))
    (hrows : ∀ other, other ≠ id → after.find? (recordKey ns collection (Decimal.ofInt other)) =
      space.find? (recordKey ns collection (Decimal.ofInt other)))
    (hindex : ∀ entry ∈ coll.indices.entries,
      Files after (indexKey ns collection entry.2) ((docs.put id row).Holds entry.2)) :
    Keeps ns collection coll (docs.put id row) after where
  counter := hcounter.trans h.counter
  ids := by rw [hids, scores_insert fun other => Documents.mem_ids_put hbounded hbounded']
  rows := by
    intro other
    by_cases heq : other = id
    · rw [heq, hrow, Documents.rows_put_self]
      rfl
    · rw [hrows other heq, h.rows, Documents.rows_put_of_ne heq]
  index := hindex

/-- The record under an id is removed. -/
theorem remove (h : Keeps ns collection coll docs space)
    (hbounded : docs.Bounded) (hbounded' : (docs.remove id).Bounded)
    (hcounter : after.find? (nextIdKey ns collection) = space.find? (nextIdKey ns collection))
    (hids : after.find? (idsKey ns collection) =
      (Entry.scored ((scores docs.ids).erase (Decimal.ofInt id))).kept)
    (hrow : after.find? (recordKey ns collection (Decimal.ofInt id)) = none)
    (hrows : ∀ other, other ≠ id → after.find? (recordKey ns collection (Decimal.ofInt other)) =
      space.find? (recordKey ns collection (Decimal.ofInt other)))
    (hindex : ∀ entry ∈ coll.indices.entries,
      Files after (indexKey ns collection entry.2) ((docs.remove id).Holds entry.2)) :
    Keeps ns collection coll (docs.remove id) after where
  counter := hcounter.trans h.counter
  ids := by rw [hids, scores_erase fun other => Documents.mem_ids_remove hbounded hbounded']
  rows := by
    intro other
    by_cases heq : other = id
    · rw [heq, hrow, Documents.rows_remove_self]
      rfl
    · rw [hrows other heq, h.rows, Documents.rows_remove_of_ne heq]
  index := hindex

end Keeps

end DocStore
