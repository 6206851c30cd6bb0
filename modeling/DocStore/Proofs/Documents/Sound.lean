import DocStore.Proofs.Operation.Check

/-!
What holds of documents at all times.

Ids lie between one and the number of draws, records have exactly the declared fields, and under each
composite value a unique index holds one record at most (`Documents.Sound`). Every piece of work that
fits its collection keeps this up. The last part is what lets an update look only at the indices that it
touches: in all others the record keeps its composite value, and there is no one else there.
-/

namespace DocStore

namespace Index

variable {index : Index} {row row' : Row}

theorem compositeOf_congr (h : ∀ field ∈ index.fields, row'.find? field.name = row.find? field.name) :
    index.compositeOf row' = index.compositeOf row := by
  have hparts : index.fields.map (partOf row') = index.fields.map (partOf row) := by
    refine List.map_congr_left fun field hfield => ?_
    simp only [partOf, h field hfield]
  rw [compositeOf, compositeOf, hparts]

theorem complete_congr (h : ∀ field ∈ index.fields, row'.find? field.name = row.find? field.name) :
    index.complete row' = index.complete row := by
  unfold complete
  rw [Bool.eq_iff_iff]
  simp only [List.all_eq_true, decide_eq_true_eq]
  constructor
  · intro hall field hfield
    rw [← h field hfield]
    exact hall field hfield
  · intro hall field hfield
    rw [h field hfield]
    exact hall field hfield

/-- Changes that do not touch an index leave its fields as they are. -/
theorem find?_untouched {changes : List (String × String)}
    (h : index.touches (changes.map Prod.fst) = false) :
    ∀ field ∈ index.fields, (row.overlay changes).find? field.name = row.find? field.name := by
  intro field hfield
  refine SortedMap.find?_overlay_of_notMem row fun hmem => ?_
  have hany : index.touches (changes.map Prod.fst) = true :=
    List.any_eq_true.2 ⟨field, hfield, by simpa using hmem⟩
  rw [h] at hany
  cases hany

end Index

namespace Documents

variable {docs : Documents} {coll : Collection} {index : Index} {composite : String} {row : Row}
  {id other : Int}

/-- Live ids have been drawn. -/
def Bounded (docs : Documents) : Prop :=
  ∀ id row, docs.rows id = some row → 0 < id ∧ id ≤ docs.drawn

/-- What holds of the documents of a collection at all times. -/
structure Sound (coll : Collection) (docs : Documents) : Prop where
  bounded : docs.Bounded
  fields : ∀ id row, docs.rows id = some row →
    ∀ name, row.contains name = true ↔ coll.definition.contains name = true
  unique : ∀ entry ∈ coll.indices.entries, entry.2.unique = true → ∀ composite a b,
    docs.Holds entry.2 composite a → docs.Holds entry.2 composite b → a = b

theorem sound_empty (coll : Collection) : Sound coll {} where
  bounded := by
    intro id row h
    cases h
  fields := by
    intro id row h
    cases h
  unique := by
    rintro entry - - composite a b ⟨row, h, -⟩
    cases h

theorem mem_ids (h : docs.Bounded) : id ∈ docs.ids ↔ ∃ row, docs.rows id = some row := by
  simp only [ids, List.mem_filter, List.mem_map, List.mem_range, Option.isSome_iff_exists]
  constructor
  · exact And.right
  · rintro ⟨row, hrow⟩
    obtain ⟨hpos, hle⟩ := h id row hrow
    exact ⟨⟨id.toNat, by omega, Int.toNat_of_nonneg (by omega)⟩, row, hrow⟩

/-- Live ids are listed in ascending order. -/
theorem ids_ascending (docs : Documents) : docs.ids.Pairwise (· < ·) := by
  refine List.Pairwise.filter _ ?_
  refine (List.pairwise_map.2 (List.pairwise_lt_range.imp ?_))
  intro a b h
  exact Int.ofNat_lt.2 h

theorem holds_iff : docs.holds index composite id = true ↔ docs.Holds index composite id := by
  unfold holds Holds
  cases hrow : docs.rows id with
  | none => simp
  | some row => simp

theorem mem_holders (h : docs.Bounded) :
    id ∈ docs.holders index composite ↔ docs.Holds index composite id := by
  rw [holders, List.mem_filter, holds_iff, mem_ids h]
  constructor
  · exact And.right
  · rintro ⟨row, hrow, hrest⟩
    exact ⟨⟨row, hrow⟩, row, hrow, hrest⟩

@[simp] theorem rows_put_self : (docs.put id row).rows id = some row := by
  simp [put]

theorem rows_put_of_ne (h : other ≠ id) : (docs.put id row).rows other = docs.rows other := by
  simp [put, h]

@[simp] theorem rows_remove_self : (docs.remove id).rows id = none := by
  simp [remove]

theorem rows_remove_of_ne (h : other ≠ id) : (docs.remove id).rows other = docs.rows other := by
  simp [remove, h]

theorem holds_put : (docs.put id row).Holds index composite other ↔
    (docs.Holds index composite other ∧ other ≠ id) ∨
      (index.enters row = true ∧ composite = index.compositeOf row ∧ other = id) := by
  unfold Holds
  by_cases h : other = id
  · subst h
    rw [rows_put_self]
    constructor
    · rintro ⟨found, hfound, henters, hcomposite⟩
      cases hfound
      exact .inr ⟨henters, hcomposite.symm, rfl⟩
    · rintro (⟨-, hne⟩ | ⟨henters, hcomposite, -⟩)
      · exact absurd rfl hne
      · exact ⟨row, rfl, henters, hcomposite.symm⟩
  · simp [rows_put_of_ne h, h]

/-- An index whose fields do not change keeps holding the record where it was. -/
theorem holds_put_of_same {old : Row} (hold : docs.rows id = some old)
    (h : ∀ field ∈ index.fields, row.find? field.name = old.find? field.name) :
    (docs.put id row).Holds index composite other ↔ docs.Holds index composite other := by
  have henters : index.enters row = index.enters old := by
    rw [Index.enters, Index.enters, Index.complete_congr h]
  rw [holds_put, henters, Index.compositeOf_congr h]
  constructor
  · rintro (⟨hholds, -⟩ | ⟨hold', rfl, rfl⟩)
    · exact hholds
    · exact ⟨old, hold, hold', rfl⟩
  · rintro ⟨found, hfound, hfoundEnters, rfl⟩
    by_cases heq : other = id
    · subst heq
      rw [hold] at hfound
      cases hfound
      exact .inr ⟨hfoundEnters, rfl, rfl⟩
    · exact .inl ⟨⟨found, hfound, hfoundEnters, rfl⟩, heq⟩

theorem holds_remove : (docs.remove id).Holds index composite other ↔
    docs.Holds index composite other ∧ other ≠ id := by
  unfold Holds
  by_cases h : other = id
  · subst h
    simp
  · simp [rows_remove_of_ne h, h]

/-- Whether another record than `own` stands in the way of this one. -/
def clashes (docs : Documents) (row : Row) (own : Option Int) (entry : String × Index) : Bool :=
  entry.2.unique && entry.2.complete row &&
    (docs.holders entry.2 (entry.2.compositeOf row)).any fun id => some id ≠ own

theorem conflicts_eq (docs : Documents) (indices : List (String × Index)) (row : Row) (own : Option Int) :
    docs.conflicts indices row own = (indices.filter (docs.clashes row own)).map Prod.fst := rfl

theorem clashes_iff (h : docs.Bounded) {own : Option Int} {entry : String × Index} :
    docs.clashes row own entry = true ↔ entry.2.unique = true ∧ entry.2.complete row = true ∧
      ∃ id, docs.Holds entry.2 (entry.2.compositeOf row) id ∧ some id ≠ own := by
  simp [clashes, mem_holders h, and_assoc]

theorem conflicts_eq_nil (h : docs.Bounded) {indices : List (String × Index)} {own : Option Int} :
    docs.conflicts indices row own = [] ↔ ∀ entry ∈ indices, entry.2.unique = true →
      entry.2.complete row = true →
        ∀ id, docs.Holds entry.2 (entry.2.compositeOf row) id → some id = own := by
  rw [conflicts_eq, List.map_eq_nil_iff, List.filter_eq_nil_iff]
  simp only [clashes_iff h, not_and, not_exists, ne_eq, Decidable.not_not]

theorem bounded_draw (h : docs.Bounded) : docs.draw.Bounded := by
  intro id row hrow
  obtain ⟨hpos, hle⟩ := h id row hrow
  exact ⟨hpos, by simp only [draw]; omega⟩

theorem Sound.draw (h : docs.Sound coll) : docs.draw.Sound coll :=
  ⟨bounded_draw h.bounded, h.fields, h.unique⟩

/-- A record may be put where no unique index holds another one. -/
theorem Sound.put (h : docs.Sound coll) (hid : 0 < id ∧ id ≤ docs.drawn)
    (hfields : ∀ name, row.contains name = true ↔ coll.definition.contains name = true)
    (hconflicts : docs.conflicts coll.indices.entries row (some id) = []) :
    (docs.put id row).Sound coll where
  bounded := by
    intro other found hfound
    by_cases heq : other = id
    · rw [heq]
      exact hid
    · rw [rows_put_of_ne heq] at hfound
      exact h.bounded other found hfound
  fields := by
    intro other found hfound
    by_cases heq : other = id
    · rw [heq, rows_put_self] at hfound
      cases hfound
      exact hfields
    · rw [rows_put_of_ne heq] at hfound
      exact h.fields other found hfound
  unique := by
    intro entry hentry hunique composite a b ha hb
    have hnone := (conflicts_eq_nil h.bounded).1 hconflicts entry hentry hunique
    have hcomplete : entry.2.enters row = true → entry.2.complete row = true := by
      simp [Index.enters, hunique]
    rcases holds_put.1 ha with ⟨ha', -⟩ | ⟨henters, hcomposite, haid⟩
    · rcases holds_put.1 hb with ⟨hb', -⟩ | ⟨henters, hcomposite, hbid⟩
      · exact h.unique entry hentry hunique composite a b ha' hb'
      · rw [hbid]
        exact Option.some.inj (hnone (hcomplete henters) a (hcomposite ▸ ha'))
    · rcases holds_put.1 hb with ⟨hb', -⟩ | ⟨-, -, hbid⟩
      · rw [haid]
        exact (Option.some.inj (hnone (hcomplete henters) b (hcomposite ▸ hb'))).symm
      · rw [haid, hbid]

theorem Sound.remove (h : docs.Sound coll) (id : Int) : (docs.remove id).Sound coll where
  bounded := by
    intro other found hfound
    by_cases heq : other = id
    · rw [heq, rows_remove_self] at hfound
      cases hfound
    · rw [rows_remove_of_ne heq] at hfound
      exact h.bounded other found hfound
  fields := by
    intro other found hfound
    by_cases heq : other = id
    · rw [heq, rows_remove_self] at hfound
      cases hfound
    · rw [rows_remove_of_ne heq] at hfound
      exact h.fields other found hfound
  unique := fun entry hentry hunique composite a b ha hb =>
    h.unique entry hentry hunique composite a b (holds_remove.1 ha).1 (holds_remove.1 hb).1

/-- No record has the id just drawn. -/
theorem rows_draw (h : docs.Bounded) : docs.draw.rows docs.draw.drawn = none := by
  change docs.rows docs.draw.drawn = none
  cases hrow : docs.rows docs.draw.drawn with
  | none => rfl
  | some row =>
    have hle := (h _ row hrow).2
    simp only [draw] at hle
    omega

/-- A record that is not there yet cannot be its own holder. -/
theorem conflicts_own (h : docs.Bounded) (hrow : docs.rows id = none) (indices : List (String × Index))
    (row : Row) : docs.conflicts indices row (some id) = docs.conflicts indices row none := by
  rw [conflicts_eq, conflicts_eq]
  refine congrArg _ (List.filter_congr fun entry _ => ?_)
  rw [Bool.eq_iff_iff, clashes_iff h, clashes_iff h]
  refine and_congr_right fun _ => and_congr_right fun _ => exists_congr fun other => ?_
  refine and_congr_right fun hother => ?_
  obtain ⟨found, hfound, -⟩ := hother
  have hne : other ≠ id := by
    rintro rfl
    rw [hrow] at hfound
    cases hfound
  simp [hne]

/-- An update need not look at the indices that it does not touch. -/
theorem conflicts_touched (h : docs.Sound coll) {changes : List (String × String)}
    (hrow : docs.rows id = some row) :
    docs.conflicts coll.indices.entries (row.overlay changes) (some id) =
      docs.conflicts (coll.indices.entries.filter (·.2.touches (changes.map Prod.fst)))
        (row.overlay changes) (some id) := by
  rw [conflicts_eq, conflicts_eq, List.filter_filter]
  refine congrArg _ (List.filter_congr fun entry hentry => ?_)
  cases htouches : entry.2.touches (changes.map Prod.fst) with
  | true => simp
  | false =>
    have hsame := (@Index.find?_untouched _ row) htouches
    rw [Bool.and_false, Bool.eq_false_iff]
    intro hclash
    obtain ⟨hunique, hcomplete, other, hother, hne⟩ := (clashes_iff h.bounded).1 hclash
    rw [Index.compositeOf_congr hsame] at hother
    rw [Index.complete_congr hsame] at hcomplete
    have hown : docs.Holds entry.2 (entry.2.compositeOf row) id :=
      ⟨row, hrow, by simp [Index.enters, hcomplete], rfl⟩
    exact hne (congrArg some (h.unique entry hentry hunique _ _ _ hother hown))

end Documents

namespace Work

variable {coll : Collection} {docs : Documents} {work : Work}

theorem contains_overlay {row : Row} {changes : List (String × String)}
    (h : ∀ name ∈ changes.map Prod.fst, row.contains name = true) (name : String) :
    (row.overlay changes).contains name = true ↔ row.contains name = true := by
  rw [SortedMap.contains_overlay]
  constructor
  · rintro (hname | hname)
    · exact h name hname
    · exact hname
  · exact .inr

/-- Work that fits its collection keeps up what holds of its documents. -/
theorem sound_apply (collection : String) (h : docs.Sound coll) (hfits : work.Fits coll) :
    (work.apply collection coll docs).2.Sound coll := by
  cases work with
  | create row =>
    simp only [apply, applyCreate]
    split
    · rename_i hnone
      refine h.draw.put ⟨by simp only [Documents.draw]; omega, Int.le_refl _⟩ (fun name => ?_) ?_
      · rw [SortedMap.contains_ofList]
        exact hfits.2 name
      · rw [Documents.conflicts_own h.draw.bounded (Documents.rows_draw h.bounded)]
        exact hnone
    · exact h.draw
  | update id changes =>
    simp only [apply, applyUpdate]
    split
    · exact h
    · rename_i row hrow
      split
      · rename_i hnone
        refine h.put (h.bounded id row hrow) (fun name => ?_) hnone
        have hchanges : ∀ other ∈ changes.map Prod.fst, row.contains other = true := fun other hother =>
          (h.fields id row hrow other).2 (hfits.2.2 other hother)
        rw [contains_overlay hchanges]
        exact h.fields id row hrow name
      · exact h
  | delete id =>
    simp only [apply]
    split
    · exact h.remove id
    · exact h
  | get id =>
    simp only [apply]
    split <;> exact h
  | «exists» | list | size | find => exact h

/-- Whether the work draws an id. -/
def draws : Work → Bool
  | .create _ => true
  | _ => false

/-- Work moves the counter on by one if it draws an id, and leaves it alone otherwise. -/
theorem drawn_apply (work : Work) (collection : String) (coll : Collection) (docs : Documents) :
    (work.apply collection coll docs).2.drawn = docs.drawn + if work.draws then 1 else 0 := by
  cases work with
  | create row =>
    simp only [apply, applyCreate]
    split <;> rfl
  | update id changes =>
    simp only [apply, applyUpdate]
    split
    · rfl
    · split <;> rfl
  | delete id =>
    simp only [apply]
    split <;> rfl
  | get id =>
    simp only [apply]
    split <;> rfl
  | «exists» | list | size | find => rfl

/-- Work that stops leaves the records as they were. -/
theorem rows_apply_of_stops {collection : String}
    (h : (work.apply collection coll docs).1.stops = true) :
    (work.apply collection coll docs).2.rows = docs.rows := by
  cases work with
  | create row =>
    revert h
    simp only [apply, applyCreate]
    split
    · intro h
      cases h
    · exact fun _ => rfl
  | update id changes =>
    revert h
    simp only [apply, applyUpdate]
    split
    · exact fun _ => rfl
    · split
      · intro h
        cases h
      · exact fun _ => rfl
  | delete id =>
    revert h
    simp only [apply]
    split
    · intro h
      cases h
    · exact fun _ => rfl
  | get id =>
    simp only [apply]
    split <;> rfl
  | «exists» | list | size | find => rfl

end Work

end DocStore
