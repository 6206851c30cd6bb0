import DocStore.Proofs.Documents.Sound
import DocStore.Schema.Reader

/-!
What the reader accepts is well formed.

Every name passes the check of names, every index is over declared fields, each of them once, and the
fields of an index are put in order after they have been read.
-/

namespace DocStore

theorem readNamed_spec {β : Type} {badName : String → SchemaError}
    {read : String → Json → Except SchemaError β} {P : β → Prop}
    (hread : ∀ name value found, read name value = .ok found → P found)
    {members : List (String × Json)} {found : List (String × β)}
    (h : readNamed badName read members = .ok found) :
    found.length = members.length ∧ ∀ entry ∈ found, isValidName entry.1 = true ∧ P entry.2 := by
  induction members generalizing found with
  | nil =>
    cases h
    exact ⟨rfl, fun entry hentry => absurd hentry List.not_mem_nil⟩
  | cons member rest ih =>
    obtain ⟨name, value⟩ := member
    unfold readNamed at h
    split at h
    · rename_i hname
      obtain ⟨first, hfirst, h⟩ := exists_of_bind_eq_ok h
      obtain ⟨others, hothers, h⟩ := exists_of_bind_eq_ok h
      cases h
      obtain ⟨hlength, hall⟩ := ih hothers
      refine ⟨by rw [List.length_cons, List.length_cons, hlength], fun entry hentry => ?_⟩
      rcases List.mem_cons.1 hentry with rfl | hentry
      · exact ⟨hname, hread _ _ _ hfirst⟩
      · exact hall entry hentry
    · cases h

namespace Index

variable {definition : SortedMap FieldType}

theorem readFields_spec {values : List Json} {done fields : List IndexField}
    (h : readFields definition done values = .ok fields)
    (hdeclared : ∀ field ∈ done, definition.contains field.name = true)
    (hnodup : (done.map (·.name)).Nodup) :
    fields.length = done.length + values.length ∧
      (∀ field ∈ fields, definition.contains field.name = true) ∧ (fields.map (·.name)).Nodup := by
  induction values generalizing done with
  | nil =>
    cases h
    exact ⟨rfl, hdeclared, hnodup⟩
  | cons value rest ih =>
    obtain ⟨field, -, h⟩ := exists_of_bind_eq_ok h
    split at h
    · cases h
    · rename_i hnew
      split at h
      · cases h
      · rename_i hfree
        obtain ⟨hlength, hall, hdistinct⟩ := ih h (fun other hother => by
          rcases List.mem_append.1 hother with hother | hother
          · exact hdeclared other hother
          · rw [List.mem_singleton.1 hother]
            simpa using hnew) (by
          rw [List.map_append, List.nodup_append]
          refine ⟨hnodup, by simp, fun name hname other hother => ?_⟩
          rintro rfl
          rw [List.map_singleton, List.mem_singleton] at hother
          obtain ⟨before, hbefore, rfl⟩ := List.mem_map.1 hname
          exact hfree (List.any_eq_true.2 ⟨before, hbefore, by simpa using hother⟩))
        refine ⟨?_, hall, hdistinct⟩
        rw [hlength, List.length_append, List.length_singleton, List.length_cons, Nat.add_assoc,
          Nat.add_comm 1]

/-- Fields of different names are in strictly ascending order after sorting. -/
theorem sortFields_ascending {fields : List IndexField} (h : (fields.map (·.name)).Nodup) :
    (sortFields fields).Pairwise fun a b => a.name < b.name := by
  have hsorted : (sortFields fields).Pairwise fun a b : IndexField => a.name ≤ b.name := by
    refine (List.pairwise_mergeSort (fun a b c hab hbc => ?_) (fun a b => ?_) fields).imp
      fun hab => of_decide_eq_true hab
    · exact decide_eq_true (String.le_trans (of_decide_eq_true hab) (of_decide_eq_true hbc))
    · simpa using String.le_total a.name b.name
  have hperm : ((sortFields fields).map (·.name)).Nodup :=
    ((List.mergeSort_perm fields _).map _).nodup_iff.2 h
  have hdistinct : (sortFields fields).Pairwise fun a b : IndexField => a.name ≠ b.name :=
    List.pairwise_map.1 hperm
  refine (hsorted.and hdistinct).imp fun {a b} hab => ?_
  exact String.not_le.1 fun hba => hab.2 (String.le_antisymm hab.1 hba)

/-- An index that has been read fits its collection. -/
theorem fits_of_read {value : Json} {index : Index} (h : Index.read definition value = .ok index) :
    index.Fits definition := by
  obtain ⟨unique, -, h⟩ := exists_of_bind_eq_ok h
  split at h
  · cases h
  · cases h
  · rename_i entries hentries hfound
    obtain ⟨fields, hfields, h⟩ := exists_of_bind_eq_ok h
    cases h
    obtain ⟨hlength, hdeclared, hnodup⟩ := readFields_spec hfields
      (fun field hfield => absurd hfield List.not_mem_nil) List.nodup_nil
    have hperm : (sortFields fields).Perm fields := List.mergeSort_perm fields _
    refine ⟨fun hnil => ?_, fun field hfield => hdeclared field (hperm.mem_iff.1 hfield),
      sortFields_ascending hnodup⟩
    have hempty : fields.length = 0 := by
      rw [← hperm.length_eq]
      exact congrArg List.length hnil
    rw [hempty, List.length_nil, Nat.zero_add] at hlength
    exact hentries (List.length_eq_zero_iff.1 hlength.symm)

end Index

namespace Collection

theorem checkDistinct_spec {seen : List NameSet} {entries : List (String × Index)}
    (h : checkDistinct seen entries = .ok ()) :
    (∀ entry ∈ entries, entry.2.names ∉ seen) ∧
      entries.Pairwise fun a b => a.2.names ≠ b.2.names := by
  induction entries generalizing seen with
  | nil => exact ⟨fun entry hentry => absurd hentry List.not_mem_nil, .nil⟩
  | cons entry rest ih =>
    obtain ⟨name, index⟩ := entry
    unfold checkDistinct at h
    split at h
    · cases h
    · rename_i hnew
      obtain ⟨hunseen, hpairwise⟩ := ih h
      refine ⟨fun other hother => ?_, List.pairwise_cons.2 ⟨fun other hother => ?_, hpairwise⟩⟩
      · rcases List.mem_cons.1 hother with rfl | hother
        · simpa using hnew
        · exact fun hmem => hunseen other hother (List.mem_cons_of_mem _ hmem)
      · exact fun heq => hunseen other hother (heq ▸ List.mem_cons_self)

/-- A collection that has been read is well formed. -/
theorem wellFormed_of_read {value : Json} {coll : Collection} (h : Collection.read value = .ok coll) :
    coll.WellFormed := by
  unfold Collection.read at h
  split at h
  · cases h
  · cases h
  · rename_i members hmembers hfound
    obtain ⟨fields, hfields, h⟩ := exists_of_bind_eq_ok h
    obtain ⟨indices, hindices, h⟩ := exists_of_bind_eq_ok h
    obtain ⟨done, hdistinct, h⟩ := exists_of_bind_eq_ok h
    cases h
    obtain ⟨hlength, hnames⟩ := readNamed_spec (P := fun _ => True) (fun _ _ _ _ => trivial) hfields
    have hread : ∀ entry ∈ indices,
        isValidName entry.1 = true ∧ entry.2.Fits (SortedMap.ofList fields) := by
      unfold readIndices at hindices
      split at hindices
      · cases hindices
        exact fun entry hentry => absurd hentry List.not_mem_nil
      · exact (readNamed_spec (fun _ _ _ => Index.fits_of_read) hindices).2
      · cases hindices
    refine ⟨SortedMap.isEmpty_ofList ?_, fun name hname => ?_, fun name hname => ?_,
      fun index hindex => ?_, (checkDistinct_spec hdistinct).2⟩
    · rintro rfl
      exact hmembers (List.length_eq_zero_iff.1 hlength.symm)
    · obtain ⟨entry, hentry, rfl⟩ := List.mem_map.1 hname
      exact (hnames entry (SortedMap.mem_of_mem_ofList hentry)).1
    · obtain ⟨entry, hentry, rfl⟩ := List.mem_map.1 hname
      exact (hread entry (SortedMap.mem_of_mem_ofList hentry)).1
    · obtain ⟨entry, hentry, rfl⟩ := List.mem_map.1 hindex
      exact (hread entry (SortedMap.mem_of_mem_ofList hentry)).2

end Collection

/-- A schema that has been read is well formed. -/
theorem Schema.wellFormed_of_ofJson {value : Json} {schema : Schema} (h : ofJson value = .ok schema) :
    schema.WellFormed := by
  unfold ofJson at h
  split at h
  · cases h
  · rename_i members hmembers
    obtain ⟨collections, hcollections, h⟩ := exists_of_bind_eq_ok h
    cases h
    obtain ⟨hlength, hread⟩ := readNamed_spec (fun _ _ _ => Collection.wellFormed_of_read) hcollections
    refine ⟨SortedMap.isEmpty_ofList ?_, fun name hname => ?_, fun coll hcoll => ?_⟩
    · rintro rfl
      exact hmembers (List.length_eq_zero_iff.1 hlength.symm)
    · obtain ⟨entry, hentry, rfl⟩ := List.mem_map.1 hname
      exact (hread entry (SortedMap.mem_of_mem_ofList hentry)).1
    · obtain ⟨entry, hentry, rfl⟩ := List.mem_map.1 hcoll
      exact (hread entry (SortedMap.mem_of_mem_ofList hentry)).2
  · cases h

/-- A schema with one collection, in which no two records have the same name. -/
def peopleJson : Json :=
  .obj [("people", .obj [("definition", .obj [("name", .str "string")]),
    ("indices", .obj [("byName", .obj [("unique", .bool true), ("fields", .arr [.str "name"])])])])]

/-- The collection of that schema. -/
def peopleFields : Collection :=
  ⟨.ofList [("name", ⟨.string, false, false⟩)], .ofList [("byName", ⟨true, [⟨"name", false⟩]⟩)]⟩

/-- What that schema reads as. -/
def people : Schema :=
  ⟨.ofList [("people", peopleFields)]⟩

/-- Databases are named so below. -/
theorem isValidName_p : isValidName "p" = true := by
  decide

theorem people_ofJson : Schema.ofJson peopleJson = .ok people := by
  with_unfolding_all rfl

theorem collection?_people {name : String} {coll : Collection} (h : people.collection? name = some coll) :
    name = "people" ∧ coll = peopleFields := by
  simp only [Schema.collection?, people, SortedMap.ofList_eq_overlay, SortedMap.overlay_cons,
    SortedMap.overlay_nil, SortedMap.find?_insert, SortedMap.find?_empty] at h
  split at h
  · rename_i heq
    exact ⟨heq, (Option.some.inj h).symm⟩
  · cases h

end DocStore
