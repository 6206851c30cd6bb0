import DocStore.Proofs.Documents.Composite
import DocStore.Proofs.Documents.Matching
import DocStore.Proofs.Field.Borders

/-!
Which records a composite value stands for, whatever their texts are.

`compositeOf_eq_iff` is about encoded records and indices with one field of free text. Here any texts may stand
in any fields. Records that match have one composite value; a record whose texts are separate shares it with
no other; and a record with a colon next to a border shares it with one where this colon is on the other side.
If only an empty text between two others is in the way, it depends on which fields ignore case.
-/

namespace DocStore

open DocStore.Script

namespace IndexField

variable {row : Row} {field other : IndexField} {text : String}

/-- The text of a record in a field, as the index takes it. -/
def textOf (row : Row) (field : IndexField) : String :=
  field.cased ((row.find? field.name).getD "")

theorem textOf_insert_self (row : Row) (field : IndexField) (text : String) :
    textOf (row.insert field.name text) field = field.cased text := by
  rw [textOf, SortedMap.find?_insert, if_pos rfl, Option.getD_some]

theorem textOf_insert_of_ne (h : field.name ≠ other.name) :
    textOf (row.insert other.name text) field = textOf row field := by
  rw [textOf, SortedMap.find?_insert, if_neg h, textOf]

theorem toLower_colon : Char.toLower ':' = ':' := by decide

theorem cased_append_colon (field : IndexField) (text : String) :
    field.cased (text ++ ":") = field.cased text ++ ":" := by
  unfold cased
  split
  · simp [Text.lowercase, toLower_colon]
  · rfl

theorem cased_colon_append (field : IndexField) (text : String) :
    field.cased (":" ++ text) = ":" ++ field.cased text := by
  unfold cased
  split
  · simp [Text.lowercase, toLower_colon]
  · rfl

/-- The index takes each character by itself. -/
theorem exists_toList_cased (field : IndexField) : ∃ take : Char → Char,
    (∀ c, take c = ':' ↔ c = ':') ∧ ∀ text, (field.cased text).toList = text.toList.map take := by
  unfold cased
  split
  · exact ⟨Char.toLower, fun _ => toLower_eq_iff (by decide), fun text => String.toList_ofList⟩
  · exact ⟨id, fun _ => Iff.rfl, fun text => (List.map_id _).symm⟩

/-- A colon at the end of what the index takes is one of the text. -/
theorem exists_append_colon (h : (field.cased text).toList.getLast? = some ':') :
    ∃ rest, text = rest ++ ":" := by
  obtain ⟨take, htake, hchars⟩ := field.exists_toList_cased
  rw [hchars, List.getLast?_map, Option.map_eq_some_iff] at h
  obtain ⟨c, hlast, hc⟩ := h
  obtain ⟨rest, hrest⟩ := List.getLast?_eq_some_iff.1 hlast
  refine ⟨String.ofList rest, String.toList_inj.1 ?_⟩
  rw [hrest, (htake c).1 hc]
  simp

theorem exists_colon_append (h : (field.cased text).toList.head? = some ':') :
    ∃ rest, text = ":" ++ rest := by
  obtain ⟨take, htake, hchars⟩ := field.exists_toList_cased
  rw [hchars, List.head?_map, Option.map_eq_some_iff] at h
  obtain ⟨c, hhead, hc⟩ := h
  obtain ⟨rest, hrest⟩ := List.head?_eq_some_iff.1 hhead
  refine ⟨String.ofList rest, String.toList_inj.1 ?_⟩
  rw [hrest, (htake c).1 hc]
  simp

end IndexField

namespace Index

/-- The texts of a record in the fields of the index, as the index takes them. -/
def texts (index : Index) (row : Row) : List String :=
  index.fields.map (IndexField.textOf row)

variable {index : Index} {row probe : Row}

theorem compositeOf_eq_joined (index : Index) (row : Row) :
    index.compositeOf row = Text.joined ":" ((index.texts row).map Value.doubled) := by
  rw [compositeOf, texts, List.map_map]
  rfl

/-- Records match if they have the same texts. -/
theorem matches_iff_texts_eq (hrow : index.CoveredBy row) (hprobe : index.CoveredBy probe) :
    index.Matches row probe ↔ index.texts row = index.texts probe := by
  rw [texts, texts, List.map_inj_left]
  refine forall₂_congr fun field hfield => ?_
  obtain ⟨text, htext⟩ := SortedMap.contains_iff.1 (hrow field hfield)
  obtain ⟨wanted, hwanted⟩ := SortedMap.contains_iff.1 (hprobe field hfield)
  rw [IndexField.textOf, IndexField.textOf, htext, hwanted, Option.map_some, Option.map_some, Option.some_inj,
    Option.getD_some, Option.getD_some]

theorem Matches.compositeOf_eq (hrow : index.CoveredBy row) (hprobe : index.CoveredBy probe)
    (h : index.Matches row probe) : index.compositeOf row = index.compositeOf probe := by
  rw [compositeOf_eq_joined, compositeOf_eq_joined, (matches_iff_texts_eq hrow hprobe).1 h]

/-- A composite value made of separate texts stands for these texts only. -/
theorem matches_of_compositeOf_eq (hrow : index.CoveredBy row) (hprobe : index.CoveredBy probe)
    (hseparate : Separate (index.texts row)) (h : index.compositeOf row = index.compositeOf probe) :
    index.Matches row probe := by
  rw [compositeOf_eq_joined, compositeOf_eq_joined] at h
  refine (matches_iff_texts_eq hrow hprobe).2 (hseparate.eq_of_joined ?_ h)
  rw [texts, texts, List.length_map, List.length_map]

/-- The record with other texts in two fields. -/
def rewritten (row : Row) (first second : IndexField) (text next : String) : Row :=
  (row.insert first.name text).insert second.name next

section Rewritten

variable {before after : List IndexField} {first second : IndexField}

theorem coveredBy_rewritten (hrow : index.CoveredBy row) (first second : IndexField) (text next : String) :
    index.CoveredBy (rewritten row first second text next) := by
  intro field hfield
  exact SortedMap.contains_insert.2 (.inr (SortedMap.contains_insert.2 (.inr (hrow field hfield))))

/-- Other texts in two neighbouring fields change the texts there and no others. -/
theorem texts_rewritten (hfields : index.fields = before ++ first :: second :: after)
    (hnames : (index.fields.map IndexField.name).Nodup) (row : Row) (text next : String) :
    index.texts (rewritten row first second text next) =
      before.map (IndexField.textOf row) ++
        first.cased text :: second.cased next :: after.map (IndexField.textOf row) := by
  have hperm : index.fields.Perm (first :: second :: (before ++ after)) := by
    rw [hfields]
    exact List.perm_middle.trans (List.Perm.cons _ List.perm_middle)
  have hapart := (hperm.map IndexField.name).nodup_iff.1 hnames
  rw [List.map_cons, List.map_cons, List.nodup_cons, List.nodup_cons, List.mem_cons, not_or] at hapart
  obtain ⟨⟨hne, hfirst⟩, hsecond, -⟩ := hapart
  have hothers : ∀ field ∈ before ++ after,
      IndexField.textOf (rewritten row first second text next) field = IndexField.textOf row field := by
    intro field hfield
    have hname : field.name ∈ (before ++ after).map IndexField.name := List.mem_map_of_mem hfield
    rw [rewritten, IndexField.textOf_insert_of_ne fun heq => hsecond (heq ▸ hname),
      IndexField.textOf_insert_of_ne fun heq => hfirst (heq ▸ hname)]
  rw [texts, hfields, List.map_append, List.map_cons, List.map_cons,
    List.map_congr_left fun field hfield => hothers field (List.mem_append_left after hfield),
    List.map_congr_left fun field hfield => hothers field (List.mem_append_right before hfield), rewritten,
    IndexField.textOf_insert_self, IndexField.textOf_insert_of_ne hne, IndexField.textOf_insert_self]

end Rewritten

/-- A record with a colon next to a border shares its composite value with one that differs from it. -/
theorem exists_mistaken (hnames : (index.fields.map IndexField.name).Nodup) (hrow : index.CoveredBy row)
    (hopen : ¬ Guarded (index.texts row)) : ∃ mistaken, index.CoveredBy mistaken ∧
      ¬ index.Matches row mistaken ∧ index.compositeOf mistaken = index.compositeOf row := by
  obtain ⟨_, _, _, _, hsplit, hcolon⟩ := exists_of_not_guarded hopen
  obtain ⟨before, _, hfields, rfl, hmore⟩ := List.map_eq_append_iff.1 hsplit
  obtain ⟨first, _, rfl, rfl, hrest⟩ := List.map_eq_cons_iff.1 hmore
  obtain ⟨second, after, rfl, rfl, rfl⟩ := List.map_eq_cons_iff.1 hrest
  have hmistaken : ∀ text next, first.cased text ≠ IndexField.textOf row first →
      Text.joined ":" ((before.map (IndexField.textOf row) ++ first.cased text :: second.cased next ::
        after.map (IndexField.textOf row)).map Value.doubled) =
          Text.joined ":" ((index.texts row).map Value.doubled) →
      ∃ mistaken, index.CoveredBy mistaken ∧ ¬ index.Matches row mistaken ∧
        index.compositeOf mistaken = index.compositeOf row := by
    intro text next hne hjoined
    have htexts := texts_rewritten hfields hnames row text next
    have hcovers := coveredBy_rewritten hrow first second text next
    refine ⟨rewritten row first second text next, hcovers, fun hmatches => ?_, ?_⟩
    · rw [matches_iff_texts_eq hrow hcovers, hsplit, htexts] at hmatches
      exact hne (List.cons.inj (List.append_cancel_left hmatches)).1.symm
    · rw [compositeOf_eq_joined, compositeOf_eq_joined, htexts, hjoined]
  have hlonger : ∀ text : String, text ++ ":" ≠ text := by
    intro text heq
    have hlength := congrArg (fun text => text.toList.length) heq
    simp at hlength
  rcases hcolon with hend | hstart
  · -- The colon ends the first text, so it might as well begin the second.
    obtain ⟨text, htext⟩ := IndexField.exists_append_colon hend
    have hfirst : IndexField.textOf row first = first.cased text ++ ":" := by
      rw [IndexField.textOf, htext, IndexField.cased_append_colon]
    refine hmistaken text (":" ++ (row.find? second.name).getD "") ?_ ?_
    · rw [hfirst]
      exact (hlonger _).symm
    · rw [IndexField.cased_colon_append, hsplit, hfirst]
      exact (joined_moved _ _ _ _).symm
  · obtain ⟨next, hnext⟩ := IndexField.exists_colon_append hstart
    have hsecond : IndexField.textOf row second = ":" ++ second.cased next := by
      rw [IndexField.textOf, hnext, IndexField.cased_colon_append]
    refine hmistaken ((row.find? first.name).getD "" ++ ":") next ?_ ?_
    · rw [IndexField.cased_append_colon]
      exact hlonger _
    · rw [IndexField.cased_append_colon, hsplit, hsecond]
      exact joined_moved _ _ _ _

/-- The composite value identifies the texts in the fields of the index where they are separate. Equal texts
always have one composite value; and where a text has a colon next to another, there is a record with other
texts that has the same composite value too. -/
theorem composite_identifies {params wantedParams : List String} {machine wantedMachine : Machine}
    {map wanted : String} (hmap : machine.find? map = some row.table)
    (hwanted : wantedMachine.find? wanted = some probe.table) (hrow : index.CoveredBy row)
    (hprobe : index.CoveredBy probe) :
    ∃ text wantedText, Expr.Gives params machine (index.composite map) (.str text) ∧
      Expr.Gives wantedParams wantedMachine (index.composite wanted) (.str wantedText) ∧
      (index.Matches row probe → text = wantedText) ∧
      (Separate (index.texts row) → (text = wantedText ↔ index.Matches row probe)) ∧
      ((index.fields.map IndexField.name).Nodup → ¬ Guarded (index.texts row) →
        ∃ mistaken, index.CoveredBy mistaken ∧ ¬ index.Matches row mistaken ∧
          ∀ params machine map, machine.find? map = some mistaken.table →
            Expr.Gives params machine (index.composite map) (.str text)) := by
  refine ⟨index.compositeOf row, index.compositeOf probe, gives_composite index hmap hrow,
    gives_composite index hwanted hprobe, Matches.compositeOf_eq hrow hprobe, fun hseparate => ?_,
    fun hnames hopen => ?_⟩
  · exact ⟨matches_of_compositeOf_eq hrow hprobe hseparate, Matches.compositeOf_eq hrow hprobe⟩
  · obtain ⟨mistaken, hcovers, hdiffers, hsame⟩ := exists_mistaken hnames hrow hopen
    refine ⟨mistaken, hcovers, hdiffers, fun params machine map hmap => ?_⟩
    rw [← hsame]
    exact gives_composite index hmap hcovers

/-- A unique index over two fields, of which the first ignores case. -/
def byPair : Index :=
  ⟨true, [⟨"a", true⟩, ⟨"b", false⟩]⟩

/-- A record of these two fields. -/
def pairRow (a b : String) : Row :=
  SortedMap.ofList [("a", a), ("b", b)]

/-- A script that holds the record in the variable `map`. -/
def holding (row : Row) : Machine :=
  (Machine.start { body := [], journal := false } ∅).declare "map" row.table

theorem composite_identifies_pair : ∃ text wantedText,
    Expr.Gives [] (holding (pairRow "x:Y" "z")) (byPair.composite "map") (.str text) ∧
      Expr.Gives [] (holding (pairRow "X" "y:z")) (byPair.composite "map") (.str wantedText) ∧
      text ≠ wantedText := by
  obtain ⟨text, wantedText, htext, hwanted, -, hidentifies, -⟩ :=
    @composite_identifies byPair (pairRow "x:Y" "z") (pairRow "X" "y:z") [] [] (holding (pairRow "x:Y" "z"))
      (holding (pairRow "X" "y:z")) "map" "map" rfl rfl (by decide) (by decide)
  refine ⟨text, wantedText, htext, hwanted, fun heq => ?_⟩
  exact absurd ((hidentifies (by decide)).1 heq) (by decide)

/-- A colon at the end of one text and a colon at the start of the next cannot be told apart. -/
theorem composite_merges_pair : ¬ byPair.Matches (pairRow "x:" "y") (pairRow "x" ":y") ∧
    Expr.Gives [] (holding (pairRow "x:" "y")) (byPair.composite "map") (.str "x:::y") ∧
    Expr.Gives [] (holding (pairRow "x" ":y")) (byPair.composite "map") (.str "x:::y") := by
  refine ⟨by decide, ?_, ?_⟩
  · exact @gives_composite [] _ "map" (pairRow "x:" "y") byPair rfl (by decide)
  · exact @gives_composite [] _ "map" (pairRow "x" ":y") byPair rfl (by decide)

end Index

end DocStore
