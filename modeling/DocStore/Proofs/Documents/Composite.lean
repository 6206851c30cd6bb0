import DocStore.Proofs.Documents.Model
import DocStore.Proofs.Script.Evaluation

/-!
Records as tables of a script, and composite values computed from them.

A script holds a record as a table of texts. Over such a table the expressions of an index compute
what the plain model says: the composite value, and whether a field is `null`.
-/

namespace DocStore

open DocStore.Script

namespace Assoc

variable {β γ : Type} (f : β → γ)

theorem find?_map (key : String) (entries : List (String × β)) :
    find? key (entries.map fun entry => (entry.1, f entry.2)) = (find? key entries).map f := by
  induction entries with
  | nil => rfl
  | cons head rest ih =>
    obtain ⟨name, value⟩ := head
    by_cases h : key = name
    · simp [find?, h]
    · simpa [find?, h] using ih

theorem insert_map (key : String) (value : β) (entries : List (String × β)) :
    insert key (f value) (entries.map fun entry => (entry.1, f entry.2)) =
      (insert key value entries).map fun entry => (entry.1, f entry.2) := by
  induction entries with
  | nil => rfl
  | cons head rest ih =>
    obtain ⟨name, old⟩ := head
    simp only [List.map_cons, insert]
    split
    · rfl
    · split
      · rfl
      · rw [ih, List.map_cons]

end Assoc

/-- A record as a table. -/
def Row.table (row : Row) : Value :=
  .table [] (row.entries.map fun entry => (entry.1, .str entry.2))

theorem Row.table_insert (row : Row) (name text : String) :
    Value.table [] (Assoc.insert name (.str text)
      (row.entries.map fun entry => (entry.1, Value.str entry.2))) =
      Row.table (row.insert name text) := by
  rw [Assoc.insert_map Value.str]
  rfl

/-- The names and texts of a record in turn. -/
def Row.flat (row : Row) : List String :=
  row.entries.flatMap fun entry => [entry.1, entry.2]

/-- Reading back a listed record gives its table. -/
theorem Row.toMap_flat (row : Row) :
    (Value.ofReply (Keyspace.listReply row.flat)).toMap = .ok row.table := by
  have hfields : ∀ (entries : List (String × String)) (map : Row),
      Value.fieldsOfFlat (map.entries.map fun entry => (entry.1, Value.str entry.2))
        ((entries.flatMap fun entry => [entry.1, entry.2]).map Value.str) =
      .ok ((map.overlay entries).entries.map fun entry => (entry.1, Value.str entry.2)) := by
    intro entries
    induction entries with
    | nil =>
      intro map
      rfl
    | cons entry rest ih =>
      intro map
      have hstep := ih (map.insert entry.1 entry.2)
      simp only [List.flatMap_cons, List.map_cons, List.cons_append, List.nil_append,
        Value.fieldsOfFlat, Value.text, SortedMap.overlay_cons]
      rw [Assoc.insert_map Value.str]
      exact hstep
  have hself : (∅ : Row).overlay row.entries = row := by
    refine SortedMap.ext fun key => ?_
    rw [SortedMap.find?_overlay_of_agree (f := row.find?) ∅
      (fun pair hpair => SortedMap.find?_eq_some_iff.2 hpair)]
    split
    · rfl
    · rename_i hnot
      cases hfind : row.find? key with
      | none => rfl
      | some value =>
        exact absurd (List.mem_map.2 ⟨_, SortedMap.find?_eq_some_iff.1 hfind, rfl⟩) hnot
  have hflat := hfields row.entries ∅
  rw [hself] at hflat
  have hstart : Value.fieldsOfFlat [] (row.flat.map Value.str) =
      .ok (row.entries.map fun entry => (entry.1, Value.str entry.2)) := hflat
  rw [ofReply_listReply, Value.toMap, hstart]
  rfl

namespace Index

variable {params : List String} {machine : Machine} {map : String} {row : Row}

theorem gives_field (hmap : machine.find? map = some row.table) {name text : String}
    (htext : row.find? name = some text) :
    Expr.Gives params machine (.field map name) (.str text) := by
  have hfield := (@Expr.Gives.field params) hmap name
  rw [Assoc.find?_map Value.str] at hfield
  have hfind : Assoc.find? name row.entries = some text := htext
  rwa [hfind] at hfield

theorem gives_part (hmap : machine.find? map = some row.table) {field : IndexField}
    (hfield : row.contains field.name = true) :
    Expr.Gives params machine (part map field) (.str (partOf row field)) := by
  obtain ⟨text, htext⟩ := SortedMap.contains_iff.1 hfield
  have hstored := (@gives_field params) hmap htext
  unfold part partOf
  rw [htext]
  refine Expr.Gives.escape ?_
  cases field.caseInsensitive with
  | true => exact Expr.Gives.lower hstored
  | false => exact hstored

theorem giveJoined_delimited (hmap : machine.find? map = some row.table) (fields : List IndexField)
    (hfields : ∀ field ∈ fields, row.contains field.name = true) :
    Expr.GiveJoined params machine (delimited (fields.map (part map)))
      (Text.joined ":" (fields.map (partOf row))) := by
  induction fields with
  | nil => exact Expr.GiveJoined.nil
  | cons field rest ih =>
    have hpart := (@gives_part params) hmap (hfields field List.mem_cons_self)
    cases rest with
    | nil =>
      have hone := Expr.GiveJoined.cons hpart rfl Expr.GiveJoined.nil
      rwa [String.append_empty] at hone
    | cons next more =>
      have hrest := ih fun other hother => hfields other (List.mem_cons_of_mem _ hother)
      have hall := Expr.GiveJoined.cons hpart rfl
        (Expr.GiveJoined.cons (Expr.Gives.str ":") rfl hrest)
      rw [← String.append_assoc] at hall
      exact hall

/-- Over a record's table the script computes the record's composite value. -/
theorem gives_composite (index : Index) (hmap : machine.find? map = some row.table)
    (hfields : ∀ field ∈ index.fields, row.contains field.name = true) :
    Expr.Gives params machine (index.composite map) (.str (index.compositeOf row)) :=
  Expr.Gives.concat (giveJoined_delimited hmap index.fields hfields)

/-- Whether a field is not `null`, as a value of the script. -/
def present (row : Row) (field : IndexField) : Value :=
  .bool (row.find? field.name ≠ some nullText)

theorem forall₂_nonNull (index : Index) (hmap : machine.find? map = some row.table)
    (hfields : ∀ field ∈ index.fields, row.contains field.name = true) :
    List.Forall₂ (Expr.Gives params machine) (index.nonNull map)
      (index.fields.map (present row)) := by
  unfold nonNull
  revert hfields
  induction index.fields with
  | nil => exact fun _ => .nil
  | cons field rest ih =>
    intro hfields
    refine .cons ?_ (ih fun other hother => hfields other (List.mem_cons_of_mem _ hother))
    obtain ⟨text, htext⟩ := SortedMap.contains_iff.1 (hfields field List.mem_cons_self)
    have hne := Expr.eval_ne ((@gives_field params) hmap htext)
      (Expr.Gives.str nullText)
    have hpresent : present row field = .bool (!Value.same (.str text) (.str nullText)) := by
      simp [present, htext, Value.same]
    rw [hpresent]
    exact hne

theorem all_present (index : Index) (row : Row) :
    (index.fields.map (present row)).all Value.truthy = index.complete row := by
  simp only [complete, List.all_map, Function.comp_def, present, Expr.truthy_bool]

/-- All conditions together hold if each of them does. -/
theorem gives_every {conditions : List Expr} {values : List Value}
    (h : List.Forall₂ (Expr.Gives params machine) conditions values) :
    ∃ value, Expr.Gives params machine (every conditions) value ∧
      value.truthy = values.all Value.truthy := by
  have hand : ∃ value, Expr.Gives params machine (.and conditions) value ∧
      value.truthy = values.all Value.truthy := by
    obtain ⟨value, hvalue, htruthy⟩ := Expr.Gives.and h (.bool true) rfl
    refine ⟨value, ?_, htruthy⟩
    unfold Expr.Gives Expr.eval
    exact hvalue
  cases h with
  | nil => exact hand
  | @cons condition value rest values hcondition hrest =>
    cases hrest with
    | nil => exact ⟨value, hcondition, by simp⟩
    | cons => exact hand

end Index

end DocStore
