import DocStore.Proofs.Schema.RoundTrip
import Mathlib.Data.List.Perm.Basic

/-!
A schema does not depend on how it is spelled.

A field may be declared by its kind alone, an index field by its name alone, what is off need not be given, and
the fields of an index come in any order. `Respelled` relates two JSON values that differ in nothing else, part
by part and at any number of places. Where the fields of an index change places a schema may be rejected for
another reason, so what carries over from the parts to the whole is that both are read as the same, or neither is
read (`SameResult`).
-/

namespace DocStore

open DocStore.Json

/-- Two results are the same value, or both are errors. -/
def SameResult {ε α : Type} (a b : Except ε α) : Prop :=
  ∀ value, a = .ok value ↔ b = .ok value

namespace SameResult

variable {ε α β : Type}

theorem refl (a : Except ε α) : SameResult a a :=
  fun _ => .rfl

theorem of_eq {a b : Except ε α} (h : a = b) : SameResult a b :=
  h ▸ refl a

theorem error (e e' : ε) : SameResult (.error e : Except ε α) (.error e') :=
  fun _ => ⟨nofun, nofun⟩

theorem bind {a b : Except ε α} {next next' : α → Except ε β} (h : SameResult a b)
    (hnext : ∀ value, SameResult (next value) (next' value)) : SameResult (a >>= next) (b >>= next') := by
  intro last
  constructor
  · intro hlast
    obtain ⟨value, hvalue, hlast⟩ := exists_of_bind_eq_ok hlast
    rw [(h value).1 hvalue]
    exact (hnext value last).1 hlast
  · intro hlast
    obtain ⟨value, hvalue, hlast⟩ := exists_of_bind_eq_ok hlast
    rw [(h value).2 hvalue]
    exact (hnext value last).2 hlast

end SameResult

/-- What is given under a name, where a text by itself is short for it. -/
def Json.standsFor? (value : Json) (name : String) : Option Json :=
  match value with
  | .str text => some (.str text)
  | value => value.member? name

/-- The same is given in both, or nothing that counts. -/
def SameGiven (nothing : List (Option Json)) (a b : Option Json) : Prop :=
  a = b ∨ (a ∈ nothing ∧ b ∈ nothing)

/-- The same is given in both, or values of one shape with related contents. -/
inductive SameWithin {α : Type} (shape : α → Json) (related : α → α → Prop) :
    Option Json → Option Json → Prop
  | same (given : Option Json) : SameWithin shape related given given
  | within {a b : α} : related a b → SameWithin shape related (some (shape a)) (some (shape b))

/-- Members of the same names with related values. -/
def SameMembers (related : Json → Json → Prop) (a b : List (String × Json)) : Prop :=
  List.Forall₂ (fun first second => first.1 = second.1 ∧ related first.2 second.2) a b

theorem readNamed_sameResult {β : Type} (badName : String → SchemaError)
    {read : String → Json → Except SchemaError β} {related : Json → Json → Prop} {a b : List (String × Json)}
    (h : SameMembers related a b)
    (hread : ∀ name a b, related a b → SameResult (read name a) (read name b)) :
    SameResult (readNamed badName read a) (readNamed badName read b) := by
  induction h with
  | nil => exact .refl _
  | @cons first second _ _ hfirst _ ih =>
    obtain ⟨name, value⟩ := first
    obtain ⟨_, value'⟩ := second
    obtain ⟨rfl, hvalue⟩ := hfirst
    unfold readNamed
    split
    · exact (hread _ _ _ hvalue).bind fun _ => ih.bind fun _ => .refl _
    · exact .refl _

namespace FieldType

/-- The ways to give a flag of a field that is off. -/
def off : List (Option Json) :=
  [none, some .null, some (.bool false)]

/-- Two spellings of a field: of the same type, and the flags that are not off are given alike. -/
structure Respelled (a b : Json) : Prop where
  type : a.standsFor? "type" = b.standsFor? "type"
  flags : ∀ flag ∈ ["allowNull", "allowMulti"], SameGiven off (a.member? flag) (b.member? flag)

/-- A kind alone, and an object with that type and flags that are off. -/
theorem Respelled.short {kind : String} {members : List (String × Json)}
    (htype : member? (.obj members) "type" = some (.str kind))
    (hflags : ∀ flag ∈ ["allowNull", "allowMulti"], member? (.obj members) flag ∈ off) :
    Respelled (.str kind) (.obj members) where
  type := htype.symm
  flags flag hflag := .inr ⟨List.mem_cons_self, hflags flag hflag⟩

theorem readFlag_of_off {value : Json} {flag : String} (h : value.member? flag ∈ off) (name : String) :
    readFlag value flag name = .ok false := by
  simp only [off, List.mem_cons, List.not_mem_nil, or_false] at h
  rcases h with h | h | h <;> simp [readFlag, given?, h]

theorem readFlag_eq {a b : Json} {flag : String} (h : SameGiven off (a.member? flag) (b.member? flag))
    (name : String) : readFlag a flag name = readFlag b flag name := by
  rcases h with h | ⟨ha, hb⟩
  · rw [readFlag, readFlag, given?, given?, h]
  · rw [readFlag_of_off ha, readFlag_of_off hb]

/-- A kind alone is read as an object with nothing but that type. -/
theorem read_eq_standsFor (name : String) (value : Json) :
    FieldType.read name value = (do
      let kind ← SchemaError.orElse ((value.standsFor? "type").bind Json.str?) .noType
      let kind ← FieldKind.read kind
      let allowNull ← readFlag value "allowNull" name
      let allowMulti ← readFlag value "allowMulti" name
      .ok ⟨kind, allowNull, allowMulti⟩) := by
  cases value with
  | obj members =>
    simp only [FieldType.read, standsFor?]
    cases (member? (.obj members) "type").bind Json.str? <;> rfl
  | _ => rfl

theorem read_eq_of_respelled {a b : Json} (h : Respelled a b) (name : String) :
    FieldType.read name a = FieldType.read name b := by
  have hnull := readFlag_eq (h.flags "allowNull" (by simp)) name
  have hmulti := readFlag_eq (h.flags "allowMulti" (by simp)) name
  rw [read_eq_standsFor, read_eq_standsFor, h.type, hnull, hmulti]

end FieldType

namespace IndexField

/-- The ways to say that the case of an index field counts. -/
def off : List (Option Json) :=
  [none, some (.bool false)]

/-- The members of an index field that mean nothing. -/
def unknown : Json → List (String × Json)
  | .obj members => members.filter fun member => member.1 ≠ "name" && member.1 ≠ "caseInsensitive"
  | _ => []

/-- Two spellings of an index field: of the same name, and the flag is given alike or off. -/
structure Respelled (a b : Json) : Prop where
  name : a.standsFor? "name" = b.standsFor? "name"
  caseInsensitive : SameGiven off (a.member? "caseInsensitive") (b.member? "caseInsensitive")
  unknown : unknown a = unknown b

/-- A name alone, and an object with that name and the flag off. -/
theorem Respelled.short {name : String} {members : List (String × Json)}
    (hname : member? (.obj members) "name" = some (.str name))
    (hflag : member? (.obj members) "caseInsensitive" ∈ off)
    (hunknown : IndexField.unknown (.obj members) = []) : Respelled (.str name) (.obj members) where
  name := hname.symm
  caseInsensitive := .inr ⟨List.mem_cons_self, hflag⟩
  unknown := hunknown.symm

/-- An index field is read if it has a name, the flag is `true`, `false` or absent, and there is nothing else. -/
theorem read_eq_ok_iff {value : Json} {field : IndexField} :
    IndexField.read value = .ok field ↔ unknown value = [] ∧ value.standsFor? "name" = some (.str field.name) ∧
      (value.member? "caseInsensitive" = some (.bool field.caseInsensitive) ∨
        (value.member? "caseInsensitive" = none ∧ field.caseInsensitive = false)) := by
  obtain ⟨name, caseInsensitive⟩ := field
  cases value with
  | str text => simp [IndexField.read, unknown, standsFor?, member?, eq_comm]
  | obj members =>
    have hunknown : unknown (.obj members) = [] ↔
        (members.find? fun member => member.1 ≠ "name" && member.1 ≠ "caseInsensitive") = none := by
      rw [unknown, List.filter_eq_nil_iff, List.find?_eq_none]
    rw [IndexField.read, hunknown]
    simp only [standsFor?]
    cases members.find? fun member => member.1 ≠ "name" && member.1 ≠ "caseInsensitive" with
    | some member => simp
    | none =>
      cases hname : member? (.obj members) "name" with
      | none => simp
      | some given =>
        cases given with
        | str text =>
          cases hflag : member? (.obj members) "caseInsensitive" with
          | none => simp [Json.str?, eq_comm]
          | some flag => cases flag <;> simp [Json.str?]
        | _ => simp [Json.str?]
  | _ => simp [IndexField.read, standsFor?, member?]

theorem read_sameResult {a b : Json} (h : Respelled a b) : SameResult (IndexField.read a) (IndexField.read b) := by
  intro field
  rw [read_eq_ok_iff, read_eq_ok_iff, h.unknown, h.name]
  rcases h.caseInsensitive with hflag | ⟨ha, hb⟩
  · rw [hflag]
  · simp only [off, List.mem_cons, List.not_mem_nil, or_false] at ha hb
    rcases ha with ha | ha <;> rcases hb with hb | hb <;> simp [ha, hb]

end IndexField

namespace Index

variable {definition : SortedMap FieldType}

/-- The fields of an index, spelled in another way one by one, and then in another order. -/
def SameFields (a b : List Json) : Prop :=
  ∃ between, List.Forall₂ IndexField.Respelled a between ∧ between.Perm b

/-- Two spellings of an index: unique alike, and over the same fields. -/
structure Respelled (a b : Json) : Prop where
  unique : a.member? "unique" = b.member? "unique"
  fields : SameWithin .arr SameFields (a.member? "fields") (b.member? "fields")

/-- Each value is read as the field in its place. -/
theorem readFields_forall₂ {values : List Json} {done fields : List IndexField}
    (h : readFields definition done values = .ok fields) :
    ∃ more, fields = done ++ more ∧
      List.Forall₂ (fun value field => IndexField.read value = .ok field) values more := by
  induction values generalizing done with
  | nil =>
    cases h
    exact ⟨[], (List.append_nil _).symm, .nil⟩
  | cons value rest ih =>
    obtain ⟨field, hfield, h⟩ := exists_of_bind_eq_ok h
    split at h
    · cases h
    · split at h
      · cases h
      · obtain ⟨more, rfl, hmore⟩ := ih h
        exact ⟨field :: more, by simp, .cons hfield hmore⟩

/-- Which fields are read does not say in which order they must be declared or checked. -/
theorem readFields_eq_ok_iff {values : List Json} {fields : List IndexField} :
    readFields definition [] values = .ok fields ↔
      List.Forall₂ (fun value field => IndexField.read value = .ok field) values fields ∧
        (∀ field ∈ fields, definition.contains field.name = true) ∧ (fields.map (·.name)).Nodup := by
  constructor
  · intro h
    obtain ⟨more, rfl, hmore⟩ := readFields_forall₂ h
    obtain ⟨-, hdeclared, hnodup⟩ := readFields_spec h (fun _ hmem => absurd hmem List.not_mem_nil) List.nodup_nil
    exact ⟨hmore, hdeclared, hnodup⟩
  · rintro ⟨hreads, hdeclared, hnodup⟩
    exact readFields_of_read hreads hdeclared (List.pairwise_map.1 hnodup)

theorem readFields_sameResult {a b : List Json} (h : List.Forall₂ IndexField.Respelled a b) (done : List IndexField) :
    SameResult (readFields definition done a) (readFields definition done b) := by
  induction h generalizing done with
  | nil => exact .refl _
  | cons hfirst _ ih =>
    refine (IndexField.read_sameResult hfirst).bind fun field => ?_
    split
    · exact .refl _
    · split
      · exact .refl _
      · exact ih _

/-- Fields of different names are the same fields once they are sorted, in whatever order they came. -/
theorem sortFields_eq_of_perm {fields others : List IndexField} (h : fields.Perm others)
    (hnodup : (fields.map (·.name)).Nodup) : sortFields fields = sortFields others := by
  have hperm : (sortFields fields).Perm (sortFields others) :=
    (List.mergeSort_perm fields _).trans (h.trans (List.mergeSort_perm others _).symm)
  refine hperm.eq_of_pairwise (fun x y _ _ hxy hyx => ?_) (sortFields_ascending hnodup)
    (sortFields_ascending ((h.map _).nodup_iff.1 hnodup))
  exact absurd hyx (String.lt_asymm hxy)

/-- The fields in another order are all read, too, and are the same in order of their names. -/
theorem readFields_of_perm {a b : List Json} (h : a.Perm b) {fields : List IndexField}
    (hread : readFields definition [] a = .ok fields) :
    ∃ others, readFields definition [] b = .ok others ∧ sortFields others = sortFields fields := by
  obtain ⟨hreads, hdeclared, hnodup⟩ := readFields_eq_ok_iff.1 hread
  obtain ⟨others, hothers, hperm⟩ := List.perm_comp_forall₂ h.symm hreads
  have hdistinct : (others.map (·.name)).Nodup := (hperm.map _).nodup_iff.2 hnodup
  refine ⟨others, readFields_eq_ok_iff.2 ⟨hothers, fun field hfield => ?_, hdistinct⟩,
    sortFields_eq_of_perm hperm hdistinct⟩
  exact hdeclared field (hperm.mem_iff.1 hfield)

/-- The fields as they are kept, in order of their names. -/
theorem readSorted_sameResult {a b : List Json} (h : SameFields a b) {unique : Bool} :
    SameResult (do let fields ← readFields definition [] a; .ok (⟨unique, sortFields fields⟩ : Index))
      (do let fields ← readFields definition [] b; .ok ⟨unique, sortFields fields⟩) := by
  obtain ⟨between, hspelled, hperm⟩ := h
  have hsorted : ∀ {c d : List Json} (index : Index), c.Perm d →
      (do let fields ← readFields definition [] c; .ok (⟨unique, sortFields fields⟩ : Index)) = .ok index →
      (do let fields ← readFields definition [] d; .ok (⟨unique, sortFields fields⟩ : Index)) = .ok index := by
    intro c d index hcd hread
    obtain ⟨fields, hfields, hindex⟩ := exists_of_bind_eq_ok hread
    obtain ⟨others, hothers, hsame⟩ := readFields_of_perm hcd hfields
    rw [hothers, ← hindex, ← hsame]
    rfl
  intro index
  rw [((readFields_sameResult hspelled []).bind fun _ => .refl _) index]
  exact ⟨hsorted index hperm, hsorted index hperm.symm⟩

theorem read_sameResult {a b : Json} (h : Respelled a b) :
    SameResult (Index.read definition a) (Index.read definition b) := by
  obtain ⟨hunique, hfields⟩ := h
  rw [Index.read, Index.read, hunique]
  refine (SameResult.refl _).bind fun unique => ?_
  generalize a.member? "fields" = first at hfields
  generalize b.member? "fields" = second at hfields
  cases hfields with
  | same given => exact .refl _
  | @within entries others h =>
    cases entries with
    | nil =>
      obtain ⟨between, hspelled, hperm⟩ := h
      cases hspelled
      cases hperm.nil_eq
      exact .refl _
    | cons entry entries =>
      cases others with
      | nil =>
        obtain ⟨between, hspelled, hperm⟩ := h
        cases hperm.eq_nil
        cases hspelled
      | cons other others => exact readSorted_sameResult h

end Index

namespace Collection

/-- The ways to declare no indices. -/
def noIndices : List (Option Json) :=
  [none, some .null, some (.obj [])]

/-- Two spellings of a collection: the same fields, and the same indices or none in both. -/
structure Respelled (a b : Json) : Prop where
  definition : SameWithin .obj (SameMembers FieldType.Respelled) (a.member? "definition") (b.member? "definition")
  indices : SameWithin .obj (SameMembers Index.Respelled) (a.member? "indices") (b.member? "indices") ∨
    (a.member? "indices" ∈ noIndices ∧ b.member? "indices" ∈ noIndices)

variable {definition : SortedMap FieldType}

theorem readIndices_of_none {value : Json} (h : value.member? "indices" ∈ noIndices) :
    readIndices definition value = .ok [] := by
  simp only [noIndices, List.mem_cons, List.not_mem_nil, or_false] at h
  rcases h with h | h | h <;> simp [readIndices, given?, h, readNamed]

theorem readIndices_sameResult {a b : Json} (h : Respelled a b) :
    SameResult (readIndices definition a) (readIndices definition b) := by
  rcases h.indices with hsame | ⟨ha, hb⟩
  · rw [readIndices, readIndices, given?, given?]
    generalize a.member? "indices" = first at hsame
    generalize b.member? "indices" = second at hsame
    cases hsame with
    | same given => exact .refl _
    | within h => exact readNamed_sameResult .indexName h fun _ _ _ => Index.read_sameResult
  · rw [readIndices_of_none ha, readIndices_of_none hb]
    exact .refl _

theorem read_sameResult {a b : Json} (h : Respelled a b) : SameResult (Collection.read a) (Collection.read b) := by
  have hrest : ∀ definition, SameResult
      (do
        let indices := SortedMap.ofList (← readIndices definition a)
        checkDistinct [] indices.entries
        .ok (⟨definition, indices⟩ : Collection))
      (do
        let indices := SortedMap.ofList (← readIndices definition b)
        checkDistinct [] indices.entries
        .ok ⟨definition, indices⟩) :=
    fun definition => (readIndices_sameResult h).bind fun _ => .refl _
  have hdefinition := h.definition
  rw [Collection.read, Collection.read]
  generalize a.member? "definition" = first at hdefinition
  generalize b.member? "definition" = second at hdefinition
  cases hdefinition with
  | same given =>
    split
    · exact .refl _
    · exact .refl _
    · exact (SameResult.refl _).bind fun fields => hrest _
  | @within members others h =>
    have hread := readNamed_sameResult .fieldName h
      fun name _ _ hfield => .of_eq (FieldType.read_eq_of_respelled hfield name)
    cases h with
    | nil => exact .refl _
    | cons => exact hread.bind fun fields => hrest _

end Collection

namespace Schema

/-- Two spellings of a schema: the same collections. -/
def Respelled (a b : Json) : Prop :=
  SameWithin .obj (SameMembers Collection.Respelled) (some a) (some b)

theorem ofJson_sameResult {a b : Json} (h : Respelled a b) : SameResult (ofJson a) (ofJson b) := by
  cases h with
  | same => exact .refl _
  | within h =>
    have hread := readNamed_sameResult .collectionName h fun _ _ _ => Collection.read_sameResult
    cases h with
    | nil => exact .refl _
    | cons => exact hread.bind fun _ => .refl _

/-- A collection with an index, and one without. -/
def short : Schema :=
  ⟨.ofList [
    ("people", ⟨.ofList [("born", ⟨.date, false, false⟩), ("name", ⟨.string, false, false⟩)],
      .ofList [("both", ⟨true, [⟨"born", false⟩, ⟨"name", false⟩]⟩)]⟩),
    ("pets", ⟨.ofList [("name", ⟨.string, false, false⟩)], ∅⟩)]⟩

/-- That schema in its shortest spelling, the fields of the index out of order. -/
def shortJson : Json :=
  .obj [
    ("people", .obj [
      ("definition", .obj [("born", .str "date"), ("name", .str "string")]),
      ("indices", .obj [("both", .obj [("fields", .arr [.str "name", .str "born"]), ("unique", .bool true)])])]),
    ("pets", .obj [("definition", .obj [("name", .str "string")])])]

/-- That schema in full. -/
def longJson : Json :=
  .obj [
    ("people", .obj [
      ("definition", .obj [
        ("born", .obj [("allowMulti", .bool false), ("allowNull", .bool false), ("type", .str "date")]),
        ("name", .obj [("allowMulti", .bool false), ("allowNull", .bool false), ("type", .str "string")])]),
      ("indices", .obj [("both", .obj [
        ("fields", .arr [
          .obj [("caseInsensitive", .bool false), ("name", .str "born")],
          .obj [("caseInsensitive", .bool false), ("name", .str "name")]]),
        ("unique", .bool true)])])]),
    ("pets", .obj [
      ("definition", .obj [
        ("name", .obj [("allowMulti", .bool false), ("allowNull", .bool false), ("type", .str "string")])]),
      ("indices", .obj [])])]

theorem longJson_ofJson : ofJson longJson = .ok short := by
  have hlong : short.toJson.normalised = longJson := by with_unfolding_all rfl
  rw [← hlong]
  exact ofJson_toJson (by decide +kernel)

theorem respelled_long : Respelled shortJson longJson := by
  have hkind : ∀ kind, FieldType.Respelled (.str kind)
      (.obj [("allowMulti", .bool false), ("allowNull", .bool false), ("type", .str kind)]) := fun kind =>
    .short (by simp [member?, Assoc.find?]) (by simp [member?, Assoc.find?, FieldType.off])
  have hname : ∀ name, IndexField.Respelled (.str name)
      (.obj [("caseInsensitive", .bool false), ("name", .str name)]) := fun name =>
    .short (by simp [member?, Assoc.find?]) (by simp [member?, Assoc.find?, IndexField.off]) rfl
  have hfields : Index.SameFields [.str "name", .str "born"] [
      .obj [("caseInsensitive", .bool false), ("name", .str "born")],
      .obj [("caseInsensitive", .bool false), ("name", .str "name")]] :=
    ⟨_, .cons (hname _) (.cons (hname _) .nil), .swap _ _ _⟩
  refine .within (.cons ⟨rfl, ?_, ?_⟩ (.cons ⟨rfl, ?_, ?_⟩ .nil))
  · exact .within (.cons ⟨rfl, hkind _⟩ (.cons ⟨rfl, hkind _⟩ .nil))
  · exact .inl (.within (.cons ⟨rfl, rfl, .within hfields⟩ .nil))
  · exact .within (.cons ⟨rfl, hkind _⟩ .nil)
  · exact .inr (by simp [member?, Assoc.find?, Collection.noIndices])

end Schema

end DocStore
