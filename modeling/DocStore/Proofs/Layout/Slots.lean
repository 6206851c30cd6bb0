import DocStore.Layout.Keys
import DocStore.Proofs.Text.Runs
import DocStore.Proofs.Text.Decimal
import Mathlib.Data.List.Basic

/-!
The places that a namespace lays out, and that no two of them share a key.

A key is read from the left: names hold no colon, so the first colon after the namespace ends the
collection's name, and what follows begins with a letter or, for a record, with its id. Inside an
index the first `=` ends the index's own key, and everything behind it is the composite value.
-/

namespace DocStore.Layout

/-- The places of one collection; an index goes by the names of its fields. -/
inductive Place where
  | nextId
  | ids
  | record (id : Int)
  | index (names : List String)
  | holders (names : List String) (composite : String)
deriving DecidableEq, Repr

/-- The places of one namespace. -/
inductive Slot where
  | schema
  | revision
  | of (collection : String) (place : Place)
deriving DecidableEq, Repr

/-- The key of a place after the collection's name. -/
def Place.text : Place → String
  | .nextId => "nextid"
  | .ids => "ids"
  | .record id => Decimal.ofInt id
  | .index names => "i:" ++ Text.joined ":" names
  | .holders names composite => "i:" ++ Text.joined ":" names ++ holdersMark ++ composite

/-- The key of a slot after the namespace. -/
def Slot.text : Slot → String
  | .schema => "_schema"
  | .revision => "_schemaRevision"
  | .of collection place => collection ++ ":" ++ place.text

/-- The key of a slot. -/
def Slot.key (ns : String) (slot : Slot) : String :=
  ns ++ ":" ++ slot.text

/-- An index has fields, and they are legally named. -/
def Place.Legal : Place → Prop
  | .index names | .holders names _ => names ≠ [] ∧ ∀ name ∈ names, isValidName name = true
  | _ => True

/-- Collections are legally named, and so is what lies in them. -/
def Slot.Legal : Slot → Prop
  | .of collection place => isValidName collection = true ∧ place.Legal
  | _ => True

section Keys

variable (ns collection : String)

theorem key_schema : Slot.schema.key ns = schemaKey ns :=
  String.append_assoc

theorem key_revision : Slot.revision.key ns = revisionKey ns :=
  String.append_assoc

theorem key_nextId : (Slot.of collection .nextId).key ns = nextIdKey ns collection := by
  simp only [Slot.key, Slot.text, Place.text, nextIdKey, String.append_assoc]
  rfl

theorem key_ids : (Slot.of collection .ids).key ns = idsKey ns collection := by
  simp only [Slot.key, Slot.text, Place.text, idsKey, String.append_assoc]
  rfl

theorem key_record (id : Int) :
    (Slot.of collection (.record id)).key ns = recordKey ns collection (Decimal.ofInt id) := by
  simp only [Slot.key, Slot.text, Place.text, recordKey, recordStem, String.append_assoc]

theorem key_index (index : Index) :
    (Slot.of collection (.index index.names.keys)).key ns = indexKey ns collection index := by
  simp only [Slot.key, Slot.text, Place.text, indexKey, String.append_assoc]
  rfl

theorem key_holders (index : Index) (composite : String) :
    (Slot.of collection (.holders index.names.keys composite)).key ns =
      holdersKey (indexKey ns collection index) composite := by
  simp only [Slot.key, Slot.text, Place.text, indexKey, holdersKey, String.append_assoc]
  rfl

end Keys

/-- What stands before and after the first `c` is determined. -/
theorem eq_of_append_cons_eq {α : Type} {c : α} {first second rest rest' : List α} (hfirst : c ∉ first)
    (hsecond : c ∉ second) (h : first ++ c :: rest = second ++ c :: rest') :
    first = second ∧ rest = rest' := by
  induction first generalizing second with
  | nil =>
    cases second with
    | nil => exact ⟨rfl, (List.cons.inj h).2⟩
    | cons d more =>
      have hd : c = d := (List.cons.inj h).1
      exact absurd (hd ▸ List.mem_cons_self) hsecond
  | cons d more ih =>
    cases second with
    | nil =>
      have hd : d = c := (List.cons.inj h).1
      exact absurd (hd ▸ List.mem_cons_self) hfirst
    | cons d' more' =>
      obtain ⟨rfl, htail⟩ := List.cons.inj h
      obtain ⟨rfl, hrest⟩ := ih (fun hmem => hfirst (List.mem_cons_of_mem _ hmem))
        (fun hmem => hsecond (List.mem_cons_of_mem _ hmem)) htail
      exact ⟨rfl, hrest⟩

theorem notMem_of_isValidName {name : String} (h : isValidName name = true) {c : Char}
    (hc : isNameChar c = false) : c ∉ name.toList := by
  intro hmem
  have hall : name.toList.all isNameChar = true := (Bool.and_eq_true_iff.1 h).2
  rw [List.all_eq_true.1 hall c hmem] at hc
  cases hc

section Under

variable {ns other key : String}

/-- The key begins with the namespace and a colon. -/
def Under (ns key : String) : Prop :=
  ∃ rest, key = ns ++ ":" ++ rest

theorem under_key (ns : String) (slot : Slot) : Under ns (slot.key ns) :=
  ⟨slot.text, rfl⟩

theorem under_schemaKey (ns : String) : Under ns (schemaKey ns) :=
  key_schema ns ▸ under_key ns .schema

theorem under_revisionKey (ns : String) : Under ns (revisionKey ns) :=
  key_revision ns ▸ under_key ns .revision

/-- No key is below two namespaces, since a colon ends the name of either. -/
theorem eq_of_under (hns : isValidName ns = true) (hother : isValidName other = true) (h : Under ns key)
    (h' : Under other key) : ns = other := by
  obtain ⟨rest, rfl⟩ := h
  obtain ⟨rest', heq⟩ := h'
  have hlists := congrArg String.toList heq
  simp only [String.toList_append, List.append_assoc] at hlists
  have hends := eq_of_append_cons_eq (notMem_of_isValidName hns rfl) (notMem_of_isValidName hother rfl) hlists
  exact String.toList_inj.1 hends.1

end Under

theorem toList_joined_cons (name next : String) (rest : List String) :
    (Text.joined ":" (name :: next :: rest)).toList =
      name.toList ++ ':' :: (Text.joined ":" (next :: rest)).toList := by
  simp [Text.joined]

theorem notMem_joined {names : List String} {c : Char} (hc : c ≠ ':')
    (h : ∀ name ∈ names, c ∉ name.toList) : c ∉ (Text.joined ":" names).toList :=
  Text.notMem_joined (by simpa using hc) h

/-- Names without colons can be read back from their joined text. -/
theorem joined_injective {first second : List String} (hfirst : first ≠ []) (hsecond : second ≠ [])
    (h : ∀ name ∈ first, ':' ∉ name.toList) (h' : ∀ name ∈ second, ':' ∉ name.toList)
    (heq : Text.joined ":" first = Text.joined ":" second) : first = second := by
  induction first generalizing second with
  | nil => exact absurd rfl hfirst
  | cons name rest ih =>
    cases second with
    | nil => exact absurd rfl hsecond
    | cons name' rest' =>
      have hname : ':' ∉ name.toList := h name List.mem_cons_self
      have hname' : ':' ∉ name'.toList := h' name' List.mem_cons_self
      cases rest with
      | nil =>
        cases rest' with
        | nil => simpa [Text.joined] using heq
        | cons next' more' =>
          refine absurd ?_ hname
          have hlist : name.toList = _ := congrArg String.toList heq
          rw [hlist, toList_joined_cons]
          simp
      | cons next more =>
        cases rest' with
        | nil =>
          refine absurd ?_ hname'
          have hlist : _ = name'.toList := congrArg String.toList heq
          rw [← hlist, toList_joined_cons]
          simp
        | cons next' more' =>
          have hlist := congrArg String.toList heq
          rw [toList_joined_cons, toList_joined_cons] at hlist
          obtain ⟨hhead, htail⟩ := eq_of_append_cons_eq hname hname' hlist
          rw [String.toList_inj.1 hhead, ih (by simp) (by simp)
            (fun other hother => h other (List.mem_cons_of_mem _ hother))
            (fun other hother => h' other (List.mem_cons_of_mem _ hother)) (String.toList_inj.1 htail)]

section Places

variable {names names' : List String}

theorem notMem_joined_of_valid (h : ∀ name ∈ names, isValidName name = true) :
    '=' ∉ (Text.joined ":" names).toList :=
  notMem_joined (by decide) fun name hname => notMem_of_isValidName (h name hname) (by decide)

theorem joined_injective_of_valid (hne : names ≠ []) (hne' : names' ≠ [])
    (h : ∀ name ∈ names, isValidName name = true) (h' : ∀ name ∈ names', isValidName name = true)
    (heq : (Text.joined ":" names).toList = (Text.joined ":" names').toList) : names = names' :=
  joined_injective hne hne' (fun name hname => notMem_of_isValidName (h name hname) (by decide))
    (fun name hname => notMem_of_isValidName (h' name hname) (by decide)) (String.toList_inj.1 heq)

theorem toList_index (names : List String) :
    (Place.index names).text.toList = 'i' :: ':' :: (Text.joined ":" names).toList := by
  simp [Place.text]

theorem toList_holders (names : List String) (composite : String) :
    (Place.holders names composite).text.toList =
      'i' :: ':' :: ((Text.joined ":" names).toList ++ [':']) ++ '=' :: composite.toList := by
  simp [Place.text, holdersMark]

theorem notMem_record {c : Char} (hsign : c ≠ '-') (hdigit : ∀ d < 10, c ≠ Decimal.digitChar d)
    (id : Int) : c ∉ (Place.record id).text.toList :=
  Decimal.notMem_ofInt hsign hdigit id

theorem text_record_ne {place : Place} (h : 'i' ∈ place.text.toList) (id : Int) :
    (Place.record id).text ≠ place.text := by
  intro heq
  exact notMem_record (by decide) (by decide) id (heq ▸ h)

theorem text_index_ne_holders (h : ∀ name ∈ names, isValidName name = true) (composite : String) :
    (Place.index names).text ≠ (Place.holders names' composite).text := by
  intro heq
  have hlist := congrArg String.toList heq
  rw [toList_index, toList_holders] at hlist
  have hmem : '=' ∈ 'i' :: ':' :: (Text.joined ":" names).toList := by
    rw [hlist]
    simp
  simp only [List.mem_cons] at hmem
  rcases hmem with hc | hc | hc
  · exact absurd hc (by decide)
  · exact absurd hc (by decide)
  · exact notMem_joined_of_valid h hc

theorem text_word_ne_index {word : String} (h : word.toList[1]? ≠ some ':') (names : List String) :
    word ≠ (Place.index names).text := by
  rintro rfl
  exact h (by rw [toList_index]; rfl)

theorem text_word_ne_holders {word : String} (h : word.toList[1]? ≠ some ':') (names : List String)
    (composite : String) : word ≠ (Place.holders names composite).text := by
  rintro rfl
  exact h (by rw [toList_holders]; rfl)

end Places

/-- Different places of a collection have different keys. -/
theorem Place.text_injective {a b : Place} (ha : a.Legal) (hb : b.Legal) (h : a.text = b.text) :
    a = b := by
  cases a with
  | nextId =>
    cases b with
    | nextId => rfl
    | ids => exact absurd h (by decide)
    | record id => exact absurd h.symm (text_record_ne (by decide) id)
    | index names => exact absurd h (text_word_ne_index (by decide) names)
    | holders names composite => exact absurd h (text_word_ne_holders (by decide) names composite)
  | ids =>
    cases b with
    | nextId => exact absurd h (by decide)
    | ids => rfl
    | record id => exact absurd h.symm (text_record_ne (by decide) id)
    | index names => exact absurd h (text_word_ne_index (by decide) names)
    | holders names composite => exact absurd h (text_word_ne_holders (by decide) names composite)
  | record id =>
    cases b with
    | nextId => exact absurd h (text_record_ne (by decide) id)
    | ids => exact absurd h (text_record_ne (by decide) id)
    | record id' => exact congrArg Place.record (Decimal.ofInt_injective h)
    | index names => exact absurd h (text_record_ne (by rw [toList_index]; simp) id)
    | holders names composite => exact absurd h (text_record_ne (by rw [toList_holders]; simp) id)
  | index names =>
    cases b with
    | nextId => exact absurd h.symm (text_word_ne_index (by decide) names)
    | ids => exact absurd h.symm (text_word_ne_index (by decide) names)
    | record id => exact absurd h.symm (text_record_ne (by rw [toList_index]; simp) id)
    | index names' =>
      have hlist := congrArg String.toList h
      rw [toList_index, toList_index] at hlist
      simp only [List.cons.injEq, true_and] at hlist
      rw [joined_injective_of_valid ha.1 hb.1 ha.2 hb.2 hlist]
    | holders names' composite => exact absurd h (text_index_ne_holders ha.2 composite)
  | holders names composite =>
    cases b with
    | nextId => exact absurd h.symm (text_word_ne_holders (by decide) names composite)
    | ids => exact absurd h.symm (text_word_ne_holders (by decide) names composite)
    | record id => exact absurd h.symm (text_record_ne (by rw [toList_holders]; simp) id)
    | index names' => exact absurd h.symm (text_index_ne_holders hb.2 composite)
    | holders names' composite' =>
      have hfree : ∀ list : List String, (∀ name ∈ list, isValidName name = true) →
          '=' ∉ 'i' :: ':' :: ((Text.joined ":" list).toList ++ [':']) := by
        intro list hlist hmem
        simp only [List.mem_cons, List.mem_append, List.not_mem_nil, or_false] at hmem
        rcases hmem with hc | hc | hc | hc
        · exact absurd hc (by decide)
        · exact absurd hc (by decide)
        · exact notMem_joined_of_valid hlist hc
        · exact absurd hc (by decide)
      have hlist := congrArg String.toList h
      rw [toList_holders, toList_holders] at hlist
      obtain ⟨hnames, hcomposite⟩ := eq_of_append_cons_eq (hfree names ha.2) (hfree names' hb.2) hlist
      simp only [List.cons.injEq, true_and] at hnames
      rw [joined_injective_of_valid ha.1 hb.1 ha.2 hb.2 (List.append_cancel_right hnames),
        String.toList_inj.1 hcomposite]

theorem toList_of (collection : String) (place : Place) :
    (Slot.of collection place).text.toList = collection.toList ++ ':' :: place.text.toList := by
  simp [Slot.text]

theorem text_of_ne {word : String} (h : ':' ∉ word.toList) (collection : String) (place : Place) :
    (Slot.of collection place).text ≠ word := by
  intro heq
  refine h (heq ▸ ?_)
  rw [toList_of]
  simp

/-- Different slots of a namespace have different keys. -/
theorem Slot.key_injective {ns : String} {a b : Slot} (ha : a.Legal) (hb : b.Legal)
    (h : a.key ns = b.key ns) : a = b := by
  have htext : a.text = b.text := by
    have hlist := congrArg String.toList h
    simp only [Slot.key, String.toList_append] at hlist
    exact String.toList_inj.1 (List.append_cancel_left hlist)
  cases a with
  | schema =>
    cases b with
    | schema => rfl
    | revision => exact absurd htext (by decide)
    | of collection place => exact absurd htext.symm (text_of_ne (by decide) collection place)
  | revision =>
    cases b with
    | schema => exact absurd htext (by decide)
    | revision => rfl
    | of collection place => exact absurd htext.symm (text_of_ne (by decide) collection place)
  | of collection place =>
    cases b with
    | schema => exact absurd htext (text_of_ne (by decide) collection place)
    | revision => exact absurd htext (text_of_ne (by decide) collection place)
    | of collection' place' =>
      have hlist := congrArg String.toList htext
      rw [toList_of, toList_of] at hlist
      obtain ⟨hname, hplace⟩ := eq_of_append_cons_eq (notMem_of_isValidName ha.1 (by decide))
        (notMem_of_isValidName hb.1 (by decide)) hlist
      rw [String.toList_inj.1 hname,
        Place.text_injective ha.2 hb.2 (String.toList_inj.1 hplace)]

end DocStore.Layout
