import DocStore.Proofs.Documents.Keeps
import DocStore.Proofs.Schema.RoundTrip
import Mathlib.Data.List.Pairwise

/-!
Keys never clash.

All keys of a database stand in one space of texts, with colons between their parts, and come in seven
families. A key tells its namespace and its slot (`Key.text_eq_iff_slot`), so it tells its family and
what it was made from (`Key.text_eq_iff`), whatever collections, fields and indices are called and whatever
the composite value holds. An index key tells the fields of its index; no two indices of a collection are
over the same fields, so there it tells the index.
-/

namespace DocStore

/-- An accepted schema has this collection under this name. -/
def Accepted (name : String) (coll : Collection) : Prop :=
  ∃ value schema, Schema.ofJson value = .ok schema ∧ schema.collection? name = some coll

theorem Accepted.wellFormed {name : String} {coll : Collection} (h : Accepted name coll) :
    isValidName name = true ∧ coll.WellFormed := by
  obtain ⟨value, schema, hvalue, hcoll⟩ := h
  exact (Schema.wellFormed_of_ofJson hvalue).collection hcoll

/-- Indices of a collection over the same fields are one index, under one name. -/
theorem Collection.WellFormed.entry_eq {coll : Collection} (h : coll.WellFormed) {a b : String × Index}
    (ha : a ∈ coll.indices.entries) (hb : b ∈ coll.indices.entries) (hnames : a.2.names = b.2.names) :
    a = b := by
  have : Std.Symm fun a b : String × Index => a.2.names ≠ b.2.names := ⟨fun _ _ hne => hne.symm⟩
  by_contra hne
  exact h.2.2.2.2.forall ha hb hne hnames

theorem NameSet.keys_inj {left right : NameSet} : left.keys = right.keys ↔ left = right := by
  constructor
  · intro h
    apply NameSet.ext
    intro name
    rw [← SortedMap.mem_keys_iff, ← SortedMap.mem_keys_iff, h]
  · rintro rfl
    rfl

namespace Layout

/-- A legal namespace ends at the first colon, so a key tells its namespace and its slot. -/
theorem Slot.eq_of_key_eq {ns ns' : String} {a b : Slot} (hns : isValidName ns = true)
    (hns' : isValidName ns' = true) (ha : a.Legal) (hb : b.Legal) (h : a.key ns = b.key ns') :
    ns = ns' ∧ a = b := by
  have hsame : ns = ns' := eq_of_under hns hns' (under_key ns a) (h ▸ under_key ns' b)
  rw [← hsame] at h
  exact ⟨hsame, Slot.key_injective ha hb h⟩

/-- What a key is made from, by the family that it is in. -/
inductive Key where
  | schema (ns : String)
  | revision (ns : String)
  | nextId (ns collection : String)
  | ids (ns collection : String)
  | record (ns collection : String) (id : Int)
  | index (ns collection name : String) (declared : Index)
  | holders (ns collection name : String) (declared : Index) (composite : String)
deriving DecidableEq, Repr

namespace Key

/-- The key itself. -/
def text : Key → String
  | .schema ns => schemaKey ns
  | .revision ns => revisionKey ns
  | .nextId ns collection => nextIdKey ns collection
  | .ids ns collection => idsKey ns collection
  | .record ns collection id => recordKey ns collection (Decimal.ofInt id)
  | .index ns collection _ declared => indexKey ns collection declared
  | .holders ns collection _ declared composite => holdersKey (indexKey ns collection declared) composite

/-- The namespace. -/
def ns : Key → String
  | .schema ns | .revision ns | .nextId ns _ | .ids ns _ | .record ns _ _ | .index ns _ _ _
  | .holders ns _ _ _ _ => ns

/-- The slot in the namespace. -/
def slot : Key → Slot
  | .schema _ => .schema
  | .revision _ => .revision
  | .nextId _ collection => .of collection .nextId
  | .ids _ collection => .of collection .ids
  | .record _ collection id => .of collection (.record id)
  | .index _ collection _ declared => .of collection (.index declared.names.keys)
  | .holders _ collection _ declared composite => .of collection (.holders declared.names.keys composite)

/-- The key's collection, if it has one, is this one of an accepted schema, and so is its index. -/
def In (coll : Collection) : Key → Prop
  | .schema _ | .revision _ => True
  | .nextId _ collection | .ids _ collection | .record _ collection _ => Accepted collection coll
  | .index _ collection name declared | .holders _ collection name declared _ =>
    Accepted collection coll ∧ coll.indices.find? name = some declared

/-- The keys are in one family and made from the same: an index counts by its fields, and a set of holders
by the key of its index. -/
def Same : Key → Key → Prop
  | .schema ns, .schema ns' | .revision ns, .revision ns' => ns = ns'
  | .nextId ns collection, .nextId ns' collection' | .ids ns collection, .ids ns' collection' =>
    ns = ns' ∧ collection = collection'
  | .record ns collection id, .record ns' collection' id' =>
    ns = ns' ∧ collection = collection' ∧ id = id'
  | .index ns collection _ declared, .index ns' collection' _ declared' =>
    ns = ns' ∧ collection = collection' ∧ declared.names = declared'.names
  | .holders ns collection _ declared composite, .holders ns' collection' _ declared' composite' =>
    indexKey ns collection declared = indexKey ns' collection' declared' ∧ composite = composite'
  | _, _ => False

variable {coll coll' : Collection} {a b : Key}

theorem key_slot (key : Key) : key.slot.key key.ns = key.text := by
  cases key with
  | schema ns => exact key_schema ns
  | revision ns => exact key_revision ns
  | nextId ns collection => exact key_nextId ns collection
  | ids ns collection => exact key_ids ns collection
  | record ns collection id => exact key_record ns collection id
  | index ns collection name declared => exact key_index ns collection declared
  | holders ns collection name declared composite => exact key_holders ns collection declared composite

theorem In.legal_slot {key : Key} (h : key.In coll) : key.slot.Legal := by
  cases key with
  | schema | revision => trivial
  | nextId | ids | record => exact ⟨h.wellFormed.1, trivial⟩
  | index | holders =>
    obtain ⟨hname, hcoll⟩ := h.1.wellFormed
    have hentry := SortedMap.find?_eq_some_iff.1 h.2
    exact ⟨hname, names_legal hcoll (fits_of_mem hcoll hentry)⟩

/-- A key tells its namespace and its slot. -/
theorem text_eq_iff_slot (hns : isValidName a.ns = true) (hns' : isValidName b.ns = true) (ha : a.In coll)
    (hb : b.In coll') : a.text = b.text ↔ a.ns = b.ns ∧ a.slot = b.slot := by
  rw [← key_slot a, ← key_slot b]
  constructor
  · intro h
    exact Slot.eq_of_key_eq hns hns' ha.legal_slot hb.legal_slot h
  · rintro ⟨hsame, hslot⟩
    rw [hsame, hslot]

/-- Keys made from the same are those with the same namespace and slot. -/
theorem same_iff (hns : isValidName a.ns = true) (hns' : isValidName b.ns = true) (ha : a.In coll)
    (hb : b.In coll') : a.Same b ↔ a.ns = b.ns ∧ a.slot = b.slot := by
  cases a with
  | schema ns => cases b <;> simp [Same, Key.ns, slot]
  | revision ns => cases b <;> simp [Same, Key.ns, slot]
  | nextId ns collection => cases b <;> simp [Same, Key.ns, slot]
  | ids ns collection => cases b <;> simp [Same, Key.ns, slot]
  | record ns collection id => cases b <;> simp [Same, Key.ns, slot]
  | index ns collection name declared => cases b <;> simp [Same, Key.ns, slot, NameSet.keys_inj]
  | holders ns collection name declared composite =>
    cases b with
    | holders ns' collection' name' declared' composite' =>
      have hindex := text_eq_iff_slot (a := .index ns collection name declared)
        (b := .index ns' collection' name' declared') hns hns' ha hb
      simp only [text, Key.ns, slot] at hindex
      simp [Same, Key.ns, slot, hindex, and_assoc]
    | schema | revision | nextId | ids | record | index => simp [Same, slot]

/-- In one collection, an index key tells the index and its name. -/
theorem index_eq_of_keys_eq (hcoll : coll.WellFormed) {name name' : String} {declared declared' : Index}
    (h : coll.indices.find? name = some declared) (h' : coll.indices.find? name' = some declared')
    (hkeys : declared.names.keys = declared'.names.keys) : name = name' ∧ declared = declared' := by
  have hentries : (name, declared) = (name', declared') := by
    apply hcoll.entry_eq
    · exact SortedMap.find?_eq_some_iff.1 h
    · exact SortedMap.find?_eq_some_iff.1 h'
    · exact NameSet.keys_inj.1 hkeys
  exact ⟨congrArg Prod.fst hentries, congrArg Prod.snd hentries⟩

/-- In one collection, namespace and slot tell what a key is made from. -/
theorem eq_of_slot_eq (ha : a.In coll) (hb : b.In coll) (hns : a.ns = b.ns) (hslot : a.slot = b.slot) :
    a = b := by
  cases a with
  | schema | revision | nextId | ids | record => cases b <;> simp_all [Key.ns, slot]
  | index ns collection name declared =>
    cases b with
    | index ns' collection' name' declared' =>
      simp only [slot, Slot.of.injEq, Place.index.injEq] at hslot
      obtain ⟨hname, hindex⟩ := index_eq_of_keys_eq ha.1.wellFormed.2 ha.2 hb.2 hslot.2
      rw [show ns = ns' from hns, hslot.1, hname, hindex]
    | schema | revision | nextId | ids | record | holders => cases hslot
  | holders ns collection name declared composite =>
    cases b with
    | holders ns' collection' name' declared' composite' =>
      simp only [slot, Slot.of.injEq, Place.holders.injEq] at hslot
      obtain ⟨hname, hindex⟩ := index_eq_of_keys_eq ha.1.wellFormed.2 ha.2 hb.2 hslot.2.1
      rw [show ns = ns' from hns, hslot.1, hname, hindex, hslot.2.2]
    | schema | revision | nextId | ids | record | index => cases hslot

/-- Two keys are the same text exactly if they are in one family and made from the same; in one collection
they are then made from one index, too. -/
theorem text_eq_iff (hns : isValidName a.ns = true) (hns' : isValidName b.ns = true) (ha : a.In coll)
    (hb : b.In coll') : (a.text = b.text ↔ a.Same b) ∧ (coll = coll' → a.text = b.text → a = b) := by
  constructor
  · rw [text_eq_iff_slot hns hns' ha hb, same_iff hns hns' ha hb]
  · rintro rfl htext
    obtain ⟨hsame, hslot⟩ := (text_eq_iff_slot hns hns' ha hb).1 htext
    exact eq_of_slot_eq ha hb hsame hslot

theorem accepted_crossed : Accepted "i" Schema.crossedFields :=
  ⟨_, Schema.crossed, Schema.ofJson_toJson Schema.wellFormed_crossed, rfl⟩

/-- The holders of a value that spells the rest of another index's key do not stand under that key. -/
theorem text_ne_crossed :
    (Key.holders "p" "i" "one" ⟨true, [⟨"i", false⟩]⟩ ":ids").text ≠
      (Key.index "p" "i" "both" ⟨false, [⟨"i", true⟩, ⟨"ids", false⟩]⟩).text := by
  have hiff := text_eq_iff (a := .holders "p" "i" "one" ⟨true, [⟨"i", false⟩]⟩ ":ids")
    (b := .index "p" "i" "both" ⟨false, [⟨"i", true⟩, ⟨"ids", false⟩]⟩) isValidName_p isValidName_p
    ⟨accepted_crossed, rfl⟩ ⟨accepted_crossed, rfl⟩
  intro htext
  exact hiff.1.1 htext

end Key

end Layout

end DocStore
