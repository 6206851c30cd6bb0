import DocStore.Layout.Keys
import DocStore.Proofs.Keyspace.Commands
import DocStore.Proofs.Text.Decimal
import Mathlib.Tactic.Push

/-!
How an index keeps the ids under a composite value.

A single id stands in the index's hash, two or more stand in a set of their own, and then the hash has
no entry (`Filed`). `Files` says so for every composite value of an index; entering and removing an id
are followed here on the content alone, before any script is run.
-/

namespace DocStore

namespace SortedMap

variable {β : Type} {map : SortedMap β}

theorem size_eq_length_keys : map.size = map.keys.length := by
  simp [size, keys]

theorem keys_eq_singleton {name : String}
    (h : ∀ other, map.contains other = true ↔ other = name) : map.keys = [name] := by
  have hmem : ∀ other, other ∈ map.keys ↔ other = name := fun other => mem_keys_iff.trans (h other)
  have hnodup := map.keys_nodup
  cases hkeys : map.keys with
  | nil => simp [hkeys] at hmem
  | cons first rest =>
    rw [hkeys] at hmem hnodup
    have hfirst : first = name := (hmem first).1 List.mem_cons_self
    cases rest with
    | nil => rw [hfirst]
    | cons second more =>
      have hsecond : second = name :=
        (hmem second).1 (List.mem_cons_of_mem _ List.mem_cons_self)
      have hne := (List.nodup_cons.1 hnodup).1
      rw [hfirst, hsecond] at hne
      exact absurd List.mem_cons_self hne

theorem size_pos {name : String} (h : map.contains name = true) : 0 < map.size := by
  rw [size_eq_length_keys]
  exact List.length_pos_of_mem (mem_keys_iff.2 h)

theorem size_ne_one {a b : String} (hne : a ≠ b) (ha : map.contains a = true)
    (hb : map.contains b = true) : map.size ≠ 1 := by
  rw [size_eq_length_keys]
  intro hone
  obtain ⟨only, honly⟩ := List.length_eq_one_iff.1 hone
  have hmem := fun other (h : map.contains other = true) => mem_keys_iff.2 h
  rw [honly] at hmem
  have ha' : a = only := List.mem_singleton.1 (hmem a ha)
  have hb' : b = only := List.mem_singleton.1 (hmem b hb)
  exact hne (ha'.trans hb'.symm)

theorem contains_insert {key name : String} {value : β} :
    (map.insert key value).contains name = true ↔ name = key ∨ map.contains name = true := by
  simp only [contains, find?_insert]
  split
  · rename_i h
    simp [h]
  · rename_i h
    simp [h]

theorem contains_erase {key name : String} :
    (map.erase key).contains name = true ↔ name ≠ key ∧ map.contains name = true := by
  simp only [contains, find?_erase]
  split
  · rename_i h
    simp [h]
  · rename_i h
    simp [h]

end SortedMap

/-- Two sets with the same names are the same. -/
theorem NameSet.ext {left right : NameSet}
    (h : ∀ name, left.contains name = true ↔ right.contains name = true) : left = right := by
  refine SortedMap.ext fun key => ?_
  have hkey := h key
  simp only [SortedMap.contains] at hkey
  cases hl : left.find? key <;> cases hr : right.find? key <;> simp_all

open Layout

/-- What the hash of an index and its set of holders hold for a composite value under which the ids of
`H` are filed. -/
inductive Filed (H : Int → Prop) : Option String → NameSet → Prop where
  | empty (h : ∀ id, ¬H id) : Filed H none ∅
  | sole (id : Int) (h : ∀ other, H other ↔ other = id) : Filed H (some (Decimal.ofInt id)) ∅
  | many {a b : Int} (hne : a ≠ b) (ha : H a) (hb : H b) {members : NameSet}
      (h : ∀ name, members.contains name = true ↔ ∃ id, H id ∧ name = Decimal.ofInt id) :
      Filed H none members

namespace Filed

variable {H H' : Int → Prop} {entry entry' : Option String} {members members' : NameSet} {id : Int}

theorem congr (h : Filed H entry members) (hH : ∀ id, H' id ↔ H id) : Filed H' entry members := by
  have hsame : H' = H := funext fun id => propext (hH id)
  rwa [hsame]

/-- What is kept is determined by the ids that are filed. -/
theorem unique (h : Filed H entry members) (h' : Filed H entry' members') :
    entry = entry' ∧ members = members' := by
  cases h with
  | empty hnone =>
    cases h' with
    | empty => exact ⟨rfl, rfl⟩
    | sole id hsole => exact absurd ((hsole id).2 rfl) (hnone id)
    | many _ ha => exact absurd ha (hnone _)
  | sole id hsole =>
    cases h' with
    | empty hnone => exact absurd ((hsole id).2 rfl) (hnone id)
    | sole id' hsole' =>
      have hid : id = id' := (hsole' id).1 ((hsole id).2 rfl)
      subst hid
      exact ⟨rfl, rfl⟩
    | many hne ha hb => exact absurd (((hsole _).1 ha).trans ((hsole _).1 hb).symm) hne
  | many hne ha hb hmany =>
    cases h' with
    | empty hnone => exact absurd ha (hnone _)
    | sole id hsole => exact absurd (((hsole _).1 ha).trans ((hsole _).1 hb).symm) hne
    | many _ _ _ hmany' => exact ⟨rfl, NameSet.ext fun name => (hmany name).trans (hmany' name).symm⟩

/-- A second id moves both to the set. -/
theorem second {first : Int} (h : ∀ other, H other ↔ other = first) (hnew : ¬H id) :
    Filed (fun other => H other ∨ other = id) none
      ((∅ : NameSet).overlay [(Decimal.ofInt first, ()), (Decimal.ofInt id, ())]) := by
  have hne : first ≠ id := by
    rintro rfl
    exact hnew ((h first).2 rfl)
  refine .many hne (.inl ((h first).2 rfl)) (.inr rfl) fun name => ?_
  simp only [SortedMap.overlay_cons, SortedMap.overlay_nil, SortedMap.contains_insert]
  constructor
  · rintro (rfl | rfl | hempty)
    · exact ⟨id, .inr rfl, rfl⟩
    · exact ⟨first, .inl ((h first).2 rfl), rfl⟩
    · cases hempty
  · rintro ⟨other, hother | rfl, rfl⟩
    · exact .inr (.inl (congrArg Decimal.ofInt ((h other).1 hother)))
    · exact .inl rfl

/-- Another id joins the others in the set. -/
theorem join {a b : Int} (hne : a ≠ b) (ha : H a) (hb : H b)
    (h : ∀ name, members.contains name = true ↔ ∃ id, H id ∧ name = Decimal.ofInt id) (id : Int) :
    Filed (fun other => H other ∨ other = id) none (members.insert (Decimal.ofInt id) ()) := by
  refine .many hne (.inl ha) (.inl hb) fun name => ?_
  rw [SortedMap.contains_insert, h]
  constructor
  · rintro (rfl | ⟨other, hother, rfl⟩)
    · exact ⟨id, .inr rfl, rfl⟩
    · exact ⟨other, .inl hother, rfl⟩
  · rintro ⟨other, hother | rfl, rfl⟩
    · exact .inr ⟨other, hother, rfl⟩
    · exact .inl rfl

/-- The names in a set of holders after one of them is dropped. -/
theorem contains_drop (h : ∀ name, members.contains name = true ↔ ∃ id, H id ∧ name = Decimal.ofInt id)
    (id : Int) (name : String) :
    (members.erase (Decimal.ofInt id)).contains name = true ↔
      ∃ other, (H other ∧ other ≠ id) ∧ name = Decimal.ofInt other := by
  rw [SortedMap.contains_erase, h]
  constructor
  · rintro ⟨hname, other, hother, rfl⟩
    exact ⟨other, ⟨hother, fun heq => hname (congrArg Decimal.ofInt heq)⟩, rfl⟩
  · rintro ⟨other, ⟨hother, hne⟩, rfl⟩
    exact ⟨fun heq => hne (Decimal.ofInt_injective heq), other, hother, rfl⟩

/-- A set has a holder left, alone or not, when one of at least two is dropped. -/
theorem drop_cases {a b : Int} (hne : a ≠ b) (ha : H a) (hb : H b) (id : Int) :
    (∃ last, ∀ other, (H other ∧ other ≠ id) ↔ other = last) ∨
      ∃ c d, c ≠ d ∧ (H c ∧ c ≠ id) ∧ (H d ∧ d ≠ id) := by
  have hleft : ∃ c, H c ∧ c ≠ id := by
    by_cases haid : a = id
    · exact ⟨b, hb, fun hbid => hne (haid.trans hbid.symm)⟩
    · exact ⟨a, ha, haid⟩
  obtain ⟨c, hc⟩ := hleft
  by_cases halone : ∀ other, (H other ∧ other ≠ id) → other = c
  · refine .inl ⟨c, fun other => ⟨halone other, ?_⟩⟩
    rintro rfl
    exact hc
  · refine .inr ?_
    push Not at halone
    obtain ⟨d, hd, hdc⟩ := halone
    exact ⟨c, d, fun heq => hdc heq.symm, hc, hd⟩

end Filed

/-- The hash under `key` and the sets beside it file exactly the ids of `H` under each composite
value. -/
def Files (space : Keyspace) (key : String) (H : String → Int → Prop) : Prop :=
  ∃ fields : SortedMap String, space.find? key = (Entry.hash fields).kept ∧
    ∀ composite, ∃ members : NameSet,
      space.find? (holdersKey key composite) = (Entry.set members).kept ∧
      Filed (H composite) (fields.find? composite) members

/-- The keys of an index: its hash, and its sets of holders. -/
def IndexKey (key probe : String) : Prop :=
  probe = key ∨ ∃ composite, probe = holdersKey key composite

theorem holdersKey_ne (key composite : String) : holdersKey key composite ≠ key := by
  intro h
  have hlength := congrArg String.length h
  simp only [holdersKey, holdersMark, String.length_append] at hlength
  have hmark : (":=" : String).length = 2 := rfl
  omega

theorem holdersKey_injective {key a b : String} (h : holdersKey key a = holdersKey key b) : a = b := by
  have hlist := congrArg String.toList h
  simp only [holdersKey, String.toList_append] at hlist
  exact String.toList_inj.1 (List.append_cancel_left hlist)

namespace Files

variable {space after : Keyspace} {key composite : String} {H H' : String → Int → Prop}

theorem congr (h : Files space key H) (hH : ∀ composite id, H' composite id ↔ H composite id) :
    Files space key H' := by
  have hsame : H' = H := funext fun composite => funext fun id => propext (hH composite id)
  rwa [hsame]

theorem of_find?_eq (h : Files space key H)
    (hspace : ∀ probe, IndexKey key probe → after.find? probe = space.find? probe) :
    Files after key H := by
  obtain ⟨fields, hhash, hsets⟩ := h
  refine ⟨fields, (hspace _ (.inl rfl)).trans hhash, fun composite => ?_⟩
  obtain ⟨members, hset, hfiled⟩ := hsets composite
  exact ⟨members, (hspace _ (.inr ⟨composite, rfl⟩)).trans hset, hfiled⟩

/-- What an index keeps is determined by what it files. -/
theorem unique (h : Files space key H) (h' : Files after key H) {probe : String}
    (hprobe : IndexKey key probe) : after.find? probe = space.find? probe := by
  obtain ⟨fields, hhash, hsets⟩ := h
  obtain ⟨fields', hhash', hsets'⟩ := h'
  rcases hprobe with rfl | ⟨composite, rfl⟩
  · have hfields : fields' = fields := by
      refine SortedMap.ext fun composite => ?_
      obtain ⟨members, -, hfiled⟩ := hsets composite
      obtain ⟨members', -, hfiled'⟩ := hsets' composite
      exact (hfiled'.unique hfiled).1
    rw [hhash, hhash', hfields]
  · obtain ⟨members, hset, hfiled⟩ := hsets composite
    obtain ⟨members', hset', hfiled'⟩ := hsets' composite
    rw [hset, hset', (hfiled'.unique hfiled).2]

/-- A change under one composite value only. -/
theorem of_change {fields fields' : SortedMap String} {members' : NameSet}
    (hsets : ∀ composite, ∃ members : NameSet,
      space.find? (holdersKey key composite) = (Entry.set members).kept ∧
      Filed (H composite) (fields.find? composite) members)
    (hhash : after.find? key = (Entry.hash fields').kept)
    (hset : after.find? (holdersKey key composite) = (Entry.set members').kept)
    (hother : ∀ other, other ≠ composite →
      after.find? (holdersKey key other) = space.find? (holdersKey key other))
    (hfields : ∀ other, other ≠ composite → fields'.find? other = fields.find? other)
    (hH : ∀ other, other ≠ composite → ∀ id, H' other id ↔ H other id)
    (hfiled : Filed (H' composite) (fields'.find? composite) members') : Files after key H' := by
  refine ⟨fields', hhash, fun other => ?_⟩
  by_cases heq : other = composite
  · subst heq
    exact ⟨members', hset, hfiled⟩
  · obtain ⟨members, hold, hfiledOld⟩ := hsets other
    refine ⟨members, (hother other heq).trans hold, ?_⟩
    rw [hfields other heq]
    exact hfiledOld.congr (hH other heq)

end Files

end DocStore
