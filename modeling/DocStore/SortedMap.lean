/-!
Finite maps with text keys, kept in ascending key order.

`Assoc` holds the plain list operations, for use inside recursive types. `SortedMap` adds the order as
a proof field, so that a map is determined by what it answers (`SortedMap.ext`): two maps with the
same lookups are the same map, and listing one gives its keys in byte order of the names.
-/

namespace DocStore

namespace Assoc

variable {β : Type}

/-- The first value listed under `key`. -/
def find? (key : String) : List (String × β) → Option β
  | [] => none
  | (name, value) :: rest => if key = name then some value else find? key rest

/-- Puts `value` under `key`, at the place that keeps ascending lists ascending. -/
def insert (key : String) (value : β) : List (String × β) → List (String × β)
  | [] => [(key, value)]
  | (name, old) :: rest =>
    if key < name then (key, value) :: (name, old) :: rest
    else if key = name then (key, value) :: rest
    else (name, old) :: insert key value rest

/-- Removes the first value listed under `key`. -/
def erase (key : String) : List (String × β) → List (String × β)
  | [] => []
  | (name, old) :: rest => if key = name then rest else (name, old) :: erase key rest

/-- The list holds its keys in strictly ascending order. -/
def Ascending (entries : List (String × β)) : Prop :=
  entries.Pairwise fun a b => a.1 < b.1

/-- The pairs one after another, a later value replacing an earlier one under the same key. -/
def ofPairs (pairs : List (String × β)) : List (String × β) :=
  pairs.foldl (fun done pair => insert pair.1 pair.2 done) []

theorem eq_of_not_lt {a b : String} (h : ¬ a < b) (h' : ¬ b < a) : a = b :=
  String.le_antisymm (String.not_lt.1 h') (String.not_lt.1 h)

theorem lt_of_mem_insert {key bound : String} {value : β} {entries : List (String × β)}
    (hkey : bound < key) (h : ∀ e ∈ entries, bound < e.1) :
    ∀ e ∈ insert key value entries, bound < e.1 := by
  induction entries with
  | nil => simpa [insert] using hkey
  | cons head rest ih =>
    obtain ⟨name, old⟩ := head
    have hname : bound < name := h _ List.mem_cons_self
    have hrest : ∀ e ∈ rest, bound < e.1 := fun e he => h e (List.mem_cons_of_mem _ he)
    unfold insert
    split
    · intro e he
      rcases List.mem_cons.1 he with rfl | he
      · exact hkey
      · exact h e he
    · split
      · intro e he
        rcases List.mem_cons.1 he with rfl | he
        · exact hkey
        · exact hrest e he
      · intro e he
        rcases List.mem_cons.1 he with rfl | he
        · exact hname
        · exact ih hrest e he

theorem Ascending.insert {entries : List (String × β)} (h : Ascending entries)
    (key : String) (value : β) : Ascending (Assoc.insert key value entries) := by
  induction entries with
  | nil => exact List.pairwise_singleton _ _
  | cons head rest ih =>
    obtain ⟨name, old⟩ := head
    obtain ⟨hhead, hrest⟩ := List.pairwise_cons.1 h
    unfold Assoc.insert
    split
    · rename_i hlt
      refine List.pairwise_cons.2 ⟨fun e he => ?_, h⟩
      rcases List.mem_cons.1 he with rfl | he
      · exact hlt
      · exact String.lt_trans hlt (hhead e he)
    · split
      · rename_i heq
        subst heq
        exact List.pairwise_cons.2 ⟨hhead, hrest⟩
      · rename_i hnlt hne
        have hlt : name < key := by
          rcases Decidable.em (name < key) with h' | h'
          · exact h'
          · exact absurd (eq_of_not_lt hnlt h') hne
        exact List.pairwise_cons.2 ⟨lt_of_mem_insert hlt hhead, ih hrest⟩

theorem mem_of_mem_erase {key : String} {entries : List (String × β)} {e : String × β}
    (h : e ∈ erase key entries) : e ∈ entries := by
  induction entries with
  | nil => simp [erase] at h
  | cons head rest ih =>
    obtain ⟨name, old⟩ := head
    unfold erase at h
    split at h
    · exact List.mem_cons_of_mem _ h
    · rcases List.mem_cons.1 h with rfl | h
      · exact List.mem_cons_self
      · exact List.mem_cons_of_mem _ (ih h)

theorem Ascending.erase {entries : List (String × β)} (h : Ascending entries) (key : String) :
    Ascending (Assoc.erase key entries) := by
  induction entries with
  | nil => exact List.Pairwise.nil
  | cons head rest ih =>
    obtain ⟨name, old⟩ := head
    obtain ⟨hhead, hrest⟩ := List.pairwise_cons.1 h
    unfold Assoc.erase
    split
    · exact hrest
    · exact List.pairwise_cons.2 ⟨fun e he => hhead e (mem_of_mem_erase he), ih hrest⟩

theorem Ascending.ofPairs (pairs : List (String × β)) : Ascending (Assoc.ofPairs pairs) := by
  have step : ∀ (done : List (String × β)), Ascending done →
      Ascending (pairs.foldl (fun done pair => Assoc.insert pair.1 pair.2 done) done) := by
    induction pairs with
    | nil => exact fun _ h => h
    | cons pair rest ih => exact fun done h => ih _ (h.insert _ _)
  exact step [] List.Pairwise.nil

theorem find?_insert (key probe : String) (value : β) (entries : List (String × β)) :
    find? probe (insert key value entries) =
      if probe = key then some value else find? probe entries := by
  induction entries with
  | nil => simp [insert, find?]
  | cons head rest ih =>
    obtain ⟨name, old⟩ := head
    unfold insert
    split
    · by_cases hp : probe = key <;> simp [find?, hp]
    · split
      · rename_i heq
        subst heq
        by_cases hp : probe = key <;> simp [find?, hp]
      · rename_i hne
        by_cases hp : probe = name
        · subst hp
          have hne' : ¬ probe = key := fun h => hne h.symm
          simp [find?, hne']
        · simp [find?, hp, ih]

theorem find?_eq_none_of_lt {key : String} {entries : List (String × β)}
    (h : ∀ e ∈ entries, key < e.1) : find? key entries = none := by
  induction entries with
  | nil => rfl
  | cons head rest ih =>
    obtain ⟨name, old⟩ := head
    have hname : key < name := h _ List.mem_cons_self
    have hne : ¬ key = name := fun e => String.lt_irrefl _ (e ▸ hname)
    simp [find?, hne, ih fun e he => h e (List.mem_cons_of_mem _ he)]

theorem find?_erase {entries : List (String × β)} (h : Ascending entries) (key probe : String) :
    find? probe (erase key entries) = if probe = key then none else find? probe entries := by
  induction entries with
  | nil => simp [erase, find?]
  | cons head rest ih =>
    obtain ⟨name, old⟩ := head
    obtain ⟨hhead, hrest⟩ := List.pairwise_cons.1 h
    unfold erase
    split
    · rename_i heq
      subst heq
      by_cases hp : probe = key
      · subst hp
        simpa using find?_eq_none_of_lt hhead
      · simp [find?, hp]
    · rename_i hne
      by_cases hp : probe = name
      · subst hp
        have hne' : ¬ probe = key := fun h => hne h.symm
        simp [find?, hne']
      · simp [find?, hp, ih hrest]

theorem mem_of_find? {key : String} {value : β} {entries : List (String × β)}
    (h : find? key entries = some value) : (key, value) ∈ entries := by
  induction entries with
  | nil => simp [find?] at h
  | cons head rest ih =>
    obtain ⟨name, old⟩ := head
    unfold find? at h
    split at h
    · rename_i heq
      cases h
      exact heq ▸ List.mem_cons_self
    · exact List.mem_cons_of_mem _ (ih h)

theorem find?_of_mem {entries : List (String × β)} (h : Ascending entries) {key : String} {value : β}
    (hmem : (key, value) ∈ entries) : find? key entries = some value := by
  induction entries with
  | nil => simp at hmem
  | cons head rest ih =>
    obtain ⟨name, old⟩ := head
    obtain ⟨hhead, hrest⟩ := List.pairwise_cons.1 h
    rcases List.mem_cons.1 hmem with heq | hmem
    · cases heq
      simp [find?]
    · have hlt : name < key := hhead _ hmem
      have hne : ¬ key = name := fun e => String.lt_irrefl _ (e ▸ hlt)
      simp [find?, hne, ih hrest hmem]

theorem eq_of_find?_eq {left right : List (String × β)} (hl : Ascending left)
    (hr : Ascending right) (h : ∀ key, find? key left = find? key right) : left = right := by
  induction left generalizing right with
  | nil =>
    cases right with
    | nil => rfl
    | cons head rest => simpa [find?] using h head.1
  | cons head rest ih =>
    obtain ⟨name, old⟩ := head
    obtain ⟨hhead, hrest⟩ := List.pairwise_cons.1 hl
    cases right with
    | nil => simpa [find?] using h name
    | cons head' rest' =>
      obtain ⟨name', old'⟩ := head'
      obtain ⟨hhead', hrest'⟩ := List.pairwise_cons.1 hr
      have hname : name = name' := by
        refine eq_of_not_lt (fun hlt => ?_) (fun hlt => ?_)
        · have h1 := h name
          rw [@find?_eq_none_of_lt _ name ((name', old') :: rest')] at h1
          · simp [find?] at h1
          · intro e he
            rcases List.mem_cons.1 he with rfl | he
            · exact hlt
            · exact String.lt_trans hlt (hhead' e he)
        · have h1 := h name'
          rw [@find?_eq_none_of_lt _ name' ((name, old) :: rest)] at h1
          · simp [find?] at h1
          · intro e he
            rcases List.mem_cons.1 he with rfl | he
            · exact hlt
            · exact String.lt_trans hlt (hhead e he)
      subst hname
      have hold : old = old' := by simpa [find?] using h name
      subst hold
      congr 1
      refine ih hrest hrest' fun key => ?_
      by_cases hkey : key = name
      · subst hkey
        rw [find?_eq_none_of_lt hhead, find?_eq_none_of_lt hhead']
      · simpa [find?, hkey] using h key

end Assoc

/-- A finite map from names to values, listed in ascending order of the names. -/
structure SortedMap (β : Type) where
  entries : List (String × β)
  ascending : Assoc.Ascending entries := by exact List.Pairwise.nil

namespace SortedMap

variable {β γ : Type}

instance [DecidableEq β] : DecidableEq (SortedMap β) := fun a b =>
  if h : a.entries = b.entries then
    .isTrue (by cases a; cases b; cases h; rfl)
  else
    .isFalse fun e => h (e ▸ rfl)

instance [Repr β] : Repr (SortedMap β) where
  reprPrec map prec := reprPrec map.entries prec

/-- The map without entries. -/
def empty : SortedMap β where
  entries := []

instance : Inhabited (SortedMap β) := ⟨empty⟩

instance : EmptyCollection (SortedMap β) := ⟨empty⟩

/-- The value under `key`. -/
def find? (map : SortedMap β) (key : String) : Option β :=
  Assoc.find? key map.entries

/-- Whether there is a value under `key`. -/
def contains (map : SortedMap β) (key : String) : Bool :=
  (map.find? key).isSome

/-- Puts `value` under `key`, replacing what was there. -/
def insert (map : SortedMap β) (key : String) (value : β) : SortedMap β where
  entries := Assoc.insert key value map.entries
  ascending := map.ascending.insert key value

/-- Drops whatever is under `key`. -/
def erase (map : SortedMap β) (key : String) : SortedMap β where
  entries := Assoc.erase key map.entries
  ascending := map.ascending.erase key

/-- Number of entries. -/
def size (map : SortedMap β) : Nat :=
  map.entries.length

/-- Whether there are no entries. -/
def isEmpty (map : SortedMap β) : Bool :=
  map.entries.isEmpty

/-- The names, ascending. -/
def keys (map : SortedMap β) : List String :=
  map.entries.map Prod.fst

/-- The values, in ascending order of their names. -/
def values (map : SortedMap β) : List β :=
  map.entries.map Prod.snd

/-- The map holding the pairs, a later one replacing an earlier one of the same name. -/
def ofList (pairs : List (String × β)) : SortedMap β where
  entries := Assoc.ofPairs pairs
  ascending := Assoc.Ascending.ofPairs pairs

@[simp] theorem find?_empty (key : String) : (∅ : SortedMap β).find? key = none := rfl

theorem find?_insert (map : SortedMap β) (key probe : String) (value : β) :
    (map.insert key value).find? probe = if probe = key then some value else map.find? probe :=
  Assoc.find?_insert key probe value map.entries

theorem find?_erase (map : SortedMap β) (key probe : String) :
    (map.erase key).find? probe = if probe = key then none else map.find? probe :=
  Assoc.find?_erase map.ascending key probe

theorem find?_eq_some_iff {map : SortedMap β} {key : String} {value : β} :
    map.find? key = some value ↔ (key, value) ∈ map.entries :=
  ⟨Assoc.mem_of_find?, Assoc.find?_of_mem map.ascending⟩

/-- A map is determined by its lookups. -/
theorem ext {left right : SortedMap β} (h : ∀ key, left.find? key = right.find? key) :
    left = right := by
  cases left with
  | mk l hl =>
    cases right with
    | mk r hr =>
      have : l = r := Assoc.eq_of_find?_eq hl hr h
      subst this
      rfl

theorem isEmpty_iff {map : SortedMap β} : map.isEmpty = true ↔ ∀ key, map.find? key = none := by
  constructor
  · intro h key
    have : map.entries = [] := List.isEmpty_iff.1 h
    simp [find?, this, Assoc.find?]
  · intro h
    have : map = ∅ := ext fun key => (h key).trans (find?_empty key).symm
    subst this
    rfl

end SortedMap

/-- A finite set of names. -/
abbrev NameSet := SortedMap Unit

/-- The set of the names in a list. -/
def NameSet.ofList (names : List String) : NameSet :=
  SortedMap.ofList (names.map fun name => (name, ()))

end DocStore
