import DocStore.Binary64.Basic
import DocStore.SortedMap

/-!
The content of a store: keys with texts, hashes, sets and scored sets.

A hash, set or scored set that would be empty is not kept at all (`Entry.isEmpty`, `Keyspace.put`), so
that counting keys never counts one.
-/

namespace DocStore

/-- What a key holds. -/
inductive Entry where
  | text (value : String)
  | hash (fields : SortedMap String)
  | set (members : SortedMap Unit)
  | scored (members : SortedMap Binary64)
deriving DecidableEq, Repr

/-- Whether the entry is a hash, set or scored set with nothing in it. -/
def Entry.isEmpty : Entry → Bool
  | .text _ => false
  | .hash fields => fields.isEmpty
  | .set members => members.isEmpty
  | .scored members => members.isEmpty

/-- The content of a store. -/
structure Keyspace where
  entries : SortedMap Entry
deriving DecidableEq, Repr

namespace Keyspace

/-- The store without keys. -/
def empty : Keyspace := ⟨∅⟩

instance : Inhabited Keyspace := ⟨empty⟩

instance : EmptyCollection Keyspace := ⟨empty⟩

/-- What the key holds. -/
def find? (space : Keyspace) (key : String) : Option Entry :=
  space.entries.find? key

/-- Whether the key holds something. -/
def contains (space : Keyspace) (key : String) : Bool :=
  (space.find? key).isSome

/-- The keys, ascending. -/
def keys (space : Keyspace) : List String :=
  space.entries.keys

/-- Number of keys. -/
def size (space : Keyspace) : Nat :=
  space.entries.size

/-- Lets the key hold an entry, or nothing. -/
def restore (space : Keyspace) (key : String) : Option Entry → Keyspace
  | some entry => ⟨space.entries.insert key entry⟩
  | none => ⟨space.entries.erase key⟩

/-- Lets the key hold an entry; an empty one removes the key. -/
def put (space : Keyspace) (key : String) (entry : Entry) : Keyspace :=
  space.restore key (if entry.isEmpty then none else some entry)

/-- No key holds an empty hash, set or scored set. -/
def Tidy (space : Keyspace) : Prop :=
  ∀ key entry, space.find? key = some entry → entry.isEmpty = false

theorem ext {left right : Keyspace} (h : ∀ key, left.find? key = right.find? key) :
    left = right := by
  cases left with
  | mk l =>
    cases right with
    | mk r => exact congrArg mk (SortedMap.ext h)

theorem find?_restore (space : Keyspace) (key probe : String) (entry : Option Entry) :
    (space.restore key entry).find? probe = if probe = key then entry else space.find? probe := by
  cases entry with
  | none => exact SortedMap.find?_erase space.entries key probe
  | some entry => exact SortedMap.find?_insert space.entries key probe entry

theorem find?_put (space : Keyspace) (key probe : String) (entry : Entry) :
    (space.put key entry).find? probe =
      if probe = key then (if entry.isEmpty then none else some entry) else space.find? probe :=
  find?_restore space key probe _

theorem tidy_empty : Tidy ∅ := by
  intro key entry h
  have : (none : Option Entry) = some entry := h
  cases this

theorem Tidy.put {space : Keyspace} (h : space.Tidy) (key : String) (entry : Entry) :
    (space.put key entry).Tidy := by
  intro probe found hfound
  rw [find?_put] at hfound
  split at hfound
  · split at hfound
    · cases hfound
    · rename_i hne
      cases hfound
      simpa using hne
  · exact h probe found hfound

end Keyspace

end DocStore
