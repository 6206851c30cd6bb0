import DocStore.SortedMap

/-!
Schemas: what collections there are, the fields of their records, and their indices.
-/

namespace DocStore

/-- What values a field holds. -/
inductive FieldKind where
  | string
  | int
  | boolean
  | date
  | timestamp
deriving DecidableEq, Repr

namespace FieldKind

/-- The word for a kind. -/
def name : FieldKind → String
  | .string => "string"
  | .int => "int"
  | .boolean => "boolean"
  | .date => "date"
  | .timestamp => "timestamp"

/-- Every kind. -/
def all : List FieldKind := [.string, .int, .boolean, .date, .timestamp]

/-- The kind that a word names. -/
def ofName? (text : String) : Option FieldKind :=
  all.find? fun kind => kind.name = text

theorem ofName?_name (kind : FieldKind) : ofName? kind.name = some kind := by
  cases kind <;> decide

end FieldKind

/-- The type of a field. `allowMulti` is kept with the schema and has no further meaning. -/
structure FieldType where
  kind : FieldKind
  allowNull : Bool
  allowMulti : Bool
deriving DecidableEq, Repr

/-- A field of an index, and whether ASCII capitals count as small letters there. -/
structure IndexField where
  name : String
  caseInsensitive : Bool
deriving DecidableEq, Repr

/-- An index over some fields of a collection. -/
structure Index where
  unique : Bool
  fields : List IndexField
deriving DecidableEq, Repr

namespace Index

/-- The names of the fields. -/
def names (index : Index) : NameSet :=
  NameSet.ofList (index.fields.map (·.name))

/-- Whether a field of the index is among `changed`. -/
def touches (index : Index) (changed : List String) : Bool :=
  index.fields.any fun field => changed.contains field.name

end Index

/-- The fields and the indices of a collection. -/
structure Collection where
  definition : SortedMap FieldType
  indices : SortedMap Index
deriving DecidableEq, Repr

namespace Collection

/-- The type of a declared field. -/
def field? (collection : Collection) (name : String) : Option FieldType :=
  collection.definition.find? name

/-- The first index, by name, over exactly these fields. -/
def indexFor? (collection : Collection) (names : List String) : Option (String × Index) :=
  collection.indices.entries.find? fun entry => entry.2.names = NameSet.ofList names

end Collection

/-- The collections by name. -/
structure Schema where
  collections : SortedMap Collection
deriving DecidableEq, Repr

/-- The collection with a name. -/
def Schema.collection? (schema : Schema) (name : String) : Option Collection :=
  schema.collections.find? name

/-- Whether a character may stand in a name: an ASCII letter or digit, `_` or `-`. -/
def isNameChar (c : Char) : Bool :=
  c.isAlphanum || c = '_' || c = '-'

/-- Whether a text can name a collection, a field, an index or a namespace. -/
def isValidName (text : String) : Bool :=
  !text.isEmpty && text.toList.all isNameChar

/-- An index that fits the fields of its collection: at least one field, all of them declared, in
strictly ascending order. -/
def Index.Fits (index : Index) (definition : SortedMap FieldType) : Prop :=
  index.fields ≠ [] ∧ (∀ field ∈ index.fields, definition.contains field.name = true) ∧
    index.fields.Pairwise fun a b => a.name < b.name

/-- A collection with fields, legal names, indices that fit, and no two indices over the same fields. -/
def Collection.WellFormed (collection : Collection) : Prop :=
  collection.definition.isEmpty = false ∧
  (∀ name ∈ collection.definition.keys, isValidName name = true) ∧
  (∀ name ∈ collection.indices.keys, isValidName name = true) ∧
  (∀ index ∈ collection.indices.values, index.Fits collection.definition) ∧
  collection.indices.entries.Pairwise fun a b => a.2.names ≠ b.2.names

/-- A schema with at least one collection, all of them legally named and well formed. -/
def Schema.WellFormed (schema : Schema) : Prop :=
  schema.collections.isEmpty = false ∧
  (∀ name ∈ schema.collections.keys, isValidName name = true) ∧
  ∀ collection ∈ schema.collections.values, collection.WellFormed

end DocStore
