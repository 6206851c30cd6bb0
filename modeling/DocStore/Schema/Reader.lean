import DocStore.Json.Printer
import DocStore.Json.Written
import DocStore.Schema.Basic

/-!
Schemas from JSON.

A schema is checked in a fixed order, collections, fields and indices each by ascending name, and the
first fault is reported. Shorthands are expanded: a field may be given by its kind alone, an index field
by its name alone, and what is absent is `false`.
-/

namespace DocStore

/-- Why a JSON value is no schema. -/
inductive SchemaError where
  | notJson
  | notObject
  | noCollections
  | collectionName (name : String)
  | noDefinition
  | fieldName (name : String)
  | noType
  | unknownType (name : String)
  | badFlag (option field : String)
  | notIndices
  | indexName (name : String)
  | noUnique
  | noIndexFields
  | unknownProperty (name : String)
  | noIndexFieldName
  | caseFlag (field : String)
  | notIndexField (json : String)
  | undeclared (field : String)
  | repeatedField (field : String)
  | repeatedIndex (name : String)
deriving DecidableEq, Repr

/-- The words for a schema error. -/
def SchemaError.message : SchemaError → String
  | .notJson => "Invalid schema text"
  | .notObject => "Invalid schema."
  | .noCollections => "At least one collection must be defined."
  | .collectionName name => "Invalid collection name: '" ++ name ++ "'"
  | .noDefinition => "Definition missing."
  | .fieldName name => "Invalid field name: '" ++ name ++ "'"
  | .noType => "Type definition missing."
  | .unknownType name => "Invalid type: '" ++ name ++ "'"
  | .badFlag option field => "Invalid '" ++ option ++ "' for field: '" ++ field ++ "'"
  | .notIndices => "Invalid indices definition."
  | .indexName name => "Invalid index name: '" ++ name ++ "'"
  | .noUnique => "Invalid or missing index unique definition"
  | .noIndexFields => "Invalid or missing index fields definition"
  | .unknownProperty name => "Unknown index field property: '" ++ name ++ "'"
  | .noIndexFieldName => "Index field name missing."
  | .caseFlag field => "Invalid 'caseInsensitive' for index field: '" ++ field ++ "'"
  | .notIndexField json => "Invalid index field: '" ++ json ++ "'"
  | .undeclared field => "Invalid index field: '" ++ field ++ "'"
  | .repeatedField field => "Duplicate index field: '" ++ field ++ "'"
  | .repeatedIndex name => "Duplicate index fields: '" ++ name ++ "'"

namespace SchemaError

/-- A result, or the error that explains why there is none. -/
def orElse {α : Type} (found : Option α) (e : SchemaError) : Except SchemaError α :=
  match found with
  | some value => .ok value
  | none => .error e

end SchemaError

/-- Reads the kind of a field. -/
def FieldKind.read (name : String) : Except SchemaError FieldKind :=
  SchemaError.orElse (FieldKind.ofName? name) (.unknownType name)

/-- Reads a flag of a field; absent or `null` means `false`. -/
def FieldType.readFlag (options : Json) (option field : String) : Except SchemaError Bool :=
  match options.given? option with
  | none => .ok false
  | some (.bool b) => .ok b
  | some _ => .error (.badFlag option field)

/-- Reads the type of the field called `name`. -/
def FieldType.read (name : String) (value : Json) : Except SchemaError FieldType :=
  match value with
  | .str kind => do .ok ⟨← FieldKind.read kind, false, false⟩
  | value =>
    match (value.member? "type").bind Json.str? with
    | none => .error .noType
    | some kind => do
      let kind ← FieldKind.read kind
      let allowNull ← FieldType.readFlag value "allowNull" name
      let allowMulti ← FieldType.readFlag value "allowMulti" name
      .ok ⟨kind, allowNull, allowMulti⟩

/-- Reads members under names that must be legal, one after another. -/
def readNamed {β : Type} (badName : String → SchemaError)
    (read : String → Json → Except SchemaError β) :
    List (String × Json) → Except SchemaError (List (String × β))
  | [] => .ok []
  | (name, value) :: rest =>
    if isValidName name then do
      let first ← read name value
      let others ← readNamed badName read rest
      .ok ((name, first) :: others)
    else .error (badName name)

/-- Reads one field of an index, without looking at the collection. -/
def IndexField.read (value : Json) : Except SchemaError IndexField :=
  match value with
  | .str name => .ok ⟨name, false⟩
  | .obj members =>
    match members.find? fun member => member.1 ≠ "name" && member.1 ≠ "caseInsensitive" with
    | some unknown => .error (.unknownProperty unknown.1)
    | none =>
      match (value.member? "name").bind Json.str? with
      | none => .error .noIndexFieldName
      | some name =>
        match value.member? "caseInsensitive" with
        | none => .ok ⟨name, false⟩
        | some (.bool b) => .ok ⟨name, b⟩
        | some _ => .error (.caseFlag name)
  | other => .error (.notIndexField other.text)

/-- Reads the fields of an index after those in `done`: each must be declared and new. -/
def Index.readFields (definition : SortedMap FieldType) (done : List IndexField) :
    List Json → Except SchemaError (List IndexField)
  | [] => .ok done
  | value :: rest => do
    let field ← IndexField.read value
    if !definition.contains field.name then .error (.undeclared field.name)
    else if done.any fun other => other.name = field.name then .error (.repeatedField field.name)
    else Index.readFields definition (done ++ [field]) rest

/-- The fields in ascending order of their names. -/
def Index.sortFields (fields : List IndexField) : List IndexField :=
  fields.mergeSort fun a b => decide (a.name ≤ b.name)

/-- Reads an index of a collection with these fields. -/
def Index.read (definition : SortedMap FieldType) (value : Json) : Except SchemaError Index := do
  let unique ← SchemaError.orElse ((value.member? "unique").bind Json.bool?) .noUnique
  match (value.member? "fields").bind Json.arr? with
  | none | some [] => .error .noIndexFields
  | some entries => do
    let fields ← Index.readFields definition [] entries
    .ok ⟨unique, Index.sortFields fields⟩

/-- Checks that no index is over the same fields as one before it. -/
def Collection.checkDistinct (seen : List NameSet) :
    List (String × Index) → Except SchemaError Unit
  | [] => .ok ()
  | (name, index) :: rest =>
    if seen.contains index.names then .error (.repeatedIndex name)
    else Collection.checkDistinct (index.names :: seen) rest

/-- Reads the indices of a collection with these fields. -/
def Collection.readIndices (definition : SortedMap FieldType) (value : Json) :
    Except SchemaError (List (String × Index)) :=
  match value.given? "indices" with
  | none => .ok []
  | some (.obj members) => readNamed .indexName (fun _ => Index.read definition) members
  | some _ => .error .notIndices

/-- Reads a collection. -/
def Collection.read (value : Json) : Except SchemaError Collection := do
  match (value.member? "definition").bind Json.obj? with
  | none | some [] => .error .noDefinition
  | some members => do
    let definition := SortedMap.ofList (← readNamed .fieldName FieldType.read members)
    let indices := SortedMap.ofList (← Collection.readIndices definition value)
    Collection.checkDistinct [] indices.entries
    .ok ⟨definition, indices⟩

namespace Schema

/-- Reads a schema. -/
def ofJson (value : Json) : Except SchemaError Schema := do
  match value with
  | .obj [] => .error .noCollections
  | .obj members =>
    let collections ← readNamed .collectionName (fun _ => Collection.read) members
    .ok ⟨SortedMap.ofList collections⟩
  | _ => .error .notObject

/-- Reads a schema from JSON text. -/
def ofText (text : String) : Except SchemaError Schema := do
  ofJson (← SchemaError.orElse (Json.ofText? text) .notJson)

end Schema

end DocStore
