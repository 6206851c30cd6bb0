import DocStore.Json.Printer
import DocStore.Schema.Basic
import DocStore.Text.Digest

/-!
Schemas as JSON. The text is the form in which a schema is stored: collections, fields and indices by
ascending name, nothing left out, so that equal schemas have equal texts.
-/

namespace DocStore

/-- A field type as JSON. -/
def FieldType.toJson (type : FieldType) : Json :=
  .obj [("type", .str type.kind.name), ("allowNull", .bool type.allowNull),
    ("allowMulti", .bool type.allowMulti)]

/-- A field of an index as JSON. -/
def IndexField.toJson (field : IndexField) : Json :=
  .obj [("name", .str field.name), ("caseInsensitive", .bool field.caseInsensitive)]

/-- An index as JSON. -/
def Index.toJson (index : Index) : Json :=
  .obj [("unique", .bool index.unique), ("fields", .arr (index.fields.map IndexField.toJson))]

/-- A map as a JSON object. -/
def SortedMap.toJson {β : Type} (toJson : β → Json) (map : SortedMap β) : Json :=
  .obj (map.entries.map fun entry => (entry.1, toJson entry.2))

/-- A collection as JSON. -/
def Collection.toJson (collection : Collection) : Json :=
  .obj [("definition", collection.definition.toJson FieldType.toJson),
    ("indices", collection.indices.toJson Index.toJson)]

namespace Schema

/-- A schema as JSON, members in the order in which they are stored. -/
def toJson (schema : Schema) : Json :=
  schema.collections.toJson Collection.toJson

/-- The stored text of a schema. -/
def text (schema : Schema) : String :=
  schema.toJson.text

/-- The digest of the stored text. -/
def digest (schema : Schema) : String :=
  Digest.ofText schema.text

end Schema

end DocStore
