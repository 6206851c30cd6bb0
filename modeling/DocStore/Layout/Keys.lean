import DocStore.Schema.Basic
import DocStore.Text.Quoted

/-!
The keys under which everything is stored. They all begin with a namespace and a colon, so that several
databases can share a store.
-/

namespace DocStore.Layout

/-- The key of the schema's text. -/
def schemaKey (ns : String) : String :=
  ns ++ ":_schema"

/-- The key of the schema's revision. -/
def revisionKey (ns : String) : String :=
  ns ++ ":_schemaRevision"

/-- The key of the last id drawn in a collection. -/
def nextIdKey (ns collection : String) : String :=
  ns ++ ":" ++ collection ++ ":nextid"

/-- The key of the live ids of a collection, scored by themselves. -/
def idsKey (ns collection : String) : String :=
  ns ++ ":" ++ collection ++ ":ids"

/-- What the keys of a collection's records begin with; the id follows. -/
def recordStem (ns collection : String) : String :=
  ns ++ ":" ++ collection ++ ":"

/-- The key of a record. -/
def recordKey (ns collection id : String) : String :=
  recordStem ns collection ++ id

/-- The key of an index: a hash from composite values to ids. -/
def indexKey (ns collection : String) (index : Index) : String :=
  ns ++ ":" ++ collection ++ ":i:" ++ Text.joined ":" index.names.keys

/-- What stands between an index key and a composite value. -/
def holdersMark : String := ":="

/-- The key of the set of ids that share a composite value of an index. -/
def holdersKey (indexKey composite : String) : String :=
  indexKey ++ holdersMark ++ composite

end DocStore.Layout
