import DocStore.Field.Value

/-!
The operations on documents.
-/

namespace DocStore

/-- An operation on the documents of a collection. -/
inductive Operation where
  | create (collection : String) (attrs : FieldValues)
  | update (collection : String) (id : Int) (attrs : FieldValues)
  | delete (collection : String) (id : Int)
  | get (collection : String) (id : Int)
  | exists (collection : String) (id : Int)
  | list (collection : String)
  | size (collection : String)
  | find (collection : String) (attrs : FieldValues)
  | findAll (collection : String) (attrs : FieldValues)
deriving DecidableEq, Repr

namespace Operation

/-- The tag of the operation. -/
def method : Operation → Method
  | .create .. => .create
  | .update .. => .update
  | .delete .. => .delete
  | .get .. => .get
  | .exists .. => .exists
  | .list .. => .list
  | .size .. => .size
  | .find .. => .find
  | .findAll .. => .findAll

/-- The collection that the operation is on. -/
def collection : Operation → String
  | .create collection _ | .update collection _ _ | .delete collection _ | .get collection _
  | .exists collection _ | .list collection | .size collection | .find collection _
  | .findAll collection _ => collection

end Operation

end DocStore
