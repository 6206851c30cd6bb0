import DocStore.Field.Value

/-!
What an operation comes to.
-/

namespace DocStore.Client

/-- The result of an operation, or of the last one of a batch. -/
inductive Outcome where
  /-- Nothing was asked for, or a schema was stored. -/
  | done
  | created (id : Int)
  | updated
  | deleted
  | record (values : FieldValues)
  | exists (found : Bool)
  | ids (list : List Int)
  | size (count : Nat)
deriving DecidableEq, Repr

/-- The form shown inside messages, such as `Ids([1, 2])`. -/
def Outcome.shown : Outcome → String
  | .done => "Done"
  | .created id => "Created(" ++ Decimal.ofInt id ++ ")"
  | .updated => "Updated"
  | .deleted => "Deleted"
  | .record values => "Record(" ++ values.shown ++ ")"
  | .exists found => "Exists(" ++ (if found then "true" else "false") ++ ")"
  | .ids list => "Ids([" ++ Text.joined ", " (list.map Decimal.ofInt) ++ "])"
  | .size count => "Size(" ++ Decimal.ofNat count ++ ")"

end DocStore.Client
