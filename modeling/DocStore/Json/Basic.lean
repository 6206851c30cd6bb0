import DocStore.Binary64.Basic
import DocStore.SortedMap

/-!
JSON values.

An object is a list of members. Values that come from a reader are normalised: the members of every
object ascend by name and no name occurs twice. Values made for printing may list their members in
any order; `Json.normalised` sorts them, and of several members with one name the last stays.
-/

namespace DocStore

/-- A JSON value. Numbers are integers or doubles. -/
inductive Json where
  | null
  | bool (value : Bool)
  | int (value : Int)
  | float (value : Binary64)
  | str (value : String)
  | arr (items : List Json)
  | obj (members : List (String × Json))
deriving Repr, Inhabited

namespace Json

mutual

/-- The same value with the members of every object in ascending order, the last of each name. -/
def normalised : Json → Json
  | .arr items => .arr (normalisedItems items)
  | .obj members => .obj (Assoc.ofPairs (normalisedMembers members))
  | value => value

/-- Normalises each item. -/
def normalisedItems : List Json → List Json
  | [] => []
  | item :: rest => item.normalised :: normalisedItems rest

/-- Normalises the value of each member. -/
def normalisedMembers : List (String × Json) → List (String × Json)
  | [] => []
  | (name, value) :: rest => (name, value.normalised) :: normalisedMembers rest

end

/-- The value of a member; values other than objects have none. -/
def member? (value : Json) (name : String) : Option Json :=
  match value with
  | .obj members => Assoc.find? name members
  | _ => none

/-- A member that is present and not `null`. -/
def given? (value : Json) (name : String) : Option Json :=
  match value.member? name with
  | none | some .null => none
  | some found => some found

/-- The text of a string. -/
def str? : Json → Option String
  | .str text => some text
  | _ => none

/-- The value of an integer. -/
def int? : Json → Option Int
  | .int i => some i
  | _ => none

/-- The value of a truth value. -/
def bool? : Json → Option Bool
  | .bool b => some b
  | _ => none

/-- The items of an array. -/
def arr? : Json → Option (List Json)
  | .arr items => some items
  | _ => none

/-- The members of an object. -/
def obj? : Json → Option (List (String × Json))
  | .obj members => some members
  | _ => none

/-- Whether the value is an object. -/
def isObj : Json → Bool
  | .obj _ => true
  | _ => false

end Json

end DocStore
