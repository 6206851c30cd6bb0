import DocStore.Json.Basic
import DocStore.Json.Token

/-!
JSON text as it is written: members keep their order and may repeat a name, and numbers and strings
keep what their value would lose.

`Written.ofTokens?` runs a stack machine over the tokens. `Written.toJson?` gives the value, if every
number is within the doubles and no string holds half of a surrogate pair alone.
-/

namespace DocStore.Json

/-- The tree of a JSON text. -/
inductive Written where
  | null
  | bool (value : Bool)
  | number (number : NumberText)
  | str (text : Option String)
  | arr (items : List Written)
  | obj (members : List (Option String × Written))
deriving Repr, Inhabited

namespace Written

/-- An array or object that is still open: what it holds so far, newest first, and for an object the
name of the member whose value comes next. -/
inductive Open where
  | array (done : List Written)
  | object (done : List (Option String × Written)) (name : Option String)

/-- What has been read, and so what may come next. -/
inductive State where
  /-- A value must come. -/
  | value (stack : List Open)
  /-- An array has been opened: a value or its end. -/
  | firstItem (stack : List Open)
  /-- An object has been opened: a name or its end. -/
  | firstName (stack : List Open)
  /-- A comma has been read in an object: a name. -/
  | name (stack : List Open) (done : List (Option String × Written))
  /-- A name has been read: a colon. -/
  | colon (stack : List Open) (done : List (Option String × Written)) (name : Option String)
  /-- A value is complete: a comma, the end of what holds it, or the end of the text. -/
  | complete (stack : List Open) (value : Written)

/-- Reads a token where a value must come. -/
def startValue? (stack : List Open) : Token → Option State
  | .openArray => some (.firstItem stack)
  | .openObject => some (.firstName stack)
  | .null => some (.complete stack .null)
  | .bool b => some (.complete stack (.bool b))
  | .number n => some (.complete stack (.number n))
  | .str text => some (.complete stack (.str text))
  | _ => none

/-- Reads a token after a complete value. -/
def afterValue? (value : Written) : List Open → Token → Option State
  | .array done :: stack, .comma => some (.value (.array (value :: done) :: stack))
  | .array done :: stack, .closeArray => some (.complete stack (.arr (value :: done).reverse))
  | .object done name :: stack, .comma => some (.name stack ((name, value) :: done))
  | .object done name :: stack, .closeObject =>
    some (.complete stack (.obj ((name, value) :: done).reverse))
  | _, _ => none

/-- Reads one token. -/
def step? : State → Token → Option State
  | .value stack, token => startValue? stack token
  | .firstItem stack, .closeArray => some (.complete stack (.arr []))
  | .firstItem stack, token => startValue? (.array [] :: stack) token
  | .firstName stack, .closeObject => some (.complete stack (.obj []))
  | .firstName stack, .str text => some (.colon stack [] text)
  | .firstName _, _ => none
  | .name stack done, .str text => some (.colon stack done text)
  | .name _ _, _ => none
  | .colon stack done name, .colon => some (.value (.object done name :: stack))
  | .colon _ _ _, _ => none
  | .complete stack value, token => afterValue? value stack token

/-- The tree of a list of tokens. -/
def ofTokens? (tokens : List Token) : Option Written :=
  match tokens.foldlM step? (.value []) with
  | some (.complete [] value) => some value
  | _ => none

/-- The tree of a JSON text. -/
def ofText? (text : String) : Option Written :=
  (Token.scan? text).bind ofTokens?

mutual

/-- How many arrays and objects lie inside each other. -/
def depth : Written → Nat
  | .arr items => depthItems items + 1
  | .obj members => depthMembers members + 1
  | _ => 0

/-- The greatest depth of the items. -/
def depthItems : List Written → Nat
  | [] => 0
  | item :: rest => max item.depth (depthItems rest)

/-- The greatest depth of the members' values. -/
def depthMembers : List (Option String × Written) → Nat
  | [] => 0
  | (_, value) :: rest => max value.depth (depthMembers rest)

end

mutual

/-- The value, normalised. -/
def toJson? : Written → Option Json
  | .null => some .null
  | .bool b => some (.bool b)
  | .number n =>
    match n.value? with
    | some (.int i) => some (.int i)
    | some (.float x) => some (.float x)
    | none => none
  | .str text => text.map .str
  | .arr items => (itemsToJson? items).map .arr
  | .obj members => (membersToJson? members).map fun members => .obj (Assoc.ofPairs members)

/-- The values of the items. -/
def itemsToJson? : List Written → Option (List Json)
  | [] => some []
  | item :: rest =>
    match item.toJson?, itemsToJson? rest with
    | some value, some values => some (value :: values)
    | _, _ => none

/-- The members with their values, as they are listed. -/
def membersToJson? : List (Option String × Written) → Option (List (String × Json))
  | [] => some []
  | (name, value) :: rest =>
    match name, value.toJson?, membersToJson? rest with
    | some name, some value, some members => some ((name, value) :: members)
    | _, _, _ => none

end

/-- The value, if no more than 127 arrays and objects lie inside each other. -/
def value? (tree : Written) : Option Json :=
  if tree.depth ≤ 127 then tree.toJson? else none

end Written

/-- The value of a JSON text. -/
def ofText? (text : String) : Option Json :=
  (Written.ofText? text).bind Written.value?

end DocStore.Json
