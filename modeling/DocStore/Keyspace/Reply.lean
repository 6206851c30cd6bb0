import DocStore.Text.Decimal
import DocStore.Text.Quoted

/-!
Replies of the store.
-/

namespace DocStore

/-- What a store answers to a command or a script. -/
inductive Reply where
  | nil
  | int (value : Int)
  | bulk (text : String)
  | status (text : String)
  | array (items : List Reply)
deriving Repr, Inhabited

namespace Reply

mutual

/-- Whether two replies are equal. -/
def same : Reply → Reply → Bool
  | .nil, .nil => true
  | .int a, .int b => a = b
  | .bulk a, .bulk b => a = b
  | .status a, .status b => a = b
  | .array a, .array b => sameItems a b
  | _, _ => false

/-- Whether two lists of replies are equal. -/
def sameItems : List Reply → List Reply → Bool
  | [], [] => true
  | a :: as, b :: bs => a.same b && sameItems as bs
  | _, _ => false

end

mutual

theorem same_iff : ∀ {a b : Reply}, a.same b = true ↔ a = b
  | .nil, b => by cases b <;> simp [same]
  | .int _, b => by cases b <;> simp [same]
  | .bulk _, b => by cases b <;> simp [same]
  | .status _, b => by cases b <;> simp [same]
  | .array as, b => by cases b <;> simp [same, sameItems_iff]

theorem sameItems_iff : ∀ {as bs : List Reply}, sameItems as bs = true ↔ as = bs
  | [], bs => by cases bs <;> simp [sameItems]
  | a :: as, bs => by cases bs <;> simp [sameItems, same_iff, sameItems_iff]

end

instance : DecidableEq Reply := fun a b =>
  if h : a.same b = true then .isTrue (same_iff.1 h) else .isFalse fun e => h (same_iff.2 e)

/-- Whether there is nothing in the reply. -/
def isNil : Reply → Bool
  | .nil => true
  | _ => false

/-- The reply as text; integers are written in base ten. -/
def text? : Reply → Option String
  | .bulk text | .status text => some text
  | .int i => some (Decimal.ofInt i)
  | _ => none

/-- The reply as an integer; the text of a bulk reply is read. -/
def int? : Reply → Option Int
  | .int i => some i
  | .bulk text => Decimal.int64? text
  | _ => none

mutual

/-- The form shown inside messages, such as `Array([Int(1), Bulk("x")])`. -/
def shown : Reply → String
  | .nil => "Nil"
  | .int i => "Int(" ++ Decimal.ofInt i ++ ")"
  | .bulk text => "Bulk(" ++ Text.quoted text ++ ")"
  | .status text => "Status(" ++ Text.quoted text ++ ")"
  | .array items => "Array([" ++ Text.joined ", " (shownItems items) ++ "])"

/-- The shown forms of the items. -/
def shownItems : List Reply → List String
  | [] => []
  | item :: rest => item.shown :: shownItems rest

end

/-- The shown form of a reply that may be missing. -/
def shownOption : Option Reply → String
  | none => "None"
  | some reply => "Some(" ++ reply.shown ++ ")"

end Reply

end DocStore
