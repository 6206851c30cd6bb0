import DocStore.Binary64.Reader
import DocStore.Keyspace.StoreError
import DocStore.SortedMap

/-!
Values that a script computes with, and their exchange with replies.

A table has a list part, counted from one, and named fields in ascending order. A missing reply reads as
`false`. A table is answered as its list part up to the first `nil`; a status is a table with one field.
-/

namespace DocStore.Script

/-- A value. -/
inductive Value where
  | nil
  | bool (value : Bool)
  | int (value : Int)
  | str (text : String)
  | table (items : List Value) (fields : List (String × Value))
deriving Repr, Inhabited

namespace Value

mutual

/-- Whether two values are equal. -/
def same : Value → Value → Bool
  | .nil, .nil => true
  | .bool a, .bool b => a = b
  | .int a, .int b => a = b
  | .str a, .str b => a = b
  | .table as afs, .table bs bfs => sameItems as bs && sameFields afs bfs
  | _, _ => false

/-- Whether two lists of values are equal. -/
def sameItems : List Value → List Value → Bool
  | [], [] => true
  | a :: as, b :: bs => a.same b && sameItems as bs
  | _, _ => false

/-- Whether two lists of fields are equal. -/
def sameFields : List (String × Value) → List (String × Value) → Bool
  | [], [] => true
  | (an, a) :: as, (bn, b) :: bs => an = bn && a.same b && sameFields as bs
  | _, _ => false

end

mutual

theorem same_iff : ∀ {a b : Value}, a.same b = true ↔ a = b
  | .nil, b => by cases b <;> simp [same]
  | .bool _, b => by cases b <;> simp [same]
  | .int _, b => by cases b <;> simp [same]
  | .str _, b => by cases b <;> simp [same]
  | .table as afs, b => by cases b <;> simp [same, sameItems_iff, sameFields_iff]

theorem sameItems_iff : ∀ {as bs : List Value}, sameItems as bs = true ↔ as = bs
  | [], bs => by cases bs <;> simp [sameItems]
  | a :: as, bs => by cases bs <;> simp [sameItems, same_iff, sameItems_iff]

theorem sameFields_iff : ∀ {as bs : List (String × Value)}, sameFields as bs = true ↔ as = bs
  | [], bs => by cases bs <;> simp [sameFields]
  | (an, a) :: as, bs => by
    cases bs with
    | nil => simp [sameFields]
    | cons b bs =>
      obtain ⟨bn, b⟩ := b
      simp [sameFields, same_iff, sameFields_iff]

end

instance : DecidableEq Value := fun a b =>
  if h : a.same b = true then .isTrue (same_iff.1 h) else .isFalse fun e => h (same_iff.2 e)

/-- Everything but `nil` and `false` counts as true. -/
def truthy : Value → Bool
  | .nil | .bool false => false
  | _ => true

/-- Whether the value is `nil`. -/
def isNil : Value → Bool
  | .nil => true
  | _ => false

/-- The kind of a value. -/
def kind : Value → Kind
  | .nil => .nil
  | .bool _ => .boolean
  | .int _ => .number
  | .str _ => .string
  | .table _ _ => .table

/-- The text of a value that is to be used as one; integers are written in base ten. -/
def text (use : Use) : Value → Except StoreError String
  | .str s => .ok s
  | .int i => .ok (Decimal.ofInt i)
  | other => .error (.script (.misused use other.kind))

/-- A table without anything in it. -/
def emptyTable : Value := .table [] []

mutual

/-- The value that a reply reads as. -/
def ofReply : Reply → Value
  | .nil => .bool false
  | .int i => .int i
  | .bulk s => .str s
  | .status s => .table [] [("ok", .str s)]
  | .array items => .table (ofReplies items) []

/-- The values that replies read as. -/
def ofReplies : List Reply → List Value
  | [] => []
  | reply :: rest => ofReply reply :: ofReplies rest

end

mutual

/-- The reply that a value is answered with. -/
def toReply : Value → Reply
  | .nil | .bool false => .nil
  | .bool true => .int 1
  | .int i => .int i
  | .str s => .bulk s
  | .table items fields =>
    match items, Assoc.find? "ok" fields with
    | [], some (.str s) => .status s
    | items, _ => .array (toReplies items)

/-- The replies of the values up to the first `nil`. -/
def toReplies : List Value → List Reply
  | [] => []
  | .nil :: _ => []
  | value :: rest => toReply value :: toReplies rest

end

/-- Every delimiter `:` twice. -/
def doubled (text : String) : String :=
  String.ofList (text.toList.flatMap fun c => if c = ':' then [':', ':'] else [c])

/-- The fields made of a list of names and values in turn; a name without a value is dropped, and a
later field replaces an earlier one. -/
def fieldsOfFlat (done : List (String × Value)) :
    List Value → Except StoreError (List (String × Value))
  | name :: value :: rest =>
    match name.text .index with
    | .ok name => fieldsOfFlat (Assoc.insert name value done) rest
    | .error e => .error e
  | _ => .ok done

/-- The table made of a flat list. -/
def toMap : Value → Except StoreError Value
  | .table items _ => (fieldsOfFlat [] items).map (.table [])
  | other => .error (.script (.misused .length other.kind))

/-- The number that an id is sorted by. -/
def sortKey (id : Value) : Except StoreError Int :=
  match id.text .compare with
  | .error e => .error e
  | .ok text =>
    match Binary64.ofText? text with
    | some number => .ok number.rank
    | none => .error (.script .notId)

/-- Each id with the number that it is sorted by. -/
def withSortKeys : List Value → Except StoreError (List (Int × Value))
  | [] => .ok []
  | id :: rest =>
    match id.sortKey with
    | .error e => .error e
    | .ok key => (withSortKeys rest).map ((key, id) :: ·)

/-- The table with its list part in ascending order of the numbers that it holds as texts. -/
def sortIds : Value → Except StoreError Value
  | .table items fields => do
    let keyed ← withSortKeys items
    .ok (.table ((keyed.mergeSort fun a b => decide (a.1 ≤ b.1)).map Prod.snd) fields)
  | other => .error (.script (.sorted other.kind))

/-- Number of items up to the first `nil`, or of UTF-8 bytes. -/
def length : Value → Except StoreError Value
  | .table items _ => .ok (.int (items.takeWhile (!·.isNil)).length)
  | .str s => .ok (.int s.utf8ByteSize)
  | other => .error (.script (.misused .length other.kind))

/-- Whether the left value is greater: integers by size, texts by their characters' order. -/
def greater : Value → Value → Except StoreError Value
  | .int a, .int b => .ok (.bool (b < a))
  | .str a, .str b => .ok (.bool (b < a))
  | a, b => .error (.script (.unordered a.kind b.kind))

/-- The item at a place counted from one; `nil` beyond the list. -/
def item (place : Int) : Value → Except StoreError Value
  | .table items _ => .ok (if place < 1 then .nil else items.getD (place - 1).toNat .nil)
  | other => .error (.script (.misused .index other.kind))

end Value

end DocStore.Script
