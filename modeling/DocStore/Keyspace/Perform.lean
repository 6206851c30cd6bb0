import DocStore.Keyspace.Basic
import DocStore.Keyspace.Request

/-!
What requests do to a keyspace, and what they answer.

`Keyspace.perform` is one function per kind of entry over `SortedMap`; each answers with the reply and
the new keyspace, and an error leaves the keyspace as it was.
-/

namespace DocStore

namespace SortedMap

variable {β : Type}

/-- Puts in every pair, one after another, and counts the names that were not there before. -/
def insertAll (map : SortedMap β) : List (String × β) → SortedMap β × Nat
  | [] => (map, 0)
  | (name, value) :: rest =>
    let (done, added) := (map.insert name value).insertAll rest
    (done, if map.contains name then added else added + 1)

/-- Drops every name, one after another, and counts those that were there. -/
def eraseAll (map : SortedMap β) : List String → SortedMap β × Nat
  | [] => (map, 0)
  | name :: rest =>
    let (done, removed) := (map.erase name).eraseAll rest
    (done, if map.contains name then removed + 1 else removed)

end SortedMap

namespace Keyspace

/-- The text under a key. -/
def text? (space : Keyspace) (key : String) : Except StoreError (Option String) :=
  match space.find? key with
  | none => .ok none
  | some (.text value) => .ok (some value)
  | some _ => .error (.wrongType key)

/-- The hash under a key; a missing one is empty. -/
def hash (space : Keyspace) (key : String) : Except StoreError (SortedMap String) :=
  match space.find? key with
  | none => .ok ∅
  | some (.hash fields) => .ok fields
  | some _ => .error (.wrongType key)

/-- The set under a key; a missing one is empty. -/
def set (space : Keyspace) (key : String) : Except StoreError (SortedMap Unit) :=
  match space.find? key with
  | none => .ok ∅
  | some (.set members) => .ok members
  | some _ => .error (.wrongType key)

/-- The scored set under a key; a missing one is empty. -/
def scored (space : Keyspace) (key : String) : Except StoreError (SortedMap Binary64) :=
  match space.find? key with
  | none => .ok ∅
  | some (.scored members) => .ok members
  | some _ => .error (.wrongType key)

/-- The next value of a counter; a missing one stands at zero. Counters have 64 bits, and the greatest value
is followed by the least. -/
def nextCount (space : Keyspace) (key : String) : Except StoreError Int :=
  match space.text? key with
  | .error e => .error e
  | .ok none => .ok 1
  | .ok (some value) =>
    match Decimal.int64? value with
    | some i => .ok (Decimal.wrapped (i + 1))
    | none => .error (.script .notInteger)

/-- Removes keys one after another, and counts those that were there. -/
def removeAll (space : Keyspace) : List String → Keyspace × Nat
  | [] => (space, 0)
  | key :: rest =>
    let (done, removed) := (space.restore key none).removeAll rest
    (done, if space.contains key then removed + 1 else removed)

/-- The members in ascending order of their scores, those with the same score in order of their names. -/
def byScore (members : SortedMap Binary64) : List String :=
  let before (a b : String × Binary64) : Bool :=
    a.2.rank < b.2.rank || (a.2.rank = b.2.rank && a.1 ≤ b.1)
  (members.entries.mergeSort before).map Prod.fst

/-- The items from place `start` to place `stop`, both counted from zero or, if negative, from the end. -/
def range (items : List String) (start stop : Int) : List String :=
  let count : Int := items.length
  let first := if start < 0 then max (count + start) 0 else start
  let last := if stop < 0 then count + stop else min stop (count - 1)
  if last < first then [] else (items.drop first.toNat).take (last - first + 1).toNat

/-- The reply that counts something. -/
def countReply (n : Nat) : Reply := .int n

/-- The reply that lists texts. -/
def listReply (texts : List String) : Reply := .array (texts.map .bulk)

/-- Answers a request, with the keyspace after it. -/
def perform (space : Keyspace) : Request → Except StoreError (Reply × Keyspace)
  | .get key => do
    match ← space.text? key with
    | none => .ok (.nil, space)
    | some value => .ok (.bulk value, space)
  | .set key value => .ok (.status "OK", space.put key (.text value))
  | .del keys =>
    let (done, removed) := space.removeAll keys
    .ok (countReply removed, done)
  | .exists keys => .ok (countReply (keys.countP space.contains), space)
  | .incr key => do
    let next ← space.nextCount key
    .ok (.int next, space.put key (.text (Decimal.ofInt next)))
  | .hset key fields => do
    let (done, added) := (← space.hash key).insertAll fields
    .ok (countReply added, space.put key (.hash done))
  | .hget key field => do
    match (← space.hash key).find? field with
    | none => .ok (.nil, space)
    | some value => .ok (.bulk value, space)
  | .hdel key fields => do
    let (done, removed) := (← space.hash key).eraseAll fields
    .ok (countReply removed, space.put key (.hash done))
  | .hgetall key => do
    let fields ← space.hash key
    .ok (listReply (fields.entries.flatMap fun field => [field.1, field.2]), space)
  | .sadd key members => do
    let (done, added) := (← space.set key).insertAll (members.map fun member => (member, ()))
    .ok (countReply added, space.put key (.set done))
  | .srem key members => do
    let (done, removed) := (← space.set key).eraseAll members
    .ok (countReply removed, space.put key (.set done))
  | .smembers key => do .ok (listReply (← space.set key).keys, space)
  | .scard key => do .ok (countReply (← space.set key).size, space)
  | .zadd key members => do
    let (done, added) := (← space.scored key).insertAll (members.map fun member => (member.2, member.1))
    .ok (countReply added, space.put key (.scored done))
  | .zrem key members => do
    let (done, removed) := (← space.scored key).eraseAll members
    .ok (countReply removed, space.put key (.scored done))
  | .zrange key start stop => do
    .ok (listReply (range (byScore (← space.scored key)) start stop), space)
  | .zcard key => do .ok (countReply (← space.scored key).size, space)

/-- Runs a command on its arguments: the answer, and the keyspace after it. -/
def execute (space : Keyspace) (command : Command) (args : List String) :
    Except StoreError Reply × Keyspace :=
  match Request.read command args with
  | .error fault => (.error (.script fault), space)
  | .ok request =>
    match space.perform request with
    | .error e => (.error e, space)
    | .ok (reply, done) => (.ok reply, done)

end Keyspace

end DocStore
