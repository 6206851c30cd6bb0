import DocStore.Binary64.Reader
import DocStore.Keyspace.StoreError

/-!
Requests: a command with its arguments read.

`Request.read` counts the arguments and reads the numbers among them, before the keyspace is looked
at. Arguments that a command has no use for are dropped.
-/

namespace DocStore

/-- A command with the arguments that it needs. -/
inductive Request where
  | get (key : String)
  | set (key value : String)
  | del (keys : List String)
  | exists (keys : List String)
  | incr (key : String)
  | hset (key : String) (fields : List (String × String))
  | hget (key field : String)
  | hdel (key : String) (fields : List String)
  | hgetall (key : String)
  | sadd (key : String) (members : List String)
  | srem (key : String) (members : List String)
  | smembers (key : String)
  | scard (key : String)
  | zadd (key : String) (members : List (Binary64 × String))
  | zrem (key : String) (members : List String)
  | zrange (key : String) (start stop : Int)
  | zcard (key : String)
deriving DecidableEq, Repr

namespace Request

/-- The arguments two by two; `none` if one is left over. -/
def pairs? : List String → Option (List (String × String))
  | [] => some []
  | [_] => none
  | first :: second :: rest => (pairs? rest).map ((first, second) :: ·)

/-- Reads the scores of scored members. -/
def scored? : List (String × String) → Option (List (Binary64 × String))
  | [] => some []
  | (score, member) :: rest =>
    match Binary64.ofText? score, scored? rest with
    | some score, some members => some ((score, member) :: members)
    | _, _ => none

/-- Reads the arguments of a command. -/
def read (command : Command) (args : List String) : Except Script.Fault Request :=
  match command, args with
  | .get, key :: _ => .ok (.get key)
  | .set, key :: value :: _ => .ok (.set key value)
  | .del, key :: keys => .ok (.del (key :: keys))
  | .exists, key :: keys => .ok (.exists (key :: keys))
  | .incr, key :: _ => .ok (.incr key)
  | .hset, key :: first :: second :: rest =>
    match pairs? rest with
    | some fields => .ok (.hset key ((first, second) :: fields))
    | none => .error (.argumentCount .hset)
  | .hget, key :: field :: _ => .ok (.hget key field)
  | .hdel, key :: field :: fields => .ok (.hdel key (field :: fields))
  | .hgetall, key :: _ => .ok (.hgetall key)
  | .sadd, key :: member :: members => .ok (.sadd key (member :: members))
  | .srem, key :: member :: members => .ok (.srem key (member :: members))
  | .smembers, key :: _ => .ok (.smembers key)
  | .scard, key :: _ => .ok (.scard key)
  | .zadd, key :: first :: second :: rest =>
    match pairs? rest with
    | some more =>
      match scored? ((first, second) :: more) with
      | some members => .ok (.zadd key members)
      | none => .error .notScore
    | none => .error (.argumentCount .zadd)
  | .zrem, key :: member :: members => .ok (.zrem key (member :: members))
  | .zrange, key :: start :: stop :: _ =>
    match Decimal.int64? start, Decimal.int64? stop with
    | some start, some stop => .ok (.zrange key start stop)
    | _, _ => .error .notInteger
  | .zcard, key :: _ => .ok (.zcard key)
  | command, _ => .error (.argumentCount command)

end Request

end DocStore
