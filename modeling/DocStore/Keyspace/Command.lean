import DocStore.Text.Quoted

/-!
The commands that a keyspace understands, with their wire names.
-/

namespace DocStore

/-- A command of the keyspace. -/
inductive Command where
  | get
  | set
  | del
  | exists
  | incr
  | hset
  | hget
  | hdel
  | hgetall
  | sadd
  | srem
  | smembers
  | scard
  | zadd
  | zrem
  | zrange
  | zcard
deriving DecidableEq, Repr, Inhabited

namespace Command

/-- The wire name. -/
def name : Command → String
  | .get => "GET"
  | .set => "SET"
  | .del => "DEL"
  | .exists => "EXISTS"
  | .incr => "INCR"
  | .hset => "HSET"
  | .hget => "HGET"
  | .hdel => "HDEL"
  | .hgetall => "HGETALL"
  | .sadd => "SADD"
  | .srem => "SREM"
  | .smembers => "SMEMBERS"
  | .scard => "SCARD"
  | .zadd => "ZADD"
  | .zrem => "ZREM"
  | .zrange => "ZRANGE"
  | .zcard => "ZCARD"

/-- Every command. -/
def all : List Command :=
  [.get, .set, .del, .exists, .incr, .hset, .hget, .hdel, .hgetall, .sadd, .srem, .smembers, .scard,
    .zadd, .zrem, .zrange, .zcard]

/-- The command with a wire name, in capitals or small letters. -/
def ofName? (text : String) : Option Command :=
  all.find? fun command => command.name = Text.uppercase text

theorem ofName?_name (command : Command) : ofName? command.name = some command := by
  cases command <;> decide +kernel

/-- Whether the command can change the keyspace. -/
def isWrite : Command → Bool
  | .set | .del | .incr | .hset | .hdel | .sadd | .srem | .zadd | .zrem => true
  | _ => false

/-- Whether a journal undoes the command: counters only move forward, so `incr` is never undone. -/
def isJournaled (command : Command) : Bool :=
  command.isWrite && command ≠ .incr

end Command

end DocStore
