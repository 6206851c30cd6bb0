import DocStore.Script.Literal
import DocStore.Script.Program
import DocStore.Text.Decimal

/-!
Scripts as Lua text, for a store that runs them itself.

Every text begins with the same routines, so that the texts of two programs differ only where their
bodies do; a journaled program adds the routines that record and undo. Every operation is put between
parentheses, so that precedence never matters.
-/

namespace DocStore.Script

/-- The routines that every script begins with. -/
def routines : List String :=
  ["local function toMap(flat)",
    "  local map = \x7b\x7d",
    "  for i = 1, #flat, 2 do map[flat[i]] = flat[i + 1] end",
    "  return map",
    "end",
    "local function escape(value)",
    "  return (string.gsub(value, ':', '::'))",
    "end",
    "local function sortIds(ids)",
    "  table.sort(ids, function(a, b) return tonumber(a) < tonumber(b) end)",
    "  return ids",
    "end"]

/-- The routines of a journaled script: how to record what a write replaces, and how to put it back. -/
def journalRoutines : List String :=
  ["local undo = \x7b\x7d",
    "local function write(cmd, key, ...)",
    "  local args = \x7b...\x7d",
    "  if cmd == 'HSET' or cmd == 'HDEL' then",
    "    local step = 1",
    "    if cmd == 'HSET' then step = 2 end",
    "    for i = 1, #args, step do",
    "      table.insert(undo, \x7b'h', key, args[i], redis.call('HGET', key, args[i])\x7d)",
    "    end",
    "  elseif cmd == 'SADD' or cmd == 'SREM' then",
    "    for i = 1, #args do",
    "      table.insert(undo, \x7b's', key, args[i], redis.call('SISMEMBER', key, args[i]) == 1\x7d)",
    "    end",
    "  elseif cmd == 'ZADD' or cmd == 'ZREM' then",
    "    local first, step = 1, 1",
    "    if cmd == 'ZADD' then first, step = 2, 2 end",
    "    for i = first, #args, step do",
    "      table.insert(undo, \x7b'z', key, args[i], redis.call('ZSCORE', key, args[i])\x7d)",
    "    end",
    "  elseif cmd == 'DEL' then",
    "    local kind = redis.call('TYPE', key)['ok']",
    "    if kind == 'hash' then",
    "      local flat = redis.call('HGETALL', key)",
    "      for i = 1, #flat, 2 do table.insert(undo, \x7b'h', key, flat[i], flat[i + 1]\x7d) end",
    "    elseif kind == 'set' then",
    "      for _, member in ipairs(redis.call('SMEMBERS', key)) do",
    "        table.insert(undo, \x7b's', key, member, true\x7d)",
    "      end",
    "    elseif kind == 'zset' then",
    "      local flat = redis.call('ZRANGE', key, 0, -1, 'WITHSCORES')",
    "      for i = 1, #flat, 2 do table.insert(undo, \x7b'z', key, flat[i], flat[i + 1]\x7d) end",
    "    elseif kind == 'string' then",
    "      table.insert(undo, \x7b'k', key, false, redis.call('GET', key)\x7d)",
    "    end",
    "  elseif cmd == 'SET' then",
    "    table.insert(undo, \x7b'k', key, false, redis.call('GET', key)\x7d)",
    "  end",
    "  return redis.call(cmd, key, ...)",
    "end",
    "local function rollback()",
    "  for i = #undo, 1, -1 do",
    "    local kind, key, member, old = undo[i][1], undo[i][2], undo[i][3], undo[i][4]",
    "    if kind == 'h' then",
    "      if old then redis.call('HSET', key, member, old) else redis.call('HDEL', key, member) end",
    "    elseif kind == 's' then",
    "      if old then redis.call('SADD', key, member) else redis.call('SREM', key, member) end",
    "    elseif kind == 'z' then",
    "      if old then redis.call('ZADD', key, old, member) else redis.call('ZREM', key, member) end",
    "    elseif old then",
    "      redis.call('SET', key, old)",
    "    else",
    "      redis.call('DEL', key)",
    "    end",
    "  end",
    "end"]

namespace Expr

/-- The items between parentheses, with an operator between neighbours. -/
def operation (operator : String) (items : List String) : String :=
  "(" ++ Text.joined operator items ++ ")"

/-- A call of a command; a journaled write goes through the journal. -/
def callText (journal : Bool) (command : Command) (args : List String) : String :=
  let callee := if journal && command.isJournaled then "write(" else "redis.call("
  callee ++ Text.joined ", " (literal command.name :: args) ++ ")"

mutual

/-- The text of an expression. -/
def text (journal : Bool) : Expr → String
  | .nil => "nil"
  | .str s => literal s
  | .int i => Decimal.ofInt i
  | .param n => "ARGV[" ++ Decimal.ofNat n ++ "]"
  | .var name => name
  | .field map name => map ++ "[" ++ literal name ++ "]"
  | .index list place => "(" ++ list.text journal ++ ")[" ++ Decimal.ofInt place ++ "]"
  | .concat parts => operation " .. " (texts journal parts)
  | .lower e => "string.lower(" ++ e.text journal ++ ")"
  | .escape e => "escape(" ++ e.text journal ++ ")"
  | .toMap e => "toMap(" ++ e.text journal ++ ")"
  | .sortIds e => "sortIds(" ++ e.text journal ++ ")"
  | .call command args => callText journal command (texts journal args)
  | .table items => "\x7b" ++ Text.joined ", " (texts journal items) ++ "\x7d"
  | .len e => "#" ++ e.text journal
  | .eq a b => "(" ++ a.text journal ++ " == " ++ b.text journal ++ ")"
  | .ne a b => "(" ++ a.text journal ++ " ~= " ++ b.text journal ++ ")"
  | .gt a b => "(" ++ a.text journal ++ " > " ++ b.text journal ++ ")"
  | .and items => operation " and " (texts journal items)
  | .or items => operation " or " (texts journal items)
  | .not e => "(not " ++ e.text journal ++ ")"

/-- The texts of expressions. -/
def texts (journal : Bool) : List Expr → List String
  | [] => []
  | e :: es => e.text journal :: texts journal es

end

end Expr

namespace Stmt

/-- The lines, two columns further in. -/
def indented (lines : List String) : List String :=
  lines.map ("  " ++ ·)

mutual

/-- The lines of a statement. -/
def lines (journal : Bool) : Stmt → List String
  | .declare name e => ["local " ++ name ++ " = " ++ e.text journal]
  | .assign name e => [name ++ " = " ++ e.text journal]
  | .setField map name e => [map ++ "[" ++ literal name ++ "] = " ++ e.text journal]
  | .push list e => ["table.insert(" ++ list ++ ", " ++ e.text journal ++ ")"]
  | .call command args => [Expr.callText journal command (Expr.texts journal args)]
  | .branch condition yes no =>
    let otherwise := if no.isEmpty then [] else "else" :: indented (linesAll journal no)
    ("if " ++ condition.text journal ++ " then") :: indented (linesAll journal yes) ++ otherwise ++
      ["end"]
  | .finish e => ["return " ++ e.text journal]
  | .abort e =>
    if journal then ["local aborted = " ++ e.text journal, "rollback()", "return aborted"]
    else ["return " ++ e.text journal]
  | .block body => "do" :: indented (linesAll journal body) ++ ["end"]

/-- The lines of statements one after another. -/
def linesAll (journal : Bool) : List Stmt → List String
  | [] => []
  | s :: ss => s.lines journal ++ linesAll journal ss

end

end Stmt

/-- Lines one after another, each with its line end. -/
def joinLines (lines : List String) : String :=
  String.join (lines.map (· ++ "\n"))

namespace Program

/-- The text of a program without the routines in front. -/
def bodyText (program : Program) : String :=
  joinLines (Stmt.linesAll program.journal program.body)

/-- The text of a program. -/
def text (program : Program) : String :=
  joinLines routines ++ (if program.journal then joinLines journalRoutines else "") ++
    program.bodyText

end Program

end DocStore.Script
