import DocStore.Field.Codec
import DocStore.Layout.Keys
import DocStore.Script.Program

/-!
The parts of scripts that keep and search indices.

A composite value is computed inside the script, from a table of stored texts in a variable, so that
writing, checking and searching share one rule and see what the script has changed before. A unique index
keeps one id per composite value in its hash. Another index does the same while there is one holder; from
the second on the holders move to a set of their own, and back when one is left.
-/

namespace DocStore.Index

open DocStore.Script

/-- The stored text of a field in the table, as it takes part in the composite value. -/
def part (map : String) (field : IndexField) : Expr :=
  let stored := Expr.field map field.name
  .escape (if field.caseInsensitive then .lower stored else stored)

/-- The parts with a delimiter between neighbours. -/
def delimited : List Expr → List Expr
  | [] => []
  | [part] => [part]
  | part :: next :: rest => part :: .str ":" :: delimited (next :: rest)

/-- The composite value over the table in a variable: every text with its colons doubled, and a single
colon between two texts. -/
def composite (index : Index) (map : String) : Expr :=
  .concat (delimited (index.fields.map (part map)))

/-- For each field, that its text in the table is not the one of `null`. -/
def nonNull (index : Index) (map : String) : List Expr :=
  index.fields.map fun field => .ne (.field map field.name) (.str nullText)

/-- All conditions at once; a single one stands for itself. -/
def every : List Expr → Expr
  | [condition] => condition
  | conditions => .and conditions

/-- The key of the set of holders. -/
def holders : Expr :=
  .concat [.var "ikey", .str Layout.holdersMark, .var "comp"]

/-- The id in the index's hash. -/
def holder : Expr :=
  .call .hget [.var "ikey", .var "comp"]

/-- Declares the index key and the composite value. -/
def declareKeys (index : Index) (key map : String) : List Stmt :=
  [.declare "ikey" (.str key), .declare "comp" (index.composite map)]

/-- Puts the index's name on the list of conflicts if another record holds the same composite value and
no field is `null`. `own` is the id of the record being written, if it has one already. -/
def checkUnique (index : Index) (name key map : String) (own : Option Expr) : Stmt :=
  let other := match own with
    | none => []
    | some id => [.ne (.var "holder") id]
  .block (index.declareKeys key map ++ [.declare "holder" holder,
    .when (every (index.nonNull map ++ [.var "holder"] ++ other)) [.push "conflicts" (.str name)]])

/-- Enters an id for the composite value. -/
def addEntry (index : Index) (key map : String) (id : Expr) : Stmt :=
  let enter := Stmt.call .hset [.var "ikey", .var "comp", id]
  if index.unique then
    .block (index.declareKeys key map ++ [.when (every (index.nonNull map)) [enter]])
  else
    .block (index.declareKeys key map ++ [.declare "holder" holder,
      .branch (.var "holder")
        [.call .hdel [.var "ikey", .var "comp"], .call .sadd [holders, .var "holder", id]]
        [.branch (.gt (.call .scard [holders]) (.int 0)) [.call .sadd [holders, id]] [enter]]])

/-- Removes an id from under the composite value. -/
def removeEntry (index : Index) (key map : String) (id : Expr) : Stmt :=
  let held := Expr.eq holder id
  let drop := Stmt.call .hdel [.var "ikey", .var "comp"]
  if index.unique then .block (index.declareKeys key map ++ [.when held [drop]])
  else
    .block (index.declareKeys key map ++ [.branch held [drop]
      [.call .srem [holders, id],
        .when (.eq (.call .scard [holders]) (.int 1))
          [.declare "last" (.index (.call .smembers [holders]) 1),
            .call .del [holders],
            .call .hset [.var "ikey", .var "comp", .var "last"]]]])

/-- Lets the variable `ids` hold the ids under the composite value. -/
def search (index : Index) (key map : String) : List Stmt :=
  index.declareKeys key map ++ [.declare "holder" holder,
    .branch (.var "holder")
      [.assign "ids" (.table [.var "holder"])]
      [.assign "ids" (.sortIds (.call .smembers [holders]))]]

end DocStore.Index
