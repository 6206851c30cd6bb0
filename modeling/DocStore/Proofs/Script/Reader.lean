import DocStore.Script.Printer

/-!
A reader for scripts.

The reader goes from left to right and never looks back: the first character tells literals, numbers,
tables, lengths, parentheses and words apart, a word is told from a call or a field by what follows it,
and an operator shows after the first operand. It does not care whether a write goes through the journal.

A statement shows in the first word of its line, and the lines that belong inside it are the ones that
stand further in.

Not everything can be read back from its text. An operation needs two operands, but for a concatenation of
one part, and a name must not be a word with a meaning of its own: `Expr.Tidy` says so. Without a journal,
ending and aborting look the same; here an abort answers with a table and the end of a script with a
variable (`Stmt.Tidy`).
-/

namespace DocStore.Script

/-! ### The reader -/

namespace Reader

/-- Words are made of letters and dots. -/
def isWordChar (c : Char) : Bool :=
  c.isAlpha || c = '.'

/-- Numbers are made of digits, with a sign in front of some. -/
def isIntChar (c : Char) : Bool :=
  c = '-' || Decimal.isDigit c

/-- What follows a given text. -/
def after? : List Char → List Char → Option (List Char)
  | [], cs => some cs
  | expected :: more, c :: cs => if c = expected then after? more cs else none
  | _ :: _, [] => none

/-- Takes a number from the front. -/
def takeInt? (cs : List Char) : Option (Int × List Char) :=
  (Decimal.int? (String.ofList (cs.takeWhile isIntChar))).map fun i => (i, cs.dropWhile isIntChar)

/-- The character that stands after a backslash as `c`. -/
def unescaped (c : Char) : Char :=
  if c = 'n' then '\n' else if c = 'r' then '\r' else if c = '0' then '\x00' else c

/-- Takes the characters up to the closing quote. -/
def takeQuoted? : List Char → Option (List Char × List Char)
  | [] => none
  | [c] => if c = '\'' then some ([], []) else none
  | c :: next :: rest =>
    if c = '\'' then some ([], next :: rest)
    else if c = '\\' then (takeQuoted? rest).map fun taken => (unescaped next :: taken.1, taken.2)
    else (takeQuoted? (next :: rest)).map fun taken => (c :: taken.1, taken.2)

/-- The expression of a function and its arguments. -/
def applied? (function : String) (args : List Expr) : Option Expr :=
  if function = "redis.call" ∨ function = "write" then
    match args with
    | .str name :: args => (Command.ofName? name).map fun command => .call command args
    | _ => none
  else
    match args with
    | [e] =>
      if function = "string.lower" then some (.lower e)
      else if function = "escape" then some (.escape e)
      else if function = "toMap" then some (.toMap e)
      else if function = "sortIds" then some (.sortIds e)
      else none
    | _ => none

/-- The expression of an operator and its operands. -/
def combine? (operator : String) (operands : List Expr) : Option Expr :=
  if operator = ".." then some (.concat operands)
  else if operator = "and" then some (.and operands)
  else if operator = "or" then some (.or operands)
  else
    match operands with
    | [a, b] =>
      if operator = "==" then some (.eq a b)
      else if operator = "~=" then some (.ne a b)
      else if operator = ">" then some (.gt a b)
      else none
    | _ => none

/-- Whether the word `not` was read, as if it were a variable. -/
def isNot : Expr → Bool
  | .var name => name = "not"
  | _ => false

section Parts

variable (read : List Char → Option (Expr × List Char))

/-- Reads items with a separator between neighbours. -/
def items? (separator : List Char) : Nat → List Char → Option (List Expr × List Char)
  | 0, _ => none
  | count + 1, cs =>
    match read cs with
    | none => none
    | some (e, rest) =>
      match after? separator rest with
      | some more => (items? separator count more).map fun found => (e :: found.1, found.2)
      | none => some ([e], rest)

/-- Reads on after the first operand in parentheses. -/
def group? (count : Nat) (first : Expr) (cs : List Char) : Option (Expr × List Char) :=
  match cs with
  | ' ' :: rest =>
    if isNot first then do
      let (e, rest) ← read rest
      let rest ← after? [')'] rest
      some (.not e, rest)
    else do
      let operator := rest.takeWhile (· ≠ ' ')
      let separator := ' ' :: operator ++ [' ']
      let rest ← after? separator cs
      let (more, rest) ← items? read separator count rest
      let rest ← after? [')'] rest
      let e ← combine? (String.ofList operator) (first :: more)
      some (e, rest)
  | ')' :: '[' :: rest => do
    let (place, rest) ← takeInt? rest
    let rest ← after? [']'] rest
    some (.index first place, rest)
  | ')' :: rest => some (.concat [first], rest)
  | _ => none

/-- Reads on after the brace that opens a table. -/
def table? (count : Nat) (cs : List Char) : Option (Expr × List Char) :=
  match after? ['\x7d'] cs with
  | some rest => some (.table [], rest)
  | none => do
    let (items, rest) ← items? read [',', ' '] count cs
    let rest ← after? ['\x7d'] rest
    some (.table items, rest)

/-- Reads on after a word. -/
def word? (count : Nat) (word : String) (cs : List Char) : Option (Expr × List Char) :=
  match cs with
  | '(' :: rest => do
    let (args, rest) ← items? read [',', ' '] count rest
    let rest ← after? [')'] rest
    let e ← applied? word args
    some (e, rest)
  | '[' :: rest =>
    if word = "ARGV" then do
      let (number, rest) ← takeInt? rest
      let rest ← after? [']'] rest
      some (.param number.toNat, rest)
    else do
      let rest ← after? ['\''] rest
      let (name, rest) ← takeQuoted? rest
      let rest ← after? [']'] rest
      some (.field word (String.ofList name), rest)
  | rest => some (if word = "nil" then .nil else .var word, rest)

end Parts

/-- Reads an expression from the front, with parentheses nested no deeper than `fuel`. -/
def expr? : Nat → List Char → Option (Expr × List Char)
  | 0, _ => none
  | _, [] => none
  | fuel + 1, c :: cs =>
    if c = '\'' then (takeQuoted? cs).map fun taken => (.str (String.ofList taken.1), taken.2)
    else if c = '\x7b' then table? (expr? fuel) fuel cs
    else if c = '#' then (expr? fuel cs).map fun found => (.len found.1, found.2)
    else if c = '(' then do
      let (first, rest) ← expr? fuel cs
      group? (expr? fuel) fuel first rest
    else if isIntChar c then (takeInt? (c :: cs)).map fun found => (.int found.1, found.2)
    else if isWordChar c then
      word? (expr? fuel) fuel (String.ofList ((c :: cs).takeWhile isWordChar))
        ((c :: cs).dropWhile isWordChar)
    else none

/-! #### Lines -/

/-- What the first line of a statement says. -/
inductive Opening where
  /-- The whole statement. -/
  | whole (s : Stmt)
  /-- An abort that rolls the journal back, in this line and the next two. -/
  | aborted (e : Expr)
  | block
  | branch (condition : Expr)

/-- The expression behind a given text. -/
def value? (fuel : Nat) (text : String) (cs : List Char) : Option Expr := do
  let rest ← after? text.toList cs
  let (e, _) ← expr? fuel rest
  some e

/-- What ends a script: a table is the answer of an abort. -/
def returned : Expr → Stmt
  | .table items => .abort (.table items)
  | e => .finish e

/-- What a local variable is declared for. -/
def declared (name : String) (e : Expr) : Opening :=
  if name = "aborted" then .aborted e else .whole (.declare name e)

/-- The call of a command. -/
def called? : Expr → Option Opening
  | .call command args => some (.whole (.call command args))
  | _ => none

/-- Reads a line that begins with a name: an assignment, to a variable or to a field. -/
def assigned? (fuel : Nat) (name : String) (cs : List Char) : Option Opening :=
  match after? ['[', '\''] cs with
  | some rest => do
    let (key, rest) ← takeQuoted? rest
    let e ← value? fuel "] = " rest
    some (.whole (.setField name (String.ofList key) e))
  | none => do
    let e ← value? fuel " = " cs
    some (.whole (.assign name e))

/-- What the first line of a statement says, after its first word. -/
def statement? (fuel : Nat) (word : String) (rest : List Char) : Option Opening :=
  if word = "do" then some .block
  else if word = "if" then (value? fuel " " rest).map .branch
  else if word = "return" then (value? fuel " " rest).map fun e => .whole (returned e)
  else if word = "local" then do
    let rest ← after? [' '] rest
    let e ← value? fuel " = " (rest.dropWhile isWordChar)
    some (declared (String.ofList (rest.takeWhile isWordChar)) e)
  else if word = "table.insert" then do
    let rest ← after? ['('] rest
    let e ← value? fuel ", " (rest.dropWhile isWordChar)
    some (.whole (.push (String.ofList (rest.takeWhile isWordChar)) e))
  else if word = "redis.call" ∨ word = "write" then (value? fuel "" (word.toList ++ rest)).bind called?
  else assigned? fuel word rest

/-- Reads the first line of a statement. -/
def opening? (fuel : Nat) (line : List Char) : Option Opening :=
  statement? fuel (String.ofList (line.takeWhile isWordChar)) (line.dropWhile isWordChar)

/-- Whether a line stands further in. -/
def isIndented : List Char → Bool
  | first :: second :: _ => first = ' ' && second = ' '
  | _ => false

/-- The lines that stand further in, as they read there. -/
def inner (lines : List (List Char)) : List (List Char) :=
  (lines.takeWhile isIndented).map (·.drop 2)

/-- The lines from the first one that does not stand further in. -/
def outer (lines : List (List Char)) : List (List Char) :=
  lines.dropWhile isIndented

/-- Reads statements, nested and strung together no longer than `fuel`. -/
def body? : Nat → List (List Char) → Option (List Stmt)
  | _, [] => some []
  | 0, _ :: _ => none
  | fuel + 1, line :: rest =>
    match opening? fuel line with
    | none => none
    | some (.whole s) => (body? fuel rest).map (s :: ·)
    | some (.aborted e) => (body? fuel (rest.drop 2)).map (.abort e :: ·)
    | some .block => do
      let body ← body? fuel (inner rest)
      (body? fuel ((outer rest).drop 1)).map (.block body :: ·)
    | some (.branch condition) => do
      let yes ← body? fuel (inner rest)
      let closing := (outer rest).head?
      let rest := (outer rest).drop 1
      if closing = some "else".toList then do
        let no ← body? fuel (inner rest)
        (body? fuel ((outer rest).drop 1)).map (.branch condition yes no :: ·)
      else (body? fuel rest).map (.branch condition yes [] :: ·)

/-- Nothing, or something that no expression goes on with. -/
def Stops (rest : List Char) : Prop :=
  ∀ c ∈ rest.head?, c = ')' ∨ c = ',' ∨ c = ' ' ∨ c = '\x7d'

/-- An expression is written on one line, and is read back in front of whatever ends it. -/
structure Reads (e : Expr) (text : String) : Prop where
  oneLine : '\n' ∉ text.toList
  reads : ∃ need, ∀ fuel, need ≤ fuel → ∀ rest, Stops rest →
    expr? fuel (text.toList ++ rest) = some (e, rest)

end Reader

/-! ### What can be read back -/

/-- Words that are no names of variables. -/
def reserved : List String :=
  ["ARGV", "aborted", "do", "else", "end", "if", "local", "nil", "not", "return", "undo", "write"]

/-- Variables have names of letters that mean nothing else. -/
def IsName (name : String) : Prop :=
  name ≠ "" ∧ (∀ c ∈ name.toList, c.isAlpha = true) ∧ name ∉ reserved

instance (name : String) : Decidable (IsName name) :=
  decidable_of_iff (name ≠ "" ∧ name.toList.all Char.isAlpha = true ∧ name ∉ reserved)
    (by rw [IsName, List.all_eq_true])

namespace Expr

mutual

/-- Operations have operands, and variables have names. -/
@[simp] def Tidy : Expr → Prop
  | .nil | .str _ | .int _ | .param _ => True
  | .var name | .field name _ => IsName name
  | .index e _ | .lower e | .escape e | .toMap e | .sortIds e | .len e | .not e => e.Tidy
  | .eq a b | .ne a b | .gt a b => a.Tidy ∧ b.Tidy
  | .concat parts => parts ≠ [] ∧ TidyAll parts
  | .and items | .or items => 2 ≤ items.length ∧ TidyAll items
  | .table items => TidyAll items
  | .call _ args => TidyAll args

/-- All of the expressions are tidy. -/
@[simp] def TidyAll : List Expr → Prop
  | [] => True
  | e :: es => e.Tidy ∧ TidyAll es

end

theorem tidyAll_iff {es : List Expr} : TidyAll es ↔ ∀ e ∈ es, e.Tidy := by
  induction es with
  | nil => simp [TidyAll]
  | cons e es ih => simp [TidyAll, ih]

end Expr

namespace Stmt

mutual

/-- Variables have names, expressions are tidy, scripts end with a variable and aborts with a table. -/
@[simp] def Tidy : Stmt → Prop
  | .declare name e | .assign name e | .setField name _ e | .push name e => IsName name ∧ e.Tidy
  | .call _ args => Expr.TidyAll args
  | .branch condition yes no => condition.Tidy ∧ TidyAll yes ∧ TidyAll no
  | .finish e => e.Tidy ∧ ∃ name, e = .var name
  | .abort e => e.Tidy ∧ ∃ items, e = .table items
  | .block body => TidyAll body

/-- All of the statements are tidy. -/
@[simp] def TidyAll : List Stmt → Prop
  | [] => True
  | s :: ss => s.Tidy ∧ TidyAll ss

end

theorem tidyAll_iff {ss : List Stmt} : TidyAll ss ↔ ∀ s ∈ ss, s.Tidy := by
  induction ss with
  | nil => simp [TidyAll]
  | cons s ss ih => simp [TidyAll, ih]

theorem tidyAll_append {ss more : List Stmt} : TidyAll (ss ++ more) ↔ TidyAll ss ∧ TidyAll more := by
  simp only [tidyAll_iff, List.forall_mem_append]

end Stmt

/-- The statements are tidy, and the first one declares a variable. -/
def Program.Tidy (program : Program) : Prop :=
  Stmt.TidyAll program.body ∧ ∃ name e rest, program.body = .declare name e :: rest

end DocStore.Script
