import DocStore.Json.Number

/-!
The tokens of JSON text: punctuation, the three names, numbers and strings, with blanks between them.

A string token has no text if its escapes leave half of a surrogate pair standing alone; whether that
matters is for the reader of the token to say.
-/

namespace DocStore.Json

/-- A token of JSON text. -/
inductive Token where
  | openArray
  | closeArray
  | openObject
  | closeObject
  | comma
  | colon
  | null
  | bool (value : Bool)
  | number (number : NumberText)
  | str (text : Option String)
deriving DecidableEq, Repr

namespace Token

/-- Blanks between tokens. -/
def isBlank (c : Char) : Bool :=
  c = ' ' || c = '\n' || c = '\t' || c = '\r'

/-- The value of a hexadecimal digit. -/
def hexDigit? (c : Char) : Option Nat :=
  if '0' ≤ c ∧ c ≤ '9' then some (c.toNat - 48)
  else if 'a' ≤ c ∧ c ≤ 'f' then some (c.toNat - 87)
  else if 'A' ≤ c ∧ c ≤ 'F' then some (c.toNat - 55)
  else none

/-- The character that a backslash and one letter stand for. -/
def escape? (c : Char) : Option Char :=
  match c with
  | '"' => some '"'
  | '\\' => some '\\'
  | '/' => some '/'
  | 'b' => some '\x08'
  | 'f' => some '\x0c'
  | 'n' => some '\n'
  | 'r' => some '\r'
  | 't' => some '\t'
  | _ => none

/-- The code points of a string up to its closing quote, and what follows it. Halves of surrogate pairs
are still apart. -/
def stringUnits? : List Char → Option (List Nat × List Char)
  | [] => none
  | '"' :: rest => some ([], rest)
  | '\\' :: 'u' :: a :: b :: c :: d :: rest =>
    match hexDigit? a, hexDigit? b, hexDigit? c, hexDigit? d with
    | some a, some b, some c, some d =>
      (stringUnits? rest).map fun found => ((((a * 16 + b) * 16 + c) * 16 + d) :: found.1, found.2)
    | _, _, _, _ => none
  | '\\' :: c :: rest =>
    match escape? c with
    | some meant => (stringUnits? rest).map fun found => (meant.toNat :: found.1, found.2)
    | none => none
  | c :: rest =>
    if c.toNat < 32 ∨ c = '\\' then none
    else (stringUnits? rest).map fun found => (c.toNat :: found.1, found.2)

/-- Joins surrogate pairs; `none` if half of one stands alone. -/
def joinPairs? : List Nat → Option (List Char)
  | [] => some []
  | [unit] => if 0xD800 ≤ unit ∧ unit ≤ 0xDFFF then none else some [Char.ofNat unit]
  | unit :: next :: rest =>
    if 0xD800 ≤ unit ∧ unit ≤ 0xDBFF then
      if 0xDC00 ≤ next ∧ next ≤ 0xDFFF then
        (joinPairs? rest).map
          (Char.ofNat (0x10000 + (unit - 0xD800) * 0x400 + (next - 0xDC00)) :: ·)
      else none
    else if 0xDC00 ≤ unit ∧ unit ≤ 0xDFFF then none
    else (joinPairs? (next :: rest)).map (Char.ofNat unit :: ·)

/-- The digits at the front, and what follows them. -/
def digitRun : List Char → List Nat × List Char
  | [] => ([], [])
  | c :: rest =>
    match Decimal.digit? c with
    | some d =>
      let found := digitRun rest
      (d :: found.1, found.2)
    | none => ([], c :: rest)

/-- A point and at least one digit, if a point comes next. -/
def fractionPart? : List Char → Option (Option (List Nat) × List Char)
  | '.' :: rest =>
    match digitRun rest with
    | ([], _) => none
    | (ds, rest) => some (some ds, rest)
  | rest => some (none, rest)

/-- An exponent with at least one digit, if `e` or `E` comes next. -/
def exponentPart? : List Char → Option (Option Int × List Char)
  | [] => some (none, [])
  | c :: rest =>
    if c = 'e' ∨ c = 'E' then
      let (negative, rest) := match rest with
        | '-' :: rest => (true, rest)
        | '+' :: rest => (false, rest)
        | rest => (false, rest)
      match digitRun rest with
      | ([], _) => none
      | (ds, rest) =>
        let n : Int := Decimal.ofDigits ds
        some (some (if negative then -n else n), rest)
    else some (none, c :: rest)

/-- The digits before the point: a single zero, or digits that do not begin with one. -/
def wholePart? (cs : List Char) : Option (List Nat × List Char) :=
  match digitRun cs with
  | ([], _) => none
  | (0 :: _, _) => some ([0], cs.drop 1)
  | found => some found

/-- A number, after its sign. -/
def number? (negative : Bool) (cs : List Char) : Option (Token × List Char) := do
  let (whole, cs) ← wholePart? cs
  let (fraction, cs) ← fractionPart? cs
  let (exponent, cs) ← exponentPart? cs
  some (.number ⟨negative, whole, fraction, exponent⟩, cs)

/-- Takes one token from text that does not begin with a blank. -/
def next? : List Char → Option (Token × List Char)
  | [] => none
  | '[' :: rest => some (.openArray, rest)
  | ']' :: rest => some (.closeArray, rest)
  | '\x7b' :: rest => some (.openObject, rest)
  | '\x7d' :: rest => some (.closeObject, rest)
  | ',' :: rest => some (.comma, rest)
  | ':' :: rest => some (.colon, rest)
  | 'n' :: 'u' :: 'l' :: 'l' :: rest => some (.null, rest)
  | 't' :: 'r' :: 'u' :: 'e' :: rest => some (.bool true, rest)
  | 'f' :: 'a' :: 'l' :: 's' :: 'e' :: rest => some (.bool false, rest)
  | '"' :: rest =>
    (stringUnits? rest).map fun found => (.str ((joinPairs? found.1).map String.ofList), found.2)
  | '-' :: rest => number? true rest
  | cs => number? false cs

/-- The tokens of a text, at most `bound` of them. -/
def scanUpTo? : Nat → List Char → Option (List Token)
  | 0, cs => if (cs.dropWhile isBlank).isEmpty then some [] else none
  | bound + 1, cs =>
    match cs.dropWhile isBlank with
    | [] => some []
    | c :: rest =>
      match next? (c :: rest) with
      | none => none
      | some (token, rest) => (scanUpTo? bound rest).map (token :: ·)

/-- The tokens of a text; every token has at least one character, so the length bounds them. -/
def scan? (text : String) : Option (List Token) :=
  let cs := text.toList
  scanUpTo? cs.length cs

end Token

end DocStore.Json
