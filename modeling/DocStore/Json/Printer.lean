import DocStore.Binary64.Shortest
import DocStore.Json.Basic
import DocStore.Text.Quoted

/-!
JSON text without blanks. Strings escape the double quote, the backslash and the control characters;
all other characters stand for themselves. The members of an object are written in the order in which
they are listed.
-/

namespace DocStore.Json

/-- One character inside a string. -/
def escapedChar (c : Char) : List Char :=
  match c with
  | '"' => ['\\', '"']
  | '\\' => ['\\', '\\']
  | '\n' => ['\\', 'n']
  | '\r' => ['\\', 'r']
  | '\t' => ['\\', 't']
  | '\x08' => ['\\', 'b']
  | '\x0c' => ['\\', 'f']
  | c =>
    if c.toNat < 32 then
      ['\\', 'u', '0', '0', Text.hexDigit (c.toNat / 16), Text.hexDigit (c.toNat % 16)]
    else [c]

/-- A string with its quotes. -/
def strText (text : String) : String :=
  String.ofList ('"' :: text.toList.flatMap escapedChar ++ ['"'])

mutual

/-- The text of a value. -/
def text : Json → String
  | .null => "null"
  | .bool true => "true"
  | .bool false => "false"
  | .int i => Decimal.ofInt i
  | .float x => x.text
  | .str s => strText s
  | .arr items => "[" ++ Text.joined "," (itemTexts items) ++ "]"
  | .obj members => "\x7b" ++ Text.joined "," (memberTexts members) ++ "\x7d"

/-- The texts of the items. -/
def itemTexts : List Json → List String
  | [] => []
  | item :: rest => item.text :: itemTexts rest

/-- The texts of the members, each a name, a colon and a value. -/
def memberTexts : List (String × Json) → List String
  | [] => []
  | (name, value) :: rest => (strText name ++ ":" ++ value.text) :: memberTexts rest

end

end DocStore.Json
