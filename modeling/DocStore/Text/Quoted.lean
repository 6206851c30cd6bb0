import DocStore.Text.Invisible

/-!
Text between double quotes, as it is shown inside messages: a double quote, a backslash and the
characters that have no visible form of their own are written as escapes, all others stand for
themselves.
-/

namespace DocStore.Text

/-- The lowercase hexadecimal character of a digit below sixteen. -/
def hexDigit (d : Nat) : Char :=
  if d < 10 then Char.ofNat (48 + d) else Char.ofNat (87 + d)

/-- Lowercase hexadecimal characters of `n`, without leading zeros. -/
def hexChars (n : Nat) : List Char :=
  if n < 16 then [hexDigit n] else hexChars (n / 16) ++ [hexDigit (n % 16)]
termination_by n
decreasing_by omega

/-- One character inside quotes. -/
def quotedChar (c : Char) : List Char :=
  if c = '"' then ['\\', '"']
  else if c = '\\' then ['\\', '\\']
  else if c = '\n' then ['\\', 'n']
  else if c = '\r' then ['\\', 'r']
  else if c = '\t' then ['\\', 't']
  else if c.toNat = 0 then ['\\', '0']
  else if isInvisible c then
    ['\\', 'u', '\x7b'] ++ hexChars c.toNat ++ ['\x7d']
  else [c]

/-- The text between double quotes, with escapes. -/
def quoted (text : String) : String :=
  String.ofList ('"' :: text.toList.flatMap quotedChar ++ ['"'])

/-- The texts one after another, with `separator` between neighbours. -/
def joined (separator : String) : List String → String
  | [] => ""
  | [text] => text
  | text :: next :: rest => text ++ separator ++ joined separator (next :: rest)

/-- ASCII capitals become small letters, all other characters stay. -/
def lowercase (text : String) : String :=
  String.ofList (text.toList.map Char.toLower)

/-- ASCII small letters become capitals, all other characters stay. -/
def uppercase (text : String) : String :=
  String.ofList (text.toList.map Char.toUpper)

end DocStore.Text
