/-!
Quoted texts of a script: between single quotes, with the quote, the backslash, line ends and NUL
escaped.
-/

namespace DocStore.Script

/-- One character inside single quotes. -/
def literalChar (c : Char) : List Char :=
  if c = '\\' then ['\\', '\\']
  else if c = '\'' then ['\\', '\'']
  else if c = '\n' then ['\\', 'n']
  else if c = '\r' then ['\\', 'r']
  else if c.toNat = 0 then ['\\', '0']
  else [c]

/-- The text between single quotes. -/
def literal (text : String) : String :=
  String.ofList ('\'' :: text.toList.flatMap literalChar ++ ['\''])

end DocStore.Script
