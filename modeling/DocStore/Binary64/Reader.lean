import DocStore.Binary64.Basic
import DocStore.Text.Decimal
import DocStore.Text.Quoted

/-!
Decimal text of doubles, rounded correctly: an optional sign, then `inf`, `infinity` or `nan` in any
case, or digits with an optional point (at least one digit on either side of it) and an optional
exponent. A number too large for a double reads as infinity, one too small as zero. Of an exponent the
digits count only until it has reached 65536.
-/

namespace DocStore.Binary64

/-- The number that the digits of an exponent stand for. Once it is 65536 or more, later digits are
dropped: the number is beyond the doubles then, unless as many zeros stand around the point. -/
def exponentOf (ds : List Nat) : Nat :=
  ds.foldl (fun n d => if n < 65536 then 10 * n + d else n) 0

/-- The digits of an exponent, at least one. -/
def exponentDigits? (cs : List Char) : Option Nat :=
  if cs.isEmpty then none else (cs.mapM Decimal.digit?).map exponentOf

/-- An exponent part: `e` or `E`, an optional sign and at least one digit. Nothing at all counts as
exponent zero. -/
def exponentPart? : List Char → Option Int
  | [] => some 0
  | c :: rest =>
    if c = 'e' ∨ c = 'E' then
      match rest with
      | '-' :: ds => (exponentDigits? ds).map fun n => -(n : Int)
      | '+' :: ds => (exponentDigits? ds).map fun n => (n : Int)
      | ds => (exponentDigits? ds).map fun n => (n : Int)
    else none

/-- The double nearest to the digits `ds` taken as a natural number times `10 ^ e`. Far beyond the
range of doubles the power of ten is not computed. -/
def ofDigits (ds : List Nat) (e : Int) : Binary64 :=
  let ds := ds.dropWhile (· = 0)
  let place := (ds.length : Int) + e
  if ds.isEmpty then zero false
  else if 400 < place then infinity false
  else if place < -400 then zero false
  else ofDecimal (Decimal.ofDigits ds) e

/-- Unsigned decimal text. -/
def unsigned? (cs : List Char) : Option Binary64 := do
  let whole := cs.takeWhile Decimal.isDigit
  let rest := cs.dropWhile Decimal.isDigit
  let (fraction, rest) := match rest with
    | '.' :: more => (more.takeWhile Decimal.isDigit, more.dropWhile Decimal.isDigit)
    | _ => ([], rest)
  let ds ← (whole ++ fraction).mapM Decimal.digit?
  if ds.isEmpty then none
  else
    let e ← exponentPart? rest
    some (ofDigits ds (e - fraction.length))

/-- Unsigned text of a double: a word or decimal digits. -/
def magnitude? (cs : List Char) : Option Binary64 :=
  let word := String.ofList (cs.map Char.toLower)
  if word = "inf" ∨ word = "infinity" then some (infinity false)
  else if word = "nan" then some (nan false)
  else unsigned? cs

/-- Reads a double. -/
def ofText? (text : String) : Option Binary64 :=
  match text.toList with
  | '-' :: rest => (magnitude? rest).map neg
  | '+' :: rest => magnitude? rest
  | cs => magnitude? cs

end DocStore.Binary64
