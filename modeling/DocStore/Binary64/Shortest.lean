import DocStore.Binary64.Basic
import DocStore.Text.Decimal

/-!
The shortest decimal digits of a double: the fewest digits whose decimal lies in the interval of
reals that round to the number, and of those the nearest one.
-/

namespace DocStore.Binary64

/-- The least `k` with `num / den < 10 ^ k`, for a positive quotient that a double can have. -/
def decimalPlace (num den : Nat) : Int :=
  if den ≤ num then (Decimal.digits (num / den)).length
  else
    match (List.range 400).find? fun j => decide (den ≤ num * Nat.pow 10 (j + 1)) with
    | some j => -(j : Int)
    | none => -400

/-- The interval of reals that round to a positive finite number: its ends as quotients with a common
denominator, and whether the ends belong to it. -/
def interval (x : Binary64) : Nat × Nat × Nat × Bool :=
  let m := x.significand
  let closer := m = fractionCount ∧ x.exponent ≠ -1074
  let low := if closer then 4 * m - 1 else 4 * m - 2
  let (scale, den) := scaled 2 1 4 x.exponent
  (low * scale, (4 * m + 2) * scale, den, m % 2 = 0)

/-- The best decimal with `count` digits for the positive quotient `num / den` below `10 ^ place`, if
one of its two neighbours on that grid lies in the interval. -/
def candidate? (num den : Nat) (place : Int) (bounds : Nat × Nat × Nat × Bool) (count : Nat) :
    Option (Nat × Int) :=
  let e := place - count
  let (n, d) := scaled 10 num den (-e)
  let floor := n / d
  let inside (k : Nat) : Bool :=
    let (low, high, common, closed) := bounds
    let (kn, kd) := scaled 10 k 1 e
    if closed then low * kd ≤ kn * common && kn * common ≤ high * kd
    else low * kd < kn * common && kn * common < high * kd
  match inside floor, inside (floor + 1) with
  | false, false => none
  | true, false => some (floor, e)
  | false, true => some (floor + 1, e)
  | true, true => some (roundHalfEven n d, e)

/-- The digits and the power of ten of the shortest decimal of a positive finite number. -/
def shortest (x : Binary64) : Nat × Int :=
  let (num, den) := scaled 2 x.significand 1 x.exponent
  let place := decimalPlace num den
  let bounds := interval x
  match (List.range 17).findSome? fun i => candidate? num den place bounds (i + 1) with
  | some found => found
  | none => (0, 0)

/-- Removes zeros at the end of `digits`, each of them raising the power of ten. -/
def stripZeros (digits : Nat) (e : Int) : Nat × Int :=
  let ds := (Decimal.digits digits).reverse
  let zeros := (ds.takeWhile (· = 0)).length
  (Decimal.ofDigits (ds.drop zeros).reverse, e + zeros)

/-- The text of a finite double: plain decimal with at least one digit after the point for numbers
from `1e-5` up to `1e16`, and otherwise one digit before the point and an exponent with its sign. -/
def text (x : Binary64) : String :=
  let sign := if x.negative then "-" else ""
  if x.magnitude = 0 then sign ++ "0.0"
  else
    let (digits, e) := shortest x
    let (digits, e) := stripZeros digits e
    let cs := Decimal.chars digits
    let place : Int := cs.length + e
    let body :=
      if 0 ≤ e ∧ place ≤ 16 then cs ++ List.replicate e.toNat '0' ++ ['.', '0']
      else if 0 < place ∧ place ≤ 16 then
        cs.take place.toNat ++ '.' :: cs.drop place.toNat
      else if -5 < place ∧ place ≤ 0 then
        '0' :: '.' :: List.replicate (-place).toNat '0' ++ cs
      else
        let fraction := match cs.drop 1 with
          | [] => []
          | more => '.' :: more
        let exponentSign := if place < 1 then '-' else '+'
        cs.take 1 ++ fraction ++ 'e' :: exponentSign :: Decimal.chars (place - 1).natAbs
    sign ++ String.ofList body

end DocStore.Binary64
