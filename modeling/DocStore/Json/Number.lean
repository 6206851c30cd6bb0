import DocStore.Binary64.Basic
import DocStore.Text.Decimal

/-!
Numbers in JSON text.

A literal without point and exponent is an integer if it fits 64 bits, signed or unsigned; `-0`, larger
ones and all others are doubles. The digits of a double are gathered into a significand of 64 bits, and
digits that no longer fit only move the exponent. The significand is rounded to a double and scaled by
one power of ten; exponents below -308 divide by `1e308` until the rest fits.
-/

namespace DocStore.Json

/-- A number as it is written: digits before and after the point, and the exponent. -/
structure NumberText where
  negative : Bool
  whole : List Nat
  fraction : Option (List Nat)
  exponent : Option Int
deriving DecidableEq, Repr

/-- The value of a number. -/
inductive Number where
  | int (value : Int)
  | float (value : Binary64)
deriving DecidableEq, Repr

namespace NumberText

/-- Gathers digits before the point: once one does not fit, it and all later ones raise the exponent. -/
def gatherWhole (significand : Nat) : List Nat → Nat × Int
  | [] => (significand, 0)
  | d :: ds =>
    if significand * 10 + d ≤ Decimal.maxWord64 then gatherWhole (significand * 10 + d) ds
    else (significand, (d :: ds).length)

/-- Gathers digits after the point: each one that fits lowers the exponent, and the first that does not
fit ends the number. -/
def gatherFraction (significand : Nat) (exponent : Int) : List Nat → Nat × Int
  | [] => (significand, exponent)
  | d :: ds =>
    if significand * 10 + d ≤ Decimal.maxWord64 then
      gatherFraction (significand * 10 + d) (exponent - 1) ds
    else (significand, exponent)

/-- A significand times a power of ten; `none` if that is beyond the doubles. -/
def scale? (x : Binary64) (exponent : Int) : Option Binary64 :=
  if 0 ≤ exponent ∧ exponent ≤ 308 then
    let product := x.mulPos (Binary64.ofDecimal 1 exponent)
    if product.isFinite then some product else none
  else if x.magnitude = 0 then some x
  else if 0 ≤ exponent then none
  else if -308 ≤ exponent then some (x.divPos (Binary64.ofDecimal 1 (-exponent)))
  else scale? (x.divPos (Binary64.ofDecimal 1 308)) (exponent + 308)
termination_by (-exponent).toNat
decreasing_by omega

/-- The literal as a double. An exponent that does not fit 32 bits stands for zero if it is negative or
the significand is zero. -/
def float? (number : NumberText) : Option Binary64 :=
  let (significand, exponent) := gatherWhole 0 number.whole
  let (significand, exponent) := gatherFraction significand exponent (number.fraction.getD [])
  let written := number.exponent.getD 0
  let magnitude? :=
    if 2147483647 < written.natAbs then
      if significand = 0 ∨ written < 0 then some (Binary64.zero false) else none
    else scale? (Binary64.ofNat significand) (exponent + written)
  magnitude?.map fun magnitude => if number.negative then magnitude.neg else magnitude

/-- The value of a literal; `none` if it is beyond the doubles. -/
def value? (number : NumberText) : Option Number :=
  let whole := Decimal.ofDigits number.whole
  if number.fraction.isNone ∧ number.exponent.isNone then
    if number.negative then
      if 0 < whole ∧ Decimal.InInt64 (-(whole : Int)) then some (.int (-whole))
      else number.float?.map .float
    else if whole ≤ Decimal.maxWord64 then some (.int whole)
    else number.float?.map .float
  else number.float?.map .float

end NumberText

end DocStore.Json
