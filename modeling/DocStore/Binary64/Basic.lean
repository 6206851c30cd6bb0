/-!
Double-precision numbers, exactly.

A number is a sign and a magnitude of 63 bits: eleven bits of exponent above fifty-two of fraction.
Magnitudes grow with the values that they stand for, so the total order compares them as integers
(`Binary64.rank`). `roundRatio` rounds a quotient of naturals to the nearest magnitude, a tie to the
even one, in exact arithmetic; multiplication and division round the exact result once.
-/

namespace DocStore

/-- A double-precision number: its sign and the 63 bits below it. -/
structure Binary64 where
  negative : Bool
  magnitude : Nat
deriving DecidableEq, Repr, Inhabited

namespace Binary64

/-- The number of fractions, which have fifty-two bits. -/
def fractionCount : Nat := 0x10000000000000

/-- The magnitude of infinity; larger ones are not numbers. -/
def infinityMagnitude : Nat := 2047 * fractionCount

/-- Infinity. -/
def infinity (negative : Bool) : Binary64 := ⟨negative, infinityMagnitude⟩

/-- The quiet not-a-number. -/
def nan (negative : Bool) : Binary64 := ⟨negative, infinityMagnitude + fractionCount / 2⟩

/-- Zero with a sign. -/
def zero (negative : Bool) : Binary64 := ⟨negative, 0⟩

/-- Whether the number is neither infinite nor a not-a-number. -/
def isFinite (x : Binary64) : Bool :=
  x.magnitude < infinityMagnitude

/-- Place in the total order: negative not-a-number first, then the negative numbers, `-0`, `0`, the
positive ones, and the positive not-a-number last. -/
def rank (x : Binary64) : Int :=
  if x.negative then -1 - (x.magnitude : Int) else x.magnitude

/-- Finite numbers are `significand · 2 ^ exponent`, up to the sign. -/
def significand (x : Binary64) : Nat :=
  if x.magnitude < fractionCount then x.magnitude else x.magnitude % fractionCount + fractionCount

/-- Finite numbers are `significand · 2 ^ exponent`, up to the sign. -/
def exponent (x : Binary64) : Int :=
  if x.magnitude < fractionCount then -1074 else (x.magnitude / fractionCount : Nat) - 1075

/-- The quotient rounded to the nearest natural number, a tie to the even one. -/
def roundHalfEven (num den : Nat) : Nat :=
  let whole := num / den
  let rest := num % den
  if 2 * rest < den then whole
  else if den < 2 * rest then whole + 1
  else whole + whole % 2

/-- `num / den` times `base ^ e`, as a quotient of naturals. -/
def scaled (base num den : Nat) (e : Int) : Nat × Nat :=
  if e < 0 then (num, den * base.pow (-e).toNat) else (num * base.pow e.toNat, den)

/-- The power of two at or below the positive quotient `num / den`. -/
def floorLog2 (num den : Nat) : Int :=
  let guess := (Nat.log2 num : Int) - (Nat.log2 den : Int)
  let (n, d) := scaled 2 num den (-guess)
  if d ≤ n then guess else guess - 1

/-- The magnitude nearest to the quotient `num / den`. -/
def roundRatio (num den : Nat) : Nat :=
  if num = 0 then 0
  else
    let e := max (floorLog2 num den - 52) (-1074)
    let (n, d) := scaled 2 num den (-e)
    min ((e + 1074).toNat * fractionCount + roundHalfEven n d) infinityMagnitude

/-- The double nearest to a natural number. -/
def ofNat (n : Nat) : Binary64 := ⟨false, roundRatio n 1⟩

/-- The double nearest to `digits · 10 ^ e`. -/
def ofDecimal (digits : Nat) (e : Int) : Binary64 :=
  let (n, d) := scaled 10 digits 1 e
  ⟨false, roundRatio n d⟩

/-- The same magnitude with the other sign. -/
def neg (x : Binary64) : Binary64 := { x with negative := !x.negative }

/-- The product of two finite positive numbers, rounded once. -/
def mulPos (x y : Binary64) : Binary64 :=
  let (n, d) := scaled 2 (x.significand * y.significand) 1 (x.exponent + y.exponent)
  ⟨false, roundRatio n d⟩

/-- The quotient of two finite positive numbers, rounded once. -/
def divPos (x y : Binary64) : Binary64 :=
  let (n, d) := scaled 2 x.significand y.significand (x.exponent - y.exponent)
  ⟨false, roundRatio n d⟩

/-- The integer part of a finite number, cut towards zero. -/
def truncate (x : Binary64) : Int :=
  let (n, d) := scaled 2 x.significand 1 x.exponent
  if x.negative then -((n / d : Nat) : Int) else (n / d : Nat)

end Binary64

end DocStore
