/-!
# Binary numbers

Numbers of 64 bits with a binary point: a sign, an exponent and a fraction.  A finite number is its
significand times a power of two; the highest exponent is kept for what is no finite number.

* `Binary64.significand` and `Binary64.exponent` give the size of a finite number.
* `Binary64.toInt?` is a finite number that is whole.
-/

namespace MathMarkup

/-- A binary number by its bits. -/
structure Binary64 where
  bits : UInt64
  deriving DecidableEq

namespace Binary64

/-- Whether the sign bit is set. -/
def isNegative (x : Binary64) : Bool :=
  Nat.pow 2 63 ≤ x.bits.toNat

/-- The exponent as it is stored. -/
def exponentField (x : Binary64) : Nat :=
  x.bits.toNat / Nat.pow 2 52 % Nat.pow 2 11

/-- The fraction as it is stored. -/
def fraction (x : Binary64) : Nat :=
  x.bits.toNat % Nat.pow 2 52

/-- Whether the number is finite. -/
def isFinite (x : Binary64) : Bool :=
  x.exponentField ≠ 2047

/-- Whether the bits stand for no number at all. -/
def isNaN (x : Binary64) : Bool :=
  x.exponentField = 2047 && x.fraction ≠ 0

/-- The whole number that the power of two is multiplied by. -/
def significand (x : Binary64) : Nat :=
  if x.exponentField = 0 then x.fraction else Nat.pow 2 52 + x.fraction

/-- The power of two. -/
def exponent (x : Binary64) : Int :=
  if x.exponentField = 0 then -1074 else x.exponentField - 1075

/-- Whether the number is zero of either sign. -/
def isZero (x : Binary64) : Bool :=
  x.significand = 0

/-- Whether the number below is only half as far away as the number above. -/
def isNarrow (x : Binary64) : Bool :=
  x.fraction = 0 && 1 < x.exponentField

/-- The size of a finite number that is whole. -/
def wholeSize? (x : Binary64) : Option Nat :=
  if 0 ≤ x.exponent then some (x.significand * Nat.pow 2 x.exponent.toNat)
  else if x.significand % Nat.pow 2 (-x.exponent).toNat = 0 then
    some (x.significand / Nat.pow 2 (-x.exponent).toNat)
  else none

/-- A finite number that is whole. -/
def toInt? (x : Binary64) : Option Int :=
  if x.isFinite then x.wholeSize?.map fun n => if x.isNegative then -(n : Int) else n else none

end Binary64

end MathMarkup
