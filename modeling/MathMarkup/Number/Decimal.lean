import MathMarkup.Number.Binary64

/-!
# Decimals

A binary number is written with the fewest decimal digits that read back as the same number.  The
decimals that read back lie in an interval around the number, which reaches half way to either
neighbour and includes its ends if the significand is even.

* `Binary64.readsBack` tests a decimal.
* `Binary64.shortest` tries coarse grids before fine ones and takes the nearest decimal of the
  first grid that has one.
* `Binary64.literal` writes a number: with a point if its leading digit stands between the fourth
  place after the point and the sixteenth before it, and else with a power of ten.
-/

namespace MathMarkup

/-- The number `digits * 10 ^ exponent`. -/
structure Decimal where
  digits : Nat
  exponent : Int
  deriving DecidableEq

namespace Decimal

/-- Compares a decimal with `n * 2 ^ e`. -/
def compareBinary (d : Decimal) (n : Nat) (e : Int) : Ordering :=
  compare (d.digits * Nat.pow 10 d.exponent.toNat * Nat.pow 2 (-e).toNat)
    (n * Nat.pow 2 e.toNat * Nat.pow 10 (-d.exponent).toNat)

/-- The digits, highest first. -/
def digitChars (d : Decimal) : List Char :=
  Nat.toDigits 10 d.digits

/-- The power of ten of the first digit. -/
def leading (d : Decimal) : Int :=
  d.exponent + d.digitChars.length - 1

/-- A decimal with a point, and a digit on either side of it. -/
def positional (d : Decimal) : List Char :=
  if 0 ≤ d.exponent then d.digitChars ++ List.replicate d.exponent.toNat '0' ++ ['.', '0']
  else if 0 ≤ d.leading then
    d.digitChars.take (d.leading.toNat + 1) ++ '.' :: d.digitChars.drop (d.leading.toNat + 1)
  else '0' :: '.' :: List.replicate ((-d.leading).toNat - 1) '0' ++ d.digitChars

/-- An exponent with its sign and at least two digits. -/
def exponentChars (e : Int) : List Char :=
  (if e < 0 then '-' else '+') :: (Nat.toDigits 10 e.natAbs).leftpad 2 '0'

/-- A decimal with one digit before the point, and a power of ten. -/
def scientific (d : Decimal) : List Char :=
  let point := if d.digitChars.length ≤ 1 then [] else ['.']
  d.digitChars.take 1 ++ point ++ d.digitChars.drop 1 ++ 'e' :: exponentChars d.leading

/-- A decimal in the form that suits its size. -/
def chars (d : Decimal) : List Char :=
  if -4 ≤ d.leading ∧ d.leading < 16 then d.positional else d.scientific

end Decimal

namespace Binary64

/-- Whether a decimal reads back as the size of the number. -/
def readsBack (x : Binary64) (d : Decimal) : Bool :=
  let low := d.compareBinary (4 * x.significand - if x.isNarrow then 1 else 2) (x.exponent - 2)
  let high := d.compareBinary (4 * x.significand + 2) (x.exponent - 2)
  if x.significand % 2 = 0 then low != .lt && high != .gt else low == .gt && high == .lt

/-- The highest decimal that is not above the size of the number, among the multiples of a power
of ten. -/
def floorOn (x : Binary64) (power : Int) : Nat :=
  x.significand * Nat.pow 2 x.exponent.toNat * Nat.pow 10 (-power).toNat /
    (Nat.pow 2 (-x.exponent).toNat * Nat.pow 10 power.toNat)

/-- Whether the multiple above the number is to be taken rather than the one below: it is nearer,
or as near and even. -/
def prefersAbove (x : Binary64) (low : Nat) (power : Int) : Bool :=
  match Decimal.compareBinary ⟨2 * low + 1, power⟩ (2 * x.significand) x.exponent with
  | .lt => true
  | .gt => false
  | .eq => low % 2 = 1

/-- The nearest decimal that reads back, among the multiples of a power of ten. -/
def onGrid? (x : Binary64) (power : Int) : Option Decimal :=
  let low := x.floorOn power
  match x.readsBack ⟨low, power⟩, x.readsBack ⟨low + 1, power⟩ with
  | true, true => some ⟨if x.prefersAbove low power then low + 1 else low, power⟩
  | true, false => some ⟨low, power⟩
  | false, true => some ⟨low + 1, power⟩
  | false, false => none

/-- A power of ten that is not below that of the first digit, and above it by one at most. -/
def coarsest (x : Binary64) : Int :=
  ((x.significand.log2 + x.exponent) * 30103).fdiv 100000 + 1

/-- The size of the number, digit by digit. -/
def exact (x : Binary64) : Decimal :=
  if 0 ≤ x.exponent then ⟨x.significand * Nat.pow 2 x.exponent.toNat, 0⟩
  else ⟨x.significand * Nat.pow 5 (-x.exponent).toNat, x.exponent⟩

/-- The shortest decimal that reads back as the size of the number. -/
def shortest (x : Binary64) : Decimal :=
  ((List.range 19).findSome? fun (n : Nat) => x.onGrid? (x.coarsest - n)).getD x.exact

/-- The size of a number in digits. -/
def sizeChars (x : Binary64) : List Char :=
  if !x.isFinite then ['i', 'n', 'f']
  else if x.isZero then ['0', '.', '0']
  else x.shortest.chars

/-- A number in digits. -/
def literal (x : Binary64) : String :=
  if x.isNaN then "nan"
  else String.ofList (if x.isNegative then '-' :: x.sizeChars else x.sizeChars)

end Binary64

end MathMarkup
