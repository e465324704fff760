/-!
# Hexadecimal digits

Numbers in base sixteen, without leading zeros, in small or in capital letters.

* `digits_ne_nil` says that every number has a digit.
-/

namespace MathMarkup.Text.Hex

/-- The digit of a number below sixteen, in small letters. -/
def smallDigit (n : Nat) : Char :=
  if n < 10 then Char.ofNat ('0'.toNat + n) else Char.ofNat ('a'.toNat + (n - 10))

/-- The digit of a number below sixteen, in capital letters. -/
def capitalDigit (n : Nat) : Char :=
  if n < 10 then Char.ofNat ('0'.toNat + n) else Char.ofNat ('A'.toNat + (n - 10))

/-- The value of a digit in small or capital letters. -/
def value? (c : Char) : Option Nat :=
  if '0' ≤ c ∧ c ≤ '9' then some (c.toNat - '0'.toNat)
  else if 'a' ≤ c ∧ c ≤ 'f' then some (c.toNat - 'a'.toNat + 10)
  else if 'A' ≤ c ∧ c ≤ 'F' then some (c.toNat - 'A'.toNat + 10)
  else none

/-- The digits of a number, highest first. -/
def digits (digit : Nat → Char) (n : Nat) : List Char :=
  if n < 16 then [digit n] else digits digit (n / 16) ++ [digit (n % 16)]

/-- The digits of a number in small letters, with zeros in front up to the given width. -/
def padded (width n : Nat) : List Char :=
  (digits smallDigit n).leftpad width '0'

/-- Every number has a digit. -/
theorem digits_ne_nil (digit : Nat → Char) (n : Nat) : digits digit n ≠ [] := by
  unfold digits
  split <;> simp

end MathMarkup.Text.Hex
