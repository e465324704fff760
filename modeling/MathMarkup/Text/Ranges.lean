/-!
# Ranges of characters

A class of characters given by the ranges of code points that belong to it.
-/

namespace MathMarkup.Text

/-- A class of characters: ranges of code points, first and last included. -/
abbrev Ranges := List (Nat × Nat)

/-- Whether a character lies in one of the ranges. -/
def Ranges.contains (ranges : Ranges) (c : Char) : Bool :=
  ranges.any fun (first, last) => first ≤ c.toNat && c.toNat ≤ last

end MathMarkup.Text
