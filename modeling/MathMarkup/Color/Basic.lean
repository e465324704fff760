import MathMarkup.Text.Hex

/-!
# Colors

A color is given by its red, green and blue parts.  Parts of a color that is read or looked up lie
between 0 and 255.
-/

namespace MathMarkup

/-- A color by its parts. -/
structure RGB where
  r : Int
  g : Int
  b : Int
  deriving DecidableEq

namespace RGB

/-- The color that stands for an unknown name. -/
def black : RGB := ⟨0, 0, 0⟩

/-- A part in two hexadecimal digits.  A sign counts as one of the two places. -/
def hexPart (n : Int) : List Char :=
  if n < 0 then '-' :: Text.Hex.padded 1 n.natAbs else Text.Hex.padded 2 n.toNat

/-- A color in the form `#rrggbb`. -/
def hex (c : RGB) : String :=
  String.ofList ('#' :: hexPart c.r ++ hexPart c.g ++ hexPart c.b)

end RGB

end MathMarkup
