import MathMarkup.Text.Hex

/-!
# Character references

Text inside markup.  The characters that markup itself uses are written as named references, and
every character beyond ASCII as a numeric one, so that what is written is plain ASCII.
-/

namespace MathMarkup.Text

/-- A numeric reference to a character. -/
def numericRef (c : Char) : List Char :=
  '&' :: '#' :: 'x' :: Hex.digits Hex.capitalDigit c.toNat ++ [';']

/-- A character of element content. -/
def escapeTextChar (c : Char) : List Char :=
  if c = '&' then "&amp;".toList
  else if c = '<' then "&lt;".toList
  else if c = '>' then "&gt;".toList
  else if 0x7F < c.toNat then numericRef c
  else [c]

/-- A character of an attribute value between double quotes. -/
def escapeAttributeChar (c : Char) : List Char :=
  if c = '"' then "&quot;".toList else escapeTextChar c

/-- A text as element content. -/
def escapeText (s : String) : String :=
  String.ofList (s.toList.flatMap escapeTextChar)

/-- A text as an attribute value between double quotes. -/
def escapeAttribute (s : String) : String :=
  String.ofList (s.toList.flatMap escapeAttributeChar)

end MathMarkup.Text
