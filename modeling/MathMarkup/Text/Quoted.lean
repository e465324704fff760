import MathMarkup.Text.Hex
import MathMarkup.Text.Printable

/-!
# Quoted texts

A text between quotes, in one line and with every character visible.  Single quotes are used
unless the text holds a single quote and no double quote.  The quote in use and the backslash are
escaped, and so is each character that cannot be shown.
-/

namespace MathMarkup.Text

/-- The quote that stands around a text. -/
def quoteFor (cs : List Char) : Char :=
  if cs.contains '\'' && !cs.contains '"' then '"' else '\''

/-- One character between quotes. -/
def quoteChar (quote c : Char) : List Char :=
  if c = quote ∨ c = '\\' then ['\\', c]
  else if c = '\n' then ['\\', 'n']
  else if c = '\t' then ['\\', 't']
  else if c = '\r' then ['\\', 'r']
  else if isPrintable c then [c]
  else if c.toNat < 0x100 then '\\' :: 'x' :: Hex.padded 2 c.toNat
  else if c.toNat < 0x10000 then '\\' :: 'u' :: Hex.padded 4 c.toNat
  else '\\' :: 'U' :: Hex.padded 8 c.toNat

/-- A text between quotes. -/
def quoted (s : String) : String :=
  let quote := quoteFor s.toList
  String.ofList (quote :: s.toList.flatMap (quoteChar quote) ++ [quote])

end MathMarkup.Text
