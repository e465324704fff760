/-!
# Kinds of symbols

A symbol table serves one of two purposes.  A spelling table says for each spelling which role it
has in the grammar; a glyph table says for each symbol id how it is displayed.  Both are tables of
the same form, so a kind is a role or a display class.
-/

namespace MathMarkup

/-- What a spelling does in the grammar. -/
inductive Role where
  /-- Stands for itself. -/
  | symbol
  /-- Takes one operand after it. -/
  | unary
  /-- Takes two operands after it. -/
  | binary
  /-- Stands between its operands. -/
  | infixed
  /-- Opens a parenthesis. -/
  | opening
  /-- Closes a parenthesis. -/
  | closing
  /-- Opens or closes a parenthesis. -/
  | fence
  deriving DecidableEq

/-- How a symbol is laid out. -/
inductive Display where
  | operator
  | identifier
  | text
  | opening
  | closing
  | fence
  | accent
  | wrap
  | sqrt
  | cancel
  | root
  | frac
  | above
  | below
  | color
  | font
  deriving DecidableEq

/-- The kind of a table entry. -/
inductive Kind where
  | grammar (role : Role)
  | display (display : Display)
  deriving DecidableEq

end MathMarkup
