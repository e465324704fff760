import MathMarkup.Expr.Basic

/-!
# Expressions as source

`Expr.source` writes an expression in the notation it is read from.  The items of a sequence and
the parts of an operation before its operands are set apart by a space; everything else is written
without a space.
-/

namespace MathMarkup

/-- A delimiter in the notation. -/
def Delimiter.source : Delimiter → String
  | .missing => ""
  | .symbol s => s.text
  | .named id => id

/-- An operator in the notation. -/
def Operator.source : Operator → String
  | .symbol s => s.text
  | .identifier name => name

namespace Expr

mutual

/-- An expression in the notation.  The missing expression is written as nothing. -/
def source : Expr → String
  | .empty => ""
  | .symbol s => s.text
  | .identifier name => name
  | .number digits => digits
  | .text content => "\"" ++ content ++ "\""
  | .color _ written => "(" ++ written ++ ")"
  | .sequence items => " ".intercalate (itemSources items)
  | .paren left body right _ => left.source ++ body.source ++ right.source
  | .group left body right => left.source ++ body.source ++ right.source
  | .scripts base sub sup =>
    base.source ++ (if sub.isEmpty then "" else "_" ++ sub.source) ++
      (if sup.isEmpty then "" else "^" ++ sup.source)
  | .unary operator operand => operator.source ++ " " ++ operand.source
  | .binary operator first second =>
    operator.source ++ " " ++ first.source ++ " " ++ second.source
  | .infixed operator first second => first.source ++ operator.source ++ second.source
  | .matrix left rows right =>
    left.source ++ ",".intercalate (rowSources rows) ++ right.source
  | .foreign value => value.display

/-- The items of a sequence.  A missing item is marked. -/
def itemSources : List Expr → List String
  | [] => []
  | e :: es => (if e.isEmpty then "None" else e.source) :: itemSources es

/-- The cells of a row. -/
def cellSources : List Expr → List String
  | [] => []
  | e :: es => e.source :: cellSources es

/-- The rows of a matrix, each between parentheses. -/
def rowSources : List (List Expr) → List String
  | [] => []
  | row :: rows => ("(" ++ ",".intercalate (cellSources row) ++ ")") :: rowSources rows

end

end Expr

end MathMarkup
