import MathMarkup.Expr.Basic

/-!
# Expressions as literals

`Expr.literal` writes an expression with the name of each constructor and of each of its fields,
so that the tree can be seen.
-/

namespace MathMarkup

/-- A constructor with its named fields. -/
def constructorLiteral (name : String) (fields : List (String × String)) : String :=
  name ++ "(" ++ ", ".intercalate (fields.map fun (field, value) => field ++ "=" ++ value) ++ ")"

/-- Several literals as a tuple.  A tuple of one has a comma too. -/
def tupleLiteral : List String → String
  | [item] => "(" ++ item ++ ",)"
  | items => "(" ++ ", ".intercalate items ++ ")"

/-- An optional text as a literal. -/
def optionLiteral : Option String → String
  | none => "None"
  | some s => Text.quoted s

/-- A symbol as a literal. -/
def Symbol.literal (s : Symbol) : String :=
  constructorLiteral "Symbol" [("value", optionLiteral s.id), ("text", Text.quoted s.text)]

/-- A delimiter as a literal. -/
def Delimiter.literal : Delimiter → String
  | .missing => "None"
  | .symbol s => s.literal
  | .named id => Text.quoted id

namespace Expr

/-- An identifier as a literal. -/
def identifierLiteral (name : String) : String :=
  constructorLiteral "Identifier" [("value", Text.quoted name)]

end Expr

/-- An operator as a literal. -/
def Operator.literal : Operator → String
  | .symbol s => s.literal
  | .identifier name => Expr.identifierLiteral name

namespace Expr

/-- The name of the constructor of an expression. -/
def constructorName : Expr → String
  | .empty => "NoneType"
  | .symbol _ => "Symbol"
  | .identifier _ => "Identifier"
  | .number _ => "Number"
  | .text _ => "Text"
  | .color _ _ => "Color"
  | .sequence _ => "Sequence"
  | .paren _ _ _ _ => "Paren"
  | .group _ _ _ => "Group"
  | .scripts _ _ _ => "SubSup"
  | .unary _ _ => "UnaryOp"
  | .binary _ _ _ => "BinaryOp"
  | .infixed _ _ _ => "InfixOp"
  | .matrix _ _ _ => "Matrix"
  | .foreign value => value.typeName

mutual

/-- An expression as a literal. -/
def literal : Expr → String
  | .empty => "None"
  | .symbol s => s.literal
  | .identifier name => identifierLiteral name
  | .number digits => constructorLiteral "Number" [("value", Text.quoted digits)]
  | .text content => constructorLiteral "Text" [("value", Text.quoted content)]
  | .color rgb written =>
    constructorLiteral "Color"
      [("r", toString rgb.r), ("g", toString rgb.g), ("b", toString rgb.b),
        ("text", Text.quoted written)]
  | .sequence items => constructorLiteral "Sequence" [("items", tupleLiteral (itemLiterals items))]
  | .paren left body right keep =>
    constructorLiteral "Paren"
      [("lparen", left.literal), ("expression", body.literal), ("rparen", right.literal),
        ("no_unwrap", (Value.bool keep).literal)]
  | .group left body right =>
    constructorLiteral "Group"
      [("lparen", left.literal), ("expression", body.literal), ("rparen", right.literal)]
  | .scripts base sub sup =>
    constructorLiteral "SubSup"
      [("base", base.literal), ("sub", sub.literal), ("sup", sup.literal)]
  | .unary operator operand =>
    constructorLiteral "UnaryOp" [("operator", operator.literal), ("operand", operand.literal)]
  | .binary operator first second =>
    constructorLiteral "BinaryOp"
      [("operator", operator.literal), ("operand1", first.literal), ("operand2", second.literal)]
  | .infixed operator first second =>
    constructorLiteral "InfixOp"
      [("operator", operator.literal), ("operand1", first.literal), ("operand2", second.literal)]
  | .matrix left rows right =>
    constructorLiteral "Matrix"
      [("lparen", left.literal), ("rows", tupleLiteral (rowLiterals rows)),
        ("rparen", right.literal)]
  | .foreign value => value.literal

/-- Expressions as literals. -/
def itemLiterals : List Expr → List String
  | [] => []
  | e :: es => e.literal :: itemLiterals es

/-- The rows of a matrix as literals. -/
def rowLiterals : List (List Expr) → List String
  | [] => []
  | row :: rows => tupleLiteral (itemLiterals row) :: rowLiterals rows

end

end Expr

end MathMarkup
