import MathMarkup.Color.Table
import MathMarkup.Expr.Basic
import MathMarkup.Token.Basic

/-!
# Operands

What an operator does to its operands when they are read.  Most operators leave them alone; the
color operator takes the text of its first operand for a color.

* `Expr.colorText` is the text of an operand, put together from its leaves.
* `ColorTable.ofText` reads a color: six hexadecimal digits after a number sign, or three, or a
  name of the table.  Anything else is black.
-/

namespace MathMarkup

/-- The text of a delimiter. -/
def Delimiter.leafText : Delimiter → String
  | .missing => ""
  | .symbol s => s.text
  | .named _ => ""

/-- The text of an operator. -/
def Operator.leafText : Operator → String
  | .symbol s => s.text
  | .identifier name => name

namespace Expr

mutual

/-- The text of an expression, put together from its leaves.  The delimiters of a group and of a
matrix are left out. -/
def colorText : Expr → String
  | .empty => ""
  | .symbol s => s.text
  | .identifier name => name
  | .number digits => digits
  | .text content => content
  | .color _ written => written
  | .sequence items => itemsColorText items
  | .paren left body right _ => left.leafText ++ body.colorText ++ right.leafText
  | .group _ body _ => body.colorText
  | .scripts base sub sup => base.colorText ++ sub.colorText ++ sup.colorText
  | .unary operator operand => operator.leafText ++ operand.colorText
  | .binary operator first second => operator.leafText ++ first.colorText ++ second.colorText
  | .infixed operator first second => operator.leafText ++ first.colorText ++ second.colorText
  | .matrix _ rows _ => rowsColorText rows
  | .foreign _ => ""

/-- The text of a list of expressions. -/
def itemsColorText : List Expr → String
  | [] => ""
  | e :: es => e.colorText ++ itemsColorText es

/-- The text of the rows of a matrix. -/
def rowsColorText : List (List Expr) → String
  | [] => ""
  | row :: rows => itemsColorText row ++ rowsColorText rows

end

end Expr

namespace ColorTable

open Text

/-- The color that starts a text in the form `#rrggbb`. -/
def hex6? : List Char → Option RGB
  | '#' :: r1 :: r2 :: g1 :: g2 :: b1 :: b2 :: _ =>
    match [r1, r2, g1, g2, b1, b2].mapM Hex.value? with
    | some [r, r', g, g', b, b'] => some ⟨16 * r + r', 16 * g + g', 16 * b + b'⟩
    | _ => none
  | _ => none

/-- The color that starts a text in the form `#rgb`, where each digit stands for two. -/
def hex3? : List Char → Option RGB
  | '#' :: r :: g :: b :: _ =>
    match [r, g, b].mapM Hex.value? with
    | some [r, g, b] => some ⟨17 * r, 17 * g, 17 * b⟩
    | _ => none
  | _ => none

/-- The color of a text. -/
def ofText (colors : ColorTable) (s : String) : RGB :=
  match hex6? s.toList with
  | some c => c
  | none =>
    match hex3? s.toList with
    | some c => c
    | none => (colors.lookup s).getD .black

end ColorTable

/-- What is done to an operand when it was read. -/
inductive Conversion where
  | keep
  /-- The text of the operand is read as a color. -/
  | color
  /-- The metadata asks for something that does not exist. -/
  | unknown (asked : Value)
  deriving DecidableEq

/-- The conversion that metadata asks for.  A text asks for none that exists, whatever it says. -/
def Conversion.ofValue : Option Value → Conversion
  | none => .keep
  | some .null => .keep
  | some (.choice .keepOperand) => .keep
  | some (.choice .colorOperand) => .color
  | some asked => .unknown asked

/-- The conversion that a token asks for under a name. -/
def Token.conversion (t : Token) (name : String) : Conversion :=
  .ofValue (t.extra.value? name)

/-- The conversion of the only operand of a token. -/
def Token.operand (t : Token) : Conversion :=
  t.conversion "convert_operand"

/-- The conversion of the first of two operands of a token. -/
def Token.firstOperand (t : Token) : Conversion :=
  t.conversion "convert_operand1"

/-- The conversion of the second of two operands of a token. -/
def Token.secondOperand (t : Token) : Conversion :=
  t.conversion "convert_operand2"

end MathMarkup
