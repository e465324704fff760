import MathMarkup.Expr.Literal
import MathMarkup.Grammar.Parse

/-!
# Formulas

A source together with the expression that was read from it.
-/

namespace MathMarkup

/-- A source and its expression. -/
structure Formula where
  source : String
  expr : Expr
  deriving DecidableEq

namespace Formula

/-- Reads a formula. -/
def parse (symbols : SymbolTable) (colors : ColorTable) (source : String) :
    Except ParseError Formula :=
  (Expr.parse symbols colors source).map fun e => ⟨source, e⟩

/-- A formula as a literal. -/
def literal (f : Formula) : String :=
  constructorLiteral "Expression" [("source", Text.quoted f.source), ("ast", f.expr.literal)]

end Formula

end MathMarkup
