import MathMarkup.Expr.Literal

/-!
# Visitors

A visitor answers for the expressions it can handle.  For any other it reports which case it
lacks.
-/

namespace MathMarkup

/-- The name of the case of an expression. -/
def Expr.caseName : Expr → String
  | .empty => "empty"
  | .symbol _ => "symbol"
  | .identifier _ => "identifier"
  | .number _ => "number"
  | .text _ => "text"
  | .color _ _ => "color"
  | .sequence _ => "sequence"
  | .paren _ _ _ _ => "paren"
  | .group _ _ _ => "group"
  | .scripts _ _ _ => "subsup"
  | .unary _ _ => "unary_op"
  | .binary _ _ _ => "binary_op"
  | .infixed _ _ _ => "infix_op"
  | .matrix _ _ _ => "matrix"
  | .foreign _ => "raw"

/-- A named function that may lack cases. -/
structure Visitor (α : Type) where
  name : String
  visit : Expr → Option α

namespace Visitor

/-- The visitor that lacks every case. -/
def idle (name : String) : Visitor Unit :=
  ⟨name, fun _ => none⟩

/-- The answer of a visitor, or the report of the case that it lacks. -/
def apply {α : Type} (v : Visitor α) (e : Expr) : Except String α :=
  match v.visit e with
  | some a => .ok a
  | none => .error (v.name ++ " must implement visit_" ++ e.caseName ++ "()")

end Visitor

/-- The report of an expression that takes no visitor at all. -/
def Expr.refusal (e : Expr) : String :=
  "accept() not implemented for " ++ e.constructorName

end MathMarkup
