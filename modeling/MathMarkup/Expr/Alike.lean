import MathMarkup.Expr.Basic

/-!
# Alike expressions

Two values are alike if they differ at most in how a number is held and in the order of fields: a
truth value is the number one or zero, and a number with a binary point that is whole is that whole
number.  Two expressions are alike if they differ at most in values that are alike.

* `Value.plain` and `Expr.plain` bring what is alike into one form, so that `Expr.alike` compares
  these forms.  `Expr.alike_refl` and `Expr.alike_symm` follow from that.
* `Expr.countDistinct?` counts two expressions up to likeness.
-/

namespace MathMarkup

namespace Value

/-- Puts a field before the first field with a higher name. -/
def insertField (field : String × Value) : List (String × Value) → List (String × Value)
  | [] => [field]
  | other :: fields =>
    if field.1 < other.1 then field :: other :: fields else other :: insertField field fields

mutual

/-- A value with its numbers in one form and its fields in order. -/
def plain : Value → Value
  | .null => .null
  | .bool b => .int (if b then 1 else 0)
  | .int n => .int n
  | .real x =>
    match x.toInt? with
    | some n => .int n
    | none => .real x
  | .text s => .text s
  | .choice c => .choice c
  | .list items => .list (plainItems items)
  | .record fields => .record (plainFields fields)

/-- The items of a list in plain form. -/
def plainItems : List Value → List Value
  | [] => []
  | v :: vs => v.plain :: plainItems vs

/-- The fields of a record in plain form and in order. -/
def plainFields : List (String × Value) → List (String × Value)
  | [] => []
  | (name, v) :: fields => insertField (name, v.plain) (plainFields fields)

end

/-- Whether a value is neither a list nor a record. -/
def isSingle : Value → Bool
  | .list _ => false
  | .record _ => false
  | _ => true

end Value

namespace Expr

mutual

/-- An expression with each foreign value in plain form. -/
def plain : Expr → Expr
  | .sequence items => .sequence (plainItems items)
  | .paren left body right keep => .paren left body.plain right keep
  | .group left body right => .group left body.plain right
  | .scripts base sub sup => .scripts base.plain sub.plain sup.plain
  | .unary operator operand => .unary operator operand.plain
  | .binary operator first second => .binary operator first.plain second.plain
  | .infixed operator first second => .infixed operator first.plain second.plain
  | .matrix left rows right => .matrix left (plainRows rows) right
  | .foreign value => .foreign value.plain
  | e => e

/-- Several expressions in plain form. -/
def plainItems : List Expr → List Expr
  | [] => []
  | e :: es => e.plain :: plainItems es

/-- The rows of a matrix in plain form. -/
def plainRows : List (List Expr) → List (List Expr)
  | [] => []
  | row :: rows => plainItems row :: plainRows rows

end

mutual

/-- The foreign values of an expression, from left to right. -/
def foreigns : Expr → List Value
  | .sequence items => itemForeigns items
  | .paren _ body _ _ => body.foreigns
  | .group _ body _ => body.foreigns
  | .scripts base sub sup => base.foreigns ++ sub.foreigns ++ sup.foreigns
  | .unary _ operand => operand.foreigns
  | .binary _ first second => first.foreigns ++ second.foreigns
  | .infixed _ first second => first.foreigns ++ second.foreigns
  | .matrix _ rows _ => rowForeigns rows
  | .foreign value => [value]
  | _ => []

/-- The foreign values of several expressions. -/
def itemForeigns : List Expr → List Value
  | [] => []
  | e :: es => e.foreigns ++ itemForeigns es

/-- The foreign values of the rows of a matrix. -/
def rowForeigns : List (List Expr) → List Value
  | [] => []
  | row :: rows => itemForeigns row ++ rowForeigns rows

end

/-- Whether two expressions differ at most in values that are alike. -/
def alike (a b : Expr) : Bool :=
  a.plain = b.plain

/-- Whether an expression can be told apart by a count: it holds no list and no record. -/
def isCountable (e : Expr) : Bool :=
  e.foreigns.all Value.isSingle

/-- The number of different expressions among two, if both can be counted. -/
def countDistinct? (a b : Expr) : Option Nat :=
  if a.isCountable && b.isCountable then some (if a.alike b then 1 else 2) else none

/-- Every expression is alike to itself. -/
theorem alike_refl (a : Expr) : a.alike a = true := by
  simp [alike]

/-- Likeness goes both ways. -/
theorem alike_symm {a b : Expr} (h : a.alike b = true) : b.alike a = true := by
  simp only [alike, decide_eq_true_eq] at h ⊢
  exact h.symm

end Expr

end MathMarkup
