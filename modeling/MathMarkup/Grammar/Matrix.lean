import MathMarkup.Expr.Basic

/-!
# Matrices

A parenthesis around rows is a matrix: the rows are parentheses, all round or all square, with a
comma between any two, and all have the same number of cells.  The cells of a row are what stands
between its commas.

* `Expr.cells` splits a row.
* `Expr.inferMatrix` makes a matrix of a parenthesis that is one, and else leaves it.
-/

namespace MathMarkup

namespace Expr

/-- Whether an expression is a comma. -/
def isComma (e : Expr) : Bool :=
  e = .identifier ","

/-- Splits a run of items at its commas. -/
def splitCommas : List Expr → List (List Expr)
  | [] => [[]]
  | e :: es =>
    if e.isComma then [] :: splitCommas es
    else
      match splitCommas es with
      | [] => [[e]]
      | first :: others => (e :: first) :: others

/-- The cells of a row with the given body. -/
def cells (body : Expr) : List Expr :=
  (splitCommas body.items).map ofItems

/-- The items at even places. -/
def evens : List Expr → List Expr
  | [] => []
  | [e] => [e]
  | e :: _ :: es => e :: evens es

/-- The items at odd places. -/
def odds : List Expr → List Expr
  | [] => []
  | [_] => []
  | _ :: e :: es => e :: odds es

/-- The body of a parenthesis between delimiters with the given ids. -/
def bodyBetween? (left right : String) : Expr → Option Expr
  | .paren (.symbol l) body (.symbol r) _ =>
    if l.id = some left ∧ r.id = some right then some body else none
  | _ => none

/-- The bodies of rows that are all round or all square. -/
def rowBodies? (rows : List Expr) : Option (List Expr) :=
  (rows.mapM (bodyBetween? "lparen" "rparen")).or (rows.mapM (bodyBetween? "lbracket" "rbracket"))

/-- The rows of a matrix, each split into cells. -/
def matrixRows? (items : List Expr) : Option (List (List Expr)) :=
  let rows := evens items
  let commas := odds items
  if rows.length ≤ 1 ∨ rows.length ≤ commas.length ∨ ¬ commas.all isComma then none
  else
    match (rowBodies? rows).map (List.map cells) with
    | some (first :: others) =>
      if others.all fun row => row.length = first.length then some (first :: others) else none
    | _ => none

/-- An expression with a parenthesis read as a matrix if it is one. -/
def inferMatrix (e : Expr) : Expr :=
  match e with
  | .paren left (.sequence items) right _ =>
    match matrixRows? items with
    | some rows => .matrix left rows right
    | none => e
  | _ => e

end Expr

end MathMarkup
