import MathMarkup.Color.Basic
import MathMarkup.Value

/-!
# Expressions

The tree of a formula.  An expression that is missing, such as the operand of an operator at the
end of the input, is `Expr.empty`.

* `Expr.ofItems` puts a run of expressions together, without a sequence of fewer than two.
* `Expr.unwrap` hides the delimiters of an operand.
* `Expr.same` decides equality, which makes `Expr` a type with decidable equality.
-/

namespace MathMarkup

/-- A symbol of the grammar: its id, if it has one, and the spelling it was written with. -/
structure Symbol where
  id : Option String
  text : String
  deriving DecidableEq

/-- A delimiter of a parenthesis: missing, written as a symbol, or known by its id alone. -/
inductive Delimiter where
  | missing
  | symbol (s : Symbol)
  | named (id : String)
  deriving DecidableEq

/-- The operator of an operation: a symbol of the grammar or a mere identifier. -/
inductive Operator where
  | symbol (s : Symbol)
  | identifier (name : String)
  deriving DecidableEq

/-- A mathematical expression. -/
inductive Expr where
  /-- The missing expression. -/
  | empty
  | symbol (s : Symbol)
  /-- A character without a meaning in the table. -/
  | identifier (name : String)
  /-- A number as it was written. -/
  | number (digits : String)
  /-- A text between quotes. -/
  | text (content : String)
  /-- A color and the text it was read from. -/
  | color (rgb : RGB) (written : String)
  | sequence (items : List Expr)
  /-- An expression between delimiters.  With `keep` it keeps them as an operand. -/
  | paren (left : Delimiter) (body : Expr) (right : Delimiter) (keep : Bool)
  /-- An operand whose delimiters are not shown. -/
  | group (left : Delimiter) (body : Expr) (right : Delimiter)
  | scripts (base sub sup : Expr)
  /-- An operator before its operand. -/
  | unary (operator : Operator) (operand : Expr)
  /-- An operator before its two operands. -/
  | binary (operator : Operator) (first second : Expr)
  /-- An operator between its operands. -/
  | infixed (operator : Operator) (first second : Expr)
  | matrix (left : Delimiter) (rows : List (List Expr)) (right : Delimiter)
  /-- A value that is no expression and cannot be shown. -/
  | foreign (value : Value)

instance : Inhabited Expr := ⟨.empty⟩

namespace Delimiter

/-- The symbol id of a delimiter. -/
def id : Delimiter → Option String
  | .missing => none
  | .symbol s => s.id
  | .named id => some id

/-- Whether a delimiter is there, visible or not. -/
def isPresent : Delimiter → Bool
  | .missing => false
  | _ => true

end Delimiter

namespace Operator

/-- The symbol id of an operator. -/
def id : Operator → Option String
  | .symbol s => s.id
  | .identifier name => some name

/-- The operator as an expression. -/
def toExpr : Operator → Expr
  | .symbol s => .symbol s
  | .identifier name => .identifier name

end Operator

namespace Expr

/-- Whether an expression is missing. -/
def isEmpty : Expr → Bool
  | .empty => true
  | _ => false

/-- A run of expressions as one: none is the missing expression, and one is itself. -/
def ofItems : List Expr → Expr
  | [] => .empty
  | [e] => e
  | items => .sequence items

/-- The run of expressions that an expression stands for. -/
def items : Expr → List Expr
  | .empty => []
  | .sequence items => items
  | e => [e]

/-- An operand without its visible delimiters. -/
def unwrap : Expr → Expr
  | .paren left body right false => .group left body right
  | e => e

/-- The number of columns of a matrix: the length of its first row. -/
def columns (rows : List (List Expr)) : Nat :=
  match rows with
  | [] => 0
  | row :: _ => row.length

/-- The item at an index, counted from the end if the index is negative. -/
def itemAt? (items : List Expr) (index : Int) : Option Expr :=
  if 0 ≤ index then items[index.toNat]?
  else if (-index).toNat ≤ items.length then items[items.length - (-index).toNat]?
  else none

/-! ## Equality -/

mutual

/-- Whether two expressions are the same. -/
def same : Expr → Expr → Bool
  | .empty, .empty => true
  | .symbol s, .symbol t => s == t
  | .identifier a, .identifier b => a == b
  | .number a, .number b => a == b
  | .text a, .text b => a == b
  | .color c s, .color d t => c == d && s == t
  | .sequence as, .sequence bs => sameItems as bs
  | .paren l a r k, .paren l' b r' k' => l == l' && a.same b && r == r' && k == k'
  | .group l a r, .group l' b r' => l == l' && a.same b && r == r'
  | .scripts a b c, .scripts a' b' c' => a.same a' && b.same b' && c.same c'
  | .unary o a, .unary p b => o == p && a.same b
  | .binary o a b, .binary p a' b' => o == p && a.same a' && b.same b'
  | .infixed o a b, .infixed p a' b' => o == p && a.same a' && b.same b'
  | .matrix l as r, .matrix l' bs r' => l == l' && sameRows as bs && r == r'
  | .foreign v, .foreign w => v == w
  | _, _ => false

/-- Whether two lists of expressions are the same. -/
def sameItems : List Expr → List Expr → Bool
  | [], [] => true
  | a :: as, b :: bs => a.same b && sameItems as bs
  | _, _ => false

/-- Whether two lists of rows are the same. -/
def sameRows : List (List Expr) → List (List Expr) → Bool
  | [], [] => true
  | a :: as, b :: bs => sameItems a b && sameRows as bs
  | _, _ => false

end

mutual

/-- `same` decides equality. -/
theorem same_iff : ∀ a b : Expr, a.same b = true ↔ a = b
  | .empty, b => by cases b <;> simp [same]
  | .symbol _, b => by cases b <;> simp [same]
  | .identifier _, b => by cases b <;> simp [same]
  | .number _, b => by cases b <;> simp [same]
  | .text _, b => by cases b <;> simp [same]
  | .color _ _, b => by cases b <;> simp [same]
  | .sequence as, b => by cases b <;> simp [same, sameItems_iff as]
  | .paren _ a _ _, b => by cases b <;> simp [same, same_iff a, and_assoc]
  | .group _ a _, b => by cases b <;> simp [same, same_iff a, and_assoc]
  | .scripts a b c, d => by cases d <;> simp [same, same_iff a, same_iff b, same_iff c, and_assoc]
  | .unary _ a, b => by cases b <;> simp [same, same_iff a]
  | .binary _ a b, c => by cases c <;> simp [same, same_iff a, same_iff b, and_assoc]
  | .infixed _ a b, c => by cases c <;> simp [same, same_iff a, same_iff b, and_assoc]
  | .matrix _ as _, b => by cases b <;> simp [same, sameRows_iff as, and_assoc]
  | .foreign _, b => by cases b <;> simp [same]

/-- `sameItems` decides equality. -/
theorem sameItems_iff : ∀ as bs : List Expr, sameItems as bs = true ↔ as = bs
  | [], bs => by cases bs <;> simp [sameItems]
  | a :: as, bs => by cases bs <;> simp [sameItems, same_iff a, sameItems_iff as]

/-- `sameRows` decides equality. -/
theorem sameRows_iff : ∀ as bs : List (List Expr), sameRows as bs = true ↔ as = bs
  | [], bs => by cases bs <;> simp [sameRows]
  | a :: as, bs => by cases bs <;> simp [sameRows, sameItems_iff a, sameRows_iff as]

end

instance : DecidableEq Expr := fun a b => decidable_of_iff (a.same b = true) (same_iff a b)

end Expr

end MathMarkup
