import MathMarkup.Draft
import MathMarkup.Expr.Basic
import MathMarkup.Symbol.Table

/-!
# Layouts

How an expression is laid out, in terms that all formats share.  A layout is made from an
expression and a glyph table: the table gives each symbol id the text that shows it, and its
display class decides the construct.  The formats only decide how each construct is written.

* `SymbolTable.glyph` and `SymbolTable.mark` look symbols and delimiters up.
* `SymbolTable.layout` lays an expression out.
-/

namespace MathMarkup

/-- Where an accent goes. -/
inductive Position where
  | above
  | below
  deriving DecidableEq

/-- What shows a delimiter: nothing, a text, or a value that is no text. -/
inductive Mark where
  | none
  | text (s : String)
  | other (value : Value)
  deriving DecidableEq

/-- The mark of a text that may be missing. -/
def Mark.ofOption : Option String → Mark
  | .none => .none
  | some s => .text s

/-- A mark as a text, if it has one that is not empty. -/
def Mark.visible? : Mark → Option String
  | .none => Option.none
  | .text s => if s = "" then Option.none else some s
  | .other value => if value.isTrue then some value.display else Option.none

/-- A construct with its parts.  A part that is missing is `nothing`. -/
inductive Layout where
  | nothing
  /-- A value that cannot be shown. -/
  | foreign (value : Value)
  /-- A construct that cannot be laid out. -/
  | faulty (fault : Fault)
  /-- A symbol without an id. -/
  | invisible
  | operator (glyph : Option String)
  /-- A symbol of the table that is no operator. -/
  | name (glyph : Option String)
  /-- A text that is not from the table. -/
  | identifier (name : Option String)
  | number (digits : Option String)
  | text (content : Option String)
  /-- The text of a color that stands alone. -/
  | colorText (content : String)
  /-- Items side by side, which an enclosing row can take in. -/
  | sequence (items : List Layout)
  /-- Items side by side in a row of their own. -/
  | row (items : List Layout)
  | group (body : Layout)
  /-- A parenthesis. -/
  | fence (left : Mark) (body : Layout) (right : Mark)
  /-- A function that is shown by delimiters around its operand. -/
  | wrap (left : Mark) (body : Layout) (right : Mark)
  | matrix (left : Mark) (rows : List (List Layout)) (right : Mark)
  | sqrt (body : Layout)
  | cancel (body : Layout)
  | root (base index : Layout)
  | color (rgb : RGB) (body : Layout)
  | fraction (numerator denominator : Layout)
  | font (style : Option String) (body : Layout)
  /-- An operator before its operand. -/
  | operatorCall (glyph : Option String) (operand : Layout)
  /-- A function before its argument. -/
  | functionCall (name : Option String) (argument : Layout)
  | scripts (base sub sup : Layout)
  /-- Scripts below and above the base. -/
  | limits (base below above : Layout)
  | accent (base mark : Layout) (position : Position)
  | overset (base above : Layout)
  | underset (base below : Layout)

namespace Layout

/-- Whether a part is missing. -/
def isNothing : Layout → Bool
  | .nothing => true
  | _ => false

/-- The fault of a format that has no form for any construct. -/
def unsupported? : Layout → Option Fault
  | .nothing => none
  | .invisible => none
  | .foreign value => some (.notAnExpression value)
  | .faulty fault => some fault
  | .group body => body.unsupported?
  | _ => some .unsupported

end Layout

/-! ## Symbols and delimiters -/

/-- Whether a symbol of a kind is drawn as an operator where it stands alone. -/
def Kind.isOperator : Kind → Bool
  | .display .operator => true
  | .display .accent => true
  | .display .opening => true
  | .display .closing => true
  | .display .fence => true
  | _ => false

namespace Descriptor

/-- Whether the scripts of a symbol go below and above it. -/
def hasLimits (d : Descriptor) : Bool :=
  (d.extra.value? "underover").any Value.isTrue

/-- Where an accent goes.  It goes over its base unless it is said to go under it. -/
def position (d : Descriptor) : Position :=
  if d.extra.value? "position" = some (.choice .below) then .below else .above

end Descriptor

namespace SymbolTable

/-- A symbol that stands alone. -/
def glyph (t : SymbolTable) (s : Symbol) : Layout :=
  match t.resolve s.id with
  | some d => if d.kind.isOperator then .operator d.value else .name d.value
  | none =>
    match s.id with
    | none => .invisible
    | some id => .identifier (some id)

/-- An operator that stands alone. -/
def operatorGlyph (t : SymbolTable) : Operator → Layout
  | .symbol s => t.glyph s
  | .identifier name => .identifier (some name)

/-- The entry of an operator.  An identifier has none. -/
def resolveOperator (t : SymbolTable) : Operator → Option Descriptor
  | .symbol s => t.resolve s.id
  | .identifier _ => none

/-- The entry of an expression that is a symbol. -/
def resolveExpr (t : SymbolTable) : Expr → Option Descriptor
  | .symbol s => t.resolve s.id
  | _ => none

/-- The mark of a symbol id.  An id that is not in the table shows itself. -/
def markOfId (t : SymbolTable) (id : String) : Mark :=
  match t.lookup id with
  | some d => .ofOption d.value
  | none => .text id

/-- The mark of a delimiter. -/
def mark (t : SymbolTable) (d : Delimiter) : Mark :=
  match d.id with
  | some id => t.markOfId id
  | none => .none

/-- The mark of a delimiter that metadata gives by its symbol id. -/
def markOfValue (t : SymbolTable) : Option Value → Mark
  | none => .none
  | some .null => .none
  | some (.text id) => t.markOfId id
  | some value => .other value

/-- The fault of a value that cannot name a delimiter: a list or a record. -/
def delimiterFault? : Value → Option Fault
  | .list items => some (.notText (.list items))
  | .record fields => some (.notText (.record fields))
  | _ => none

/-! ## Constructs -/

/-- The argument of a function, given also as it is laid out elsewhere.  The delimiters that an
argument was written with are shown. -/
def argument (t : SymbolTable) (e : Expr) (laid : Layout) : Layout :=
  match e, laid with
  | .group left _ right, .group body =>
    if left.isPresent || right.isPresent then .fence (t.mark left) body (t.mark right) else laid
  | _, _ => laid

/-- An operand between the delimiters that metadata gives. -/
def wrapLayout (t : SymbolTable) (extra : Metadata) (operand : Layout) : Layout :=
  let left := extra.value? "lparen"
  let right := extra.value? "rparen"
  match (left.bind delimiterFault?).or (right.bind delimiterFault?) with
  | some fault => .faulty fault
  | none => .wrap (t.markOfValue left) operand (t.markOfValue right)

/-- An operator with its operand. -/
def unaryLayout (t : SymbolTable) (operator : Operator) (e : Expr) (operand : Layout) : Layout :=
  match t.resolveOperator operator with
  | none => .functionCall operator.id (t.argument e operand)
  | some d =>
    match d.kind with
    | .display .operator => .operatorCall d.value (t.argument e operand)
    | .display .wrap => t.wrapLayout d.extra operand
    | .display .accent => .accent operand (t.operatorGlyph operator) d.position
    | .display .font => .font d.value operand
    | .display .cancel => .cancel operand
    | .display .sqrt => .sqrt operand
    | _ => .functionCall d.value (t.argument e operand)

/-- The parts that are there, in a row. -/
def presentRow (parts : List Layout) : Layout :=
  .row (parts.filter fun part => !part.isNothing)

/-- An operator with its two operands. -/
def binaryLayout (t : SymbolTable) (operator : Operator) (e : Expr) (first second : Layout) :
    Layout :=
  match (t.resolveOperator operator).map Descriptor.kind, e with
  | some (.display .above), _ => .overset second first
  | some (.display .below), _ => .underset second first
  | some (.display .root), _ => .root second first
  | some (.display .frac), _ => .fraction first second
  | some (.display .color), .color rgb _ => .color rgb second
  | _, _ => presentRow [t.operatorGlyph operator, first, second]

/-- An operator between its operands. -/
def infixedLayout (t : SymbolTable) (operator : Operator) (first second : Layout) : Layout :=
  match (t.resolveOperator operator).map Descriptor.kind with
  | some (.display .frac) => .fraction first second
  | _ => presentRow [first, t.operatorGlyph operator, second]

mutual

/-- The layout of an expression. -/
def layout (t : SymbolTable) : Expr → Layout
  | .empty => .nothing
  | .symbol s => t.glyph s
  | .identifier name => .identifier (some name)
  | .number digits => .number (some digits)
  | .text content => .text (some content)
  | .color _ written => .colorText written
  | .sequence items => .sequence (t.layouts items)
  | .paren left body right _ => .fence (t.mark left) (t.layout body) (t.mark right)
  | .group _ body _ => .group (t.layout body)
  | .scripts base sub sup =>
    if (t.resolveExpr base).any Descriptor.hasLimits then
      .limits (t.layout base) (t.layout sub) (t.layout sup)
    else
      .scripts (t.layout base) (t.layout sub) (t.layout sup)
  | .unary operator operand => t.unaryLayout operator operand (t.layout operand)
  | .binary operator first second =>
    t.binaryLayout operator first (t.layout first) (t.layout second)
  | .infixed operator first second => t.infixedLayout operator (t.layout first) (t.layout second)
  | .matrix left rows right => .matrix (t.mark left) (t.rowLayouts rows) (t.mark right)
  | .foreign value => .foreign value

/-- The layouts of several expressions. -/
def layouts (t : SymbolTable) : List Expr → List Layout
  | [] => []
  | e :: es => t.layout e :: t.layouts es

/-- The layouts of the rows of a matrix. -/
def rowLayouts (t : SymbolTable) : List (List Expr) → List (List Layout)
  | [] => []
  | row :: rows => t.layouts row :: t.rowLayouts rows

end

end SymbolTable

end MathMarkup
