import MathMarkup.Html
import MathMarkup.Latex.Render
import MathMarkup.MathML

/-!
# Formats

The formats side by side.  A layout is written as a document of its own or as a fragment of one,
and fragments are added to what a page holds already.

* `Format.document` writes a document, `Format.fragment` a fragment.
* `Format.render` is the document of an expression under a glyph table.
-/

namespace MathMarkup

/-- A format with its choices. -/
inductive Format where
  | mathML (options : MathML.Options)
  | html (options : Html.Options)
  | latex

/-- When a fragment gets a row of its own. -/
inductive RowMode where
  /-- Only a sequence does. -/
  | avoid
  /-- It always does. -/
  | force
  /-- It never does. -/
  | omit
  deriving DecidableEq

namespace Format

/-- A layout as a part of a document. -/
def fragment (f : Format) (mode : RowMode) (l : Layout) : Draft :=
  match f, mode with
  | .mathML o, .avoid => Markup.writeAll (MathML.body o l)
  | .mathML o, .force => Markup.writeAll (MathML.row o l)
  | .mathML o, .omit => Markup.writeAll (MathML.content o l)
  | .html o, .avoid => Markup.writeAll (Html.body o l)
  | .html o, .force => Markup.writeAll (Html.row o l)
  | .html o, .omit => Markup.writeAll (Html.content o l)
  | .latex, .omit =>
    match l with
    | .sequence items => .join "" (Latex.renders items)
    | l => Latex.render l
  | .latex, _ => Latex.render l

/-- The names that attributes may not have, because they name the parts of a document itself. -/
def reservedNames : Format → List String
  | .mathML _ => ["self", "node", "name"]
  | .html _ => ["self", "node", "name", "inline"]
  | .latex => []

/-- A layout as a document, where no attribute has a reserved name. -/
def documentWith (f : Format) (inLine : Bool) (attributes : KeyedList String) (l : Layout) :
    Draft :=
  match f with
  | .mathML o => (MathML.document o attributes l).write
  | .html o => (Html.document o inLine attributes l).write
  | .latex => Latex.render l

/-- A layout as a document.  LaTeX has no place for attributes, and only HTML is set in a line or
in a block.  With a reserved name among the attributes nothing is written. -/
def document (f : Format) (inLine : Bool) (attributes : KeyedList Value) (l : Layout) : Draft :=
  match attributes.keys.find? (· ∈ f.reservedNames) with
  | some name => .fail (.reservedName name)
  | none =>
    f.documentWith inLine
      ((KeyedList.ofPairs attributes).map fun (key, value) => (key, value.display)) l

/-- The document of an expression, with symbols as a glyph table shows them. -/
def render (f : Format) (glyphs : SymbolTable) (e : Expr) : Draft :=
  f.document true [] (glyphs.layout e)

end Format

/-- What a page holds after a draft was added to it, and the fault that the draft ended in. -/
def Draft.extend (page d : Draft) : Draft × Option Fault :=
  ((page.resume ++ d).resume, d.fault)

end MathMarkup
