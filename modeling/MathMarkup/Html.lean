import MathMarkup.Layout
import MathMarkup.Markup

/-!
# HTML

Layouts as nested spans.  Every span has a class that names its part in the layout; a style sheet
does the rest.  Where a script is missing, a joiner of no width keeps the lines in step.

* `Html.content` writes a layout, `Html.body` writes it as a child, where a sequence gets a row of
  its own, and `Html.row` always puts it in a row.
* `Html.document` is the whole span.
-/

namespace MathMarkup.Html

/-- The choices of the format. -/
structure Options where
  /-- Written before the name of every part. -/
  classPrefix : String := ""

/-- A character of no width, which holds the place of what is missing. -/
def joiner : String := "\u200d"

namespace Options

/-- The tag of a span for a part of the layout. -/
def tag (o : Options) (part : String) : Tag :=
  ⟨"span", some ("math-" ++ o.classPrefix ++ part)⟩

/-- A span for a part of the layout. -/
def span (o : Options) (part : String) (children : List Markup) : Markup :=
  .element (o.tag part) [] children

/-- A span for a part of the layout with attributes. -/
def spanWith (o : Options) (part : String) (attributes : KeyedList String)
    (children : List Markup) : Markup :=
  .element (o.tag part) attributes children

/-- A span that holds a text. -/
def leaf (o : Options) (part : String) (content : Option String) : Markup :=
  .leaf (o.tag part) [] content

/-- A span that holds the place of what is missing. -/
def blank (o : Options) : Markup :=
  o.leaf "blank" (some joiner)

/-- A delimiter with the given attributes. -/
def delimiter (o : Options) (attributes : KeyedList String) : Mark → List Markup
  | .none => []
  | .text s => [.leaf (o.tag "brace") attributes (some s)]
  | .other value => [o.spanWith "brace" attributes [.fault (.notText value)]]

/-- A body between delimiters. -/
def fence (o : Options) (left : Mark) (body : List Markup) (right : Mark) : List Markup :=
  [o.span "row" (o.delimiter [] left ++ body ++ o.delimiter [] right)]

/-- The markup of a layout as a child: a sequence is put in a row. -/
def child (o : Options) (l : Layout) (markup : List Markup) : List Markup :=
  match l with
  | .sequence _ => [o.span "row" markup]
  | _ => markup

/-- The markup of a layout in a row of its own, unless it is nothing at all. -/
def row (o : Options) (l : Layout) (markup : List Markup) : List Markup :=
  match l with
  | .nothing => []
  | .foreign _ => markup
  | _ => [o.span "row" markup]

/-- A script after a base, or the place of it. -/
def script (o : Options) (l : Layout) (markup : List Markup) : Markup :=
  if l.isNothing then o.leaf "smaller" (some joiner) else o.span "smaller" (o.child l markup)

/-- A script below or above a base, or the place of it. -/
def limit (o : Options) (l : Layout) (markup : List Markup) : Markup :=
  o.span "smaller" (if l.isNothing then [o.blank] else o.child l markup)

/-- A base with scripts after it. -/
def subsup (o : Options) (base : List Markup) (sub sup : Markup) : List Markup :=
  base ++ [o.span "subsup" [sup, sub]]

/-- A base with scripts below and above it. -/
def underover (o : Options) (base : List Markup) (below above : Markup) : List Markup :=
  [o.blank, o.span "underover" (above :: base ++ [below])]

/-- One of the two parts of a fraction. -/
def fractionPart (o : Options) (part : List Markup) : Markup :=
  o.span "fraction_row" [o.span "fraction_cell" [o.span "smaller" [o.span "row" part]]]

/-- The size of the delimiters of a matrix with the given number of rows. -/
def braceStyle (rows : Nat) : KeyedList String :=
  [("style", "font-size: " ++ toString rows ++ "00%;")]

/-- The grid of a matrix. -/
def gridStyle (rows columns : Nat) : KeyedList String :=
  [("style", "grid-template-columns:repeat(" ++ toString columns ++
    ",1fr);grid-template-rows:repeat(" ++ toString rows ++ ",1fr);")]

/-- A matrix with the given cells. -/
def matrix (o : Options) (left : Mark) (rows columns : Nat) (cells : List Markup) (right : Mark) :
    List Markup :=
  [o.span "row"
    (o.delimiter (braceStyle rows) left ++ [o.spanWith "matrix" (gridStyle rows columns) cells] ++
      o.delimiter (braceStyle rows) right)]

end Options

/-- The number of cells of the first row. -/
def columns : List (List Layout) → Nat
  | [] => 0
  | row :: _ => row.length

/-- The name of a font.  A font without a name is marked. -/
def fontName (style : Option String) : String :=
  "font-" ++ style.getD "None"

mutual

/-- The markup of a layout.  The items of a sequence stand side by side. -/
def content (o : Options) : Layout → List Markup
  | .nothing => []
  | .foreign value => [.fault (.notAnExpression value)]
  | .faulty fault => [.fault fault]
  | .invisible => []
  | .operator glyph => [o.leaf "operator" glyph]
  | .name glyph => [o.leaf "identifier" glyph]
  | .identifier name => [o.leaf "identifier" name]
  | .number digits => [o.leaf "number" digits]
  | .text written => [o.leaf "text" written]
  | .colorText written => [o.leaf "text" (some written)]
  | .sequence items => contents o items
  | .row items => [o.span "row" (contents o items)]
  | .group e => o.row e (content o e)
  | .fence left e right => o.fence left (o.row e (content o e)) right
  | .wrap left e right => o.fence left (o.child e (content o e)) right
  | .matrix left rows right =>
    o.matrix left rows.length (columns rows) (rowContents o rows) right
  | .sqrt e => [o.span "sqrt" (o.row e (content o e))]
  | .cancel e => [o.span "cancel" (o.row e (content o e))]
  | .root base index =>
    [o.span "root"
      [o.span "smaller" (o.child index (content o index)),
        o.span "sqrt" (o.row base (content o base))]]
  | .color rgb e =>
    [o.spanWith "color" [("style", "color: " ++ rgb.hex ++ ";")] (o.row e (content o e))]
  | .fraction numerator denominator =>
    [o.blank,
      o.span "fraction"
        [o.fractionPart (o.child numerator (content o numerator)),
          o.fractionPart (o.child denominator (content o denominator))]]
  | .font style e => [o.span (fontName style) (o.row e (content o e))]
  | .operatorCall glyph e =>
    [o.span "row" (o.leaf "operator" glyph :: o.child e (content o e))]
  | .functionCall name e =>
    [o.span "row" (o.leaf "identifier" name :: o.child e (content o e))]
  | .scripts base sub sup =>
    o.subsup (o.child base (content o base)) (o.script sub (content o sub))
      (o.script sup (content o sup))
  | .limits base below above =>
    o.underover (o.child base (content o base)) (o.limit below (content o below))
      (o.limit above (content o above))
  | .accent base mark .below =>
    o.underover (o.child base (content o base)) (o.limit mark (content o mark))
      (o.limit .nothing [])
  | .accent base mark .above =>
    o.underover (o.child base (content o base)) (o.limit .nothing [])
      (o.limit mark (content o mark))
  | .overset base above =>
    o.underover (o.child base (content o base)) (o.limit .nothing [])
      (o.limit above (content o above))
  | .underset base below =>
    o.underover (o.child base (content o base)) (o.limit below (content o below))
      (o.limit .nothing [])

/-- The markup of several layouts, each as a child. -/
def contents (o : Options) : List Layout → List Markup
  | [] => []
  | l :: ls => o.child l (content o l) ++ contents o ls

/-- The cells of a matrix, row after row. -/
def rowContents (o : Options) : List (List Layout) → List Markup
  | [] => []
  | row :: rows => cellContents o row ++ rowContents o rows

/-- The cells of a row of a matrix. -/
def cellContents (o : Options) : List Layout → List Markup
  | [] => []
  | l :: ls => o.span "row" (o.child l (content o l)) :: cellContents o ls

end

/-- The markup of a layout as a child. -/
def body (o : Options) (l : Layout) : List Markup :=
  o.child l (content o l)

/-- The markup of a layout in a row of its own, unless it is nothing at all. -/
def row (o : Options) (l : Layout) : List Markup :=
  o.row l (content o l)

/-- The whole span, in a line or in a block, with the given attributes. -/
def document (o : Options) (inLine : Bool) (attributes : KeyedList String) (l : Layout) : Markup :=
  o.spanWith (if inLine then "inline" else "block") attributes (row o l)

end MathMarkup.Html
