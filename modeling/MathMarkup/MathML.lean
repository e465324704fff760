import MathMarkup.Layout
import MathMarkup.Markup

/-!
# MathML

Layouts as presentation MathML.  Delimiters are written as operators in a row with the body; with
`fenced` they are attributes of an element around it.

* `MathML.content` writes a layout, and `MathML.body` writes it as the child of an element, where a
  sequence gets a row of its own.
* `MathML.document` is the whole `math` element.
-/

namespace MathMarkup.MathML

/-- The choices of the format. -/
structure Options where
  /-- Written before the name of every element. -/
  tagPrefix : String := ""
  /-- Whether delimiters are attributes. -/
  fenced : Bool := false

namespace Options

/-- An element of the given name. -/
def element (o : Options) (name : String) (children : List Markup) : Markup :=
  .element ⟨o.tagPrefix ++ name, none⟩ [] children

/-- An element of the given name with attributes. -/
def elementWith (o : Options) (name : String) (attributes : KeyedList String)
    (children : List Markup) : Markup :=
  .element ⟨o.tagPrefix ++ name, none⟩ attributes children

/-- An element of the given name that holds a text. -/
def leaf (o : Options) (name : String) (content : Option String) : Markup :=
  .leaf ⟨o.tagPrefix ++ name, none⟩ [] content

/-- A delimiter as an operator. -/
def delimiter (o : Options) : Mark → List Markup
  | .none => []
  | .text s => [o.leaf "mo" (some s)]
  | .other value => [o.element "mo" [.fault (.notText value)]]

/-- A body between delimiters. -/
def fence (o : Options) (left : Mark) (body : List Markup) (right : Mark) : List Markup :=
  if o.fenced then
    if left = .none ∧ right = .none then body
    else
      [o.elementWith "mfenced"
        [("open", left.visible?.getD ""), ("close", right.visible?.getD "")] body]
  else
    [o.element "mrow" (o.delimiter left ++ body ++ o.delimiter right)]

/-- A base with what stands below and above it, in the element that fits. -/
def scripted (o : Options) (lowerTag upperTag bothTag : String) (lower upper : Layout)
    (base lowerBody upperBody : List Markup) : List Markup :=
  match lower.isNothing, upper.isNothing with
  | false, false => [o.element bothTag (base ++ lowerBody ++ upperBody)]
  | false, true => [o.element lowerTag (base ++ lowerBody)]
  | true, false => [o.element upperTag (base ++ upperBody)]
  | true, true => base

/-- Scripts after a base. -/
def subsup (o : Options) :
    Layout → Layout → List Markup → List Markup → List Markup → List Markup :=
  o.scripted "msub" "msup" "msubsup"

/-- Scripts below and above a base. -/
def underover (o : Options) :
    Layout → Layout → List Markup → List Markup → List Markup → List Markup :=
  o.scripted "munder" "mover" "munderover"

/-- The markup of a layout as the child of an element: a sequence is put in a row. -/
def child (o : Options) (l : Layout) (markup : List Markup) : List Markup :=
  match l with
  | .sequence _ => [o.element "mrow" markup]
  | _ => markup

/-- The markup of a layout between delimiters.  A row with the delimiters in it takes the items of
a sequence in. -/
def fenceBody (o : Options) (l : Layout) (markup : List Markup) : List Markup :=
  if o.fenced then o.child l markup else markup

end Options

/-- The name of a font in MathML. -/
def fontName (style : String) : String :=
  String.ofList (style.toList.map fun c => if c = '_' then '-' else c)

mutual

/-- The markup of a layout.  The items of a sequence stand side by side. -/
def content (o : Options) : Layout → List Markup
  | .nothing => []
  | .foreign value => [.fault (.notAnExpression value)]
  | .faulty fault => [.fault fault]
  | .invisible => []
  | .operator glyph => [o.leaf "mo" glyph]
  | .name glyph => [o.leaf "mi" glyph]
  | .identifier name => [o.leaf "mi" name]
  | .number digits => [o.leaf "mn" digits]
  | .text written => [o.leaf "mtext" written]
  | .colorText written => [o.leaf "mtext" (some written)]
  | .sequence items => contents o items
  | .row items => [o.element "mrow" (contents o items)]
  | .group e => o.child e (content o e)
  | .fence left e right => o.fence left (o.fenceBody e (content o e)) right
  | .wrap left e right => o.fence left (o.fenceBody e (content o e)) right
  | .matrix left rows right => o.fence left [o.element "mtable" (rowContents o rows)] right
  | .sqrt e => [o.element "msqrt" (o.child e (content o e))]
  | .cancel e =>
    [o.elementWith "menclose" [("notation", "updiagonalstrike")] (o.child e (content o e))]
  | .root base index =>
    [o.element "mroot" (o.child base (content o base) ++ o.child index (content o index))]
  | .color rgb e => [o.elementWith "mstyle" [("mathcolor", rgb.hex)] (o.child e (content o e))]
  | .fraction numerator denominator =>
    [o.element "mfrac"
      (o.child numerator (content o numerator) ++ o.child denominator (content o denominator))]
  | .font none _ => [.fault .unnamed]
  | .font (some style) e =>
    [o.elementWith "mstyle" [("mathvariant", fontName style)] (o.child e (content o e))]
  | .operatorCall glyph e => [o.element "mrow" (o.leaf "mo" glyph :: content o e)]
  | .functionCall name e => [o.element "mrow" (o.leaf "mi" name :: content o e)]
  | .scripts base sub sup =>
    o.subsup sub sup (o.child base (content o base)) (o.child sub (content o sub))
      (o.child sup (content o sup))
  | .limits base below above =>
    o.underover below above (o.child base (content o base)) (o.child below (content o below))
      (o.child above (content o above))
  | .accent base mark .below =>
    o.underover mark .nothing (o.child base (content o base)) (o.child mark (content o mark)) []
  | .accent base mark .above =>
    o.underover .nothing mark (o.child base (content o base)) [] (o.child mark (content o mark))
  | .overset base above =>
    o.underover .nothing above (o.child base (content o base)) [] (o.child above (content o above))
  | .underset base below =>
    o.underover below .nothing (o.child base (content o base)) (o.child below (content o below)) []

/-- The markup of several layouts, each as a child. -/
def contents (o : Options) : List Layout → List Markup
  | [] => []
  | l :: ls => o.child l (content o l) ++ contents o ls

/-- The rows of a matrix. -/
def rowContents (o : Options) : List (List Layout) → List Markup
  | [] => []
  | row :: rows => o.element "mtr" (cellContents o row) :: rowContents o rows

/-- The cells of a row of a matrix. -/
def cellContents (o : Options) : List Layout → List Markup
  | [] => []
  | l :: ls => o.element "mtd" (o.child l (content o l)) :: cellContents o ls

end

/-- The markup of a layout as the child of an element. -/
def body (o : Options) (l : Layout) : List Markup :=
  o.child l (content o l)

/-- The markup of a layout in a row of its own, unless it is nothing at all. -/
def row (o : Options) : Layout → List Markup
  | .nothing => []
  | .foreign value => [.fault (.notAnExpression value)]
  | l => [o.element "mrow" (content o l)]

/-- The whole element, with the given attributes. -/
def document (o : Options) (attributes : KeyedList String) (l : Layout) : Markup :=
  o.elementWith "math" attributes (content o l)

end MathMarkup.MathML
