import MathMarkup.Latex.Escape
import MathMarkup.Layout

/-!
# LaTeX

Layouts as LaTeX source for math mode.  The texts of the symbol table are LaTeX already and are
written as they stand; names and texts from the source are escaped.

* `Latex.render` writes a layout.
-/

namespace MathMarkup.Latex

/-- A draft between braces. -/
def braced (d : Draft) : Draft :=
  .put "\x7b" ++ d ++ .put "\x7d"

/-- A name from the source.  Without one nothing can be written. -/
def name : Option String → Draft
  | some s => .put (escape s)
  | none => .fail .missingText

/-- A text from the source.  Without one nothing can be written. -/
def text : Option String → Draft
  | some s => .put ("\\text\x7b" ++ escape s ++ "\x7d")
  | none => .fail .missingText

/-- A delimiter after the command that sizes it.  A point stands for a missing one. -/
def delimiter (command : String) (m : Mark) : Draft :=
  .put (command ++ " " ++ m.visible?.getD ".")

/-- A body between delimiters, unless both are missing. -/
def fence (left : Mark) (body : Draft) (right : Mark) : Draft :=
  if left = .none ∧ right = .none then body
  else delimiter "\\left" left ++ .put " " ++ body ++ .put " " ++ delimiter "\\right" right

/-- A script after its marker.  A leaf needs no braces. -/
def script (marker : String) (l : Layout) (d : Draft) : Draft :=
  match l with
  | .nothing => .empty
  | .operator _ | .name _ | .identifier _ | .invisible | .number _ | .text _ => .put marker ++ d
  | _ => .put marker ++ braced d

/-- A base with scripts. -/
def scripted (base : Draft) (sub sup : Layout) (subDraft supDraft : Draft) : Draft :=
  base ++ script "_" sub subDraft ++ script "^" sup supDraft

/-- An operator or function before its operand. -/
def call (function : Option String) (l : Layout) (operand : Draft) : Draft :=
  .putOption function ++ if l.isNothing then .empty else .put " " ++ operand

/-- The command of an accent. -/
def accentCommand : Layout → Draft
  | .operator glyph => .putOption glyph
  | .name glyph => .putOption glyph
  | .identifier name => .put ("\\" ++ name.getD "None")
  | .number digits => .put ("\\" ++ digits.getD "None")
  | .text content => .put ("\\" ++ content.getD "None")
  | .invisible => .put "\\None"
  | _ => .fail .unnamed

mutual

/-- A layout as LaTeX source. -/
def render : Layout → Draft
  | .nothing => .empty
  | .foreign value => .fail (.notAnExpression value)
  | .faulty fault => .fail fault
  | .invisible => .empty
  | .operator glyph => .putOption glyph
  | .name glyph => .putOption glyph
  | .identifier n => name n
  | .number digits => .putOption digits
  | .text content => text content
  | .colorText content => text (some content)
  | .sequence items => .join " " (renders items)
  | .row items => .join " " (renders items)
  | .group e => render e
  | .fence left e right => fence left (render e) right
  | .wrap left e right => fence left (render e) right
  | .matrix left rows right =>
    fence left
      (.put "\\begin\x7bmatrix\x7d " ++ .join " \\\\ " (renderRows rows) ++
        .put " \\end\x7bmatrix\x7d")
      right
  | .sqrt e => .put "\\sqrt" ++ braced (render e)
  | .cancel e => .put "\\cancel" ++ braced (render e)
  | .root base index => .put "\\sqrt[" ++ render index ++ .put "]" ++ braced (render base)
  | .color rgb e =>
    .put ("\\textcolor[RGB]\x7b" ++ toString rgb.r ++ "," ++ toString rgb.g ++ "," ++
      toString rgb.b ++ "\x7d") ++ braced (render e)
  | .fraction numerator denominator =>
    .put "\\frac" ++ braced (render numerator) ++ braced (render denominator)
  | .font style e => .putOption style ++ braced (render e)
  | .operatorCall glyph e => call glyph e (render e)
  | .functionCall n e => call n e (render e)
  | .scripts base sub sup => scripted (render base) sub sup (render sub) (render sup)
  | .limits base below above => scripted (render base) below above (render below) (render above)
  | .accent base mark _ => accentCommand mark ++ braced (render base)
  | .overset base above => .put "\\overset" ++ braced (render above) ++ braced (render base)
  | .underset base below => .put "\\underset" ++ braced (render below) ++ braced (render base)

/-- Several layouts as LaTeX source. -/
def renders : List Layout → List Draft
  | [] => []
  | l :: ls => render l :: renders ls

/-- The rows of a matrix as LaTeX source. -/
def renderRows : List (List Layout) → List Draft
  | [] => []
  | row :: rows => .join " & " (renders row) :: renderRows rows

end

end MathMarkup.Latex
