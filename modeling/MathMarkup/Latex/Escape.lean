/-!
# Text in LaTeX

The characters that LaTeX gives a meaning are written as commands; all others stand for
themselves.
-/

namespace MathMarkup.Latex

/-- A character as text. -/
def escapeChar (c : Char) : List Char :=
  if c ∈ ['&', '%', '$', '#', '_', '\x7b', '\x7d'] then ['\\', c]
  else if c = '~' then "\\textasciitilde\x7b\x7d".toList
  else if c = '^' then "\\textasciicircum\x7b\x7d".toList
  else if c = '\\' then "\\textbackslash\x7b\x7d".toList
  else [c]

/-- A text as LaTeX source. -/
def escape (s : String) : String :=
  String.ofList (s.toList.flatMap escapeChar)

end MathMarkup.Latex
