/-!
# Diagnostics

The report of a misuse: a text and, if it has one, the code of the kind of misuse.
-/

namespace MathMarkup

/-- A report with an optional code. -/
structure Diagnostic where
  code : Option String
  text : String

/-- A report in one line: the code in brackets, if there is one, and the text. -/
def Diagnostic.line (d : Diagnostic) : String :=
  match d.code with
  | none => d.text
  | some code => if code = "" then d.text else "[" ++ code ++ "] " ++ d.text

end MathMarkup
