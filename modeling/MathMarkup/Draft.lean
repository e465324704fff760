import MathMarkup.Value

/-!
# Drafts

What a renderer puts down.  A renderer writes text until it is done or meets a fault; what it has
written by then stays.  A text that is missing can also be put down as a gap: the renderer goes
on, but the draft can no longer be read.

* Drafts are joined by `++`.  Nothing is written after a fault.
* `Draft.read` is the text of a draft without fault and gap.
-/

namespace MathMarkup

/-- Why something cannot be shown. -/
inductive Fault where
  /-- A value that is no expression was to be shown. -/
  | notAnExpression (value : Value)
  /-- There is no text where one has to be written. -/
  | missingText
  /-- A value that is no text was to be written as one. -/
  | notText (value : Value)
  /-- A style or command has no name. -/
  | unnamed
  /-- The format has no form for the construct. -/
  | unsupported
  /-- An attribute has a name that attributes may not have. -/
  | reservedName (name : String)
  deriving DecidableEq

/-- The text of a fault. -/
def Fault.message : Fault → String
  | .notAnExpression value => "Cannot render " ++ value.typeName ++ ": not an AST node"
  | .missingText => "Missing text"
  | .notText value => "Not a text: " ++ value.literal
  | .unnamed => "Missing name"
  | .unsupported => ""
  | .reservedName name => "Reserved name: " ++ name

/-- What was put down. -/
structure Draft where
  text : String
  /-- Whether a missing text was put down. -/
  gap : Bool := false
  /-- The fault that ended the draft. -/
  fault : Option Fault := none

namespace Draft

/-- The draft of nothing. -/
def empty : Draft := ⟨"", false, none⟩

/-- A text put down. -/
def put (s : String) : Draft := ⟨s, false, none⟩

/-- A text that may be missing put down. -/
def putOption : Option String → Draft
  | some s => put s
  | none => ⟨"", true, none⟩

/-- A fault met. -/
def fail (f : Fault) : Draft := ⟨"", false, some f⟩

/-- One draft after another. -/
def append (a b : Draft) : Draft :=
  match a.fault with
  | some _ => a
  | none => ⟨a.text ++ b.text, a.gap || b.gap, b.fault⟩

instance : Append Draft := ⟨append⟩

/-- Drafts in a row with a text between any two. -/
def join (between : String) : List Draft → Draft
  | [] => empty
  | [d] => d
  | d :: ds => d ++ put between ++ join between ds

/-- The text of a draft, unless a missing text was put down. -/
def written (d : Draft) : Except Fault String :=
  if d.gap then .error .missingText else .ok d.text

/-- The text of a draft that was finished. -/
def read (d : Draft) : Except Fault String :=
  match d.fault with
  | some f => .error f
  | none => d.written

/-- The same draft as if it had been finished. -/
def resume (d : Draft) : Draft :=
  { d with fault := none }

end Draft

end MathMarkup
