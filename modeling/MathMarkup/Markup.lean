import MathMarkup.Draft
import MathMarkup.Text.CharRef

/-!
# Markup trees

Elements with attributes and children, and text.  A tree may hold faults; it is then written up to
the first of them, and the elements around it stay open.

* `Markup.write` is the only place where trees become text, and escapes what it writes.  The names
  of elements, classes and attributes are written as they stand.
-/

namespace MathMarkup

/-- The name of an element and its class, if it has one. -/
structure Tag where
  name : String
  style : Option String := none
  deriving DecidableEq

/-- A piece of markup. -/
inductive Markup where
  | element (tag : Tag) (attributes : KeyedList String) (children : List Markup)
  | text (content : String)
  | fault (fault : Fault)

namespace Tag

/-- The class of an element as its first attribute. -/
def styleSource (t : Tag) : String :=
  match t.style with
  | none => ""
  | some style => " class=\"" ++ style ++ "\""

/-- The end tag of an element. -/
def close (t : Tag) : String :=
  "</" ++ t.name ++ ">"

end Tag

/-- Attributes with their values. -/
def attributeSource : KeyedList String → String
  | [] => ""
  | (key, value) :: attributes =>
    " " ++ key ++ "=\"" ++ Text.escapeAttribute value ++ "\"" ++ attributeSource attributes

/-- The start tag of an element. -/
def Tag.start (t : Tag) (attributes : KeyedList String) : String :=
  "<" ++ t.name ++ t.styleSource ++ attributeSource attributes ++ ">"

namespace Markup

mutual

/-- A piece of markup as text. -/
def write : Markup → Draft
  | .element tag attributes children =>
    .put (tag.start attributes) ++ writeAll children ++ .put tag.close
  | .text content => .put (Text.escapeText content)
  | .fault f => .fail f

/-- Pieces of markup as text. -/
def writeAll : List Markup → Draft
  | [] => .empty
  | m :: ms => m.write ++ writeAll ms

end

/-- An element that holds a text.  Without the text it cannot be finished. -/
def leaf (tag : Tag) (attributes : KeyedList String) (content : Option String) : Markup :=
  match content with
  | some s => .element tag attributes [.text s]
  | none => .element tag attributes [.fault .missingText]

end Markup

end MathMarkup
