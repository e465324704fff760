import MathMarkup.Color.Basic
import MathMarkup.Diagnostic
import MathMarkup.KeyedList
import MathMarkup.Text.LowerCase
import MathMarkup.Text.Quoted

/-!
# Color tables

A color table holds colors under names.  Names are compared in lower case.  A registration gives
one color any number of names; all its checks come before its first change, so one that fails
changes nothing.
-/

namespace MathMarkup

/-- What can go wrong when a color is registered. -/
inductive ColorError where
  /-- There was no name. -/
  | unnamed
  /-- A part lies outside the range from 0 to 255. -/
  | outOfRange (part : Int) (name : String)
  deriving DecidableEq

/-- The report of a color error. -/
def ColorError.diagnostic : ColorError → Diagnostic
  | .unnamed => ⟨some "E0201", "At least one color name is required"⟩
  | .outOfRange part name =>
    ⟨some "E0201",
      "Color component " ++ toString part ++ " out of range 0..255 for " ++ Text.quoted name⟩

/-- Colors under names in lower case, in the order in which the names came. -/
structure ColorTable where
  entries : KeyedList RGB

namespace ColorTable

/-- The table without colors. -/
def empty : ColorTable := ⟨[]⟩

/-- The color of a name in any case. -/
def lookup (t : ColorTable) (name : String) : Option RGB :=
  t.entries.value? (Text.lowerCase name)

/-- The table after a color was set under each of the given names. -/
def set (t : ColorTable) (names : List String) (c : RGB) : ColorTable :=
  ⟨names.foldl (fun m name => m.set (Text.lowerCase name) c) t.entries⟩

/-- Registers a color under the given names. -/
def add (t : ColorTable) (names : List String) (c : RGB) : Except ColorError ColorTable :=
  match names with
  | [] => .error .unnamed
  | first :: _ =>
    match [c.r, c.g, c.b].find? fun part => !(0 ≤ part && part ≤ 255) with
    | some part => .error (.outOfRange part first)
    | none => .ok (t.set names c)

/-- The sixteen basic colors. -/
def basic : ColorTable :=
  ⟨[("aqua", ⟨0, 255, 255⟩), ("black", ⟨0, 0, 0⟩), ("blue", ⟨0, 0, 255⟩),
    ("fuchsia", ⟨255, 0, 255⟩), ("gray", ⟨128, 128, 128⟩), ("green", ⟨0, 128, 0⟩),
    ("lime", ⟨0, 255, 0⟩), ("maroon", ⟨128, 0, 0⟩), ("navy", ⟨0, 0, 128⟩),
    ("olive", ⟨128, 128, 0⟩), ("purple", ⟨128, 0, 128⟩), ("red", ⟨255, 0, 0⟩),
    ("silver", ⟨192, 192, 192⟩), ("teal", ⟨0, 128, 128⟩), ("white", ⟨255, 255, 255⟩),
    ("yellow", ⟨255, 255, 0⟩)]⟩

/-- The table after every color of another was set in it. -/
def update (t other : ColorTable) : ColorTable :=
  ⟨other.entries.foldl (fun m p => m.set p.1 p.2) t.entries⟩

end ColorTable

end MathMarkup
