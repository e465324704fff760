import MathMarkup.Color.Table

/-!
# Histories of color tables

A color table is made by edits.  At any time the table can be taken as it stands; later edits do
not change a table that was taken.

* `ColorTable.History.apply` applies one edit, and `ColorTable.History.applyAll` several.  An edit
  that fails changes nothing.
-/

namespace MathMarkup.ColorTable

/-- A step in the making of a color table. -/
inductive Edit where
  /-- Registers a color under the given names. -/
  | add (names : List String) (rgb : RGB)
  /-- Sets every color of another table. -/
  | update (other : ColorTable)
  /-- Takes the table as it stands. -/
  | take

/-- A color table in the making. -/
structure History where
  current : ColorTable := .empty
  /-- The tables that were taken, in order. -/
  taken : List ColorTable := []

namespace History

/-- Applies an edit, and says what went wrong. -/
def apply (h : History) : Edit → History × Option ColorError
  | .add names rgb =>
    match h.current.add names rgb with
    | .ok table => ({ h with current := table }, none)
    | .error e => (h, some e)
  | .update other => ({ h with current := h.current.update other }, none)
  | .take => ({ h with taken := h.taken ++ [h.current] }, none)

/-- Applies edits in order, whether they fail or not. -/
def applyAll (h : History) (edits : List Edit) : History :=
  edits.foldl (fun h edit => (h.apply edit).1) h

end History

end MathMarkup.ColorTable
