import MathMarkup.Symbol.Table

/-!
# Histories of symbol tables

A symbol table is made by edits.  At any time the table can be taken as it stands; later edits do
not change a table that was taken.

* `SymbolTable.History.apply` applies one edit, and `SymbolTable.History.applyAll` several.  An
  edit that fails leaves what it had done by then.
-/

namespace MathMarkup.SymbolTable

/-- A step in the making of a table. -/
inductive Edit where
  /-- Registers the entry that the arguments describe. -/
  | add (arguments : Arguments) (extra : Metadata)
  /-- Registers every entry of another table. -/
  | update (other : SymbolTable)
  /-- Takes the table as it stands. -/
  | take

/-- A table in the making. -/
structure History where
  policy : Policy
  current : SymbolTable := .empty
  /-- The tables that were taken, in order. -/
  taken : List SymbolTable := []

namespace History

/-- Applies an edit, and says what went wrong. -/
def apply (h : History) : Edit → History × Option TableError
  | .add arguments extra =>
    let (table, error) := h.current.add h.policy arguments extra
    ({ h with current := table }, error)
  | .update other =>
    let (table, error) := h.current.update h.policy other
    ({ h with current := table }, error)
  | .take => ({ h with taken := h.taken ++ [h.current] }, none)

/-- Applies edits in order, whether they fail or not. -/
def applyAll (h : History) (edits : List Edit) : History :=
  edits.foldl (fun h edit => (h.apply edit).1) h

end History

end MathMarkup.SymbolTable
