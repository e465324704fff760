import MathMarkup.Token.Reader

/-!
# Cursors

A cursor reads the tokens of a source one at a time.  One token can be put back; it is the next
that is read.  The end of the source is read as `none`, as often as one likes, and putting it back
does nothing.
-/

namespace MathMarkup

/-- A place in a source. -/
structure Cursor where
  symbols : SymbolTable
  /-- The source that is still to be read. -/
  rest : List Char
  /-- The token that was put back. -/
  held : Option Token := none

namespace Cursor

/-- The cursor at the start of a source. -/
def start (symbols : SymbolTable) (source : String) : Cursor :=
  ⟨symbols, source.toList, none⟩

/-- Reads one token. -/
def next (c : Cursor) : Except ReadError (Option Token × Cursor) :=
  match c.held with
  | some t => .ok (some t, { c with held := none })
  | none =>
    match Token.next c.symbols c.symbols.window c.rest with
    | .error e => .error e
    | .ok none => .ok (none, { c with rest := [] })
    | .ok (some (t, rest)) => .ok (some t, { c with rest := rest })

/-- Puts a token back. -/
def putBack (c : Cursor) (t : Option Token) : Cursor :=
  match t with
  | none => c
  | some t => { c with held := some t }

/-- Reads all tokens that are left. -/
def drain (c : Cursor) : Except ReadError (List Token × Cursor) :=
  let reading := Token.readAll c.symbols c.symbols.window c.rest
  match reading.error with
  | some e => .error e
  | none => .ok (c.held.toList ++ reading.tokens, { c with rest := [], held := none })

end Cursor

end MathMarkup
