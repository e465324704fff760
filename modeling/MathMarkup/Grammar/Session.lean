import MathMarkup.Grammar.Parse
import MathMarkup.Token.Cursor

/-!
# Reading from a cursor

A source can be read while its tokens are read.  The reader asks a cursor for one token after
another, and a token that it cannot use is put back.  A session is a cursor together with the calls
that were made on it.

* `Session.next` and `Session.Answer.back` read a token and put it back.
* `Session.simple`, `Session.intermediate` and `Session.run` read by the grammar.  Each gives what
  it read and the session after it, and if it read something, there is less source left.
* `Session.parse` reads a source.
-/

namespace MathMarkup

namespace Cursor

/-- A call on a cursor. -/
inductive Call where
  /-- A token was read, or the end of the source. -/
  | next (answer : Option Token)
  /-- A token was put back, or the end of the source. -/
  | putBack (t : Option Token)
  deriving DecidableEq

/-- How much there is left to read.  A token that was put back counts for one character. -/
def size (c : Cursor) : Nat :=
  c.rest.length + c.held.toList.length

/-- Reading a token takes at least one character. -/
theorem size_next {c c' : Cursor} {t : Option Token} (h : c.next = .ok (t, c')) :
    c'.size + t.toList.length ≤ c.size := by
  obtain ⟨symbols, rest, held⟩ := c
  cases held with
  | some u =>
    cases h
    exact Nat.le_refl _
  | none =>
    unfold next at h
    dsimp only at h
    split at h
    · cases h
    · cases h
      exact Nat.zero_le _
    · rename_i u rest' hnext
      cases h
      exact Token.length_next_lt hnext

theorem size_putBack_le (c : Cursor) (t : Option Token) :
    (c.putBack t).size ≤ c.size + t.toList.length := by
  cases t with
  | none => exact Nat.le_refl _
  | some t => exact Nat.add_le_add_right (Nat.le_add_right _ _) 1

end Cursor

/-- A cursor, and the calls that were made on it, the last one first. -/
structure Session where
  cursor : Cursor
  calls : List Cursor.Call := []

namespace Session

open Grammar (Setting leaf)

/-- How much there is left to read. -/
def size (s : Session) : Nat :=
  s.cursor.size

/-- Where reading came to an end without an expression, and why. -/
structure Halt where
  error : ParseError
  session : Session

/-! ## Calls -/

/-- A token that was read in a session, or the end of the source, and the session after it. -/
structure Answer (s : Session) where
  token : Option Token
  session : Session
  le : session.size + token.toList.length ≤ s.size

/-- Reads a token. -/
def next (s : Session) : Except Halt (Answer s) :=
  match h : s.cursor.next with
  | .error e => .error ⟨.read e, s⟩
  | .ok (t, cursor) => .ok ⟨t, ⟨cursor, .next t :: s.calls⟩, Cursor.size_next h⟩

namespace Answer

variable {s : Session}

/-- The session after the token was put back. -/
def back (a : Answer s) : Session :=
  ⟨a.session.cursor.putBack a.token, .putBack a.token :: a.session.calls⟩

theorem size_back_le (a : Answer s) : a.back.size ≤ s.size :=
  Nat.le_trans (a.session.cursor.size_putBack_le a.token) a.le

theorem size_le (a : Answer s) : a.session.size ≤ s.size :=
  Nat.le_trans (Nat.le_add_right _ _) a.le

theorem size_lt (a : Answer s) {t : Token} (h : a.token = some t) : a.session.size < s.size := by
  have hle := a.le
  rw [h] at hle
  exact hle

end Answer

/-- Converts an operand. -/
def convert (s : Session) (colors : ColorTable) (c : Conversion) (e : Expr) : Except Halt Expr :=
  match Setting.convert ⟨colors, none⟩ c e with
  | .ok e => .ok e
  | .error error => .error ⟨error, s⟩

/-! ## Reading by the grammar -/

/-- An expression that was read in a session, and the session after it. -/
structure Step (s : Session) where
  expr : Expr
  session : Session
  le : session.size ≤ s.size
  lt : expr ≠ .empty → session.size < s.size

/-- A run of expressions that was read in a session, and the session after it. -/
structure Run (s : Session) where
  items : List Expr
  session : Session
  le : session.size ≤ s.size

namespace Step

variable {s : Session}

/-- Nothing was read. -/
def nothing (s' : Session) (h : s'.size ≤ s.size) : Step s :=
  ⟨.empty, s', h, fun hne => absurd rfl hne⟩

/-- At least one token was read. -/
def took (expr : Expr) (s' : Session) (h : s'.size < s.size) : Step s :=
  ⟨expr, s', Nat.le_of_lt h, fun _ => h⟩

/-- The same was read, and the session has gone on. -/
def andThen (e : Step s) (s' : Session) (h : s'.size ≤ e.session.size) : Step s :=
  ⟨e.expr, s', Nat.le_trans h e.le, fun hne => Nat.lt_of_le_of_lt h (e.lt hne)⟩

end Step

-- With the same source left, a parenthesis calls a run, a run an intermediate expression and that
-- a simple one; the numbers in the measures are in this order.
mutual

/-- Reads a simple expression.  Inside a parenthesis, a closing delimiter is put back. -/
def simple (colors : ColorTable) (nested : Bool) (s : Session) : Except Halt (Step s) := do
  let a ← s.next
  match h : a.token with
  | none => return .nothing a.session a.size_le
  | some t =>
    have hlt := a.size_lt h
    match t.kind with
    | .role .opening => paren colors t a.session hlt
    | .role .fence => paren colors t a.session hlt
    | .role .closing =>
      if nested then return .nothing a.back a.size_back_le
      else return .took (.symbol t.toSymbol) a.session hlt
    | .role .unary => do
      let e ← simple colors nested a.session
      let operand ← e.session.convert colors t.operand e.expr.unwrap
      return .took (.unary (.symbol t.toSymbol) operand) e.session (Nat.lt_of_le_of_lt e.le hlt)
    | .role .binary => do
      let e ← simple colors nested a.session
      have hmid := Nat.lt_of_le_of_lt e.le hlt
      let f ← simple colors nested e.session
      let first ← f.session.convert colors t.firstOperand e.expr.unwrap
      let second ← f.session.convert colors t.secondOperand f.expr.unwrap
      return .took (.binary (.symbol t.toSymbol) first second) f.session
        (Nat.lt_of_le_of_lt f.le hmid)
    | _ => return .took (leaf t) a.session hlt
termination_by 5 * s.size + 1

/-- Reads a parenthesis after its opening delimiter. -/
def paren (colors : ColorTable) (t : Token) {before : Session} (s : Session)
    (hs : s.size < before.size) : Except Halt (Step before) := do
  let a ← s.next
  match a.token.filter Token.closes with
  | some c =>
    return .took (.paren (.symbol t.toSymbol) .empty (.symbol c.toSymbol) false) a.session
      (Nat.lt_of_le_of_lt a.size_le hs)
  | none => do
    have hback := a.size_back_le
    let r ← run colors true a.back
    have hr := Nat.lt_of_le_of_lt (Nat.le_trans r.le hback) hs
    let b ← r.session.next
    match b.token.filter Token.closes with
    | some d =>
      let e := Expr.paren (.symbol t.toSymbol) (.ofItems r.items) (.symbol d.toSymbol) false
      return .took e.inferMatrix b.session (Nat.lt_of_le_of_lt b.size_le hr)
    | none =>
      return .took (.paren (.symbol t.toSymbol) (.ofItems r.items) .missing false) b.back
        (Nat.lt_of_le_of_lt b.size_back_le hr)
termination_by 5 * s.size + 4

/-- Reads a simple expression and its scripts. -/
def intermediate (colors : ColorTable) (nested : Bool) (s : Session) : Except Halt (Step s) := do
  let e ← simple colors nested s
  let a ← e.session.next
  match h : a.token with
  | none => return e.andThen a.back a.size_back_le
  | some t =>
    have hlt := Nat.lt_of_lt_of_le (a.size_lt h) e.le
    if t.isInfixed "sub" then do
      let sub ← simple colors nested a.session
      have hsub := Nat.lt_of_le_of_lt sub.le hlt
      if sub.expr.isEmpty then
        return .took e.expr sub.session hsub
      else
        let b ← sub.session.next
        if b.token.any (·.isInfixed "sup") then
          have hlt' := Nat.lt_of_le_of_lt b.size_le hsub
          let sup ← simple colors nested b.session
          return .took (.scripts e.expr sub.expr.unwrap sup.expr.unwrap) sup.session
            (Nat.lt_of_le_of_lt sup.le hlt')
        else
          return .took (.scripts e.expr sub.expr.unwrap .empty) b.back
            (Nat.lt_of_le_of_lt b.size_back_le hsub)
    else if t.isInfixed "sup" then do
      let sup ← simple colors nested a.session
      have hsup := Nat.lt_of_le_of_lt sup.le hlt
      if sup.expr.isEmpty then
        return .took e.expr sup.session hsup
      else
        return .took (.scripts e.expr .empty sup.expr.unwrap) sup.session hsup
    else
      return e.andThen a.back a.size_back_le
termination_by 5 * s.size + 2

/-- Reads a run of intermediate expressions, up to the end or to a closing delimiter. -/
def run (colors : ColorTable) (nested : Bool) (s : Session) : Except Halt (Run s) := do
  let e ← intermediate colors nested s
  if he : e.expr = .empty then
    return ⟨[], e.session, e.le⟩
  else do
    have hlt := e.lt he
    let a ← e.session.next
    have hle := Nat.lt_of_le_of_lt a.size_le hlt
    have hback := Nat.lt_of_le_of_lt a.size_back_le hlt
    match a.token with
    | none => return ⟨[e.expr], a.session, Nat.le_of_lt hle⟩
    | some t =>
      if t.isInfixed "frac" then do
        let f ← intermediate colors nested a.session
        have hf := Nat.lt_of_le_of_lt f.le hle
        let item :=
          if f.expr.isEmpty then e.expr
          else .infixed (.symbol t.toSymbol) e.expr.unwrap f.expr.unwrap
        let r ← run colors nested f.session
        return ⟨item :: r.items, r.session, Nat.le_trans r.le (Nat.le_of_lt hf)⟩
      else if t.closes && nested then
        return ⟨[e.expr], a.back, Nat.le_of_lt hback⟩
      else do
        let r ← run colors nested a.back
        return ⟨e.expr :: r.items, r.session, Nat.le_trans r.le (Nat.le_of_lt hback)⟩
termination_by 5 * s.size + 3

end

/-- Reads a source.  Gives the session that has come of it, whether there is an expression or
not. -/
def parse (symbols : SymbolTable) (colors : ColorTable) (source : String) :
    Session × Except ParseError Expr :=
  match run colors false ⟨Cursor.start symbols source, []⟩ with
  | .ok r => (r.session, .ok (.ofItems r.items))
  | .error h => (h.session, .error h.error)

end Session

end MathMarkup
