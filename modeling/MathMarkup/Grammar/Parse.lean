import MathMarkup.Grammar.Matrix
import MathMarkup.Grammar.Operand
import MathMarkup.Token.Reader

/-!
# The grammar

Tokens are read from the left without precedence.  A simple expression is a leaf, an operator with
its operands, or a parenthesis; an intermediate one is a simple one with scripts; and an
expression is a run of intermediate ones, in which a fraction bar joins its two neighbours.

    expression   := intermediate ( "/" intermediate )*
    intermediate := simple ( "_" simple ( "^" simple )? | "^" simple )?
    simple       := paren | unary simple | binary simple simple | leaf
    paren        := opening ( closing | expression closing? )

Every source can be read: an operand that is not there is empty, a parenthesis that is not closed
has no right delimiter, and a closing delimiter outside of parentheses is a symbol.  Reading fails
only on entries of the tables that have no meaning for the grammar.

* `Grammar.simple`, `Grammar.intermediate` and `Grammar.run` read from a list of tokens.  Each
  gives what it read and the tokens that are left, and if it read something, some token is gone.
* `Expr.parse` reads a source.
-/

namespace MathMarkup

/-- Why a source has no expression. -/
inductive ParseError where
  /-- A token cannot be read. -/
  | read (e : ReadError)
  /-- An operator asks for a conversion that does not exist. -/
  | unknownConversion (asked : Value)
  deriving DecidableEq

/-- The text of a parse error. -/
def ParseError.message : ParseError → String
  | .read (.noRole spelling) => "No role for " ++ Text.quoted spelling
  | .unknownConversion asked => "Unknown operand conversion: " ++ asked.literal

namespace Grammar

/-- What the grammar needs besides tokens. -/
structure Setting where
  colors : ColorTable
  /-- The error that is met where the tokens end. -/
  stop : Option ReadError

/-- Reads on where the tokens have ended. -/
def Setting.atEnd (s : Setting) : Except ParseError Unit :=
  match s.stop with
  | none => .ok ()
  | some e => .error (.read e)

/-- Converts an operand. -/
def Setting.convert (s : Setting) : Conversion → Expr → Except ParseError Expr
  | .keep, e => .ok e
  | .color, e => .ok (.color (s.colors.ofText e.colorText) e.colorText)
  | .unknown asked, _ => .error (.unknownConversion asked)

/-- An expression that was read from tokens, and the tokens that are left. -/
structure Step (ts : List Token) where
  expr : Expr
  rest : List Token
  le : rest.length ≤ ts.length
  lt : expr ≠ .empty → rest.length < ts.length

namespace Step

variable {ts : List Token}

/-- Nothing was read. -/
def nothing : Step ts :=
  ⟨.empty, ts, Nat.le_refl _, fun h => absurd rfl h⟩

/-- At least one token was read. -/
def took (expr : Expr) (rest : List Token) (h : rest.length < ts.length) : Step ts :=
  ⟨expr, rest, Nat.le_of_lt h, fun _ => h⟩

end Step

/-- A run of expressions that was read from tokens, and the tokens that are left. -/
structure Run (ts : List Token) where
  items : List Expr
  rest : List Token
  le : rest.length ≤ ts.length

/-- The leaf that a token stands for. -/
def leaf (t : Token) : Expr :=
  match t.kind with
  | .number => .number t.content
  | .text => .text t.content
  | .identifier => .identifier t.content
  | .role _ => .symbol t.toSymbol

mutual

/-- Reads a simple expression.  Inside a parenthesis, a closing delimiter is left alone. -/
def simple (s : Setting) (nested : Bool) (ts : List Token) : Except ParseError (Step ts) :=
  match ts with
  | [] => do
    s.atEnd
    return .nothing
  | t :: rest =>
    match t.kind with
    | .role .opening => paren s t rest
    | .role .fence => paren s t rest
    | .role .closing =>
      if nested then .ok .nothing else .ok (.took (.symbol t.toSymbol) rest (by simp))
    | .role .unary => do
      let e ← simple s nested rest
      let operand ← s.convert t.operand e.expr.unwrap
      return .took (.unary (.symbol t.toSymbol) operand) e.rest
        (by have := e.le; simp only [List.length_cons]; omega)
    | .role .binary => do
      let e ← simple s nested rest
      have := e.le
      let f ← simple s nested e.rest
      let first ← s.convert t.firstOperand e.expr.unwrap
      let second ← s.convert t.secondOperand f.expr.unwrap
      return .took (.binary (.symbol t.toSymbol) first second) f.rest
        (by have := f.le; simp only [List.length_cons]; omega)
    | _ => .ok (.took (leaf t) rest (by simp))
termination_by (ts.length, 1)

/-- Reads a parenthesis after its opening delimiter. -/
def paren (s : Setting) (t : Token) (ts : List Token) : Except ParseError (Step (t :: ts)) :=
  match ts with
  | [] => do
    s.atEnd
    return .took (.paren (.symbol t.toSymbol) .empty .missing false) [] (by simp)
  | c :: rest =>
    if c.closes then
      .ok (.took (.paren (.symbol t.toSymbol) .empty (.symbol c.toSymbol) false) rest
        (by simp only [List.length_cons]; omega))
    else do
      let r ← run s true (c :: rest)
      match h : r.rest with
      | [] => do
        s.atEnd
        return .took (.paren (.symbol t.toSymbol) (.ofItems r.items) .missing false) [] (by simp)
      | d :: after =>
        have hle := r.le
        if d.closes then
          let e := Expr.paren (.symbol t.toSymbol) (.ofItems r.items) (.symbol d.toSymbol) false
          return .took e.inferMatrix after
            (by rw [h] at hle; simp only [List.length_cons] at hle ⊢; omega)
        else
          return .took (.paren (.symbol t.toSymbol) (.ofItems r.items) .missing false)
            (d :: after) (by rw [h] at hle; simp only [List.length_cons] at hle ⊢; omega)
termination_by (ts.length, 4)

/-- Reads a simple expression and its scripts. -/
def intermediate (s : Setting) (nested : Bool) (ts : List Token) :
    Except ParseError (Step ts) := do
  let e ← simple s nested ts
  have hle := e.le
  match h : e.rest with
  | [] => do
    s.atEnd
    return e
  | t :: rest =>
    have hlt : rest.length < ts.length := by
      rw [h] at hle
      simp only [List.length_cons] at hle
      omega
    if t.isInfixed "sub" then do
      let sub ← simple s nested rest
      have hsub := sub.le
      if sub.expr.isEmpty then
        return .took e.expr sub.rest (by omega)
      else
        match h' : sub.rest with
        | [] => do
          s.atEnd
          return .took (.scripts e.expr sub.expr.unwrap .empty) [] (by simp; omega)
        | u :: after =>
          have hlt' : after.length < ts.length := by
            rw [h'] at hsub
            simp only [List.length_cons] at hsub
            omega
          if u.isInfixed "sup" then do
            let sup ← simple s nested after
            return .took (.scripts e.expr sub.expr.unwrap sup.expr.unwrap) sup.rest
              (by have := sup.le; omega)
          else
            return .took (.scripts e.expr sub.expr.unwrap .empty) (u :: after)
              (by rw [h'] at hsub; omega)
    else if t.isInfixed "sup" then do
      let sup ← simple s nested rest
      have hsup := sup.le
      if sup.expr.isEmpty then
        return .took e.expr sup.rest (by omega)
      else
        return .took (.scripts e.expr .empty sup.expr.unwrap) sup.rest (by omega)
    else
      return e
termination_by (ts.length, 2)

/-- Reads a run of intermediate expressions, up to the end or to a closing delimiter. -/
def run (s : Setting) (nested : Bool) (ts : List Token) : Except ParseError (Run ts) := do
  let e ← intermediate s nested ts
  if he : e.expr = .empty then
    return ⟨[], e.rest, e.le⟩
  else
    have hlt := e.lt he
    match h : e.rest with
    | [] => do
      s.atEnd
      return ⟨[e.expr], [], by simp⟩
    | t :: rest =>
      have hrest : rest.length + 1 < ts.length := by
        rw [h] at hlt
        simpa using hlt
      if t.isInfixed "frac" then do
        let f ← intermediate s nested rest
        have hf := f.le
        let item :=
          if f.expr.isEmpty then e.expr
          else .infixed (.symbol t.toSymbol) e.expr.unwrap f.expr.unwrap
        let r ← run s nested f.rest
        return ⟨item :: r.items, r.rest, by have := r.le; omega⟩
      else if t.closes && nested then
        return ⟨[e.expr], t :: rest, by simp only [List.length_cons]; omega⟩
      else do
        let r ← run s nested (t :: rest)
        return ⟨e.expr :: r.items, r.rest, by
          have := r.le; simp only [List.length_cons] at this; omega⟩
termination_by (ts.length, 3)

end

end Grammar

/-- The expression of the tokens that were read from a source. -/
def Expr.ofReading (colors : ColorTable) (reading : Token.Reading) : Except ParseError Expr := do
  let r ← Grammar.run ⟨colors, reading.error⟩ false reading.tokens
  return .ofItems r.items

/-- The expression of a source. -/
def Expr.parse (symbols : SymbolTable) (colors : ColorTable) (source : String) :
    Except ParseError Expr :=
  Expr.ofReading colors (symbols.read source)

end MathMarkup
