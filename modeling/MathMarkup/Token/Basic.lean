import MathMarkup.Expr.Basic
import MathMarkup.Symbol.Table

/-!
# Tokens

The pieces of source that the grammar works on.  A token from the spelling table has the role of
its entry, and its id and metadata; a number, a literal text or a lone character has none of these.
The end of the source is no token.
-/

namespace MathMarkup

/-- What a token is. -/
inductive TokenKind where
  /-- A spelling of the table, in its role. -/
  | role (role : Role)
  /-- A literal text. -/
  | text
  | number
  /-- A character without a meaning in the table. -/
  | identifier
  deriving DecidableEq

/-- A piece of source. -/
structure Token where
  kind : TokenKind
  /-- The symbol id of a spelling, or the content of anything else. -/
  value : Option String
  /-- The source of the token. -/
  text : String
  extra : Metadata := []
  deriving DecidableEq

namespace Token

/-- Whether two tokens agree but for their metadata. -/
def agrees (t u : Token) : Bool :=
  t.kind == u.kind && t.value == u.value && t.text == u.text

/-- The token as a symbol of the grammar. -/
def toSymbol (t : Token) : Symbol :=
  ⟨t.value, t.text⟩

/-- The content of a token that is no spelling. -/
def content (t : Token) : String :=
  t.value.getD ""

/-- Whether a token can open a parenthesis. -/
def opens (t : Token) : Bool :=
  t.kind == .role .opening || t.kind == .role .fence

/-- Whether a token can close a parenthesis. -/
def closes (t : Token) : Bool :=
  t.kind == .role .closing || t.kind == .role .fence

/-- Whether a token is the operator with the given id between two operands. -/
def isInfixed (t : Token) (id : String) : Bool :=
  t.kind == .role .infixed && t.value == some id

end Token

end MathMarkup
