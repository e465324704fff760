import MathMarkup.Proofs.Regrouping

/-!
# Which delimiters belong together

Delimiters can be paired without any grammar: read the tokens from the left with a stack, push an
opening delimiter, and let a closing one take the last of the stack, whatever the two look like.
`Nest.scan` does this.  It gives the tokens as a forest of nests: a closing delimiter that finds the
stack empty is a stray, and an opening one that is left at the end is unclosed.

An expression has nests of its own (`Expr.nests`): its parentheses, groups and matrices, and the
rows of its matrices.  The grammar pairs delimiters as the scan does, if no token can both open and
close and no operand is hidden in a color: `delimiters_paired`.  The nests of the expression are
those of the scan level by level, but for an operator that nothing follows, which may be missing at
the end of a level (`Nest.Level`).

The proof goes along the rules of the grammar, with one lemma for each rule
(`Grammar.Derives.paired`).  What is read from some tokens is what the scan adds to its level when
it gets past them, with any stack below (`Nest.Adds`).
-/

namespace MathMarkup

/-- Tokens with their delimiters paired. -/
inductive Nest where
  /-- A token that is no delimiter. -/
  | token (t : Token)
  /-- A closing delimiter that nothing opens. -/
  | stray (t : Token)
  | pair (left : Token) (body : List Nest) (right : Token)
  /-- An opening delimiter that nothing closes, and all that comes after it. -/
  | unclosed (left : Token) (body : List Nest)
  /-- A row of a matrix, which does not keep its delimiters. -/
  | row (body : List Nest)

namespace Nest

/-! ## The scan -/

/-- The opening delimiters that are not closed yet, the last one first, each with what came before
it on its level. -/
abbrev Stack := List (Token × List Nest)

/-- Ends every level that is still open. -/
def unwind : Stack → List Nest → List Nest
  | [], level => level
  | (left, outer) :: stack, level => unwind stack (outer ++ [.unclosed left level])

/-- Pairs the delimiters of tokens.  The level has what was found since the last delimiter of the
stack. -/
def scan (stack : Stack) (level : List Nest) : List Token → List Nest
  | [] => unwind stack level
  | t :: ts =>
    match t.kind with
    | .role .opening => scan ((t, level) :: stack) [] ts
    | .role .closing =>
      match stack with
      | [] => scan [] (level ++ [.stray t]) ts
      | (left, outer) :: stack => scan stack (outer ++ [.pair left level t]) ts
    | _ => scan stack (level ++ [.token t]) ts

mutual

/-- The tokens of a nest. -/
def tokens : Nest → List Token
  | .token t => [t]
  | .stray t => [t]
  | .pair left body right => left :: allTokens body ++ [right]
  | .unclosed left body => left :: allTokens body
  | .row body => allTokens body

/-- The tokens of several nests. -/
def allTokens : List Nest → List Token
  | [] => []
  | n :: ns => n.tokens ++ allTokens ns

end

theorem allTokens_append (ns ms : List Nest) :
    allTokens (ns ++ ms) = allTokens ns ++ allTokens ms := by
  induction ns with
  | nil => rfl
  | cons n ns ih => rw [List.cons_append, allTokens, allTokens, ih, List.append_assoc]

theorem allTokens_concat (ns : List Nest) (n : Nest) :
    allTokens (ns ++ [n]) = allTokens ns ++ n.tokens := by
  rw [allTokens_append, allTokens, allTokens, List.append_nil]

/-- The tokens of the levels below. -/
def stackTokens : Stack → List Token
  | [] => []
  | (left, outer) :: stack => stackTokens stack ++ allTokens outer ++ [left]

theorem allTokens_unwind (stack : Stack) (level : List Nest) :
    allTokens (unwind stack level) = stackTokens stack ++ allTokens level := by
  induction stack generalizing level with
  | nil => rfl
  | cons frame stack ih =>
    obtain ⟨left, outer⟩ := frame
    rw [unwind, ih, allTokens_concat, stackTokens, tokens]
    simp only [List.append_assoc, List.cons_append, List.nil_append]

/-- The scan keeps every token in its place. -/
theorem allTokens_scan (stack : Stack) (level : List Nest) (ts : List Token) :
    allTokens (scan stack level ts) = stackTokens stack ++ allTokens level ++ ts := by
  fun_induction scan stack level ts with
  | case1 stack level => rw [allTokens_unwind, List.append_nil]
  | case2 stack level t ts hkind ih =>
    rw [ih, stackTokens, allTokens]
    simp only [List.append_assoc, List.cons_append, List.nil_append]
  | case3 level t ts hkind ih =>
    rw [ih, allTokens_concat, tokens]
    simp only [List.append_assoc, List.cons_append, List.nil_append]
  | case4 level t ts hkind left outer stack ih =>
    rw [ih, allTokens_concat, stackTokens, tokens]
    simp only [List.append_assoc, List.cons_append, List.nil_append]
  | case5 stack level t ts _ _ ih =>
    rw [ih, allTokens_concat, tokens]
    simp only [List.append_assoc, List.cons_append, List.nil_append]

example : scan [] [] [.leftRound, .rightSquare, .rightRound, .leftSquare, .comma] =
    [.pair .leftRound [] .rightSquare, .stray .rightRound, .unclosed .leftSquare [.token .comma]] :=
  rfl

/-! ## Getting past tokens -/

/-- Past the tokens up to the rest, the scan has the given nests more on its level.  Its stack is
empty exactly outside of parentheses. -/
def Adds (nested : Bool) (ts : List Token) (ns : List Nest) (rest : List Token) : Prop :=
  ∀ (stack : Stack) (level : List Nest), stack.isEmpty = !nested →
    scan stack level ts = scan stack (level ++ ns) rest

namespace Adds

variable {nested : Bool} {t d : Token} {ts mid rest : List Token} {ns ms : List Nest}

theorem refl (nested : Bool) (ts : List Token) : Adds nested ts [] ts := by
  intro stack level _
  rw [List.append_nil]

theorem append (h : Adds nested ts ns mid) (h' : Adds nested mid ms rest) :
    Adds nested ts (ns ++ ms) rest := by
  intro stack level hstack
  rw [h stack level hstack, h' stack (level ++ ns) hstack, List.append_assoc]

theorem token (hopening : t.kind ≠ .role .opening) (hclosing : t.kind ≠ .role .closing)
    (h : Adds nested ts ns rest) : Adds nested (t :: ts) (.token t :: ns) rest := by
  have hone : Adds nested (t :: ts) [.token t] ts := by
    intro stack level _
    conv => lhs; unfold scan
    split
    · contradiction
    · contradiction
    · rfl
  exact hone.append h

theorem infixed {id : String} (ht : t.isInfixed id = true) (h : Adds nested ts ns rest) :
    Adds nested (t :: ts) (.token t :: ns) rest := by
  have hkind := Token.kind_of_isInfixed ht
  exact token (by simp [hkind]) (by simp [hkind]) h

theorem stray (ht : t.kind = .role .closing) : Adds false (t :: ts) [.stray t] ts := by
  intro stack level hstack
  obtain rfl : stack = [] := List.isEmpty_iff.mp hstack
  simp only [scan, ht]

/-- The body of a parenthesis is scanned on a level of its own. -/
theorem pair (ht : t.kind = .role .opening) (h : Adds true ts ns (d :: rest))
    (hd : d.kind = .role .closing) : Adds nested (t :: ts) [.pair t ns d] rest := by
  intro stack level _
  have hbody := h ((t, level) :: stack) [] rfl
  simp only [scan, ht, hd, List.nil_append] at hbody ⊢
  exact hbody

theorem unclosed (ht : t.kind = .role .opening) (h : Adds true ts ns []) :
    Adds nested (t :: ts) [.unclosed t ns] [] := by
  intro stack level _
  have hbody := h ((t, level) :: stack) [] rfl
  simp only [scan, ht, unwind, List.nil_append] at hbody ⊢
  exact hbody

end Adds

end Nest

/-! ## The nests of an expression -/

/-- The nest of an operator. -/
def Operator.nest : Operator → Nest
  | .symbol s => .token s.token
  | .identifier name => .token ⟨.identifier, some name, name, []⟩

namespace Expr

mutual

/-- The nests of an expression. -/
@[simp] def nests : Expr → List Nest
  | .empty => []
  | .symbol s => if s.token.isClosing then [.stray s.token] else [.token s.token]
  | .identifier name => [.token ⟨.identifier, some name, name, []⟩]
  | .number digits => [.token ⟨.number, some digits, digits, []⟩]
  | .text content => [.token ⟨.text, some content, "\"" ++ content ++ "\"", []⟩]
  | .color _ _ => []
  | .sequence items => itemNests items
  | .paren (.symbol l) body (.symbol r) _ => [.pair l.token body.nests r.token]
  | .paren (.symbol l) body .missing _ => [.unclosed l.token body.nests]
  | .paren _ body _ _ => body.nests
  | .group (.symbol l) body (.symbol r) => [.pair l.token body.nests r.token]
  | .group (.symbol l) body .missing => [.unclosed l.token body.nests]
  | .group _ body _ => body.nests
  | .scripts base sub sup =>
    base.nests ++ (if sub.isEmpty then [] else .token .sub :: sub.nests) ++
      (if sup.isEmpty then [] else .token .sup :: sup.nests)
  | .unary operator operand => operator.nest :: operand.nests
  | .binary operator first second => operator.nest :: (first.nests ++ second.nests)
  | .infixed operator first second => first.nests ++ operator.nest :: second.nests
  | .matrix (.symbol l) rows (.symbol r) =>
    [.pair l.token ([.token .comma].intercalate (rowNests rows)) r.token]
  | .matrix _ rows _ => [.token .comma].intercalate (rowNests rows)
  | .foreign _ => []

/-- The nests of several expressions. -/
@[simp] def itemNests : List Expr → List Nest
  | [] => []
  | e :: es => e.nests ++ itemNests es

/-- The nests of each cell of a row. -/
@[simp] def cellNests : List Expr → List (List Nest)
  | [] => []
  | e :: es => e.nests :: cellNests es

/-- The nests of each row of a matrix. -/
@[simp] def rowNests : List (List Expr) → List (List Nest)
  | [] => []
  | row :: rows => [.row ([.token .comma].intercalate (cellNests row))] :: rowNests rows

end

theorem itemNests_eq_flatMap (es : List Expr) : itemNests es = es.flatMap nests := by
  induction es with
  | nil => rfl
  | cons e es ih => rw [itemNests, ih, List.flatMap_cons]

theorem cellNests_eq_map (es : List Expr) : cellNests es = es.map nests := by
  induction es with
  | nil => rfl
  | cons e es ih => rw [cellNests, ih, List.map_cons]

theorem nests_ofItems (es : List Expr) : (ofItems es).nests = itemNests es := by
  match es with
  | [] => rfl
  | [e] => exact (List.append_nil e.nests).symm
  | e :: f :: es => rfl

theorem itemNests_items (e : Expr) : itemNests e.items = e.nests := by
  cases e with
  | empty => rfl
  | sequence items => rfl
  | _ => exact List.append_nil _

/-- Hiding delimiters does not change what they enclose. -/
theorem nests_unwrap (e : Expr) : e.unwrap.nests = e.nests := by
  unfold unwrap
  split
  · rename_i left body right
    cases left <;> cases right <;> rfl
  · rfl

/-- The cells of a row with commas between them are its body. -/
theorem intercalate_cellNests (body : Expr) :
    [.token .comma].intercalate (cellNests (cells body)) = body.nests := by
  rw [cellNests_eq_map, ← itemNests_items, itemNests_eq_flatMap]
  refine intercalate_map_cells rfl (fun es => ?_) body
  rw [nests_ofItems, itemNests_eq_flatMap]

theorem intercalate_rowNests_one (body : Expr) :
    [.token .comma].intercalate (rowNests [cells body]) = [.row body.nests] := by
  rw [rowNests, rowNests, List.intercalate_singleton, intercalate_cellNests]

theorem intercalate_rowNests_more {left right : String} {items bodies : List Expr}
    (h : Rows left right items bodies) (body : Expr) :
    [.token .comma].intercalate (rowNests ((body :: bodies).map cells)) =
      .row body.nests ::
        .token .comma :: [.token .comma].intercalate (rowNests (bodies.map cells)) := by
  obtain ⟨first, others, rfl⟩ : ∃ first others, bodies = first :: others := by
    cases h <;> exact ⟨_, _, rfl⟩
  rw [List.map_cons, rowNests, intercalate_cellNests]
  exact List.intercalate_cons_cons

/-- A row is a pair. -/
theorem exists_nests_of_bodyBetween? {left right : String} {row body : Expr}
    (h : bodyBetween? left right row = some body) :
    ∃ l r : Token, row.nests = [.pair l body.nests r] ∧ l.value = some left ∧
      r.value = some right := by
  obtain ⟨l, r, keep, rfl, hl, hr⟩ := bodyBetween?_eq_some h
  exact ⟨l.token, r.token, rfl, l.token_value.trans hl, r.token_value.trans hr⟩

end Expr

/-! ## The same nests -/

namespace Nest

mutual

/-- A nest of tokens, and the nest of an expression that shows it.  A row of a matrix shows a pair
of round or of square delimiters. -/
inductive Shows : Nest → Nest → Prop where
  | token {t u : Token} (h : t.Same u) : Shows (.token t) (.token u)
  | stray (t : Token) : Shows (.stray t) (.stray t)
  | pair (left right : Token) {ns ms : List Nest} (h : Level ns ms) :
      Shows (.pair left ns right) (.pair left ms right)
  | unclosed (left : Token) {ns ms : List Nest} (h : Level ns ms) :
      Shows (.unclosed left ns) (.unclosed left ms)
  | row {left right : Token} {l r : String} {ns ms : List Nest} (hids : Expr.RowIds l r)
      (hleft : left.value = some l) (hright : right.value = some r) (h : Level ns ms) :
      Shows (.pair left ns right) (.row ms)

/-- The nests of a level, and those that show them.  An operator between operands may be missing at
the end. -/
inductive Level : List Nest → List Nest → Prop where
  | nil : Level [] []
  | dropped {t : Token} (ht : t.kind = .role .infixed) : Level [.token t] []
  | cons {n m : Nest} {ns ms : List Nest} (h : Shows n m) (hs : Level ns ms) :
      Level (n :: ns) (m :: ms)

end

theorem Level.append {ns ns' ms ms' : List Nest} (h : List.Forall₂ Shows ns ms)
    (h' : Level ns' ms') : Level (ns ++ ns') (ms ++ ms') := by
  induction h with
  | nil => exact h'
  | cons hshows _ ih => exact .cons hshows ih

theorem Level.of_forall₂ {ns ms : List Nest} (h : List.Forall₂ Shows ns ms) : Level ns ms := by
  have hlevel := Level.append h .nil
  rwa [List.append_nil, List.append_nil] at hlevel

/-- Rows that show a level as parentheses show it as a matrix. -/
theorem Level.rows {left right : String} (hids : Expr.RowIds left right) {items bodies : List Expr}
    (h : Expr.Rows left right items bodies) {ns : List Nest}
    (hlevel : Level ns (Expr.itemNests items)) :
    Level ns ([.token .comma].intercalate (Expr.rowNests (bodies.map Expr.cells))) := by
  induction h generalizing ns with
  | @one row body hbody =>
    obtain ⟨l, r, hnests, hl, hr⟩ := Expr.exists_nests_of_bodyBetween? hbody
    rw [Expr.itemNests, Expr.itemNests, hnests] at hlevel
    rw [List.map_singleton, Expr.intercalate_rowNests_one]
    cases hlevel with
    | cons hshows hend =>
      cases hshows with
      | pair _ _ hinner => exact .cons (.row hids hl hr hinner) hend
  | @more row body items bodies hbody hrows ih =>
    obtain ⟨l, r, hnests, hl, hr⟩ := Expr.exists_nests_of_bodyBetween? hbody
    rw [Expr.itemNests, Expr.itemNests, hnests] at hlevel
    rw [Expr.intercalate_rowNests_more hrows]
    cases hlevel with
    | cons hshows hnext =>
      cases hshows with
      | pair _ _ hinner =>
        cases hnext with
        | cons hcomma hitems => exact .cons (.row hids hl hr hinner) (.cons hcomma (ih hitems))

end Nest

/-! ## The grammar pairs delimiters as the scan does -/

/-- A token that does not both open and close, and that hides no operand in a color. -/
structure Token.Definite (t : Token) : Prop where
  standard : t.Standard
  notFence : t.kind ≠ .role .fence
  firstOperand : t.firstOperand = .keep

namespace Token.Definite

variable {t : Token}

theorem opening (h : t.Definite) (ht : t.opens = true) : t.kind = .role .opening := by
  simp only [opens, Bool.or_eq_true, beq_iff_eq] at ht
  exact ht.resolve_right h.notFence

theorem closing (h : t.Definite) (ht : t.closes = true) : t.kind = .role .closing := by
  simp only [closes, Bool.or_eq_true, beq_iff_eq] at ht
  exact ht.resolve_right h.notFence

end Token.Definite

namespace Grammar

open Nest MathMarkup.Expr

/-- The scan adds the nests of what is read.  An operator that is dropped comes last on its level,
so nothing can be read after it. -/
def Judgment.Paired : Judgment → Prop
  | .simple nested ts e rest => ∃ ns, Adds nested ts ns rest ∧ List.Forall₂ Shows ns e.nests
  | .intermediate nested ts e rest => ∃ ns, Adds nested ts ns rest ∧
    (List.Forall₂ Shows ns e.nests ∨ Stops nested rest ∧ Level ns e.nests)
  | .run nested ts items rest => ∃ ns, Adds nested ts ns rest ∧ Level ns (itemNests items)

section

variable {nested : Bool} {t d u : Token} {ts mid mid' rest : List Token} {e f g : Expr}
  {items : List Expr} {ns ms : List Nest}

theorem shows_leaf (ht : t.Standard) (hleaf : t.isLeaf = true) :
    List.Forall₂ Shows [.token t] (leaf t).nests := by
  have single {u : Token} (h : t.Same u) : List.Forall₂ Shows [.token t] [.token u] :=
    .cons (.token h) .nil
  unfold leaf
  split
  · rename_i hkind
    exact single (.inl (ht.number hkind))
  · rename_i hkind
    exact single (.inr ⟨hkind, rfl, ht.text hkind⟩)
  · rename_i hkind
    exact single (.inl (ht.identifier hkind))
  · rename_i role hkind
    have hclosing : t.isClosing = false := by
      cases role <;> simp_all [Token.isLeaf, Token.isClosing]
    rw [nests, ht.token_toSymbol hkind, hclosing]
    exact single (.inl rfl)

/-- A script after its operator. -/
theorem shows_script {u : Token} (hne : f ≠ .empty) (h : List.Forall₂ Shows ns f.nests) :
    List.Forall₂ Shows (.token u :: ns)
      (if f.unwrap.isEmpty then [] else .token u :: f.unwrap.nests) := by
  rw [isEmpty_eq_false (unwrap_ne_empty hne), nests_unwrap]
  exact .cons (.token (.inl rfl)) h

theorem level_of_paired
    (h : List.Forall₂ Shows ns e.nests ∨ Stops nested rest ∧ Level ns e.nests) :
    Level ns e.nests :=
  h.elim Level.of_forall₂ And.right

theorem paired_inferMatrix (left right : Symbol) (h : Level ns (itemNests items)) :
    List.Forall₂ Shows [.pair left.token ns right.token]
      (Expr.paren (.symbol left) (ofItems items) (.symbol right) false).inferMatrix.nests := by
  rcases inferMatrix_paren (.symbol left) (.symbol right) (ofItems items) false with
    hsame | ⟨es, rows, hseq, hrows, hmatrix⟩
  · rw [hsame, nests, nests_ofItems]
    exact .cons (.pair _ _ h) .nil
  · have hitems : itemNests items = itemNests es := by
      rw [← nests_ofItems, hseq, nests]
    rw [hitems] at h
    obtain ⟨bodies, hround | hsquare, rfl, -⟩ := rows_of_matrixRows? hrows
    · rw [hmatrix, nests]
      exact .cons (.pair _ _ (h.rows (.inl ⟨rfl, rfl⟩) hround)) .nil
    · rw [hmatrix, nests]
      exact .cons (.pair _ _ (h.rows (.inr ⟨rfl, rfl⟩) hsquare)) .nil

/-! ### A lemma for each rule

What a rule reads is paired when what it is put together from is. -/

theorem paired_stray (hdef : t.Definite) (ht : t.isClosing = true) :
    Judgment.Paired (.simple false (t :: ts) (.symbol t.toSymbol) ts) := by
  refine ⟨[.stray t], .stray (hdef.closing (Token.closes_of_isClosing ht)), ?_⟩
  rw [nests, hdef.standard.token_toSymbol_of_closes (Token.closes_of_isClosing ht), if_pos ht]
  exact .cons (.stray t) .nil

theorem paired_leaf (ht : t.Standard) (hleaf : t.isLeaf = true) :
    Judgment.Paired (.simple nested (t :: ts) (leaf t) ts) := by
  refine ⟨[.token t], .token ?_ ?_ (.refl _ _), shows_leaf ht hleaf⟩
  · intro hkind
    simp [Token.isLeaf, hkind] at hleaf
  · intro hkind
    simp [Token.isLeaf, hkind] at hleaf

theorem paired_unary (hstandard : t.Standard) (ht : t.kind = .role .unary)
    (he : Judgment.Paired (.simple nested ts e rest)) :
    Judgment.Paired (.simple nested (t :: ts) (.unary (.symbol t.toSymbol) e.unwrap) rest) := by
  obtain ⟨ns, hadds, hshows⟩ := he
  refine ⟨.token t :: ns, .token (by simp [ht]) (by simp [ht]) hadds, ?_⟩
  rw [nests, nests_unwrap, Operator.nest, hstandard.token_toSymbol ht]
  exact .cons (.token (.inl rfl)) hshows

theorem paired_binary (hstandard : t.Standard) (ht : t.kind = .role .binary)
    (he : Judgment.Paired (.simple nested ts e mid))
    (hf : Judgment.Paired (.simple nested mid f rest)) :
    Judgment.Paired
      (.simple nested (t :: ts) (.binary (.symbol t.toSymbol) e.unwrap f.unwrap) rest) := by
  obtain ⟨ns, hadds, hshows⟩ := he
  obtain ⟨ms, hadds', hshows'⟩ := hf
  refine ⟨.token t :: (ns ++ ms), .token (by simp [ht]) (by simp [ht]) (hadds.append hadds'), ?_⟩
  rw [nests, nests_unwrap, nests_unwrap, Operator.nest, hstandard.token_toSymbol ht]
  exact .cons (.token (.inl rfl)) (List.rel_append hshows hshows')

theorem paired_void (hdef : t.Definite) (hdef' : d.Definite) (ht : t.opens = true)
    (hd : d.closes = true) :
    Judgment.Paired (.simple nested (t :: d :: ts)
      (.paren (.symbol t.toSymbol) .empty (.symbol d.toSymbol) false) ts) := by
  refine ⟨[.pair t [] d], .pair (hdef.opening ht) (.refl _ _) (hdef'.closing hd), ?_⟩
  rw [nests, hdef.standard.token_toSymbol_of_opens ht, hdef'.standard.token_toSymbol_of_closes hd]
  exact .cons (.pair t d .nil) .nil

theorem paired_paren (hdef : t.Definite) (hdef' : d.Definite) (ht : t.opens = true)
    (hr : Judgment.Paired (.run true ts items (d :: rest))) (hd : d.closes = true) :
    Judgment.Paired (.simple nested (t :: ts)
      (Expr.paren (.symbol t.toSymbol) (.ofItems items) (.symbol d.toSymbol) false).inferMatrix
      rest) := by
  obtain ⟨ns, hadds, hlevel⟩ := hr
  refine ⟨[.pair t ns d], .pair (hdef.opening ht) hadds (hdef'.closing hd), ?_⟩
  have hshows := paired_inferMatrix t.toSymbol d.toSymbol hlevel
  rwa [hdef.standard.token_toSymbol_of_opens ht,
    hdef'.standard.token_toSymbol_of_closes hd] at hshows

theorem paired_unclosed (hdef : t.Definite) (ht : t.opens = true)
    (hr : Judgment.Paired (.run true ts items [])) :
    Judgment.Paired (.simple nested (t :: ts)
      (.paren (.symbol t.toSymbol) (.ofItems items) .missing false) []) := by
  obtain ⟨ns, hadds, hlevel⟩ := hr
  refine ⟨[.unclosed t ns], .unclosed (hdef.opening ht) hadds, ?_⟩
  rw [nests, nests_ofItems, hdef.standard.token_toSymbol_of_opens ht]
  exact .cons (.unclosed t hlevel) .nil

theorem paired_dangling (he : Judgment.Paired (.simple nested ts e (t :: rest)))
    (ht : t.isInfixed "sub" = true ∨ t.isInfixed "sup" = true) (hstop : Stops nested rest) :
    Judgment.Paired (.intermediate nested ts e rest) := by
  obtain ⟨ns, hadds, hshows⟩ := he
  have hdrop : Adds nested (t :: rest) [.token t] rest :=
    ht.elim (.infixed · (.refl _ _)) (.infixed · (.refl _ _))
  refine ⟨ns ++ [.token t], hadds.append hdrop, .inr ⟨hstop, ?_⟩⟩
  rw [← List.append_nil e.nests]
  exact .append hshows (.dropped (ht.elim Token.kind_of_isInfixed Token.kind_of_isInfixed))

/-- What stands before a script, the operator and the script. -/
theorem exists_adds_script {id : String} (he : Judgment.Paired (.simple nested ts e (t :: mid)))
    (ht : t.isInfixed id = true) (hf : Judgment.Paired (.simple nested mid f rest))
    (hne : f ≠ .empty) :
    ∃ ns, Adds nested ts ns rest ∧ List.Forall₂ Shows ns
      (e.nests ++ if f.unwrap.isEmpty then [] else .token t :: f.unwrap.nests) := by
  obtain ⟨ns, hadds, hshows⟩ := he
  obtain ⟨ms, hadds', hshows'⟩ := hf
  exact ⟨_, hadds.append (.infixed ht hadds'), List.rel_append hshows (shows_script hne hshows')⟩

theorem paired_sub (he : Judgment.Paired (.simple nested ts e (.sub :: mid)))
    (hf : Judgment.Paired (.simple nested mid f rest)) (hne : f ≠ .empty) :
    Judgment.Paired (.intermediate nested ts (.scripts e f.unwrap .empty) rest) := by
  have ht : Token.sub.isInfixed "sub" = true := by decide
  obtain ⟨ns, hadds, hshows⟩ := exists_adds_script he ht hf hne
  refine ⟨ns, hadds, .inl ?_⟩
  show List.Forall₂ Shows ns (_ ++ [])
  rwa [List.append_nil]

/-- The upper script may be missing, and its operator is then the last of its level. -/
theorem paired_subSup (hstandard : u.Standard)
    (he : Judgment.Paired (.simple nested ts e (.sub :: mid)))
    (hf : Judgment.Paired (.simple nested mid f (u :: mid'))) (hne : f ≠ .empty)
    (hu : u.isInfixed "sup" = true) (hg : Judgment.Paired (.simple nested mid' g rest))
    (hstop : g = .empty → rest = mid' ∧ Stops nested mid') :
    Judgment.Paired (.intermediate nested ts (.scripts e f.unwrap g.unwrap) rest) := by
  have ht : Token.sub.isInfixed "sub" = true := by decide
  obtain ⟨ns, hadds, hshows⟩ := exists_adds_script he ht hf hne
  by_cases hgne : g = .empty
  · obtain ⟨rfl, hstops⟩ := hstop hgne
    subst hgne
    refine ⟨_, hadds.append (.infixed hu (.refl _ _)), .inr ⟨hstops, ?_⟩⟩
    exact .append hshows (.dropped (Token.kind_of_isInfixed hu))
  · obtain rfl := hstandard.eq_of_isInfixed (u := .sup) (by decide) rfl hu
    obtain ⟨ms, hadds', hshows'⟩ := hg
    refine ⟨_, hadds.append (.infixed hu hadds'), .inl ?_⟩
    exact List.rel_append hshows (shows_script hgne hshows')

theorem paired_sup (he : Judgment.Paired (.simple nested ts e (.sup :: mid)))
    (hf : Judgment.Paired (.simple nested mid f rest)) (hne : f ≠ .empty) :
    Judgment.Paired (.intermediate nested ts (.scripts e .empty f.unwrap) rest) := by
  have ht : Token.sup.isInfixed "sup" = true := by decide
  obtain ⟨ns, hadds, hshows⟩ := exists_adds_script he ht hf hne
  refine ⟨ns, hadds, .inl ?_⟩
  show List.Forall₂ Shows ns ((e.nests ++ []) ++ _)
  rwa [List.append_nil]

theorem paired_last (he : Judgment.Paired (.intermediate nested ts e rest)) :
    Judgment.Paired (.run nested ts [e] rest) := by
  obtain ⟨ns, hadds, hns⟩ := he
  refine ⟨ns, hadds, ?_⟩
  rw [itemNests, itemNests, List.append_nil]
  exact level_of_paired hns

/-- Before what can be read, no operator has been dropped. -/
theorem exists_adds_of_not_stops (he : Judgment.Paired (.intermediate nested ts e rest))
    (hgo : ¬ Stops nested rest) : ∃ ns, Adds nested ts ns rest ∧ List.Forall₂ Shows ns e.nests := by
  obtain ⟨ns, hadds, hns⟩ := he
  exact ⟨ns, hadds, hns.resolve_right fun hstop => hgo hstop.1⟩

theorem not_stops_of_isInfixed {id : String} (ht : t.isInfixed id = true) :
    ¬ Stops nested (t :: ts) := by
  intro hstop
  have hnot := hstop.isInfixed_eq_false id
  rw [ahead_cons, ht] at hnot
  cases hnot

theorem paired_frac (hstandard : t.Standard)
    (he : Judgment.Paired (.intermediate nested ts e (t :: mid))) (ht : t.isInfixed "frac" = true)
    (hf : Judgment.Paired (.intermediate nested mid f mid'))
    (hr : Judgment.Paired (.run nested mid' items rest))
    (hstop : Stops nested mid' → items = [] ∧ rest = mid') :
    Judgment.Paired
      (.run nested ts (.infixed (.symbol t.toSymbol) e.unwrap f.unwrap :: items) rest) := by
  obtain ⟨ns, hadds, hshows⟩ := exists_adds_of_not_stops he (not_stops_of_isInfixed ht)
  obtain ⟨ms, hadds', hms⟩ := hf
  have hbar : Shows (.token t) (.token t) := .token (.inl rfl)
  have hnests : (Expr.infixed (.symbol t.toSymbol) e.unwrap f.unwrap).nests =
      e.nests ++ .token t :: f.nests := by
    rw [nests, nests_unwrap, nests_unwrap, Operator.nest, hstandard.token_toSymbol_of_isInfixed ht]
  rcases hms with hshows' | ⟨hstops, hlevel⟩
  · obtain ⟨ls, hadds'', hlevel⟩ := hr
    refine ⟨_, (hadds.append (.infixed ht hadds')).append hadds'', ?_⟩
    rw [itemNests, hnests]
    exact .append (List.rel_append hshows (.cons hbar hshows')) hlevel
  · -- an operator was dropped after the denominator, so the run ends there
    obtain ⟨rfl, rfl⟩ := hstop hstops
    refine ⟨_, hadds.append (.infixed ht hadds'), ?_⟩
    rw [itemNests, itemNests, List.append_nil, hnests]
    exact .append hshows (.cons hbar hlevel)

/-- The bar is dropped where nothing can be read, so it is the last of its level. -/
theorem paired_noFrac (he : Judgment.Paired (.intermediate nested ts e (t :: rest)))
    (ht : t.isInfixed "frac" = true) : Judgment.Paired (.run nested ts [e] rest) := by
  obtain ⟨ns, hadds, hshows⟩ := exists_adds_of_not_stops he (not_stops_of_isInfixed ht)
  refine ⟨_, hadds.append (.infixed ht (.refl _ _)), ?_⟩
  rw [itemNests, itemNests]
  exact .append hshows (.dropped (Token.kind_of_isInfixed ht))

theorem paired_more (he : Judgment.Paired (.intermediate nested ts e (t :: mid)))
    (hgo : (t.closes && nested) = false)
    (hr : Judgment.Paired (.run nested (t :: mid) items rest)) :
    Judgment.Paired (.run nested ts (e :: items) rest) := by
  have hgoing : ¬ Stops nested (t :: mid) := by
    rintro (hnil | ⟨rfl, hclosing⟩)
    · cases hnil
    · rw [Token.closes_of_isClosing hclosing] at hgo
      cases hgo
  obtain ⟨ns, hadds, hshows⟩ := exists_adds_of_not_stops he hgoing
  obtain ⟨ms, hadds', hlevel⟩ := hr
  exact ⟨_, hadds.append hadds', .append hshows hlevel⟩

end

/-- The scan gets past the tokens of what is read, and its level grows by the nests of it. -/
theorem Derives.paired {s : Setting} (hs : s.stop = none) {j : Judgment} (h : Derives s j)
    (hts : ∀ t ∈ j.tokens, t.Definite) : j.Paired := by
  induction h with
  | atEnd => exact ⟨[], .refl _ _, .nil⟩
  | atClosing => exact ⟨[], .refl _ _, .nil⟩
  | stray ht => exact paired_stray (hts _ List.mem_cons_self) ht
  | leaf ht => exact paired_leaf (hts _ List.mem_cons_self).standard ht
  | @unary nested t ts e operand rest ht he hc ih =>
    have hstandard := (hts t List.mem_cons_self).standard
    rw [hstandard.operand] at hc
    cases hc
    exact paired_unary hstandard ht (ih (forall_mem_of_suffix hts (List.suffix_cons t ts)))
  | @binary nested t ts e f first second mid rest ht he hf hc hd ihe ihf =>
    have hdef := hts t List.mem_cons_self
    have hts' := forall_mem_of_suffix hts (List.suffix_cons t ts)
    rw [hdef.firstOperand] at hc
    rw [hdef.standard.secondOperand] at hd
    cases hc
    cases hd
    exact paired_binary hdef.standard ht (ihe hts')
      (ihf (forall_mem_of_suffix hts' he.leavesSuffix))
  | @void nested t c ts ht hc =>
    exact paired_void (hts t List.mem_cons_self)
      (hts c (List.mem_cons_of_mem t List.mem_cons_self)) ht hc
  | @paren nested t ts items d rest ht hclosed hr hd ih =>
    have hts' := forall_mem_of_suffix hts (List.suffix_cons t ts)
    exact paired_paren (hts t List.mem_cons_self)
      (hts' d (hr.leavesSuffix.subset List.mem_cons_self)) ht (ih hts') hd
  | @unclosed nested t ts items ht hclosed hr ih =>
    exact paired_unclosed (hts t List.mem_cons_self) ht
      (ih (forall_mem_of_suffix hts (List.suffix_cons t ts)))
  | bare _ _ _ ih =>
    obtain ⟨ns, hadds, hshows⟩ := ih hts
    exact ⟨ns, hadds, .inl hshows⟩
  | dangling _ ht hf ihe _ =>
    obtain ⟨rfl, hstop⟩ := hf.emptyAtStop rfl
    exact paired_dangling (ihe hts) ht hstop
  | @sub nested ts e t mid f rest he ht hf hne hsup ihe ihf =>
    have hmid : t :: mid <:+ ts := he.leavesSuffix
    obtain rfl := (hts t (hmid.subset List.mem_cons_self)).standard.eq_of_isInfixed
      (u := .sub) (by decide) rfl ht
    exact paired_sub (ihe hts) (ihf (forall_mem_of_suffix hts (tail_suffix hmid))) hne
  | @subSup nested ts e t mid f u mid' g rest he ht hf hne hu hg ihe ihf ihg =>
    have hmid : t :: mid <:+ ts := he.leavesSuffix
    have hmid' : u :: mid' <:+ ts := hf.leavesSuffix.trans (tail_suffix hmid)
    obtain rfl := (hts t (hmid.subset List.mem_cons_self)).standard.eq_of_isInfixed
      (u := .sub) (by decide) rfl ht
    exact paired_subSup (hts u (hmid'.subset List.mem_cons_self)).standard (ihe hts)
      (ihf (forall_mem_of_suffix hts (tail_suffix hmid))) hne hu
      (ihg (forall_mem_of_suffix hts (tail_suffix hmid'))) hg.emptyAtStop
  | @sup nested ts e t mid f rest he ht hf hne ihe ihf =>
    have hmid : t :: mid <:+ ts := he.leavesSuffix
    obtain rfl := (hts t (hmid.subset List.mem_cons_self)).standard.eq_of_isInfixed
      (u := .sup) (by decide) rfl ht
    exact paired_sup (ihe hts) (ihf (forall_mem_of_suffix hts (tail_suffix hmid))) hne
  | done _ ih =>
    obtain ⟨ns, hadds, hns⟩ := ih hts
    exact ⟨ns, hadds, level_of_paired hns⟩
  | last _ _ _ ih => exact paired_last (ih hts)
  | @frac nested ts e t mid f mid' items rest he hne ht hf hfne hr ihe ihf ihr =>
    have hmid : t :: mid <:+ ts := he.leavesSuffix
    have hmid' : mid' <:+ ts := hf.leavesSuffix.trans (tail_suffix hmid)
    exact paired_frac (hts t (hmid.subset List.mem_cons_self)).standard (ihe hts) ht
      (ihf (forall_mem_of_suffix hts (tail_suffix hmid))) (ihr (forall_mem_of_suffix hts hmid'))
      (hr.nil_of_stops hs)
  | noFrac he _ ht hf hr ihe _ _ =>
    obtain ⟨rfl, hstop⟩ := hf.emptyAtStop rfl
    obtain ⟨rfl, rfl⟩ := hr.nil_of_stops hs hstop
    exact paired_noFrac (ihe hts) ht
  | more he _ _ hgo _ ihe ihr =>
    exact paired_more (ihe hts) hgo (ihr (forall_mem_of_suffix hts he.leavesSuffix))

end Grammar

/-! ## The delimiters of a source -/

/-- With the built-in spellings, take a source without tokens that both open and close, and without
colors.  It is an expression whose delimiters are paired as a scan with a stack pairs them: a pair
is a parenthesis, a group, a matrix or a row of one, around all that stands between its delimiters;
an opening delimiter that is left on the stack has no right delimiter in the expression; and the
closing delimiters that find the stack empty are the ones that are symbols.  An operator at the end
of a level may be missing. -/
theorem delimiters_paired (colors : ColorTable) (source : String)
    (hfences : ∀ t ∈ (SymbolTable.spellings.read source).tokens, t.kind ≠ .role .fence)
    (hcolors : ∀ t ∈ (SymbolTable.spellings.read source).tokens, t.asksColor = false) :
    ∃ e, Expr.parse .spellings colors source = .ok e ∧
      Nest.Level (Nest.scan [] [] (SymbolTable.spellings.read source).tokens) e.nests ∧
      Nest.allTokens (Nest.scan [] [] (SymbolTable.spellings.read source).tokens) =
        (SymbolTable.spellings.read source).tokens := by
  have hstandard := Token.standard_read source
  obtain ⟨items, hparse, hd⟩ := exists_derives_of_convertible colors
    (SymbolTable.error_read_spellings source) fun t ht => (hstandard t ht).convertible
  refine ⟨_, hparse, ?_, Nest.allTokens_scan [] [] _⟩
  have hdefinite : ∀ t ∈ (SymbolTable.spellings.read source).tokens, t.Definite := by
    intro t ht
    refine ⟨hstandard t ht, hfences t ht, ?_⟩
    exact (hstandard t ht).firstOperand.resolve_right (Token.firstOperand_ne_color (hcolors t ht))
  obtain ⟨ns, hadds, hlevel⟩ := hd.paired rfl hdefinite
  rw [hadds [] [] rfl, Expr.nests_ofItems]
  exact hlevel

/-- A pair of unlike delimiters around an operator that is dropped, a stray, and a delimiter that is
left. -/
theorem delimiters_paired_unbalanced :
    ∃ e, Expr.parse .spellings .basic "(a_])[" = .ok e ∧
      Nest.Level (Nest.scan [] [] (SymbolTable.spellings.read "(a_])[").tokens) e.nests ∧
      Nest.allTokens (Nest.scan [] [] (SymbolTable.spellings.read "(a_])[").tokens) =
        (SymbolTable.spellings.read "(a_])[").tokens := by
  have htokens : (SymbolTable.spellings.read "(a_])[").tokens =
      [.leftRound, ⟨.identifier, some "a", "a", []⟩, .sub, .rightSquare, .rightRound,
        .leftSquare] := by
    rw [SymbolTable.read_spellings]
    decide +kernel
  refine delimiters_paired .basic "(a_])[" ?_ ?_
  · rw [htokens]
    decide
  · rw [htokens]
    decide

end MathMarkup
