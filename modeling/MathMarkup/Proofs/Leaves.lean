import Mathlib.Data.List.Forall2
import MathMarkup.Proofs.Lexing

/-!
# The leaves of an expression

`Expr.leaves` lists the tokens of an expression in the order in which they are written.  A
parenthesis has its delimiters around its body, scripts come after their operators, and the rows of
a matrix are written round, whatever they were read from.  What a color was read from is known by
its text only.

`Spells` compares tokens with leaves.  It has a lossy form, for the tokens that an expression was
read from: there the delimiters of rows may be square, and an operator between operands may be
missing among the leaves if a closing delimiter or the end comes right after it.

* `Grammar.Derives.spelled`: what is read from tokens has these tokens for its leaves.
* `tokens_conserved`: the same for a whole source without colors.
-/

namespace MathMarkup

/-- A comma in a matrix. -/
def Token.comma : Token := ⟨.identifier, some ",", ",", []⟩

/-- What tokens are written for. -/
inductive Leaf where
  | token (t : Token)
  /-- A delimiter of a row of a matrix. -/
  | row (t : Token)
  /-- An operand with the given text that is a color, in a parenthesis or not. -/
  | color (nested : Bool) (written : String)

/-- The leaves of a delimiter. -/
def Delimiter.leaves : Delimiter → List Leaf
  | .missing => []
  | .symbol s => [.token s.token]
  | .named id => [.token ⟨.role .symbol, none, id, []⟩]

/-- The leaf of an operator. -/
def Operator.leaf : Operator → Leaf
  | .symbol s => .token s.token
  | .identifier name => .token ⟨.identifier, some name, name, []⟩

namespace Expr

mutual

/-- The leaves of an expression, in a parenthesis or not. -/
def leaves (nested : Bool) : Expr → List Leaf
  | .empty => []
  | .symbol s => [.token s.token]
  | .identifier name => [.token ⟨.identifier, some name, name, []⟩]
  | .number digits => [.token ⟨.number, some digits, digits, []⟩]
  | .text content => [.token ⟨.text, some content, "\"" ++ content ++ "\"", []⟩]
  | .color _ written => [.color nested written]
  | .sequence items => itemLeaves nested items
  | .paren left body right _ => left.leaves ++ body.leaves true ++ right.leaves
  | .group left body right => left.leaves ++ body.leaves true ++ right.leaves
  | .scripts base sub sup =>
    base.leaves nested ++ (if sub.isEmpty then [] else .token .sub :: sub.leaves nested) ++
      (if sup.isEmpty then [] else .token .sup :: sup.leaves nested)
  | .unary operator operand => operator.leaf :: operand.leaves nested
  | .binary operator first second =>
    operator.leaf :: (first.leaves nested ++ second.leaves nested)
  | .infixed operator first second =>
    first.leaves nested ++ operator.leaf :: second.leaves nested
  | .matrix left rows right =>
    left.leaves ++ [.token .comma].intercalate (rowLeaves rows) ++ right.leaves
  | .foreign value => [.token ⟨.identifier, some value.display, value.display, []⟩]

/-- The leaves of several expressions. -/
def itemLeaves (nested : Bool) : List Expr → List Leaf
  | [] => []
  | e :: es => e.leaves nested ++ itemLeaves nested es

/-- The leaves of each cell of a row. -/
def cellLeaves : List Expr → List (List Leaf)
  | [] => []
  | e :: es => e.leaves true :: cellLeaves es

/-- The leaves of each row of a matrix. -/
def rowLeaves : List (List Expr) → List (List Leaf)
  | [] => []
  | row :: rows =>
    (.row .leftRound :: [.token .comma].intercalate (cellLeaves row) ++ [.row .rightRound]) ::
      rowLeaves rows

end

theorem itemLeaves_eq_flatMap (nested : Bool) (es : List Expr) :
    itemLeaves nested es = es.flatMap (leaves nested) := by
  induction es with
  | nil => rfl
  | cons e es ih => rw [itemLeaves, ih, List.flatMap_cons]

theorem cellLeaves_eq_map (es : List Expr) : cellLeaves es = es.map (leaves true) := by
  induction es with
  | nil => rfl
  | cons e es ih => rw [cellLeaves, ih, List.map_cons]

theorem leaves_ofItems (nested : Bool) (es : List Expr) :
    (ofItems es).leaves nested = itemLeaves nested es := by
  match es with
  | [] => rfl
  | [e] =>
    show e.leaves nested = e.leaves nested ++ []
    rw [List.append_nil]
  | e :: f :: es => rfl

theorem itemLeaves_items (nested : Bool) (e : Expr) :
    itemLeaves nested e.items = e.leaves nested := by
  cases e with
  | empty => rfl
  | sequence items => rfl
  | _ => exact List.append_nil _

/-- Hiding delimiters does not change what is written. -/
theorem leaves_unwrap (nested : Bool) (e : Expr) : e.unwrap.leaves nested = e.leaves nested := by
  unfold unwrap
  split <;> rfl

/-- The cells of a row with commas between them are its body. -/
theorem intercalate_cellLeaves (body : Expr) :
    [.token .comma].intercalate (cellLeaves (cells body)) = body.leaves true := by
  rw [cellLeaves_eq_map, ← itemLeaves_items, itemLeaves_eq_flatMap]
  refine intercalate_map_cells rfl (fun es => ?_) body
  rw [leaves_ofItems, itemLeaves_eq_flatMap]

end Expr

namespace Token

/-- Two tokens are the same, or literal texts with the same content. -/
def Same (t u : Token) : Prop :=
  t = u ∨ t.kind = .text ∧ u.kind = .text ∧ t.value = u.value

/-- A square delimiter, and the round one that is written for it. -/
def Squares (t u : Token) : Prop :=
  t = leftSquare ∧ u = leftRound ∨ t = rightSquare ∧ u = rightRound

theorem Same.eq_of_role {t u : Token} (h : t.Same u) {role : Role} (hu : u.kind = .role role) :
    t = u := by
  rcases h with h | ⟨-, htext, -⟩
  · exact h
  · rw [htext] at hu
    exact nomatch hu

end Token

/-! ## Tokens that spell leaves -/

/-- Tokens spell leaves up to the tokens that are left.  The lossy form lets square rows be written
round, and drops operators that nothing follows. -/
inductive Spells (lossy : Bool) (color : Bool → String → List Token → List Token → Prop) :
    List Token → List Leaf → List Token → Prop where
  | nil {ts} : Spells lossy color ts [] ts
  | token {t u ts ls rest} (h : t.Same u) (hr : Spells lossy color ts ls rest) :
      Spells lossy color (t :: ts) (.token u :: ls) rest
  | row {t u ts ls rest} (h : t.Same u ∨ lossy = true ∧ t.Squares u)
      (hr : Spells lossy color ts ls rest) : Spells lossy color (t :: ts) (.row u :: ls) rest
  | color {nested written ts mid ls rest} (h : color nested written ts mid)
      (hr : Spells lossy color mid ls rest) :
      Spells lossy color ts (.color nested written :: ls) rest
  | drop {t ts ls rest} (hlossy : lossy = true) (ht : t.kind = .role .infixed)
      (hstop : ts = [] ∨ Grammar.ahead Token.isClosing ts = true)
      (hr : Spells lossy color ts ls rest) : Spells lossy color (t :: ts) ls rest

namespace Spells

variable {lossy : Bool} {color : Bool → String → List Token → List Token → Prop}

theorem append {ts mid rest : List Token} {ls ls' : List Leaf} (h : Spells lossy color ts ls mid)
    (h' : Spells lossy color mid ls' rest) : Spells lossy color ts (ls ++ ls') rest := by
  induction h with
  | nil => exact h'
  | token h _ ih => exact .token h (ih h')
  | row h _ ih => exact .row h (ih h')
  | color h _ ih => exact .color h (ih h')
  | drop hlossy ht hstop _ ih => exact .drop hlossy ht hstop (ih h')

theorem single {t : Token} {ts : List Token} : Spells lossy color (t :: ts) [.token t] ts :=
  .token (.inl rfl) .nil

/-- What spells a color can be exchanged. -/
theorem mono {color' : Bool → String → List Token → List Token → Prop} {ts rest : List Token}
    {ls : List Leaf} (h : Spells lossy color ts ls rest)
    (hcolor : ∀ nested written us mid, color nested written us mid → color' nested written us mid) :
    Spells lossy color' ts ls rest := by
  induction h with
  | nil => exact .nil
  | token h _ ih => exact .token h ih
  | row h _ ih => exact .row h ih
  | color h _ ih => exact .color (hcolor _ _ _ _ h) ih
  | drop hlossy ht hstop _ ih => exact .drop hlossy ht hstop ih

end Spells

/-! ## Rows of a matrix -/

@[simp] theorem Symbol.token_value (s : Symbol) : s.token.value = s.id := by
  unfold Symbol.token
  split <;> rfl

theorem Symbol.token_kind (s : Symbol) : ∃ role, s.token.kind = .role role := by
  unfold Symbol.token
  split <;> exact ⟨_, rfl⟩

/-- A leaf as it was read, and as it is written once its row belongs to a matrix. -/
inductive Marks : Leaf → Leaf → Prop where
  | refl (l : Leaf) : Marks l l
  | row {s : Symbol} {t u : Token} (ht : t ∈ Token.known) (hs : s.id = t.value)
      (h : t = u ∨ t.Squares u) : Marks (.token s.token) (.row u)

theorem forall₂_marks_refl (ls : List Leaf) : List.Forall₂ Marks ls ls :=
  List.forall₂_same.mpr fun l _ => .refl l

/-- The leaves of a row with the given body. -/
def Expr.rowLeavesOf (body : Expr) : List Leaf :=
  .row .leftRound :: body.leaves true ++ [.row .rightRound]

theorem Expr.intercalate_rowLeaves_one (body : Expr) :
    [.token .comma].intercalate (rowLeaves [cells body]) = rowLeavesOf body := by
  show [.token .comma].intercalate
    [.row .leftRound :: [.token .comma].intercalate (cellLeaves (cells body)) ++
      [.row .rightRound]] = _
  rw [List.intercalate_singleton, intercalate_cellLeaves]
  rfl

theorem Expr.intercalate_rowLeaves_more {left right : String} {items bodies : List Expr}
    (h : Rows left right items bodies) (body : Expr) :
    [.token .comma].intercalate (rowLeaves ((body :: bodies).map cells)) =
      rowLeavesOf body ++
        .token .comma :: [.token .comma].intercalate (rowLeaves (bodies.map cells)) := by
  obtain ⟨first, others, rfl⟩ : ∃ first others, bodies = first :: others := by
    cases h <;> exact ⟨_, _, rfl⟩
  show [.token .comma].intercalate
    ((.row .leftRound :: [.token .comma].intercalate (cellLeaves (cells body)) ++
      [.row .rightRound]) :: rowLeaves ((first :: others).map cells)) = _
  rw [intercalate_cellLeaves]
  exact List.intercalate_cons_cons.trans (List.append_assoc _ _ _)

/-- The rows of a matrix are read from items between known delimiters. -/
theorem forall₂_marks_of_rows {l r : Token} {left right : String} {items bodies : List Expr}
    (h : Expr.Rows left right items bodies) (hl : l ∈ Token.known) (hr : r ∈ Token.known)
    (hleft : l.value = some left) (hright : r.value = some right)
    (hlround : l = .leftRound ∨ l.Squares .leftRound)
    (hrround : r = .rightRound ∨ r.Squares .rightRound) :
    List.Forall₂ Marks (Expr.itemLeaves true items)
      ([.token .comma].intercalate (Expr.rowLeaves (bodies.map Expr.cells))) := by
  have hrow {row body : Expr} (hbody : Expr.bodyBetween? left right row = some body) :
      List.Forall₂ Marks (row.leaves true) (Expr.rowLeavesOf body) := by
    obtain ⟨a, b, keep, rfl, ha, hb⟩ := Expr.bodyBetween?_eq_some hbody
    refine .cons (.row hl (ha.trans hleft.symm) hlround) ?_
    refine List.rel_append (forall₂_marks_refl _) ?_
    exact .cons (.row hr (hb.trans hright.symm) hrround) .nil
  induction h with
  | @one row body hbody =>
    show List.Forall₂ Marks (row.leaves true ++ []) ([.token .comma].intercalate
      (Expr.rowLeaves [Expr.cells body]))
    rw [List.append_nil, Expr.intercalate_rowLeaves_one]
    exact hrow hbody
  | @more row body items bodies hbody hrows ih =>
    rw [Expr.intercalate_rowLeaves_more hrows]
    exact List.rel_append (hrow hbody) (.cons (.refl _) ih)

/-- Tokens that spell the leaves of rows also spell the leaves of the matrix. -/
theorem Spells.mark {color : Bool → String → List Token → List Token → Prop}
    (hcolor : ∀ nested written us mid, color nested written us mid → mid <:+ us)
    {ts rest : List Token} {ls ls' : List Leaf} (h : Spells true color ts ls rest)
    (hts : ∀ t ∈ ts, t.Standard) (hmarks : List.Forall₂ Marks ls ls') :
    Spells true color ts ls' rest := by
  induction h generalizing ls' with
  | nil =>
    cases hmarks
    exact .nil
  | @token t u ts ls rest h hr ih =>
    rw [List.forall_mem_cons] at hts
    obtain ⟨l', ls', hmark, hnext, rfl⟩ := List.forall₂_cons_left_iff.mp hmarks
    have hrest := ih hts.2 hnext
    cases hmark with
    | refl => exact .token h hrest
    | @row s known u hknown hs hround =>
      obtain ⟨role, hrole⟩ := s.token_kind
      obtain rfl := h.eq_of_role hrole
      -- a standard token with the id of a known one is that one
      have heq := hts.1.known hrole known hknown (s.token_value.trans hs)
      rw [← heq] at hround
      exact .row (hround.imp .inl fun h => ⟨rfl, h⟩) hrest
  | row h _ ih =>
    obtain ⟨l', ls', hmark, hnext, rfl⟩ := List.forall₂_cons_left_iff.mp hmarks
    cases hmark
    exact .row h (ih (List.forall_mem_cons.mp hts).2 hnext)
  | color h _ ih =>
    obtain ⟨l', ls', hmark, hnext, rfl⟩ := List.forall₂_cons_left_iff.mp hmarks
    cases hmark
    exact .color h (ih (fun t ht => hts t ((hcolor _ _ _ _ h).subset ht)) hnext)
  | drop hlossy ht hstop _ ih =>
    exact .drop hlossy ht hstop (ih (List.forall_mem_cons.mp hts).2 hmarks)

/-! ## What is read has its tokens for leaves -/

namespace Grammar

open MathMarkup.Expr

/-- An operand that is read as a color is spelled by the tokens that it was read from. -/
def ColorRule (s : Setting) (color : Bool → String → List Token → List Token → Prop) : Prop :=
  ∀ nested us e mid, Derives s (.simple nested us e mid) →
    Spells true color us (e.leaves nested) mid → color nested e.unwrap.colorText us mid

/-- The tokens that are taken spell what is read from them. -/
def Judgment.Spelled (color : Bool → String → List Token → List Token → Prop) : Judgment → Prop
  | .simple nested ts e rest => Spells true color ts (e.leaves nested) rest
  | .intermediate nested ts e rest => Spells true color ts (e.leaves nested) rest
  | .run nested ts items rest => Spells true color ts (itemLeaves nested items) rest

section

variable {s : Setting} {color : Bool → String → List Token → List Token → Prop}
  {nested : Bool} {t d : Token} {ts mid rest : List Token} {e f : Expr} {items : List Expr}

theorem leaves_leaf (nested : Bool) (ht : t.Standard) :
    ∃ u, (leaf t).leaves nested = [.token u] ∧ t.Same u := by
  unfold leaf
  split
  · rename_i hkind
    exact ⟨_, rfl, .inl (ht.number hkind)⟩
  · rename_i hkind
    exact ⟨_, rfl, .inr ⟨hkind, rfl, ht.text hkind⟩⟩
  · rename_i hkind
    exact ⟨_, rfl, .inl (ht.identifier hkind)⟩
  · rename_i role hkind
    exact ⟨_, rfl, .inl (ht.token_toSymbol hkind).symm⟩

theorem spells_paren (ht : t.Standard) (hopens : t.opens = true) (hd : d.Standard)
    (hcloses : d.closes = true) (hts : ∀ u ∈ ts, u.Standard)
    (hcolor : ∀ nested written us mid, color nested written us mid → mid <:+ us)
    (h : Spells true color ts (itemLeaves true items) (d :: rest)) :
    Spells true color (t :: ts)
      ((Expr.paren (.symbol t.toSymbol) (ofItems items)
        (.symbol d.toSymbol) false).inferMatrix.leaves nested) rest := by
  have htoken : t.toSymbol.token = t := ht.token_toSymbol_of_opens hopens
  have hdtoken : d.toSymbol.token = d := hd.token_toSymbol_of_closes hcloses
  rcases inferMatrix_paren (.symbol t.toSymbol) (.symbol d.toSymbol) (ofItems items) false with
    hsame | ⟨es, rows, hseq, hrows, hmatrix⟩
  · rw [hsame]
    show Spells true color (t :: ts)
      (.token t.toSymbol.token :: (ofItems items).leaves true ++ [.token d.toSymbol.token]) rest
    rw [htoken, hdtoken, leaves_ofItems]
    exact .token (.inl rfl) (h.append .single)
  · rw [hmatrix]
    show Spells true color (t :: ts)
      (.token t.toSymbol.token :: [.token .comma].intercalate (rowLeaves rows) ++
        [.token d.toSymbol.token]) rest
    rw [htoken, hdtoken]
    refine .token (.inl rfl) (Spells.append ?_ .single)
    have hleaves : itemLeaves true items = itemLeaves true es := by
      rw [← leaves_ofItems, hseq]
      rfl
    rw [hleaves] at h
    obtain ⟨bodies, hround | hsquare, rfl, -⟩ := rows_of_matrixRows? hrows
    · refine h.mark hcolor hts (forall₂_marks_of_rows (l := .leftRound) (r := .rightRound) hround
        (by decide) (by decide) rfl rfl (.inl rfl) (.inl rfl))
    · refine h.mark hcolor hts (forall₂_marks_of_rows (l := .leftSquare) (r := .rightSquare) hsquare
        (by decide) (by decide) rfl rfl (.inr (.inl ⟨rfl, rfl⟩)) (.inr (.inr ⟨rfl, rfl⟩)))

/-- The first operand may be hidden in a color, which is spelled by the tokens of the operand. -/
theorem spells_binary {first second : Expr} (hstandard : t.Standard)
    (hrule : t.firstOperand = .color → ColorRule s color) (ht : t.kind = .role .binary)
    (he : Derives s (.simple nested ts e mid)) (hc : s.convert t.firstOperand e.unwrap = .ok first)
    (hd : s.convert t.secondOperand f.unwrap = .ok second)
    (hfirst : Spells true color ts (e.leaves nested) mid)
    (hsecond : Spells true color mid (f.leaves nested) rest) :
    Spells true color (t :: ts)
      ((Expr.binary (.symbol t.toSymbol) first second).leaves nested) rest := by
  rw [hstandard.secondOperand] at hd
  cases hd
  show Spells true color (t :: ts)
    (.token t.toSymbol.token :: (first.leaves nested ++ f.unwrap.leaves nested)) rest
  rw [hstandard.token_toSymbol ht, leaves_unwrap]
  refine .token (.inl rfl) (Spells.append ?_ hsecond)
  rcases hstandard.firstOperand with hkeep | hask
  · rw [hkeep] at hc
    cases hc
    rw [leaves_unwrap]
    exact hfirst
  · rw [hask] at hc
    cases hc
    exact .color (hrule hask nested ts e mid he hfirst) .nil

/-- An operator that nothing follows is dropped. -/
theorem spells_dropped {id : String} (ht : t.isInfixed id = true) (hstop : Stops nested mid) :
    Spells true color (t :: mid) [] mid := by
  simp only [Token.isInfixed, Bool.and_eq_true, beq_iff_eq] at ht
  exact .drop rfl ht.1 (hstop.imp_right And.right) .nil

/-- A script after its operator. -/
theorem spells_script {u : Token} (hne : f ≠ .empty)
    (hf : Spells true color mid (f.leaves nested) rest) :
    Spells true color (u :: mid)
      (if f.unwrap.isEmpty then [] else .token u :: f.unwrap.leaves nested) rest := by
  rw [isEmpty_eq_false (unwrap_ne_empty hne), leaves_unwrap]
  exact .token (.inl rfl) hf

end

/-- The tokens are standard, and those that ask for a color come with a rule for it. -/
def Ready (s : Setting) (color : Bool → String → List Token → List Token → Prop)
    (ts : List Token) : Prop :=
  ∀ t ∈ ts, t.Standard ∧ (t.firstOperand = .color → ColorRule s color)

theorem Ready.suffix {s : Setting} {color : Bool → String → List Token → List Token → Prop}
    {ts rest : List Token} (h : Ready s color ts) (hrest : rest <:+ ts) : Ready s color rest :=
  fun t ht => h t (hrest.subset ht)

/-- Nothing is lost when an expression is read. -/
theorem Derives.spelled {s : Setting} {color : Bool → String → List Token → List Token → Prop}
    (hcolor : ∀ nested written us mid, color nested written us mid → mid <:+ us) {j : Judgment}
    (h : Derives s j) (hts : Ready s color j.tokens) : j.Spelled color := by
  induction h with
  | atEnd => exact .nil
  | atClosing => exact .nil
  | @stray t ts ht =>
    have hcloses := Token.closes_of_isClosing ht
    have htoken := (hts t List.mem_cons_self).1.token_toSymbol_of_closes hcloses
    exact .token (.inl htoken.symm) .nil
  | @leaf nested t ts =>
    obtain ⟨u, hleaves, hsame⟩ := leaves_leaf nested (hts t List.mem_cons_self).1
    show Spells true color (t :: ts) ((Grammar.leaf t).leaves nested) ts
    rw [hleaves]
    exact .token hsame .nil
  | @unary nested t ts e operand rest ht he hc ih =>
    have hstandard := (hts t List.mem_cons_self).1
    rw [hstandard.operand] at hc
    cases hc
    show Spells true color (t :: ts) (.token t.toSymbol.token :: e.unwrap.leaves nested) rest
    rw [hstandard.token_toSymbol ht, leaves_unwrap]
    exact .token (.inl rfl) (ih (hts.suffix (List.suffix_cons t ts)))
  | @binary nested t ts e f first second mid rest ht he hf hc hd ihe ihf =>
    obtain ⟨hstandard, hrule⟩ := hts t List.mem_cons_self
    have hready := hts.suffix (List.suffix_cons t ts)
    exact spells_binary hstandard hrule ht he hc hd (ihe hready)
      (ihf (hready.suffix he.leavesSuffix))
  | @void nested t c ts ht hc =>
    have hmem : c ∈ t :: c :: ts := List.mem_cons_of_mem t List.mem_cons_self
    have htoken := (hts t List.mem_cons_self).1.token_toSymbol_of_opens ht
    have hctoken := (hts c hmem).1.token_toSymbol_of_closes hc
    show Spells true color (t :: c :: ts) [.token t.toSymbol.token, .token c.toSymbol.token] ts
    rw [htoken, hctoken]
    exact .token (.inl rfl) .single
  | @paren nested t ts items d rest ht hclosed hr hd ih =>
    have hready := hts.suffix (List.suffix_cons t ts)
    have hdready := hready d (hr.leavesSuffix.subset List.mem_cons_self)
    exact spells_paren (hts t List.mem_cons_self).1 ht hdready.1 hd (fun u hu => (hready u hu).1)
      hcolor (ih hready)
  | @unclosed nested t ts items ht hclosed hr ih =>
    have htoken := (hts t List.mem_cons_self).1.token_toSymbol_of_opens ht
    show Spells true color (t :: ts)
      (.token t.toSymbol.token :: (ofItems items).leaves true ++ []) []
    rw [htoken, leaves_ofItems, List.append_nil]
    exact .token (.inl rfl) (ih (hts.suffix (List.suffix_cons t ts)))
  | bare _ _ _ ih => exact ih hts
  | @dangling nested ts e t mid rest he ht hf ihe ihf =>
    obtain ⟨rfl, hstop⟩ := hf.emptyAtStop rfl
    have hdrop : Spells true color (t :: rest) [] rest := by
      rcases ht with ht | ht
      · exact spells_dropped ht hstop
      · exact spells_dropped ht hstop
    show Spells true color ts (e.leaves nested) rest
    rw [← List.append_nil (e.leaves nested)]
    exact (ihe hts).append hdrop
  | @sub nested ts e t mid f rest he ht hf hne hsup ihe ihf =>
    have hmid : t :: mid <:+ ts := he.leavesSuffix
    obtain rfl := (hts t (hmid.subset List.mem_cons_self)).1.eq_of_isInfixed
      (u := .sub) (by decide) rfl ht
    exact ((ihe hts).append (spells_script hne (ihf (hts.suffix (tail_suffix hmid))))).append .nil
  | @subSup nested ts e t mid f u mid' g rest he ht hf hne hu hg ihe ihf ihg =>
    have hmid : t :: mid <:+ ts := he.leavesSuffix
    have hmid' : u :: mid' <:+ ts := hf.leavesSuffix.trans (tail_suffix hmid)
    obtain rfl := (hts t (hmid.subset List.mem_cons_self)).1.eq_of_isInfixed
      (u := .sub) (by decide) rfl ht
    refine ((ihe hts).append (spells_script hne (ihf (hts.suffix (tail_suffix hmid))))).append ?_
    by_cases hgne : g = .empty
    · subst hgne
      obtain ⟨rfl, hstop⟩ := hg.emptyAtStop rfl
      exact spells_dropped hu hstop
    · obtain rfl := (hts u (hmid'.subset List.mem_cons_self)).1.eq_of_isInfixed
        (u := .sup) (by decide) rfl hu
      exact spells_script hgne (ihg (hts.suffix (tail_suffix hmid')))
  | @sup nested ts e t mid f rest he ht hf hne ihe ihf =>
    have hmid : t :: mid <:+ ts := he.leavesSuffix
    obtain rfl := (hts t (hmid.subset List.mem_cons_self)).1.eq_of_isInfixed
      (u := .sup) (by decide) rfl ht
    exact ((ihe hts).append .nil).append (spells_script hne (ihf (hts.suffix (tail_suffix hmid))))
  | @done nested ts rest he ih =>
    exact ih hts
  | @last nested ts e rest he hne hend ih =>
    show Spells true color ts (e.leaves nested ++ []) rest
    rw [List.append_nil]
    exact ih hts
  | @frac nested ts e t mid f mid' items rest he hne ht hf hfne hr ihe ihf ihr =>
    have hmid : t :: mid <:+ ts := he.leavesSuffix
    have hmid' : mid' <:+ ts := hf.leavesSuffix.trans (tail_suffix hmid)
    have htoken := (hts t (hmid.subset List.mem_cons_self)).1.token_toSymbol_of_isInfixed ht
    show Spells true color ts ((e.unwrap.leaves nested ++
      .token t.toSymbol.token :: f.unwrap.leaves nested) ++ itemLeaves nested items) rest
    rw [htoken, leaves_unwrap, leaves_unwrap]
    refine Spells.append ((ihe hts).append ?_) (ihr (hts.suffix hmid'))
    exact .token (.inl rfl) (ihf (hts.suffix (tail_suffix hmid)))
  | @noFrac nested ts e t mid mid' items rest he hne ht hf hr ihe ihf ihr =>
    have hmid : t :: mid <:+ ts := he.leavesSuffix
    obtain ⟨rfl, hstop⟩ := hf.emptyAtStop rfl
    show Spells true color ts (e.leaves nested ++ ([] ++ itemLeaves nested items)) rest
    exact (ihe hts).append ((spells_dropped ht hstop).append (ihr (hts.suffix (tail_suffix hmid))))
  | @more nested ts e t mid items rest he hne ht hgo hr ihe ihr =>
    exact (ihe hts).append (ihr (hts.suffix he.leavesSuffix))

end Grammar

/-! ## The tokens of a source -/

/-- The token of a leaf.  A color has no token of its own. -/
def Leaf.token? : Leaf → Option Token
  | .token t => some t
  | .row t => some t
  | .color _ _ => none

/-- The tokens of an expression in the order in which they are written. -/
def Expr.yield (e : Expr) : List Token :=
  (e.leaves false).filterMap Leaf.token?

/-- Whether an operand of a token is read as a color. -/
def Token.asksColor (t : Token) : Bool :=
  t.operand == .color || t.firstOperand == .color || t.secondOperand == .color

theorem Token.firstOperand_ne_color {t : Token} (h : t.asksColor = false) :
    t.firstOperand ≠ .color := by
  intro hcolor
  simp [Token.asksColor, hcolor] at h

theorem spells_of_derives {source : String} {items : List Expr}
    (hd : Grammar.Derives ⟨.basic, none⟩
      (.run false (SymbolTable.spellings.read source).tokens items []))
    (hcolors : ∀ t ∈ (SymbolTable.spellings.read source).tokens, t.asksColor = false) :
    Spells true (fun _ _ _ _ => False) (SymbolTable.spellings.read source).tokens
      (Expr.itemLeaves false items) [] := by
  refine hd.spelled (fun _ _ _ _ h => h.elim) fun t ht => ⟨Token.standard_read source t ht, ?_⟩
  exact fun hask => absurd hask (Token.firstOperand_ne_color (hcolors t ht))

/-- With the built-in tables, a source without colors is an expression, and the leaves of the
expression are its tokens.  Only two things change: operators before a closing delimiter or the
end may be missing, and the rows of a matrix are round. -/
theorem tokens_conserved (source : String)
    (hcolors : ∀ t ∈ (SymbolTable.spellings.read source).tokens, t.asksColor = false) :
    ∃ e, Expr.parse .spellings .basic source = .ok e ∧
      Spells true (fun _ _ _ _ => False) (SymbolTable.spellings.read source).tokens
        (e.leaves false) [] := by
  obtain ⟨items, hparse, hd⟩ := exists_derives_spellings source
  refine ⟨_, hparse, ?_⟩
  rw [Expr.leaves_ofItems]
  exact spells_of_derives hd hcolors

theorem tokens_conserved_dangling :
    ∃ e, Expr.parse .spellings .basic "a_" = .ok e ∧
      Spells true (fun _ _ _ _ => False) (SymbolTable.spellings.read "a_").tokens
        (e.leaves false) [] := by
  refine tokens_conserved "a_" ?_
  rw [SymbolTable.read_spellings]
  decide +kernel

end MathMarkup
