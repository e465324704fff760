import Mathlib.Data.List.Chain
import MathMarkup.Proofs.Regrouping
import MathMarkup.Proofs.Shape

/-!
# An expression inside of parentheses

A source that is an expression on its own can be put between parentheses.  Whether it then is the
same expression between parentheses depends on three things.

* Nothing may be missing: a parenthesis that is not closed would take the closing delimiter, and a
  closing delimiter that is a symbol outside would close the parenthesis inside.  `Expr.Complete`
  says this of a node.  A color does not show the operand that it was read from, so it is said of
  the expression that is read if no operand is converted: the tokens lose their metadata
  (`Token.plain`).
* The tokens have to stay what they are.
* A token that can both open and close, such as a bar, opens an item outside.  Inside it closes the
  parenthesis, unless it comes after a fraction.  `Expr.Enclosable` says that no such token stands
  in the way.

With the first two given, the third decides: `parse_parenthesized_iff`.

The proof goes along the rules of the grammar, with one lemma for each rule
(`Grammar.Derives.enters`).  What is read outside is compared with what is read from the same tokens
inside, with a closing delimiter after them; if the run inside ends early, it ends at a token that
can both open and close (`Grammar.Blocked`).
-/

namespace MathMarkup

namespace Token

/-- Whether a token can both open and close a parenthesis. -/
def isFence (t : Token) : Bool :=
  t.kind == .role .fence

theorem closes_of_isFence {t : Token} (h : t.isFence = true) : t.closes = true := by
  simp [closes, eq_of_beq h]

theorem closes_eq_false {t : Token} (hclosing : t.isClosing = false) (hfence : t.isFence = false) :
    t.closes = false := by
  show (t.isClosing || t.isFence) = false
  rw [hclosing, hfence]
  rfl

theorem isClosing_eq_false_of_kind {t : Token} {role : Role} (h : t.kind = .role role)
    (hrole : role ≠ .closing) : t.isClosing = false := by
  simp [isClosing, h, hrole]

theorem isClosing_eq_false_of_opens {t : Token} (h : t.opens = true) : t.isClosing = false := by
  simp only [opens, Bool.or_eq_true, beq_iff_eq] at h
  rcases h with h | h
  · exact isClosing_eq_false_of_kind h (by decide)
  · exact isClosing_eq_false_of_kind h (by decide)

/-- A token without its metadata.  It converts no operand. -/
def plain (t : Token) : Token :=
  { t with extra := [] }

/-- What was read, with every operand left as it is. -/
def Reading.plain (r : Reading) : Reading :=
  { r with tokens := r.tokens.map Token.plain }

end Token

namespace Expr

/-- A node with nothing missing at its delimiters: a parenthesis or a group has both, and a symbol
is not a closing delimiter. -/
def Complete : Expr → Prop
  | .symbol s => s.token.isClosing = false
  | .paren left _ right _ => left.isPresent = true ∧ right.isPresent = true
  | .group left _ right => left.isPresent = true ∧ right.isPresent = true
  | _ => True

theorem loose_complete : Loose Complete where
  sequence _ := trivial
  matrix _ _ _ := trivial
  comma := trivial
  paren _ _ _ _ := ⟨rfl, rfl⟩
  group _ _ _ := Iff.rfl

/-- Whether the first token of an expression can both open and close. -/
def startsWithFence : Expr → Bool
  | .paren (.symbol l) _ _ _ => l.token.isFence
  | .group (.symbol l) _ _ => l.token.isFence
  | .matrix (.symbol l) _ _ => l.token.isFence
  | .scripts base _ _ => base.startsWithFence
  | .infixed _ first _ => first.startsWithFence
  | _ => false

/-- An expression can come right after another inside of a parenthesis: its first token does not
close the parenthesis, or a fraction comes before it. -/
def Follows (e f : Expr) : Prop :=
  e.form = .infixed ∨ f.startsWithFence = false

/-- An expression whose items can stand inside of a parenthesis. -/
def Enclosable (e : Expr) : Prop :=
  (∀ f ∈ e.items.head?, f.startsWithFence = false) ∧ e.items.IsChain Follows

theorem startsWithFence_unwrap (e : Expr) : e.unwrap.startsWithFence = e.startsWithFence := by
  unfold unwrap
  split
  · rename_i left body right
    cases left <;> rfl
  · rfl

theorem startsWithFence_inferMatrix (left : Symbol) (right : Delimiter) (body : Expr)
    (keep : Bool) :
    (Expr.paren (.symbol left) body right keep).inferMatrix.startsWithFence =
      left.token.isFence := by
  rcases inferMatrix_paren (.symbol left) right body keep with h | ⟨_, _, _, _, h⟩ <;>
    rw [h] <;> rfl

theorem right_eq_of_inferMatrix_eq {left right left' right' : Delimiter} {body body' : Expr}
    {keep keep' : Bool} (h : (Expr.paren left body right keep).inferMatrix =
      (Expr.paren left' body' right' keep').inferMatrix) : right = right' := by
  rcases inferMatrix_paren left right body keep with hsame | ⟨_, _, _, _, hmatrix⟩
  · rcases inferMatrix_paren left' right' body' keep' with hsame' | ⟨_, _, _, _, hmatrix'⟩
    · rw [hsame, hsame'] at h
      exact (Expr.paren.inj h).2.2.1
    · rw [hsame, hmatrix'] at h
      exact nomatch h
  · rcases inferMatrix_paren left' right' body' keep' with hsame' | ⟨_, _, _, _, hmatrix'⟩
    · rw [hmatrix, hsame'] at h
      exact nomatch h
    · rw [hmatrix, hmatrix'] at h
      exact (Expr.matrix.inj h).2.2

/-- An expression between round parentheses, which is a matrix if it is made of rows. -/
def parenthesized (e : Expr) : Expr :=
  (Expr.paren (.symbol Token.leftRound.toSymbol) e
    (.symbol Token.rightRound.toSymbol) false).inferMatrix

theorem form_parenthesized (e : Expr) :
    e.parenthesized.form = .paren ∨ e.parenthesized.form = .other := by
  unfold parenthesized
  rcases inferMatrix_paren (.symbol Token.leftRound.toSymbol) (.symbol Token.rightRound.toSymbol)
    e false with h | ⟨_, _, _, _, h⟩
  · rw [h]
    exact .inl rfl
  · rw [h]
    exact .inr rfl

theorem parenthesized_ne_empty (e : Expr) : e.parenthesized ≠ .empty :=
  inferMatrix_paren_ne_empty _ _ _ _

/-- The parenthesis is not one that ends with a token that can also open. -/
theorem parenthesized_ne {left : Delimiter} {body : Expr} {keep : Bool} {d : Token}
    (hd : d.Standard) (hfence : d.isFence = true) (e : Expr) :
    e.parenthesized ≠ (Expr.paren left body (.symbol d.toSymbol) keep).inferMatrix := by
  intro h
  have hright := right_eq_of_inferMatrix_eq h
  rw [Delimiter.symbol.injEq] at hright
  have htoken : Token.rightRound.toSymbol.token = d := by
    rw [hright, hd.token_toSymbol_of_closes (Token.closes_of_isFence hfence)]
  rw [token_rightRound] at htoken
  subst htoken
  exact nomatch hfence

theorem items_of_ofItems_eq {items : List Expr} {e : Expr} (h : ofItems items = e)
    (hform : e.form = .paren ∨ e.form = .other) : items = [e] := by
  subst h
  match items with
  | [] => exact absurd hform (by simp [ofItems, form])
  | [e] => rfl
  | e :: f :: items => exact absurd hform (by simp [ofItems, form])

end Expr

namespace Grammar

open MathMarkup.Expr

/-! ## The first token -/

/-- The first token of what is read can both open and close if the first of the tokens can. -/
def Judgment.Starts : Judgment → Prop
  | .simple _ ts e _ => e ≠ .empty → e.startsWithFence = ahead Token.isFence ts
  | .intermediate _ ts e _ => e ≠ .empty → e.startsWithFence = ahead Token.isFence ts
  | .run _ ts items _ => ∀ e ∈ items.head?, e.startsWithFence = ahead Token.isFence ts

theorem Derives.starts {s : Setting} {j : Judgment} (h : Derives s j)
    (hts : ∀ t ∈ j.tokens, t.Standard) : j.Starts := by
  have isFence {t : Token} {role : Role} (ht : t.kind = .role role) (hrole : role ≠ .fence) :
      t.isFence = false := by
    simp [Token.isFence, ht, hrole]
  induction h with
  | atEnd => exact fun hne => absurd rfl hne
  | atClosing => exact fun hne => absurd rfl hne
  | stray ht =>
    exact fun _ => (isFence (eq_of_beq ht) (by decide)).symm
  | @leaf nested t ts ht =>
    intro _
    have hleaf : (Grammar.leaf t).startsWithFence = false := by
      unfold Grammar.leaf
      split <;> rfl
    rw [hleaf, ahead_cons]
    cases hkind : t.isFence with
    | false => rfl
    | true => simp [Token.isLeaf, eq_of_beq hkind] at ht
  | unary ht => exact fun _ => (isFence ht (by decide)).symm
  | binary ht => exact fun _ => (isFence ht (by decide)).symm
  | @void nested t c ts ht hc =>
    intro _
    show t.toSymbol.token.isFence = t.isFence
    rw [(hts t List.mem_cons_self).token_toSymbol_of_opens ht]
  | @paren nested t ts items d rest ht hclosed hr hd _ =>
    intro _
    rw [startsWithFence_inferMatrix, (hts t List.mem_cons_self).token_toSymbol_of_opens ht]
    rfl
  | @unclosed nested t ts items ht hclosed hr _ =>
    intro _
    show t.toSymbol.token.isFence = t.isFence
    rw [(hts t List.mem_cons_self).token_toSymbol_of_opens ht]
  | bare _ _ _ ih => exact ih hts
  | dangling _ _ _ ihe _ => exact ihe hts
  | sub he ht _ _ _ ihe _ => exact fun _ => ihe hts (he.ne_empty_of_isInfixed ht)
  | subSup he ht _ _ _ _ ihe _ _ => exact fun _ => ihe hts (he.ne_empty_of_isInfixed ht)
  | sup he ht _ _ ihe _ => exact fun _ => ihe hts (he.ne_empty_of_isInfixed ht)
  | done => rintro _ ⟨⟩
  | last _ hne _ ih =>
    rintro _ ⟨⟩
    exact ih hts hne
  | @frac nested ts e t mid f mid' items rest _ hne _ _ _ _ ihe _ _ =>
    rintro _ ⟨⟩
    show e.unwrap.startsWithFence = _
    rw [startsWithFence_unwrap]
    exact ihe hts hne
  | noFrac _ hne _ _ _ ihe _ _ =>
    rintro _ ⟨⟩
    exact ihe hts hne
  | more _ hne _ _ _ ihe _ =>
    rintro _ ⟨⟩
    exact ihe hts hne

/-! ## Reading on inside of a parenthesis -/

theorem ahead_map_plain {p : Token → Bool} (hp : ∀ t, p t.plain = p t) (ts : List Token) :
    ahead p (ts.map Token.plain) = ahead p ts := by
  cases ts with
  | nil => rfl
  | cons t ts => exact hp t

theorem ahead_append_of_ne_nil {p : Token → Bool} {ts : List Token} (hts : ts ≠ [])
    (tail : List Token) : ahead p (ts ++ tail) = ahead p ts := by
  obtain ⟨t, ts, rfl⟩ := List.exists_cons_of_ne_nil hts
  rfl

/-- No operator between operands comes next, also if a closing delimiter is added. -/
theorem isInfixed_append {rest tail : List Token} {id : String}
    (h : ahead (·.isInfixed id) rest = false) (htail : ahead Token.isClosing tail = true) :
    ahead (·.isInfixed id) (rest ++ tail) = false := by
  cases rest with
  | nil =>
    have hstop : Stops true tail := .inr ⟨rfl, htail⟩
    exact hstop.isInfixed_eq_false id
  | cons t rest => exact h

/-- A reading of one expression, beside the one without conversions.  If nothing is missing there,
it can be repeated inside of a parenthesis, with a closing delimiter after the tokens. -/
structure Enters (s : Setting) (J : Bool → List Token → Expr → List Token → Judgment)
    (nested : Bool) (ts : List Token) (e : Expr) (rest : List Token) (raw : Expr) : Prop where
  read : Derives s (J nested (ts.map Token.plain) raw (rest.map Token.plain))
  empty : raw = .empty ↔ e = .empty
  kept (h : ∀ t ∈ ts, t.firstOperand = .keep) : raw = e
  /-- A closing delimiter outside of parentheses would be a symbol. -/
  start (hnested : nested = false) (h : All Complete raw) : ahead Token.isClosing ts = false
  inside (h : All Complete raw) (tail : List Token) (htail : ahead Token.isClosing tail = true) :
    Derives s (J true (ts ++ tail) e (rest ++ tail))

/-- A run that ends inside of a parenthesis at a token that could also open one. -/
def Blocked (s : Setting) (ts : List Token) : Prop :=
  ∃ items d rest, d.isFence = true ∧ Derives s (.run true ts items (d :: rest))

/-- Inside of a parenthesis, with a closing delimiter after the tokens, a run goes on to its end; or
it ends early, because some item starts with a token that opens it outside but closes inside. -/
def Continues (s : Setting) (nested : Bool) (ts : List Token) (items : List Expr)
    (rest tail : List Token) : Prop :=
  items.IsChain Follows ∧ Derives s (.run true (ts ++ tail) items (rest ++ tail)) ∨
    nested = false ∧ ¬ items.IsChain Follows ∧ Blocked s (ts ++ tail)

/-- A reading of a run, beside the one without conversions. -/
structure EntersRun (s : Setting) (nested : Bool) (ts : List Token) (items : List Expr)
    (rest : List Token) (raws : List Expr) : Prop where
  read : Derives s (.run nested (ts.map Token.plain) raws (rest.map Token.plain))
  kept (h : ∀ t ∈ ts, t.firstOperand = .keep) : raws = items
  start (hnested : nested = false) (h : ∀ raw ∈ raws, All Complete raw) :
    ahead Token.isClosing ts = false
  inside (h : ∀ raw ∈ raws, All Complete raw) (tail : List Token)
    (htail : ahead Token.isClosing tail = true) : Continues s nested ts items rest tail

/-- What is read can be compared with what is read inside of a parenthesis. -/
def Judgment.Enters (s : Setting) : Judgment → Prop
  | .simple nested ts e rest => ∃ raw, Grammar.Enters s .simple nested ts e rest raw
  | .intermediate nested ts e rest => ∃ raw, Grammar.Enters s .intermediate nested ts e rest raw
  | .run nested ts items rest => ∃ raws, EntersRun s nested ts items rest raws

/-- Outside of parentheses, something is read wherever there is a token. -/
theorem Derives.exists_cons {s : Setting} {t : Token} {ts rest : List Token} {items : List Expr}
    (h : Derives s (.run false (t :: ts) items rest)) : ∃ e es, items = e :: es := by
  refine List.exists_cons_of_ne_nil ?_
  rintro rfl
  obtain ⟨-, hnil | ⟨hnested, -⟩⟩ := h.stops_of_nil
  · exact nomatch hnil
  · exact nomatch hnested

/-- An item, and a run right after it.  If the token between them can both open and close, it ends
the run inside of a parenthesis. -/
theorem continues_more {s : Setting} {nested : Bool} {ts mid rest tail : List Token} {t : Token}
    {e : Expr} {items : List Expr} (he : Derives s (.intermediate nested ts e (t :: mid)))
    (hne : e ≠ .empty) (ht : t.isInfixed "frac" = false) (hgo : (t.closes && nested) = false)
    (hr : Derives s (.run nested (t :: mid) items rest)) (hts : ∀ u ∈ t :: mid, u.Standard)
    (hclosing : nested = false → t.isClosing = false)
    (he' : Derives s (.intermediate true (ts ++ tail) e (t :: mid ++ tail)))
    (hr' : Continues s nested (t :: mid) items rest tail) :
    Continues s nested ts (e :: items) rest tail := by
  have hstarts : ∀ f ∈ items.head?, f.startsWithFence = t.isFence := hr.starts hts
  cases hfence : t.isFence with
  | true =>
    have hcloses := Token.closes_of_isFence hfence
    have hnested : nested = false := by simpa [hcloses] using hgo
    subst hnested
    refine .inr ⟨rfl, fun hchain => ?_, [e], t, mid ++ tail, hfence, ?_⟩
    · obtain ⟨f, items, rfl⟩ := hr.exists_cons
      rcases (List.isChain_cons.mp hchain).1 f rfl with hform | hstart
      · exact (he.wellShaped.2 hne).2 hform
      · rw [hstarts f rfl, hfence] at hstart
        exact nomatch hstart
    · exact .last he' hne (.inr ⟨rfl, hcloses⟩)
  | false =>
    have hcloses : t.closes = false := by
      cases nested with
      | false => exact Token.closes_eq_false (hclosing rfl) hfence
      | true => simpa using hgo
    have hgo' : (t.closes && true) = false := by rw [hcloses, Bool.false_and]
    rcases hr' with ⟨hchain, hrun⟩ | ⟨hnested, hchain, items', d, rest', hd, hrun⟩
    · refine .inl ⟨List.isChain_cons.mpr ⟨fun f hf => .inr ?_, hchain⟩, ?_⟩
      · rw [hstarts f hf, hfence]
      · exact .more he' hne ht hgo' hrun
    · exact .inr ⟨hnested, fun h => hchain h.tail, _, d, rest', hd, .more he' hne ht hgo' hrun⟩

/-! ### A lemma for each rule

The reading without conversions of what a rule reads, from those of its parts. -/

section

variable {s : Setting} {nested : Bool} {t u : Token} {ts mid mid' rest : List Token}
  {e f g raw raw' raw'' : Expr} {items raws : List Expr}

theorem all_complete_of_unwrap (h : All Complete e.unwrap) : All Complete e :=
  (loose_complete.all_unwrap e).mp h

/-- A closing delimiter outside of parentheses shows that something is missing. -/
theorem enters_stray (hstandard : t.Standard) (ht : t.isClosing = true) :
    Enters s .simple false (t :: ts) (.symbol t.toSymbol) ts (.symbol t.toSymbol) := by
  have incomplete : ¬ All Complete (.symbol t.toSymbol) := by
    intro h
    have hclosing : t.toSymbol.token.isClosing = false := h _ List.mem_cons_self
    rw [hstandard.token_toSymbol_of_closes (Token.closes_of_isClosing ht), ht] at hclosing
    cases hclosing
  exact ⟨.stray ht, Iff.rfl, fun _ => rfl, fun _ h => absurd h incomplete,
    fun h => absurd h incomplete⟩

theorem enters_leaf (ht : t.isLeaf = true) :
    Enters s .simple nested (t :: ts) (leaf t) ts (leaf t) := by
  refine ⟨.leaf ht, Iff.rfl, fun _ => rfl, fun _ _ => ?_, fun _ tail _ => .leaf ht⟩
  rw [ahead_cons]
  cases hclosing : t.isClosing with
  | false => rfl
  | true => simp [Token.isLeaf, eq_of_beq hclosing] at ht

theorem enters_unary (ht : t.kind = .role .unary)
    (hc : s.convert t.operand e.unwrap = .ok e.unwrap)
    (he : Enters s .simple nested ts e rest raw) :
    Enters s .simple nested (t :: ts) (.unary (.symbol t.toSymbol) e.unwrap) rest
      (.unary (.symbol t.toSymbol) raw.unwrap) := by
  refine ⟨.unary ht he.read rfl, by simp, fun h => ?_,
    fun _ _ => Token.isClosing_eq_false_of_kind ht (by decide), fun h tail htail => ?_⟩
  · rw [he.kept (forall_mem_of_suffix h (List.suffix_cons t ts))]
  · exact .unary ht (he.inside (all_complete_of_unwrap (all_unary.mp h).2) tail htail) hc

theorem enters_binary {first : Expr} (ht : t.kind = .role .binary)
    (hc : s.convert t.firstOperand e.unwrap = .ok first)
    (hd : s.convert t.secondOperand f.unwrap = .ok f.unwrap) (hmid : mid <:+ ts)
    (he : Enters s .simple nested ts e mid raw) (hf : Enters s .simple nested mid f rest raw') :
    Enters s .simple nested (t :: ts) (.binary (.symbol t.toSymbol) first f.unwrap) rest
      (.binary (.symbol t.toSymbol) raw.unwrap raw'.unwrap) := by
  refine ⟨.binary ht he.read hf.read rfl rfl, by simp, fun h => ?_,
    fun _ _ => Token.isClosing_eq_false_of_kind ht (by decide), fun h tail htail => ?_⟩
  · have h' := forall_mem_of_suffix h (List.suffix_cons t ts)
    rw [h t List.mem_cons_self] at hc
    cases hc
    rw [he.kept h', hf.kept (forall_mem_of_suffix h' hmid)]
  · obtain ⟨-, hfirst, hsecond⟩ := all_binary.mp h
    exact .binary ht (he.inside (all_complete_of_unwrap hfirst) tail htail)
      (hf.inside (all_complete_of_unwrap hsecond) tail htail) hc hd

theorem enters_paren {d : Token} (ht : t.opens = true) (hclosed : ahead Token.closes ts = false)
    (hne : ts ≠ []) (hd : d.closes = true) (hr : EntersRun s true ts items (d :: rest) raws) :
    Enters s .simple nested (t :: ts)
      (Expr.paren (.symbol t.toSymbol) (ofItems items) (.symbol d.toSymbol) false).inferMatrix rest
      (Expr.paren (.symbol t.toSymbol) (ofItems raws) (.symbol d.plain.toSymbol)
        false).inferMatrix := by
  refine ⟨.paren ht ((ahead_map_plain (fun _ => rfl) ts).trans hclosed) hr.read hd,
    iff_of_false (inferMatrix_paren_ne_empty _ _ _ _) (inferMatrix_paren_ne_empty _ _ _ _),
    fun h => ?_, fun _ _ => Token.isClosing_eq_false_of_opens ht, fun h tail htail => ?_⟩
  · rw [hr.kept (forall_mem_of_suffix h (List.suffix_cons t ts))]
    rfl
  · have hall := (loose_complete.all_inferMatrix _ _ raws false).mp h
    -- the body is read inside of a parenthesis already, so it does not end early
    rcases hr.inside hall tail htail with ⟨-, hrun⟩ | ⟨hnested, -⟩
    · exact .paren ht ((ahead_append_of_ne_nil hne tail).trans hclosed) hrun hd
    · cases hnested

theorem enters_unclosed (ht : t.opens = true) (hclosed : ahead Token.closes ts = false)
    (hr : EntersRun s true ts items [] raws) :
    Enters s .simple nested (t :: ts) (.paren (.symbol t.toSymbol) (ofItems items) .missing false)
      [] (.paren (.symbol t.toSymbol) (ofItems raws) .missing false) := by
  refine ⟨.unclosed ht ((ahead_map_plain (fun _ => rfl) ts).trans hclosed) hr.read, by simp,
    fun h => ?_, fun _ _ => Token.isClosing_eq_false_of_opens ht, fun h => ?_⟩
  · rw [hr.kept (forall_mem_of_suffix h (List.suffix_cons t ts))]
  · cases (all_paren.mp h).1.2

theorem enters_bare (hsub : ahead (·.isInfixed "sub") rest = false)
    (hsup : ahead (·.isInfixed "sup") rest = false) (he : Enters s .simple nested ts e rest raw) :
    Enters s .intermediate nested ts e rest raw := by
  refine ⟨.bare he.read ?_ ?_, he.empty, he.kept, he.start, fun h tail htail => ?_⟩
  · exact (ahead_map_plain (fun _ => rfl) rest).trans hsub
  · exact (ahead_map_plain (fun _ => rfl) rest).trans hsup
  · exact .bare (he.inside h tail htail) (isInfixed_append hsub htail) (isInfixed_append hsup htail)

theorem enters_sub (ht : t.isInfixed "sub" = true) (hne : f ≠ .empty)
    (hsup : ahead (·.isInfixed "sup") rest = false) (hmid : mid <:+ ts)
    (he : Enters s .simple nested ts e (t :: mid) raw)
    (hf : Enters s .simple nested mid f rest raw') :
    Enters s .intermediate nested ts (.scripts e f.unwrap .empty) rest
      (.scripts raw raw'.unwrap .empty) := by
  refine ⟨.sub he.read ht hf.read (mt hf.empty.mp hne)
      ((ahead_map_plain (fun _ => rfl) rest).trans hsup),
    by simp, fun h => ?_, fun hnested h => ?_, fun h tail htail => ?_⟩
  · rw [he.kept h, hf.kept (forall_mem_of_suffix h hmid)]
  · exact he.start hnested (all_scripts.mp h).2.1.1
  · obtain ⟨-, ⟨hbase, hscript⟩, -⟩ := all_scripts.mp h
    exact .sub (he.inside hbase tail htail) ht
      (hf.inside (all_complete_of_unwrap hscript) tail htail) hne (isInfixed_append hsup htail)

theorem enters_subSup (ht : t.isInfixed "sub" = true) (hne : f ≠ .empty)
    (hu : u.isInfixed "sup" = true) (hmid : mid <:+ ts) (hmid' : mid' <:+ ts)
    (he : Enters s .simple nested ts e (t :: mid) raw)
    (hf : Enters s .simple nested mid f (u :: mid') raw')
    (hg : Enters s .simple nested mid' g rest raw'') :
    Enters s .intermediate nested ts (.scripts e f.unwrap g.unwrap) rest
      (.scripts raw raw'.unwrap raw''.unwrap) := by
  refine ⟨.subSup he.read ht hf.read (mt hf.empty.mp hne) hu hg.read,
    by simp, fun h => ?_, fun hnested h => ?_, fun h tail htail => ?_⟩
  · rw [he.kept h, hf.kept (forall_mem_of_suffix h hmid), hg.kept (forall_mem_of_suffix h hmid')]
  · exact he.start hnested (all_scripts.mp h).2.1.1
  · obtain ⟨-, ⟨hbase, hsub⟩, hsup⟩ := all_scripts.mp h
    exact .subSup (he.inside hbase tail htail) ht
      (hf.inside (all_complete_of_unwrap hsub) tail htail) hne hu
      (hg.inside (all_complete_of_unwrap hsup) tail htail)

theorem enters_sup (ht : t.isInfixed "sup" = true) (hne : f ≠ .empty) (hmid : mid <:+ ts)
    (he : Enters s .simple nested ts e (t :: mid) raw)
    (hf : Enters s .simple nested mid f rest raw') :
    Enters s .intermediate nested ts (.scripts e .empty f.unwrap) rest
      (.scripts raw .empty raw'.unwrap) := by
  refine ⟨.sup he.read ht hf.read (mt hf.empty.mp hne),
    by simp, fun h => ?_, fun hnested h => ?_, fun h tail htail => ?_⟩
  · rw [he.kept h, hf.kept (forall_mem_of_suffix h hmid)]
  · exact he.start hnested (all_scripts.mp h).2.1.1
  · obtain ⟨-, ⟨hbase, -⟩, hscript⟩ := all_scripts.mp h
    exact .sup (he.inside hbase tail htail) ht
      (hf.inside (all_complete_of_unwrap hscript) tail htail) hne

theorem entersRun_last (hne : e ≠ .empty)
    (hend : rest = [] ∨ nested = true ∧ ahead Token.closes rest = true)
    (he : Enters s .intermediate nested ts e rest raw) :
    EntersRun s nested ts [e] rest [raw] := by
  have hend' : rest.map Token.plain = [] ∨
      nested = true ∧ ahead Token.closes (rest.map Token.plain) = true := by
    rw [List.map_eq_nil_iff, ahead_map_plain fun _ => rfl]
    exact hend
  refine ⟨.last he.read (mt he.empty.mp hne) hend', fun h => ?_, fun hnested h => ?_,
    fun h tail htail => .inl ⟨.singleton e, ?_⟩⟩
  · rw [he.kept h]
  · exact he.start hnested (h raw List.mem_cons_self)
  · refine .last (he.inside (h raw List.mem_cons_self) tail htail) hne (.inr ⟨rfl, ?_⟩)
    cases rest with
    | nil => exact ahead_closes_of_isClosing htail
    | cons d rest =>
      rcases hend with hnil | ⟨-, hcloses⟩
      · cases hnil
      · exact hcloses

/-- Any token may follow a fraction, since its second part is read before. -/
theorem continues_frac {tail : List Token} (hne : e ≠ .empty) (ht : t.isInfixed "frac" = true)
    (hfne : f ≠ .empty) (he : Derives s (.intermediate true (ts ++ tail) e (t :: mid ++ tail)))
    (hf : Derives s (.intermediate true (mid ++ tail) f (mid' ++ tail)))
    (hr : Continues s nested mid' items rest tail) :
    Continues s nested ts (.infixed (.symbol t.toSymbol) e.unwrap f.unwrap :: items) rest tail := by
  rcases hr with ⟨hchain, hrun⟩ | ⟨hnested, hchain, items', d, rest', hd, hrun⟩
  · refine .inl ⟨List.isChain_cons.mpr ⟨fun _ _ => .inl rfl, hchain⟩, ?_⟩
    exact .frac he hne ht hf hfne hrun
  · exact .inr ⟨hnested, fun h => hchain h.tail, _, d, rest', hd, .frac he hne ht hf hfne hrun⟩

theorem entersRun_frac (hne : e ≠ .empty) (ht : t.isInfixed "frac" = true) (hfne : f ≠ .empty)
    (hmid : mid <:+ ts) (hmid' : mid' <:+ ts)
    (he : Enters s .intermediate nested ts e (t :: mid) raw)
    (hf : Enters s .intermediate nested mid f mid' raw')
    (hr : EntersRun s nested mid' items rest raws) :
    EntersRun s nested ts (.infixed (.symbol t.toSymbol) e.unwrap f.unwrap :: items) rest
      (.infixed (.symbol t.plain.toSymbol) raw.unwrap raw'.unwrap :: raws) := by
  refine ⟨.frac he.read (mt he.empty.mp hne) ht hf.read (mt hf.empty.mp hfne) hr.read,
    fun h => ?_, fun hnested h => ?_, fun h tail htail => ?_⟩
  · rw [he.kept h, hf.kept (forall_mem_of_suffix h hmid), hr.kept (forall_mem_of_suffix h hmid')]
    rfl
  · have hfirst := (all_infixed.mp (List.forall_mem_cons.mp h).1).2.1
    exact he.start hnested (all_complete_of_unwrap hfirst)
  · obtain ⟨hitem, hitems⟩ := List.forall_mem_cons.mp h
    obtain ⟨-, hfirst, hsecond⟩ := all_infixed.mp hitem
    exact continues_frac hne ht hfne (he.inside (all_complete_of_unwrap hfirst) tail htail)
      (hf.inside (all_complete_of_unwrap hsecond) tail htail) (hr.inside hitems tail htail)

/-- After a bar that is dropped, nothing is read, inside or outside. -/
theorem entersRun_noFrac (hne : e ≠ .empty) (ht : t.isInfixed "frac" = true)
    (hmid' : mid' <:+ ts) (he : Enters s .intermediate nested ts e (t :: mid) raw)
    (hf : Enters s .intermediate nested mid .empty mid' .empty)
    (hr : EntersRun s nested mid' [] rest raws) :
    EntersRun s nested ts [e] rest (raw :: raws) := by
  refine ⟨.noFrac he.read (mt he.empty.mp hne) ht hf.read hr.read,
    fun h => ?_, fun hnested h => ?_, fun h tail htail => ?_⟩
  · rw [he.kept h, hr.kept (forall_mem_of_suffix h hmid')]
  · exact he.start hnested (h raw List.mem_cons_self)
  · obtain ⟨hitem, hitems⟩ := List.forall_mem_cons.mp h
    rcases hr.inside hitems tail htail with ⟨-, hrun⟩ | ⟨-, hchain, -⟩
    · refine .inl ⟨.singleton e, ?_⟩
      exact .noFrac (he.inside hitem tail htail) hne ht (hf.inside all_empty tail htail) hrun
    · exact absurd .nil hchain

end

/-- What is read outside can be read inside, but for tokens that open outside and close inside. -/
theorem Derives.enters {s : Setting} (hs : s.stop = none) {j : Judgment} (h : Derives s j)
    (hts : ∀ t ∈ j.tokens, t.Standard) : j.Enters s := by
  induction h with
  | atEnd =>
    refine ⟨.empty, .atEnd, Iff.rfl, fun _ => rfl, fun _ _ => rfl, fun _ tail htail => ?_⟩
    exact derives_empty (.inr ⟨rfl, htail⟩)
  | atClosing ht =>
    exact ⟨.empty, .atClosing ht, Iff.rfl, fun _ => rfl, Bool.noConfusion,
      fun _ tail _ => .atClosing ht⟩
  | stray ht => exact ⟨_, enters_stray (hts _ List.mem_cons_self) ht⟩
  | leaf ht => exact ⟨_, enters_leaf ht⟩
  | @unary nested t ts e operand rest ht he hc ih =>
    obtain ⟨raw, hraw⟩ := ih (forall_mem_of_suffix hts (List.suffix_cons t ts))
    have hkeep := hc
    rw [(hts t List.mem_cons_self).operand] at hkeep
    cases hkeep
    exact ⟨_, enters_unary ht hc hraw⟩
  | @binary nested t ts e f first second mid rest ht he hf hc hd ihe ihf =>
    have hts' := forall_mem_of_suffix hts (List.suffix_cons t ts)
    obtain ⟨raw, hraw⟩ := ihe hts'
    obtain ⟨raw', hraw'⟩ := ihf (forall_mem_of_suffix hts' he.leavesSuffix)
    have hkeep := hd
    rw [(hts t List.mem_cons_self).secondOperand] at hkeep
    cases hkeep
    exact ⟨_, enters_binary ht hc hd he.leavesSuffix hraw hraw'⟩
  | void ht hc =>
    exact ⟨_, .void ht hc, Iff.rfl, fun _ => rfl, fun _ _ => Token.isClosing_eq_false_of_opens ht,
      fun _ tail _ => .void ht hc⟩
  | @paren nested t ts items d rest ht hclosed hr hd ih =>
    obtain ⟨raws, hraws⟩ := ih (forall_mem_of_suffix hts (List.suffix_cons t ts))
    have hne : ts ≠ [] := by
      rintro rfl
      exact List.cons_ne_nil _ _ (List.eq_nil_of_suffix_nil hr.leavesSuffix)
    exact ⟨_, enters_paren ht hclosed hne hd hraws⟩
  | @unclosed nested t ts items ht hclosed hr ih =>
    obtain ⟨raws, hraws⟩ := ih (forall_mem_of_suffix hts (List.suffix_cons t ts))
    exact ⟨_, enters_unclosed ht hclosed hraws⟩
  | bare he hsub hsup ih =>
    obtain ⟨raw, hraw⟩ := ih hts
    exact ⟨raw, enters_bare hsub hsup hraw⟩
  | dangling he ht hf ihe ihf =>
    obtain ⟨raw, hraw⟩ := ihe hts
    obtain ⟨raw', hraw'⟩ := ihf (forall_mem_of_suffix hts (tail_suffix he.leavesSuffix))
    obtain rfl := hraw'.empty.mpr rfl
    refine ⟨raw, .dangling hraw.read ht hraw'.read, hraw.empty, hraw.kept, hraw.start,
      fun h tail htail => ?_⟩
    exact .dangling (hraw.inside h tail htail) ht (hraw'.inside all_empty tail htail)
  | @sub nested ts e t mid f rest he ht hf hne hsup ihe ihf =>
    have hmid : mid <:+ ts := tail_suffix he.leavesSuffix
    obtain ⟨raw, hraw⟩ := ihe hts
    obtain ⟨raw', hraw'⟩ := ihf (forall_mem_of_suffix hts hmid)
    exact ⟨_, enters_sub ht hne hsup hmid hraw hraw'⟩
  | @subSup nested ts e t mid f u mid' g rest he ht hf hne hu hg ihe ihf ihg =>
    have hmid : mid <:+ ts := tail_suffix he.leavesSuffix
    have hmid' : mid' <:+ ts := (tail_suffix hf.leavesSuffix).trans hmid
    obtain ⟨raw, hraw⟩ := ihe hts
    obtain ⟨raw', hraw'⟩ := ihf (forall_mem_of_suffix hts hmid)
    obtain ⟨raw'', hraw''⟩ := ihg (forall_mem_of_suffix hts hmid')
    exact ⟨_, enters_subSup ht hne hu hmid hmid' hraw hraw' hraw''⟩
  | @sup nested ts e t mid f rest he ht hf hne ihe ihf =>
    have hmid : mid <:+ ts := tail_suffix he.leavesSuffix
    obtain ⟨raw, hraw⟩ := ihe hts
    obtain ⟨raw', hraw'⟩ := ihf (forall_mem_of_suffix hts hmid)
    exact ⟨_, enters_sup ht hne hmid hraw hraw'⟩
  | done he ih =>
    obtain ⟨raw, hraw⟩ := ih hts
    obtain rfl := hraw.empty.mpr rfl
    refine ⟨[], .done hraw.read, fun _ => rfl, fun hnested _ => hraw.start hnested all_empty,
      fun _ tail htail => .inl ⟨.nil, ?_⟩⟩
    exact .done (hraw.inside all_empty tail htail)
  | last he hne hend ih =>
    obtain ⟨raw, hraw⟩ := ih hts
    exact ⟨[raw], entersRun_last hne hend hraw⟩
  | @frac nested ts e t mid f mid' items rest he hne ht hf hfne hr ihe ihf ihr =>
    have hmid : mid <:+ ts := tail_suffix he.leavesSuffix
    have hmid' : mid' <:+ ts := hf.leavesSuffix.trans hmid
    obtain ⟨raw, hraw⟩ := ihe hts
    obtain ⟨raw', hraw'⟩ := ihf (forall_mem_of_suffix hts hmid)
    obtain ⟨raws, hraws⟩ := ihr (forall_mem_of_suffix hts hmid')
    exact ⟨_, entersRun_frac hne ht hfne hmid hmid' hraw hraw' hraws⟩
  | @noFrac nested ts e t mid mid' items rest he hne ht hf hr ihe ihf ihr =>
    have hmid : mid <:+ ts := tail_suffix he.leavesSuffix
    have hmid' : mid' <:+ ts := hf.leavesSuffix.trans hmid
    obtain ⟨raw, hraw⟩ := ihe hts
    obtain ⟨raw', hraw'⟩ := ihf (forall_mem_of_suffix hts hmid)
    obtain ⟨raws, hraws⟩ := ihr (forall_mem_of_suffix hts hmid')
    obtain ⟨rfl, hstop⟩ := hf.emptyAtStop rfl
    obtain ⟨rfl, -⟩ := hr.nil_of_stops hs hstop
    obtain rfl := hraw'.empty.mpr rfl
    exact ⟨_, entersRun_noFrac hne ht hmid' hraw hraw' hraws⟩
  | @more nested ts e t mid items rest he hne ht hgo hr ihe ihr =>
    have hmid : t :: mid <:+ ts := he.leavesSuffix
    obtain ⟨raw, hraw⟩ := ihe hts
    obtain ⟨raws, hraws⟩ := ihr (forall_mem_of_suffix hts hmid)
    refine ⟨raw :: raws, .more hraw.read (mt hraw.empty.mp hne) ht hgo hraws.read,
      fun h => ?_, fun hnested h => ?_, fun h tail htail => ?_⟩
    · rw [hraw.kept h, hraws.kept (forall_mem_of_suffix h hmid)]
    · exact hraw.start hnested (h raw List.mem_cons_self)
    · obtain ⟨hitem, hitems⟩ := List.forall_mem_cons.mp h
      exact continues_more he hne ht hgo hr (forall_mem_of_suffix hts hmid)
        (fun hnested => hraws.start hnested hitems) (hraw.inside hitem tail htail)
        (hraws.inside hitems tail htail)

/-! ## Between round parentheses -/

section

variable {s : Setting} {nested : Bool} {ts rest rest' : List Token} {e e' : Expr}
  {items raws : List Expr}

theorem Derives.simple_unique (hs : s.stop = none) (h : Derives s (.simple nested ts e rest))
    (h' : Derives s (.simple nested ts e' rest')) : e = e' := by
  obtain ⟨st, hst, rfl, -⟩ := h.result hs
  obtain ⟨st', hst', rfl, -⟩ := h'.result hs
  rw [hst] at hst'
  cases hst'
  rfl

/-- A run of one parenthesis is read as a simple expression. -/
theorem Derives.exists_simple (h : Derives s (.run nested ts [e] rest))
    (hform : e.form = .paren ∨ e.form = .other) : ∃ mid, Derives s (.simple nested ts e mid) := by
  have hint : ∃ mid, Derives s (.intermediate nested ts e mid) := by
    cases h with
    | last he => exact ⟨_, he⟩
    | frac => exact absurd hform (by simp [form])
    | noFrac he => exact ⟨_, he⟩
    | more he => exact ⟨_, he⟩
  obtain ⟨mid, hint⟩ := hint
  cases hint with
  | bare he => exact ⟨_, he⟩
  | dangling he => exact ⟨_, he⟩
  | sub => exact absurd hform (by simp [form])
  | subSup => exact absurd hform (by simp [form])
  | sup => exact absurd hform (by simp [form])

theorem derives_parenthesized
    (hr : Derives s (.simple false (.leftRound :: ts) e.parenthesized [])) :
    Derives s (.run false (.leftRound :: ts) [e.parenthesized] []) :=
  .last (.bare hr rfl rfl) (parenthesized_ne_empty e) (.inl rfl)

/-- A run that nothing is missing from can be read between round parentheses exactly if no item
starts with a token that would close them. -/
theorem Derives.parenthesized_iff (hs : s.stop = none) (hr : Derives s (.run false ts items []))
    (hts : ∀ t ∈ ts, t.Standard) (h : EntersRun s false ts items [] raws)
    (hcomplete : ∀ raw ∈ raws, All Complete raw) :
    Derives s
        (.run false (.leftRound :: (ts ++ [.rightRound])) [(ofItems items).parenthesized] []) ↔
      (∀ f ∈ items.head?, f.startsWithFence = false) ∧ items.IsChain Follows := by
  have hstarts : ∀ f ∈ items.head?, f.startsWithFence = ahead Token.isFence ts := hr.starts hts
  have hclosing : ahead Token.isClosing ts = false := h.start rfl hcomplete
  have hinside := h.inside hcomplete [.rightRound] rfl
  have hstandard : ∀ t ∈ ts ++ [.rightRound], t.Standard :=
    List.forall_mem_append.mpr ⟨hts, List.forall_mem_singleton.mpr
      (Token.listed_known (by decide)).standard⟩
  -- a parenthesis that another token closes is read in the place of this one
  have unread {left : Delimiter} {body : Expr} {d : Token} {rest : List Token}
      (hd : d ∈ ts ++ [.rightRound]) (hfence : d.isFence = true)
      (hp : Derives s (.simple false (.leftRound :: (ts ++ [.rightRound]))
        (Expr.paren left body (.symbol d.toSymbol) false).inferMatrix rest)) :
      ¬ Derives s
        (.run false (.leftRound :: (ts ++ [.rightRound])) [(ofItems items).parenthesized] []) := by
    intro hrun
    obtain ⟨mid, hsimple⟩ := hrun.exists_simple (form_parenthesized _)
    exact parenthesized_ne (hstandard d hd) hfence _ (hsimple.simple_unique hs hp)
  cases ts with
  | nil =>
    obtain ⟨rfl, -⟩ := hr.nil_of_stops hs (.inl rfl)
    exact ⟨fun _ => ⟨nofun, .nil⟩, fun _ => derives_parenthesized (.void rfl rfl)⟩
  | cons t ts =>
    rw [ahead_cons] at hclosing hstarts
    cases hfence : t.isFence with
    | true =>
      have hvoid : Derives s (.simple false (.leftRound :: (t :: ts ++ [.rightRound]))
          (Expr.paren (.symbol Token.leftRound.toSymbol) .empty (.symbol t.toSymbol)
            false).inferMatrix (ts ++ [.rightRound])) :=
        .void rfl (Token.closes_of_isFence hfence)
      refine iff_of_false (unread List.mem_cons_self hfence hvoid) ?_
      rintro ⟨hhead, -⟩
      obtain ⟨f, items, rfl⟩ := hr.exists_cons
      have hstart := hhead f rfl
      rw [hstarts f rfl, hfence] at hstart
      exact nomatch hstart
    | false =>
      have hcloses := Token.closes_eq_false hclosing hfence
      rcases hinside with ⟨hchain, hrun⟩ | ⟨-, hchain, items', d, rest', hd, hrun⟩
      · refine iff_of_true (derives_parenthesized (.paren rfl hcloses hrun rfl)) ⟨?_, hchain⟩
        intro f hf
        rw [hstarts f hf, hfence]
      · refine iff_of_false ?_ fun hitems => hchain hitems.2
        exact unread (hrun.leavesSuffix.subset List.mem_cons_self) hd
          (.paren rfl hcloses hrun (Token.closes_of_isFence hd))

end

end Grammar

/-! ## The source between parentheses -/

open Grammar

/-- With the built-in spellings, take a source whose expression has nothing missing: before any
operand is read as a color, every parenthesis and every group has both delimiters, and no closing
delimiter is a symbol.  Between parentheses, if it keeps its tokens there, it is read as the same
expression between parentheses exactly if no token that can both open and close starts the first
item, or an item that does not come after a fraction. -/
theorem parse_parenthesized_iff (colors : ColorTable) (source : String) :
    ∃ e raw, Expr.parse .spellings colors source = .ok e ∧
      Expr.ofReading colors (SymbolTable.spellings.read source).plain = .ok raw ∧
      ((∀ t ∈ (SymbolTable.spellings.read source).tokens, t.asksColor = false) → raw = e) ∧
      (raw.All Expr.Complete →
        (SymbolTable.spellings.read ("( " ++ source ++ " )")).tokens =
          .leftRound :: ((SymbolTable.spellings.read source).tokens ++ [.rightRound]) →
        (Expr.parse .spellings colors ("( " ++ source ++ " )") = .ok e.parenthesized ↔
          e.Enclosable)) := by
  have hstandard := Token.standard_read source
  obtain ⟨items, hparse, hd⟩ := exists_derives_of_convertible colors
    (SymbolTable.error_read_spellings source) fun t ht => (hstandard t ht).convertible
  obtain ⟨raws, hraws⟩ := hd.enters rfl hstandard
  refine ⟨_, .ofItems raws, hparse, ?_, fun hcolors => ?_, fun hcomplete htokens => ?_⟩
  · obtain ⟨r, hr, hitems, -⟩ := hraws.read.result rfl
    show Expr.ofReading colors ⟨_, (SymbolTable.spellings.read source).error⟩ = _
    rw [SymbolTable.error_read_spellings]
    unfold Expr.ofReading
    rw [hr, ← hitems]
    rfl
  · rw [hraws.kept fun t ht => (hstandard t ht).firstOperand.resolve_right
      (Token.firstOperand_ne_color (hcolors t ht))]
  · have hall := (Expr.all_ofItems Expr.loose_complete.sequence raws).mp hcomplete
    have hitems : (Expr.ofItems items).items = items :=
      Expr.items_ofItems fun e he => (hd.wellShaped e he).2
    unfold Expr.Enclosable
    rw [hitems, ← hd.parenthesized_iff rfl hstandard hraws hall, ← htokens]
    constructor
    · intro hparse'
      obtain ⟨items', heq, hd'⟩ := derives_of_parse hparse'
      rw [Expr.items_of_ofItems_eq heq.symm (Expr.form_parenthesized _),
        SymbolTable.error_read_spellings] at hd'
      exact hd'
    · intro hd'
      exact parse_of_derives (SymbolTable.error_read_spellings _) hd'

/-- A fraction comes before the bars, so they stay a parenthesis. -/
theorem parse_parenthesized_after_fraction :
    Expr.parse .spellings .basic "( a/b |c| )" =
      .ok (.paren (.symbol ⟨some "lparen", "("⟩)
        (.sequence
          [.infixed (.symbol ⟨some "frac", "/"⟩) (.identifier "a") (.identifier "b"),
            .paren (.symbol ⟨some "vbar", "|"⟩) (.identifier "c") (.symbol ⟨some "vbar", "|"⟩)
              false])
        (.symbol ⟨some "rparen", ")"⟩) false) := by
  have htokens : (SymbolTable.spellings.read "a/b |c|").tokens =
      [⟨.identifier, some "a", "a", []⟩, ⟨.role .infixed, some "frac", "/", []⟩,
        ⟨.identifier, some "b", "b", []⟩, ⟨.role .fence, some "vbar", "|", []⟩,
        ⟨.identifier, some "c", "c", []⟩, ⟨.role .fence, some "vbar", "|", []⟩] := by
    rw [SymbolTable.read_spellings]
    decide +kernel
  have htokens' : (SymbolTable.spellings.read ("( " ++ "a/b |c|" ++ " )")).tokens =
      .leftRound :: ((SymbolTable.spellings.read "a/b |c|").tokens ++ [.rightRound]) := by
    rw [htokens, SymbolTable.read_spellings]
    decide +kernel
  have hd : Derives ⟨.basic, none⟩ (.run false (SymbolTable.spellings.read "a/b |c|").tokens
      [.infixed (.symbol ⟨some "frac", "/"⟩) (.identifier "a") (.identifier "b"),
        .paren (.symbol ⟨some "vbar", "|"⟩) (.identifier "c") (.symbol ⟨some "vbar", "|"⟩) false]
      []) := by
    have hbars : Derives ⟨.basic, none⟩ (.run false
        [⟨.role .fence, some "vbar", "|", []⟩, ⟨.identifier, some "c", "c", []⟩,
          ⟨.role .fence, some "vbar", "|", []⟩]
        [.paren (.symbol ⟨some "vbar", "|"⟩) (.identifier "c") (.symbol ⟨some "vbar", "|"⟩) false]
        []) :=
      .last (.bare (.paren rfl rfl
        (.last (.bare (.leaf rfl) rfl rfl) (leaf_ne_empty _) (.inr ⟨rfl, rfl⟩)) rfl) rfl rfl) nofun
        (.inl rfl)
    rw [htokens]
    exact .frac (.bare (.leaf rfl) rfl rfl) (leaf_ne_empty _) rfl (.bare (.leaf rfl) rfl rfl)
      (leaf_ne_empty _) hbars
  have hparse := parse_of_derives (SymbolTable.error_read_spellings _) hd
  obtain ⟨e, raw, he, -, hkept, hiff⟩ := parse_parenthesized_iff .basic "a/b |c|"
  obtain rfl := Except.ok.inj (hparse.symm.trans he)
  obtain rfl := hkept (by rw [htokens]; decide)
  refine (hiff ?_ htokens').mpr ⟨?_, ?_⟩
  · simp [Expr.All, Expr.ofItems, Expr.nodes, Expr.itemNodes, Expr.Complete, Delimiter.isPresent]
  · rintro _ ⟨⟩
    rfl
  · exact .cons_cons (.inl rfl) (.singleton _)

/-- A source that nothing seems to be missing from, and that keeps its tokens between parentheses,
but is read as something else there. -/
def ReadOtherwise (source : String) : Prop :=
  ∃ e, Expr.parse .spellings .basic source = .ok e ∧ e.All Expr.Complete ∧
    (SymbolTable.spellings.read ("( " ++ source ++ " )")).tokens =
      .leftRound :: ((SymbolTable.spellings.read source).tokens ++ [.rightRound]) ∧
    Expr.parse .spellings .basic ("( " ++ source ++ " )") ≠ .ok e.parenthesized

theorem readOtherwise_of_derives {source : String} {ts : List Token} {items items' : List Expr}
    (htokens : (SymbolTable.spellings.read source).tokens = ts)
    (htokens' : (SymbolTable.spellings.read ("( " ++ source ++ " )")).tokens =
      .leftRound :: (ts ++ [.rightRound]))
    (hd : Derives ⟨.basic, none⟩ (.run false ts items []))
    (hd' : Derives ⟨.basic, none⟩ (.run false (.leftRound :: (ts ++ [.rightRound])) items' []))
    (hcomplete : (Expr.ofItems items).All Expr.Complete)
    (hne : Expr.ofItems items' ≠ (Expr.ofItems items).parenthesized) : ReadOtherwise source := by
  rw [← htokens'] at hd'
  rw [← htokens] at hd htokens'
  refine ⟨_, parse_of_derives (SymbolTable.error_read_spellings _) hd, hcomplete, htokens', ?_⟩
  rw [parse_of_derives (SymbolTable.error_read_spellings _) hd']
  exact fun h => hne (Except.ok.inj h)

/-- A bar that opens outside closes the parenthesis inside. -/
theorem readOtherwise_bars : ReadOtherwise "|x|" := by
  let bar : Token := ⟨.role .fence, some "vbar", "|", []⟩
  let x : Token := ⟨.identifier, some "x", "x", []⟩
  have htokens : (SymbolTable.spellings.read "|x|").tokens = [bar, x, bar] := by
    rw [SymbolTable.read_spellings]
    decide +kernel
  have htokens' : (SymbolTable.spellings.read ("( " ++ "|x|" ++ " )")).tokens =
      [.leftRound, bar, x, bar, .rightRound] := by
    rw [SymbolTable.read_spellings]
    decide +kernel
  have hbody : Derives ⟨.basic, none⟩ (.run true [x, bar] [.identifier "x"] [bar]) :=
    .last (.bare (.leaf rfl) rfl rfl) nofun (.inr ⟨rfl, rfl⟩)
  have hd : Derives ⟨.basic, none⟩ (.run false [bar, x, bar]
      [.paren (.symbol bar.toSymbol) (.identifier "x") (.symbol bar.toSymbol) false] []) :=
    .last (.bare (.paren rfl rfl hbody rfl) rfl rfl) nofun (.inl rfl)
  have hd' : Derives ⟨.basic, none⟩ (.run false [.leftRound, bar, x, bar, .rightRound]
      [.paren (.symbol Token.leftRound.toSymbol) .empty (.symbol bar.toSymbol) false,
        .identifier "x",
        .paren (.symbol bar.toSymbol) .empty (.symbol Token.rightRound.toSymbol) false] []) :=
    .more (.bare (.void rfl rfl) rfl rfl) nofun rfl rfl
      (.more (.bare (.leaf rfl) rfl rfl) nofun rfl rfl
        (.last (.bare (.void rfl rfl) rfl rfl) nofun (.inl rfl)))
  refine readOtherwise_of_derives htokens htokens' hd hd' ?_ (by decide)
  exact Expr.all_paren.mpr ⟨⟨rfl, rfl⟩, Expr.all_single rfl trivial⟩

/-- A parenthesis that is not closed is hidden in a color, and takes the closing delimiter. -/
theorem readOtherwise_color : ReadOtherwise "color(" := by
  let color : Token :=
    ⟨.role .binary, some "color", "color", [("convert_operand1", .choice .colorOperand)]⟩
  have htokens : (SymbolTable.spellings.read "color(").tokens = [color, .leftRound] := by
    rw [SymbolTable.read_spellings]
    decide +kernel
  have htokens' : (SymbolTable.spellings.read ("( " ++ "color(" ++ " )")).tokens =
      [.leftRound, color, .leftRound, .rightRound] := by
    rw [SymbolTable.read_spellings]
    decide +kernel
  have hd : Derives ⟨.basic, none⟩ (.run false [color, .leftRound]
      [.binary (.symbol color.toSymbol) (.color (ColorTable.basic.ofText "") "") .empty] []) :=
    .last (.bare (.binary rfl (.unclosed rfl rfl (.done (.bare .atEnd rfl rfl))) .atEnd rfl rfl)
      rfl rfl) nofun (.inl rfl)
  have hbody : Derives ⟨.basic, none⟩ (.run true [color, .leftRound, .rightRound]
      [.binary (.symbol color.toSymbol) (.color (ColorTable.basic.ofText "") "") .empty] []) :=
    .last (.bare (.binary rfl (.void rfl rfl) .atEnd rfl rfl) rfl rfl) nofun (.inl rfl)
  have hd' : Derives ⟨.basic, none⟩ (.run false [.leftRound, color, .leftRound, .rightRound]
      [.paren (.symbol Token.leftRound.toSymbol)
        (.binary (.symbol color.toSymbol) (.color (ColorTable.basic.ofText "") "") .empty)
        .missing false] []) :=
    .last (.bare (.unclosed rfl rfl hbody) rfl rfl) nofun (.inl rfl)
  refine readOtherwise_of_derives htokens htokens' hd hd' ?_ (by decide)
  exact Expr.all_binary.mpr ⟨trivial, Expr.all_single rfl trivial, Expr.all_empty⟩

/-- It is not enough that nothing is missing from the expression. -/
theorem parse_parenthesized_otherwise : ReadOtherwise "|x|" ∧ ReadOtherwise "color(" :=
  ⟨readOtherwise_bars, readOtherwise_color⟩

end MathMarkup
