import MathMarkup.Proofs.Leaves
import MathMarkup.Proofs.Shape

/-!
# Reading the leaves of an expression again

Tokens that spell the leaves of an expression are read as that expression, even though they are not
the tokens it was read from: operators that nothing follows are gone, and rows are round.

The grammar looks at the next token in a few ways only: whether there is one, whether it closes a
parenthesis, and which operator it is.  `Meets` says that this goes well where a piece of the old
tokens ends and a piece of the new ones does.  It is not symmetric, because an operator may stand in
the old tokens that is dropped from the new ones.  `Leads` says that two pieces start alike.

* `Grammar.Derives.regroups`: the induction over the rules, with one lemma for each rule.  For it to
  go through, an item may also be read with round delimiters (`Expr.Rounds`), as the rows of a
  matrix are.
* `parse_of_yield`: sources whose tokens are those of an expression without colors.
-/

namespace MathMarkup

/-! ## Tokens that spell leaves without a loss -/

namespace Spells

variable {color : Bool → String → List Token → List Token → Prop} {ts rest : List Token}
  {ls ls' : List Leaf}

theorem eq_of_nil (h : Spells false color ts [] rest) : ts = rest := by
  cases h with
  | nil => rfl
  | drop hlossy => exact nomatch hlossy

theorem exists_of_token {u : Token} (h : Spells false color ts (.token u :: ls) rest) :
    ∃ v vs, ts = v :: vs ∧ v.Same u ∧ Spells false color vs ls rest := by
  cases h with
  | token hsame hr => exact ⟨_, _, rfl, hsame, hr⟩
  | drop hlossy => exact nomatch hlossy

theorem exists_of_row {u : Token} (h : Spells false color ts (.row u :: ls) rest) :
    ∃ v vs, ts = v :: vs ∧ v.Same u ∧ Spells false color vs ls rest := by
  cases h with
  | row h hr =>
    rcases h with hsame | ⟨hlossy, -⟩
    · exact ⟨_, _, rfl, hsame, hr⟩
    · exact nomatch hlossy
  | drop hlossy => exact nomatch hlossy

theorem exists_of_color {nested : Bool} {written : String}
    (h : Spells false color ts (.color nested written :: ls) rest) :
    ∃ mid, color nested written ts mid ∧ Spells false color mid ls rest := by
  cases h with
  | color hcolor hr => exact ⟨_, hcolor, hr⟩
  | drop hlossy => exact nomatch hlossy

/-- Tokens for several leaves can be taken apart. -/
theorem split (h : Spells false color ts (ls ++ ls') rest) :
    ∃ mid, Spells false color ts ls mid ∧ Spells false color mid ls' rest := by
  induction ls generalizing ts with
  | nil => exact ⟨ts, .nil, h⟩
  | cons l ls ih =>
    cases l with
    | token u =>
      obtain ⟨v, vs, rfl, hsame, hr⟩ := exists_of_token h
      obtain ⟨mid, hls, hls'⟩ := ih hr
      exact ⟨mid, .token hsame hls, hls'⟩
    | row u =>
      obtain ⟨v, vs, rfl, hsame, hr⟩ := exists_of_row h
      obtain ⟨mid, hls, hls'⟩ := ih hr
      exact ⟨mid, .row (.inl hsame) hls, hls'⟩
    | color nested written =>
      obtain ⟨next, hcolor, hr⟩ := exists_of_color h
      obtain ⟨mid, hls, hls'⟩ := ih hr
      exact ⟨mid, .color hcolor hls, hls'⟩

/-- The token of a symbol is spelled by itself. -/
theorem exists_of_symbol {t : Token} (ht : t.toSymbol.token = t)
    (h : Spells false color ts (.token t.toSymbol.token :: ls) rest) :
    ∃ vs, ts = t :: vs ∧ Spells false color vs ls rest := by
  obtain ⟨role, hrole⟩ := t.toSymbol.token_kind
  obtain ⟨v, vs, rfl, hsame, hr⟩ := exists_of_token h
  obtain rfl := hsame.eq_of_role hrole
  exact ⟨vs, by rw [ht], hr⟩

end Spells

/-! ## The next token -/

namespace Token

theorem Same.symm {t u : Token} (h : t.Same u) : u.Same t := by
  rcases h with rfl | ⟨ht, hu, hvalue⟩
  · exact .inl rfl
  · exact .inr ⟨hu, ht, hvalue.symm⟩

theorem Same.trans {t u v : Token} (h : t.Same u) (h' : u.Same v) : t.Same v := by
  rcases h with rfl | ⟨ht, hu, hvalue⟩
  · exact h'
  · rcases h' with rfl | ⟨-, hv, hvalue'⟩
    · exact .inr ⟨ht, hu, hvalue⟩
    · exact .inr ⟨ht, hv, hvalue.trans hvalue'⟩

theorem Same.leaf_eq {t u : Token} (h : t.Same u) : Grammar.leaf t = Grammar.leaf u := by
  rcases h with rfl | ⟨ht, hu, hvalue⟩
  · rfl
  · simp only [Grammar.leaf, ht, hu, content, hvalue]

theorem Same.isLeaf_eq {t u : Token} (h : t.Same u) : t.isLeaf = u.isLeaf := by
  rcases h with rfl | ⟨ht, hu, -⟩
  · rfl
  · simp only [isLeaf, ht, hu]

/-- The grammar cannot tell two tokens apart by looking ahead. -/
def Cue (t v : Token) : Prop :=
  t.isClosing = v.isClosing ∧ t.closes = v.closes ∧ ∀ id, t.isInfixed id = v.isInfixed id

theorem Cue.refl (t : Token) : t.Cue t :=
  ⟨rfl, rfl, fun _ => rfl⟩

theorem Same.cue {t v : Token} (h : v.Same t) : t.Cue v := by
  rcases h with rfl | ⟨hv, ht, -⟩
  · exact Cue.refl v
  · refine ⟨?_, ?_, fun id => ?_⟩
    · rw [isClosing, isClosing, hv, ht]
    · rw [closes, closes, hv, ht]
    · rw [isInfixed, isInfixed, hv, ht]
      rfl

end Token

namespace Grammar

/-- Two lists of tokens start alike. -/
def Leads (ts vs : List Token) : Prop :=
  ∃ t ts' v vs', ts = t :: ts' ∧ vs = v :: vs' ∧ t.Cue v

/-- What can be read up to the first tokens can be read up to the second. -/
structure Meets (rest rest' : List Token) : Prop where
  nil : rest = [] → rest' = []
  closing : ahead Token.isClosing rest = true → ahead Token.isClosing rest' = true
  closes : ahead Token.closes rest = true → ahead Token.closes rest' = true
  infixed : ∀ id, ahead (·.isInfixed id) rest' = true → ahead (·.isInfixed id) rest = true

theorem Leads.ahead_closes {ts vs : List Token} (h : Leads ts vs) :
    ahead Token.closes vs = ahead Token.closes ts := by
  obtain ⟨t, ts, v, vs, rfl, rfl, hcue⟩ := h
  exact hcue.2.1.symm

theorem Leads.meets {ts vs : List Token} (h : Leads ts vs) : Meets ts vs := by
  obtain ⟨t, ts, v, vs, rfl, rfl, hclosing, hcloses, hinfixed⟩ := h
  refine ⟨nofun, ?_, ?_, fun id => ?_⟩
  · exact fun ht => hclosing.symm.trans ht
  · exact fun ht => hcloses.symm.trans ht
  · exact fun hv => (hinfixed id).trans hv

theorem leads_self (t : Token) (ts vs : List Token) : Leads (t :: ts) (t :: vs) :=
  ⟨t, ts, t, vs, rfl, rfl, Token.Cue.refl t⟩

/-- Where the old tokens stop, the new ones do. -/
theorem Meets.stops {nested : Bool} {rest rest' : List Token} (h : Meets rest rest')
    (hstop : Stops nested rest) : Stops nested rest' := by
  rcases hstop with hnil | ⟨hnested, hclosing⟩
  · exact .inl (h.nil hnil)
  · exact .inr ⟨hnested, h.closing hclosing⟩

theorem Stops.isInfixed_eq_false {nested : Bool} {rest : List Token} (h : Stops nested rest)
    (id : String) : ahead (·.isInfixed id) rest = false := by
  rcases h with rfl | ⟨-, hclosing⟩
  · rfl
  · cases rest with
    | nil => rfl
    | cons t ts => exact Token.isInfixed_eq_false_of_closes (Token.closes_of_isClosing hclosing) id

/-- An operator that nothing follows can be dropped. -/
theorem Meets.drop {nested : Bool} {t : Token} {rest rest' : List Token} {id : String}
    (h : Meets rest rest') (hstop : Stops nested rest) (ht : t.isInfixed id = true) :
    Meets (t :: rest) rest' := by
  refine ⟨nofun, fun hclosing => ?_, fun hcloses => ?_, fun id' hinfixed => ?_⟩
  · rw [ahead_cons, Token.isClosing_eq_false_of_isInfixed ht] at hclosing
    exact nomatch hclosing
  · rw [ahead_cons] at hcloses
    rw [Token.isInfixed_eq_false_of_closes hcloses] at ht
    exact nomatch ht
  · rw [(h.stops hstop).isInfixed_eq_false] at hinfixed
    exact nomatch hinfixed

theorem Meets.isInfixed_eq_false {rest rest' : List Token} (h : Meets rest rest') {id : String}
    (hrest : ahead (·.isInfixed id) rest = false) : ahead (·.isInfixed id) rest' = false := by
  by_contra hne
  rw [Bool.not_eq_false] at hne
  rw [h.infixed id hne] at hrest
  exact nomatch hrest

theorem derives_empty {s : Setting} {nested : Bool} {ts : List Token} (h : Stops nested ts) :
    Derives s (.simple nested ts .empty ts) := by
  rcases h with rfl | ⟨rfl, hclosing⟩
  · exact .atEnd
  · cases ts with
    | nil => exact nomatch hclosing
    | cons t ts => exact .atClosing hclosing

end Grammar

/-! ## Rows that are written round -/

/-- A leaf of a matrix, and the leaf of an item that it can be read as. -/
inductive Unmarks : Leaf → Leaf → Prop where
  | refl (l : Leaf) : Unmarks l l
  | row (t : Token) : Unmarks (.row t) (.token t)

theorem Spells.unmark {color : Bool → String → List Token → List Token → Prop}
    {ts rest : List Token} {ls ls' : List Leaf} (h : Spells false color ts ls rest)
    (hmarks : List.Forall₂ Unmarks ls ls') : Spells false color ts ls' rest := by
  induction h generalizing ls' with
  | nil =>
    cases hmarks
    exact .nil
  | token hsame _ ih =>
    obtain ⟨l', ls', hmark, hnext, rfl⟩ := List.forall₂_cons_left_iff.mp hmarks
    cases hmark
    exact .token hsame (ih hnext)
  | row hsame _ ih =>
    obtain ⟨l', ls', hmark, hnext, rfl⟩ := List.forall₂_cons_left_iff.mp hmarks
    cases hmark with
    | refl => exact .row hsame (ih hnext)
    | row =>
      rcases hsame with hsame | ⟨hlossy, -⟩
      · exact .token hsame (ih hnext)
      · exact nomatch hlossy
  | color hcolor _ ih =>
    obtain ⟨l', ls', hmark, hnext, rfl⟩ := List.forall₂_cons_left_iff.mp hmarks
    cases hmark
    exact .color hcolor (ih hnext)
  | drop hlossy => exact nomatch hlossy

theorem token_leftRound : Token.leftRound.toSymbol.token = .leftRound :=
  Token.token_toSymbol_known (by decide)

theorem token_rightRound : Token.rightRound.toSymbol.token = .rightRound :=
  Token.token_toSymbol_known (by decide)

namespace Expr

/-- The ids of the delimiters of a row. -/
def RowIds (left right : String) : Prop :=
  left = "lparen" ∧ right = "rparen" ∨ left = "lbracket" ∧ right = "rbracket"

/-- An item stays what it is, or its delimiters are written round. -/
inductive Rounds : Expr → Expr → Prop where
  | same (e : Expr) : Rounds e e
  | row {l r : Symbol} {body : Expr} {left right : String} (hids : RowIds left right)
      (hl : l.id = some left) (hr : r.id = some right) :
      Rounds (.paren (.symbol l) body (.symbol r) false)
        (.paren (.symbol Token.leftRound.toSymbol) body (.symbol Token.rightRound.toSymbol) false)

theorem Rounds.ne_empty {e e' : Expr} (h : Rounds e e') (he : e ≠ .empty) : e' ≠ .empty := by
  cases h with
  | same => exact he
  | row => exact nofun

theorem forall₂_rounds_refl (es : List Expr) : List.Forall₂ Rounds es es :=
  List.forall₂_same.mpr fun e _ => .same e

/-- The rows of a matrix can be read from items with round delimiters. -/
theorem exists_rounded {left right : String} {items bodies : List Expr}
    (h : Rows left right items bodies) (hids : RowIds left right)
    (hshaped : ∀ e ∈ items, WellShaped e) :
    ∃ items', List.Forall₂ Rounds items items' ∧ Rows "lparen" "rparen" items' bodies ∧
      List.Forall₂ Unmarks ([.token .comma].intercalate (rowLeaves (bodies.map cells)))
        (itemLeaves true items') := by
  have hround {row body : Expr} (hrow : bodyBetween? left right row = some body)
      (hrowShaped : WellShaped row) :
      ∃ row', Rounds row row' ∧ bodyBetween? "lparen" "rparen" row' = some body ∧
        List.Forall₂ Unmarks (rowLeavesOf body) (row'.leaves true) := by
    obtain ⟨l, r, keep, rfl, hl, hr⟩ := bodyBetween?_eq_some hrow
    obtain ⟨⟨-, rfl, -⟩, -⟩ := wellShaped_paren.mp hrowShaped
    refine ⟨_, .row hids hl hr, rfl, ?_⟩
    show List.Forall₂ Unmarks (rowLeavesOf body) (.token Token.leftRound.toSymbol.token ::
      body.leaves true ++ [.token Token.rightRound.toSymbol.token])
    rw [token_leftRound, token_rightRound]
    refine .cons (.row _) (List.rel_append ?_ (.cons (.row _) .nil))
    exact List.forall₂_same.mpr fun l _ => .refl l
  induction h with
  | @one row body hrow =>
    obtain ⟨row', hrounds, hrow', hleaves⟩ := hround hrow (hshaped row List.mem_cons_self)
    refine ⟨[row'], .cons hrounds .nil, .one hrow', ?_⟩
    show List.Forall₂ Unmarks ([.token .comma].intercalate (rowLeaves [cells body]))
      (row'.leaves true ++ [])
    rw [List.append_nil, intercalate_rowLeaves_one]
    exact hleaves
  | @more row body items bodies hrow hrows ih =>
    rw [List.forall_mem_cons, List.forall_mem_cons] at hshaped
    obtain ⟨row', hrounds, hrow', hleaves⟩ := hround hrow hshaped.1
    obtain ⟨items', hitems, hrows', hunmarks⟩ := ih hshaped.2.2
    refine ⟨row' :: .identifier "," :: items', .cons hrounds (.cons (.same _) hitems),
      .more hrow' hrows', ?_⟩
    rw [intercalate_rowLeaves_more hrows]
    exact List.rel_append hleaves (.cons (.refl _) hunmarks)

end Expr

/-! ## The rules read the leaves again -/

namespace Grammar

open MathMarkup.Expr

/-- Tokens that are read as an operand with the given text. -/
def ColorOperand (s : Setting) (nested : Bool) (written : String) (us mid : List Token) : Prop :=
  ∃ e, Derives s (.simple nested us e mid) ∧ e.unwrap.colorText = written

/-- Tokens that spell what was read can be read as the same, and start like the old tokens. -/
def Judgment.Regroups (s : Setting) : Judgment → Prop
  | .simple nested ts e rest => ∀ e' vs rest', Rounds e e' →
    Spells false (ColorOperand s) vs (e'.leaves nested) rest' → Meets rest rest' →
      Derives s (.simple nested vs e' rest') ∧ (e ≠ .empty → Leads ts vs)
  | .intermediate nested ts e rest => ∀ e' vs rest', Rounds e e' →
    Spells false (ColorOperand s) vs (e'.leaves nested) rest' → Meets rest rest' →
      Derives s (.intermediate nested vs e' rest') ∧ (e ≠ .empty → Leads ts vs)
  | .run nested ts items rest => ∀ items' vs rest', List.Forall₂ Rounds items items' →
    Spells false (ColorOperand s) vs (itemLeaves nested items') rest' → Meets rest rest' →
      Derives s (.run nested vs items' rest') ∧ (items ≠ [] → Leads ts vs)

section

variable {s : Setting} {nested : Bool} {ts mid mid' rest vs rest' : List Token} {e f g : Expr}
  {items : List Expr} {t d u : Token}

theorem Derives.stops_of_nil (h : Derives s (.run nested ts [] rest)) :
    rest = ts ∧ Stops nested ts := by
  cases h with
  | done he => exact he.emptyAtStop rfl

/-- No run starts where nothing can be read. -/
theorem Derives.nil_of_stops (hs : s.stop = none) (h : Derives s (.run nested ts items rest))
    (hstop : Stops nested ts) : items = [] ∧ rest = ts := by
  have hempty : Derives s (.run nested ts [] ts) :=
    .done (.bare (derives_empty hstop) (hstop.isInfixed_eq_false _) (hstop.isInfixed_eq_false _))
  obtain ⟨r, hr, rfl, rfl⟩ := h.result hs
  obtain ⟨r', hr', hitems, hrest⟩ := hempty.result hs
  rw [hr] at hr'
  cases hr'
  exact ⟨hitems, hrest⟩

/-- Two pieces meet where the next ones start, also if nothing is read there. -/
theorem Derives.meets_simple (h : Derives s (.simple nested ts e rest))
    (hv : Spells false (ColorOperand s) vs (e.leaves nested) rest') (hmeets : Meets rest rest')
    (hleads : e ≠ .empty → Leads ts vs) : Meets ts vs := by
  by_cases he : e = .empty
  · subst he
    obtain ⟨rfl, -⟩ := h.emptyAtStop rfl
    rw [hv.eq_of_nil]
    exact hmeets
  · exact (hleads he).meets

theorem Derives.meets_run {items' : List Expr} (h : Derives s (.run nested ts items rest))
    (hitems : List.Forall₂ Rounds items items')
    (hv : Spells false (ColorOperand s) vs (itemLeaves nested items') rest')
    (hmeets : Meets rest rest') (hleads : items ≠ [] → Leads ts vs) : Meets ts vs := by
  by_cases hnil : items = []
  · subst hnil
    cases hitems
    obtain ⟨rfl, -⟩ := h.stops_of_nil
    rw [hv.eq_of_nil]
    exact hmeets
  · exact (hleads hnil).meets

theorem inferMatrix_paren_of_same {left right left' right' : Delimiter} {body : Expr} {keep : Bool}
    (h : (Expr.paren left body right keep).inferMatrix = .paren left body right keep) :
    (Expr.paren left' body right' keep).inferMatrix = .paren left' body right' keep := by
  rcases inferMatrix_paren left' right' body keep with hsame | ⟨es, rows, rfl, hrows, -⟩
  · exact hsame
  · simp only [inferMatrix, hrows] at h
    cases h

/-- The grammar cannot tell the delimiters of a row from those that are written for them. -/
theorem cue_of_rowIds {left right : String} (hids : RowIds left right) (ht : t.Standard)
    (hopens : t.opens = true) (hd : d.Standard) (hcloses : d.closes = true)
    (hl : t.value = some left) (hr : d.value = some right) :
    t.Cue .leftRound ∧ d.Cue .rightRound := by
  obtain ⟨role, hrole⟩ := Token.exists_role_of_opens hopens
  obtain ⟨role', hrole'⟩ := Token.exists_role_of_closes hcloses
  rcases hids with ⟨rfl, rfl⟩ | ⟨rfl, rfl⟩
  · rw [ht.known hrole .leftRound (by decide) hl, hd.known hrole' .rightRound (by decide) hr]
    exact ⟨Token.Cue.refl _, Token.Cue.refl _⟩
  · rw [ht.known hrole .leftSquare (by decide) hl, hd.known hrole' .rightSquare (by decide) hr]
    exact ⟨⟨rfl, rfl, fun _ => rfl⟩, ⟨rfl, rfl, fun _ => rfl⟩⟩

/-- A run between delimiters, which may be other delimiters than before. -/
theorem regroups_between {items' : List Expr} {l r : Token}
    (hr : Derives s (.run true ts items (d :: rest))) (hclosed : ahead Token.closes ts = false)
    (ih : (Judgment.run true ts items (d :: rest)).Regroups s) (hcue : d.Cue r)
    (hitems : List.Forall₂ Rounds items items') (hlopens : l.opens = true)
    (hltoken : l.toSymbol.token = l) (hrcloses : r.closes = true) (hrtoken : r.toSymbol.token = r)
    (hv : Spells false (ColorOperand s) vs
      (.token l.toSymbol.token :: (itemLeaves true items' ++ [.token r.toSymbol.token])) rest') :
    Derives s (.simple nested vs
      (Expr.paren (.symbol l.toSymbol) (ofItems items') (.symbol r.toSymbol) false).inferMatrix
      rest') ∧ ∃ vs', vs = l :: vs' := by
  obtain ⟨vs, rfl, hinner⟩ := hv.exists_of_symbol hltoken
  obtain ⟨mid, hbody, hright⟩ := hinner.split
  obtain ⟨after, rfl, hnil⟩ := hright.exists_of_symbol hrtoken
  obtain rfl := hnil.eq_of_nil
  have hmeets : Meets (d :: rest) (r :: after) := Leads.meets ⟨d, rest, r, after, rfl, rfl, hcue⟩
  obtain ⟨hr', hleads⟩ := ih items' vs (r :: after) hitems hbody hmeets
  have hne : items ≠ [] := by
    intro hnil
    subst hnil
    obtain ⟨rfl, hstop | ⟨-, hclosing⟩⟩ := hr.stops_of_nil
    · exact nomatch hstop
    · rw [ahead_cons, Token.closes_of_isClosing hclosing] at hclosed
      exact nomatch hclosed
  have hclosed' : ahead Token.closes vs = false := (hleads hne).ahead_closes.trans hclosed
  exact ⟨.paren hlopens hclosed' hr' hrcloses, vs, rfl⟩

/-- A script is spelled after its operator. -/
theorem exists_of_script {role : Role} (hu : u.kind = .role role) (hne : f ≠ .empty)
    (hv : Spells false (ColorOperand s) vs
      (if f.unwrap.isEmpty then [] else .token u :: f.unwrap.leaves nested) rest') :
    ∃ vs', vs = u :: vs' ∧ Spells false (ColorOperand s) vs' (f.leaves nested) rest' := by
  rw [isEmpty_eq_false (unwrap_ne_empty hne), leaves_unwrap] at hv
  obtain ⟨v, vs', rfl, hsame, hf⟩ := hv.exists_of_token
  exact ⟨vs', by rw [hsame.eq_of_role hu], hf⟩

theorem eq_leaf_of_rounds {e' : Expr} (h : Rounds (leaf t) e') : e' = leaf t := by
  revert h
  unfold leaf
  split <;> exact fun hrounds => by cases hrounds; rfl

/-! ### A lemma for each rule

Tokens that spell what a rule reads are read by the same rule, if this holds of its parts. -/

theorem regroups_stray (ht : t.Standard) (hclosing : t.isClosing = true) :
    (Judgment.simple false (t :: ts) (.symbol t.toSymbol) ts).Regroups s := by
  intro e' vs rest' hrounds hv hmeets
  cases hrounds
  have htoken := ht.token_toSymbol_of_closes (Token.closes_of_isClosing hclosing)
  obtain ⟨vs, rfl, hnil⟩ := hv.exists_of_symbol htoken
  obtain rfl := hnil.eq_of_nil
  exact ⟨.stray hclosing, fun _ => leads_self t _ _⟩

theorem regroups_leaf (hstandard : t.Standard) (ht : t.isLeaf = true) :
    (Judgment.simple nested (t :: ts) (leaf t) ts).Regroups s := by
  intro e' vs rest' hrounds hv hmeets
  obtain ⟨u, hleaves, hsame⟩ := leaves_leaf nested hstandard
  rw [eq_leaf_of_rounds hrounds, hleaves] at hv
  rw [eq_leaf_of_rounds hrounds]
  obtain ⟨v, vs, rfl, hvu, hnil⟩ := hv.exists_of_token
  obtain rfl := hnil.eq_of_nil
  have hvt : v.Same t := hvu.trans hsame.symm
  rw [← hvt.leaf_eq]
  exact ⟨.leaf (hvt.isLeaf_eq.trans ht), fun _ => ⟨t, _, v, _, rfl, rfl, hvt.cue⟩⟩

theorem regroups_unary {operand : Expr} (hstandard : t.Standard) (ht : t.kind = .role .unary)
    (hc : s.convert t.operand e.unwrap = .ok operand)
    (ih : (Judgment.simple nested ts e rest).Regroups s) :
    (Judgment.simple nested (t :: ts) (.unary (.symbol t.toSymbol) operand) rest).Regroups s := by
  intro e' vs rest' hrounds hv hmeets
  cases hrounds
  have hoperand := hc
  rw [hstandard.operand] at hoperand
  cases hoperand
  obtain ⟨vs, rfl, hrest⟩ := hv.exists_of_symbol (hstandard.token_toSymbol ht)
  rw [leaves_unwrap] at hrest
  obtain ⟨he', -⟩ := ih e vs rest' (.same e) hrest hmeets
  exact ⟨.unary ht he' hc, fun _ => leads_self t _ _⟩

theorem regroups_binary {first second : Expr} (ht : t.kind = .role .binary)
    (hstandard : t.Standard) (hg : Derives s (.simple nested mid g rest))
    (hc : s.convert t.firstOperand e.unwrap = .ok first)
    (hd : s.convert t.secondOperand g.unwrap = .ok second)
    (ihe : (Judgment.simple nested ts e mid).Regroups s)
    (ihg : (Judgment.simple nested mid g rest).Regroups s) :
    (Judgment.simple nested (t :: ts) (.binary (.symbol t.toSymbol) first second)
      rest).Regroups s := by
  intro e' vs rest' hrounds hv hmeets
  cases hrounds
  have hsecond := hd
  rw [hstandard.secondOperand] at hsecond
  cases hsecond
  obtain ⟨vs, rfl, hoperands⟩ := hv.exists_of_symbol (hstandard.token_toSymbol ht)
  obtain ⟨mid', hfirst, hsecond⟩ := hoperands.split
  rw [leaves_unwrap] at hsecond
  obtain ⟨hg', hleads⟩ := ihg g mid' rest' (.same g) hsecond hmeets
  refine ⟨?_, fun _ => leads_self t _ _⟩
  rcases hstandard.firstOperand with hkeep | hask
  · have hfirstEq := hc
    rw [hkeep] at hfirstEq
    cases hfirstEq
    rw [leaves_unwrap] at hfirst
    obtain ⟨he', -⟩ := ihe e vs mid' (.same e) hfirst (hg.meets_simple hsecond hmeets hleads)
    exact .binary ht he' hg' hc hd
  · -- the color was read from other tokens, with the same text
    have hfirstEq := hc
    rw [hask] at hfirstEq
    cases hfirstEq
    obtain ⟨after, ⟨e', he', htext⟩, hnil⟩ := hfirst.exists_of_color
    obtain rfl := hnil.eq_of_nil
    refine .binary ht he' hg' ?_ hd
    rw [hask]
    show Except.ok _ = Except.ok _
    rw [htext]

theorem regroups_void {c : Token} (ht : t.Standard) (hopens : t.opens = true) (hc : c.Standard)
    (hcloses : c.closes = true) :
    (Judgment.simple nested (t :: c :: ts)
      (.paren (.symbol t.toSymbol) .empty (.symbol c.toSymbol) false) ts).Regroups s := by
  intro e' vs rest' hrounds hv hmeets
  cases hrounds with
  | same =>
    obtain ⟨vs, rfl, hright⟩ := hv.exists_of_symbol (ht.token_toSymbol_of_opens hopens)
    obtain ⟨vs, rfl, hnil⟩ := hright.exists_of_symbol (hc.token_toSymbol_of_closes hcloses)
    obtain rfl := hnil.eq_of_nil
    exact ⟨.void hopens hcloses, fun _ => leads_self t _ _⟩
  | row hids hl hr =>
    obtain ⟨hcue, -⟩ := cue_of_rowIds hids ht hopens hc hcloses hl hr
    obtain ⟨vs, rfl, hright⟩ := hv.exists_of_symbol token_leftRound
    obtain ⟨vs, rfl, hnil⟩ := hright.exists_of_symbol token_rightRound
    obtain rfl := hnil.eq_of_nil
    exact ⟨.void rfl rfl, fun _ => ⟨t, _, .leftRound, _, rfl, rfl, hcue⟩⟩

theorem regroups_paren (hr : Derives s (.run true ts items (d :: rest)))
    (hclosed : ahead Token.closes ts = false)
    (ih : (Judgment.run true ts items (d :: rest)).Regroups s) (ht : t.Standard)
    (hopens : t.opens = true) (hd : d.Standard) (hcloses : d.closes = true) :
    (Judgment.simple nested (t :: ts)
      (Expr.paren (.symbol t.toSymbol) (ofItems items) (.symbol d.toSymbol) false).inferMatrix
      rest).Regroups s := by
  have htoken := ht.token_toSymbol_of_opens hopens
  have hdtoken := hd.token_toSymbol_of_closes hcloses
  have hshaped : ∀ e ∈ items, ItemShaped e := hr.wellShaped
  intro e' vs rest' hrounds hv hmeets
  rcases inferMatrix_paren (.symbol t.toSymbol) (.symbol d.toSymbol) (ofItems items) false with
    hsame | ⟨es, rows, hseq, hrows, hmatrix⟩
  · rw [hsame] at hrounds
    cases hrounds with
    | same =>
      have hleaves : Spells false (ColorOperand s) vs (.token t.toSymbol.token ::
          ((ofItems items).leaves true ++ [.token d.toSymbol.token])) rest' := hv
      rw [leaves_ofItems] at hleaves
      rw [← hsame]
      obtain ⟨hderives, vs, rfl⟩ := regroups_between hr hclosed ih (.refl d)
        (forall₂_rounds_refl items) hopens htoken hcloses hdtoken hleaves
      exact ⟨hderives, fun _ => leads_self t _ _⟩
    | row hids hl hright =>
      have hleaves : Spells false (ColorOperand s) vs (.token Token.leftRound.toSymbol.token ::
          ((ofItems items).leaves true ++ [.token Token.rightRound.toSymbol.token])) rest' := hv
      obtain ⟨hlcue, hrcue⟩ := cue_of_rowIds hids ht hopens hd hcloses hl hright
      rw [leaves_ofItems] at hleaves
      rw [← inferMatrix_paren_of_same hsame]
      obtain ⟨hderives, vs, rfl⟩ := regroups_between hr hclosed ih hrcue
        (forall₂_rounds_refl items) rfl token_leftRound rfl token_rightRound hleaves
      exact ⟨hderives, fun _ => ⟨t, _, .leftRound, _, rfl, rfl, hlcue⟩⟩
  · rw [hmatrix] at hrounds
    cases hrounds
    -- the rows are read from items with round delimiters, which make the same matrix
    obtain rfl : es = items := by
      have hitems := items_ofItems fun e he => (hshaped e he).2
      rw [hseq] at hitems
      exact hitems
    obtain ⟨bodies, hkind, rfl, htwo, n, hlength⟩ := rows_of_matrixRows? hrows
    obtain ⟨items', hitems', hround, hunmarks⟩ : ∃ items', List.Forall₂ Rounds es items' ∧
        Rows "lparen" "rparen" items' bodies ∧
        List.Forall₂ Unmarks ([.token .comma].intercalate (rowLeaves (bodies.map cells)))
          (itemLeaves true items') := by
      rcases hkind with hkind | hkind
      · exact exists_rounded hkind (.inl ⟨rfl, rfl⟩) fun e he => (hshaped e he).1
      · exact exists_rounded hkind (.inr ⟨rfl, rfl⟩) fun e he => (hshaped e he).1
    have hleaves : Spells false (ColorOperand s) vs (.token t.toSymbol.token ::
        ([.token .comma].intercalate (rowLeaves (bodies.map cells)) ++
          [.token d.toSymbol.token])) rest' := hv
    have hunmarked := hleaves.unmark (.cons (.refl _)
      (List.rel_append hunmarks (.cons (.refl _) .nil)))
    rw [List.length_map] at htwo
    have hmatrix' := inferMatrix_of_rows (.symbol t.toSymbol) (.symbol d.toSymbol) false hround htwo
      fun body hbody => hlength _ (List.mem_map_of_mem hbody)
    rw [hmatrix, ← hmatrix']
    obtain ⟨hderives, vs, rfl⟩ := regroups_between hr hclosed ih (.refl d) hitems' hopens htoken
      hcloses hdtoken hunmarked
    exact ⟨hderives, fun _ => leads_self t _ _⟩

theorem regroups_unclosed (hstandard : t.Standard) (ht : t.opens = true)
    (hclosed : ahead Token.closes ts = false) (ih : (Judgment.run true ts items []).Regroups s) :
    (Judgment.simple nested (t :: ts)
      (.paren (.symbol t.toSymbol) (.ofItems items) .missing false) []).Regroups s := by
  intro e' vs rest' hrounds hv hmeets
  cases hrounds
  obtain rfl := hmeets.nil rfl
  have hleaves : Spells false (ColorOperand s) vs (.token t.toSymbol.token ::
      ((ofItems items).leaves true ++ [])) [] := hv
  rw [leaves_ofItems, List.append_nil] at hleaves
  obtain ⟨vs, rfl, hbody⟩ := hleaves.exists_of_symbol (hstandard.token_toSymbol_of_opens ht)
  obtain ⟨hr', hleads⟩ := ih items vs [] (forall₂_rounds_refl items) hbody hmeets
  have hclosed' : ahead Token.closes vs = false := by
    by_cases hnil : items = []
    · subst hnil
      rw [hbody.eq_of_nil]
      rfl
    · exact (hleads hnil).ahead_closes.trans hclosed
  exact ⟨.unclosed ht hclosed' hr', fun _ => leads_self t _ _⟩

theorem regroups_dangling (ht : t.isInfixed "sub" = true ∨ t.isInfixed "sup" = true)
    (hstop : Stops nested rest) (ih : (Judgment.simple nested ts e (t :: rest)).Regroups s) :
    (Judgment.intermediate nested ts e rest).Regroups s := by
  intro e' vs rest' hrounds hv hmeets
  have hdrop : Meets (t :: rest) rest' := by
    rcases ht with ht | ht
    · exact hmeets.drop hstop ht
    · exact hmeets.drop hstop ht
  obtain ⟨he', hleads⟩ := ih e' vs rest' hrounds hv hdrop
  have hstop' := hmeets.stops hstop
  exact ⟨.bare he' (hstop'.isInfixed_eq_false _) (hstop'.isInfixed_eq_false _), hleads⟩

theorem regroups_sub (he : Derives s (.simple nested ts e (.sub :: mid))) (hne : f ≠ .empty)
    (hsup : ahead (·.isInfixed "sup") rest = false)
    (ihe : (Judgment.simple nested ts e (.sub :: mid)).Regroups s)
    (ihf : (Judgment.simple nested mid f rest).Regroups s) :
    (Judgment.intermediate nested ts (.scripts e f.unwrap .empty) rest).Regroups s := by
  have hsub : Token.sub.isInfixed "sub" = true := by decide
  intro e' vs rest' hrounds hv hmeets
  cases hrounds
  obtain ⟨after, hboth, hnil⟩ := hv.split
  obtain rfl : after = rest' := hnil.eq_of_nil
  obtain ⟨mid', hbase, hscript⟩ := hboth.split
  obtain ⟨mid', rfl, hlower⟩ := exists_of_script rfl hne hscript
  obtain ⟨hf', -⟩ := ihf f mid' after (.same f) hlower hmeets
  obtain ⟨he', hleads⟩ := ihe e vs (.sub :: mid') (.same e) hbase (leads_self _ _ _).meets
  exact ⟨.sub he' hsub hf' hne (hmeets.isInfixed_eq_false hsup),
    fun _ => hleads (he.ne_empty_of_isInfixed hsub)⟩

theorem regroups_subSup (hstandard : u.Standard)
    (he : Derives s (.simple nested ts e (.sub :: mid))) (hne : f ≠ .empty)
    (hu : u.isInfixed "sup" = true) (hg : Derives s (.simple nested mid' g rest))
    (ihe : (Judgment.simple nested ts e (.sub :: mid)).Regroups s)
    (ihf : (Judgment.simple nested mid f (u :: mid')).Regroups s)
    (ihg : (Judgment.simple nested mid' g rest).Regroups s) :
    (Judgment.intermediate nested ts (.scripts e f.unwrap g.unwrap) rest).Regroups s := by
  have hsub : Token.sub.isInfixed "sub" = true := by decide
  intro e' vs rest' hrounds hv hmeets
  cases hrounds
  obtain ⟨after, hboth, hupper⟩ := hv.split
  obtain ⟨before, hbase, hscript⟩ := hboth.split
  obtain ⟨before, rfl, hlower⟩ := exists_of_script rfl hne hscript
  obtain ⟨he', hleads⟩ := ihe e vs (.sub :: before) (.same e) hbase (leads_self _ _ _).meets
  refine ⟨?_, fun _ => hleads (he.ne_empty_of_isInfixed hsub)⟩
  by_cases hgne : g = .empty
  · -- the upper operator is gone, so there is only a lower script
    subst hgne
    obtain ⟨rfl, hstop⟩ := hg.emptyAtStop rfl
    obtain rfl : after = rest' := hupper.eq_of_nil
    obtain ⟨hf', -⟩ := ihf f before after (.same f) hlower (hmeets.drop hstop hu)
    exact .sub he' hsub hf' hne ((hmeets.stops hstop).isInfixed_eq_false _)
  · obtain rfl := hstandard.eq_of_isInfixed (u := .sup) (by decide) rfl hu
    obtain ⟨last, rfl, hlast⟩ := exists_of_script rfl hgne hupper
    obtain ⟨hg', -⟩ := ihg g last rest' (.same g) hlast hmeets
    obtain ⟨hf', -⟩ := ihf f before (.sup :: last) (.same f) hlower (leads_self _ _ _).meets
    exact .subSup he' hsub hf' hne hu hg'

theorem regroups_sup (he : Derives s (.simple nested ts e (.sup :: mid))) (hne : f ≠ .empty)
    (ihe : (Judgment.simple nested ts e (.sup :: mid)).Regroups s)
    (ihf : (Judgment.simple nested mid f rest).Regroups s) :
    (Judgment.intermediate nested ts (.scripts e .empty f.unwrap) rest).Regroups s := by
  have hsup : Token.sup.isInfixed "sup" = true := by decide
  intro e' vs rest' hrounds hv hmeets
  cases hrounds
  obtain ⟨after, hboth, hscript⟩ := hv.split
  obtain ⟨mid', hbase, hnil⟩ := hboth.split
  obtain rfl : mid' = after := hnil.eq_of_nil
  obtain ⟨after, rfl, hupper⟩ := exists_of_script rfl hne hscript
  obtain ⟨hf', -⟩ := ihf f after rest' (.same f) hupper hmeets
  obtain ⟨he', hleads⟩ := ihe e vs (.sup :: after) (.same e) hbase (leads_self _ _ _).meets
  exact ⟨.sup he' hsup hf' hne, fun _ => hleads (he.ne_empty_of_isInfixed hsup)⟩

/-- The last item of a run, before a place where the old and the new tokens stop. -/
theorem regroups_last (hne : e ≠ .empty)
    (hends : ∀ rest', Meets rest rest' →
      Meets mid rest' ∧ (rest' = [] ∨ nested = true ∧ ahead Token.closes rest' = true))
    (ih : (Judgment.intermediate nested ts e mid).Regroups s) :
    (Judgment.run nested ts [e] rest).Regroups s := by
  intro items' vs rest' hrounds hv hmeets
  obtain ⟨e', others, hround, hnil, rfl⟩ := List.forall₂_cons_left_iff.mp hrounds
  cases hnil
  have hleaves : Spells false (ColorOperand s) vs (e'.leaves nested ++ []) rest' := hv
  rw [List.append_nil] at hleaves
  obtain ⟨hmeets', hend⟩ := hends rest' hmeets
  obtain ⟨he', hleads⟩ := ih e' vs rest' hround hleaves hmeets'
  exact ⟨.last he' (hround.ne_empty hne) hend, fun _ => hleads hne⟩

theorem regroups_frac (hstandard : t.Standard) (hne : e ≠ .empty) (ht : t.isInfixed "frac" = true)
    (hfne : f ≠ .empty) (hr : Derives s (.run nested mid' items rest))
    (ihe : (Judgment.intermediate nested ts e (t :: mid)).Regroups s)
    (ihf : (Judgment.intermediate nested mid f mid').Regroups s)
    (ihr : (Judgment.run nested mid' items rest).Regroups s) :
    (Judgment.run nested ts (.infixed (.symbol t.toSymbol) e.unwrap f.unwrap :: items)
      rest).Regroups s := by
  intro items' vs rest' hrounds hv hmeets
  obtain ⟨i', items', hround, hitems, rfl⟩ := List.forall₂_cons_left_iff.mp hrounds
  cases hround
  obtain ⟨after, hfrac, hrest⟩ := hv.split
  obtain ⟨before, hupper, hbar⟩ := hfrac.split
  obtain ⟨before, rfl, hlower⟩ :=
    hbar.exists_of_symbol (hstandard.token_toSymbol_of_isInfixed ht)
  rw [leaves_unwrap] at hupper hlower
  obtain ⟨hr', hleads⟩ := ihr items' after rest' hitems hrest hmeets
  obtain ⟨hf', -⟩ := ihf f before after (.same f) hlower (hr.meets_run hitems hrest hmeets hleads)
  obtain ⟨he', hleads'⟩ := ihe e vs (t :: before) (.same e) hupper (leads_self _ _ _).meets
  exact ⟨.frac he' hne ht hf' hfne hr', fun _ => hleads' hne⟩

theorem regroups_more (hne : e ≠ .empty) (ht : t.isInfixed "frac" = false)
    (hgo : (t.closes && nested) = false) (hr : Derives s (.run nested (t :: mid) items rest))
    (ihe : (Judgment.intermediate nested ts e (t :: mid)).Regroups s)
    (ihr : (Judgment.run nested (t :: mid) items rest).Regroups s) :
    (Judgment.run nested ts (e :: items) rest).Regroups s := by
  intro items' vs rest' hrounds hv hmeets
  obtain ⟨e', items', hround, hitems, rfl⟩ := List.forall₂_cons_left_iff.mp hrounds
  obtain ⟨before, hitem, hrest⟩ := hv.split
  obtain ⟨hr', hleads⟩ := ihr items' before rest' hitems hrest hmeets
  have hnil : items ≠ [] := by
    rintro rfl
    obtain ⟨-, hstop | ⟨hnested, hclosing⟩⟩ := hr.stops_of_nil
    · exact nomatch hstop
    · rw [hnested, Token.closes_of_isClosing hclosing] at hgo
      exact nomatch hgo
  obtain ⟨he', hleads'⟩ := ihe e' vs before hround hitem (hleads hnil).meets
  obtain ⟨t', ts', v, vs', heq, rfl, hcue⟩ := hleads hnil
  cases heq
  refine ⟨.more he' (hround.ne_empty hne) ?_ ?_ hr', fun _ => hleads' hne⟩
  · rw [← hcue.2.2, ht]
  · rw [← hcue.2.1, hgo]

end

/-- Tokens that spell an expression are read as that expression. -/
theorem Derives.regroups {s : Setting} (hs : s.stop = none) {j : Judgment} (h : Derives s j)
    (hts : ∀ t ∈ j.tokens, t.Standard) : j.Regroups s := by
  induction h with
  | atEnd =>
    intro e' vs rest' hrounds hv hmeets
    cases hrounds
    obtain rfl := hv.eq_of_nil
    obtain rfl := hmeets.nil rfl
    exact ⟨.atEnd, fun hne => absurd rfl hne⟩
  | @atClosing t ts ht =>
    intro e' vs rest' hrounds hv hmeets
    cases hrounds
    obtain rfl := hv.eq_of_nil
    exact ⟨derives_empty (.inr ⟨rfl, hmeets.closing ht⟩), fun hne => absurd rfl hne⟩
  | stray ht => exact regroups_stray (hts _ List.mem_cons_self) ht
  | leaf ht => exact regroups_leaf (hts _ List.mem_cons_self) ht
  | @unary nested t ts e operand rest ht he hc ih =>
    exact regroups_unary (hts t List.mem_cons_self) ht hc
      (ih (forall_mem_of_suffix hts (List.suffix_cons t ts)))
  | @binary nested t ts e f first second mid rest ht he hf hc hd ihe ihf =>
    have hts' := forall_mem_of_suffix hts (List.suffix_cons t ts)
    exact regroups_binary ht (hts t List.mem_cons_self) hf hc hd (ihe hts')
      (ihf (forall_mem_of_suffix hts' he.leavesSuffix))
  | @void nested t c ts ht hc =>
    exact regroups_void (hts t List.mem_cons_self) ht
      (hts c (List.mem_cons_of_mem t List.mem_cons_self)) hc
  | @paren nested t ts items d rest ht hclosed hr hd ih =>
    have hts' := forall_mem_of_suffix hts (List.suffix_cons t ts)
    exact regroups_paren hr hclosed (ih hts') (hts t List.mem_cons_self) ht
      (hts' d (hr.leavesSuffix.subset List.mem_cons_self)) hd
  | @unclosed nested t ts items ht hclosed hr ih =>
    exact regroups_unclosed (hts t List.mem_cons_self) ht hclosed
      (ih (forall_mem_of_suffix hts (List.suffix_cons t ts)))
  | bare he hsub hsup ih =>
    intro e' vs rest' hrounds hv hmeets
    obtain ⟨he', hleads⟩ := ih hts e' vs rest' hrounds hv hmeets
    exact ⟨.bare he' (hmeets.isInfixed_eq_false hsub) (hmeets.isInfixed_eq_false hsup), hleads⟩
  | dangling _ ht hf ihe _ =>
    obtain ⟨rfl, hstop⟩ := hf.emptyAtStop rfl
    exact regroups_dangling ht hstop (ihe hts)
  | @sub nested ts e t mid f rest he ht hf hne hsup ihe ihf =>
    have hmid : t :: mid <:+ ts := he.leavesSuffix
    obtain rfl := (hts t (hmid.subset List.mem_cons_self)).eq_of_isInfixed
      (u := .sub) (by decide) rfl ht
    exact regroups_sub he hne hsup (ihe hts) (ihf (forall_mem_of_suffix hts (tail_suffix hmid)))
  | @subSup nested ts e t mid f u mid' g rest he ht hf hne hu hg ihe ihf ihg =>
    have hmid : t :: mid <:+ ts := he.leavesSuffix
    have hmid' : u :: mid' <:+ ts := hf.leavesSuffix.trans (tail_suffix hmid)
    obtain rfl := (hts t (hmid.subset List.mem_cons_self)).eq_of_isInfixed
      (u := .sub) (by decide) rfl ht
    exact regroups_subSup (hts u (hmid'.subset List.mem_cons_self)) he hne hu hg (ihe hts)
      (ihf (forall_mem_of_suffix hts (tail_suffix hmid)))
      (ihg (forall_mem_of_suffix hts (tail_suffix hmid')))
  | @sup nested ts e t mid f rest he ht hf hne ihe ihf =>
    have hmid : t :: mid <:+ ts := he.leavesSuffix
    obtain rfl := (hts t (hmid.subset List.mem_cons_self)).eq_of_isInfixed
      (u := .sup) (by decide) rfl ht
    exact regroups_sup he hne (ihe hts) (ihf (forall_mem_of_suffix hts (tail_suffix hmid)))
  | @done nested ts rest he ih =>
    intro items' vs rest' hrounds hv hmeets
    cases hrounds
    obtain ⟨he', -⟩ := ih hts .empty vs rest' (.same _) hv hmeets
    exact ⟨.done he', fun hne => absurd rfl hne⟩
  | last _ hne hend ih =>
    refine regroups_last hne (fun rest' hmeets => ⟨hmeets, ?_⟩) (ih hts)
    exact hend.imp hmeets.nil fun h => ⟨h.1, hmeets.closes h.2⟩
  | @frac nested ts e t mid f mid' items rest he hne ht hf hfne hr ihe ihf ihr =>
    have hmid : t :: mid <:+ ts := he.leavesSuffix
    exact regroups_frac (hts t (hmid.subset List.mem_cons_self)) hne ht hfne hr (ihe hts)
      (ihf (forall_mem_of_suffix hts (tail_suffix hmid)))
      (ihr (forall_mem_of_suffix hts (hf.leavesSuffix.trans (tail_suffix hmid))))
  | @noFrac nested ts e t mid mid' items rest he hne ht hf hr ihe ihf ihr =>
    -- nothing follows the fraction bar, so the numerator is the last item
    obtain ⟨rfl, hstop⟩ := hf.emptyAtStop rfl
    obtain ⟨rfl, rfl⟩ := hr.nil_of_stops hs hstop
    refine regroups_last hne (fun rest' hmeets => ⟨hmeets.drop hstop ht, ?_⟩) (ihe hts)
    exact (hmeets.stops hstop).imp id fun h => ⟨h.1, ahead_closes_of_isClosing h.2⟩
  | more he hne ht hgo hr ihe ihr =>
    exact regroups_more hne ht hgo hr (ihe hts) (ihr (forall_mem_of_suffix hts he.leavesSuffix))

end Grammar

/-! ## Sources with the tokens of an expression -/

/-- Two tokens have the same kind and value, and the same text unless they are literal texts. -/
def Token.Alike (t u : Token) : Prop :=
  t.kind = u.kind ∧ t.value = u.value ∧ (t.kind = .text ∨ t.text = u.text)

theorem Token.Alike.same {t u : Token} (h : t.Alike u) (ht : t.Standard)
    (hu : u.kind = .text ∨ u.Standard) : t.Same u := by
  obtain ⟨hkind, hvalue, htext⟩ := h
  by_cases hliteral : t.kind = .text
  · exact .inr ⟨hliteral, hkind.symm.trans hliteral, hvalue⟩
  · have hu : u.Standard := hu.resolve_left fun h => hliteral (hkind.trans h)
    have htext : t.text = u.text := htext.resolve_left hliteral
    have hcontent : t.content = u.content := by rw [content, content, hvalue]
    left
    cases htkind : t.kind with
    | role role =>
      rw [← ht.token_toSymbol htkind, ← hu.token_toSymbol (hkind.symm.trans htkind)]
      rw [toSymbol, toSymbol, hvalue, htext]
    | number => rw [ht.number htkind, hu.number (hkind.symm.trans htkind), hcontent]
    | identifier => rw [ht.identifier htkind, hu.identifier (hkind.symm.trans htkind), hcontent]
    | text => exact absurd htkind hliteral

/-- A leaf that is no color, with a token that can be read. -/
def Leaf.Readable : Leaf → Prop
  | .token u => u.kind = .text ∨ u.Standard
  | .row u => u.kind = .text ∨ u.Standard
  | .color _ _ => False

theorem Token.Same.readable {t u : Token} (h : t.Same u) (ht : t.Standard) :
    u.kind = .text ∨ u.Standard := by
  rcases h with rfl | ⟨-, hu, -⟩
  · exact .inr ht
  · exact .inl hu

theorem Spells.readable {ts rest : List Token} {ls : List Leaf}
    (h : Spells true (fun _ _ _ _ => False) ts ls rest) (hts : ∀ t ∈ ts, t.Standard) :
    ∀ l ∈ ls, l.Readable := by
  induction h with
  | nil => exact nofun
  | token hsame _ ih =>
    rw [List.forall_mem_cons] at hts ⊢
    exact ⟨hsame.readable hts.1, ih hts.2⟩
  | row h _ ih =>
    rw [List.forall_mem_cons] at hts ⊢
    refine ⟨?_, ih hts.2⟩
    rcases h with hsame | ⟨-, ⟨-, rfl⟩ | ⟨-, rfl⟩⟩
    · exact hsame.readable hts.1
    · exact .inr (Token.listed_known (by decide)).standard
    · exact .inr (Token.listed_known (by decide)).standard
  | color h => exact h.elim
  | drop _ _ _ _ ih => exact ih (List.forall_mem_cons.mp hts).2

/-- Tokens like those of an expression without colors spell its leaves. -/
theorem spells_of_alike {color : Bool → String → List Token → List Token → Prop} {ts : List Token}
    {ls : List Leaf} (hts : ∀ t ∈ ts, t.Standard) (hls : ∀ l ∈ ls, l.Readable)
    (h : List.Forall₂ Token.Alike ts (ls.filterMap Leaf.token?)) : Spells false color ts ls [] := by
  induction ls generalizing ts with
  | nil =>
    cases h
    exact .nil
  | cons l ls ih =>
    rw [List.forall_mem_cons] at hls
    cases l with
    | token u =>
      obtain ⟨t, ts, halike, hrest, rfl⟩ := List.forall₂_cons_right_iff.mp h
      rw [List.forall_mem_cons] at hts
      exact .token (halike.same hts.1 hls.1) (ih hts.2 hls.2 hrest)
    | row u =>
      obtain ⟨t, ts, halike, hrest, rfl⟩ := List.forall₂_cons_right_iff.mp h
      rw [List.forall_mem_cons] at hts
      exact .row (.inl (halike.same hts.1 hls.1)) (ih hts.2 hls.2 hrest)
    | color nested written => exact hls.1.elim

open Grammar

/-- Tokens that spell the leaves of an expression are read as the expression. -/
theorem parse_of_spells {source source' : String} {items : List Expr}
    (hd : Derives ⟨.basic, none⟩ (.run false (SymbolTable.spellings.read source).tokens items []))
    (h : Spells false (ColorOperand ⟨.basic, none⟩) (SymbolTable.spellings.read source').tokens
      (Expr.itemLeaves false items) []) :
    Expr.parse .spellings .basic source' = .ok (.ofItems items) := by
  have hregroups := hd.regroups rfl (Token.standard_read source)
  obtain ⟨hd', -⟩ := hregroups items _ [] (Expr.forall₂_rounds_refl items) h
    ⟨id, id, id, fun _ => id⟩
  exact parse_of_derives (SymbolTable.error_read_spellings source') hd'

/-- With the built-in tables, any source whose tokens are those of the expression that a source
without colors is read as, is read as the same expression. -/
theorem parse_of_yield (source : String)
    (hcolors : ∀ t ∈ (SymbolTable.spellings.read source).tokens, t.asksColor = false) :
    ∃ e, Expr.parse .spellings .basic source = .ok e ∧ ∀ source',
      List.Forall₂ Token.Alike (SymbolTable.spellings.read source').tokens e.yield →
        Expr.parse .spellings .basic source' = .ok e := by
  obtain ⟨items, hparse, hd⟩ := exists_derives_spellings source
  have hspells := spells_of_derives hd hcolors
  refine ⟨_, hparse, fun source' halike => parse_of_spells hd ?_⟩
  rw [Expr.yield, Expr.leaves_ofItems] at halike
  exact spells_of_alike (Token.standard_read source')
    (hspells.readable (Token.standard_read source)) halike

theorem parse_of_yield_dangling :
    Expr.parse .spellings .basic "a_" = .ok (.identifier "a") ∧
      Expr.parse .spellings .basic "a" = .ok (.identifier "a") := by
  have htokens : (SymbolTable.spellings.read "a_").tokens =
      [⟨.identifier, some "a", "a", []⟩, .sub] := by
    rw [SymbolTable.read_spellings]
    decide +kernel
  have htokens' : (SymbolTable.spellings.read "a").tokens = [⟨.identifier, some "a", "a", []⟩] := by
    rw [SymbolTable.read_spellings]
    decide +kernel
  have hd : Derives ⟨.basic, none⟩
      (.run false (SymbolTable.spellings.read "a_").tokens [.identifier "a"] []) := by
    rw [htokens]
    exact .last (.dangling (.leaf rfl) (.inl rfl) .atEnd) (by simp) (.inl rfl)
  have hparse := parse_of_derives (SymbolTable.error_read_spellings "a_") hd
  obtain ⟨e, he, hyield⟩ := parse_of_yield "a_" (by rw [htokens]; decide)
  rw [hparse] at he
  cases he
  refine ⟨hparse, hyield "a" ?_⟩
  rw [htokens']
  exact .cons ⟨rfl, rfl, .inr rfl⟩ .nil

end MathMarkup
