import MathMarkup.Expr.Source
import MathMarkup.Proofs.Regrouping

/-!
# Reading what an expression is written as

`Expr.source` puts the texts of the leaves one after another, with a blank between some of them and
with none between others.  What it writes is read as the same expression exactly if it is split into
the tokens that it was put together from (`parse_source_iff`): tokens that run together, such as a
bracket and a colon, are what goes wrong, and nothing else can.

That tokens which spell the leaves are enough is shown in `MathMarkup.Proofs.Regrouping`.  The
converse goes by counting characters.  `Text.ink` leaves out blanks, round delimiters and quotes,
which may come and go.  What is read has no more ink than its tokens, and less if an operator was
dropped or a row was square; but what was written has the ink of its leaves.
-/

namespace MathMarkup

/-! ## Ink -/

namespace Text

/-- Whether a character counts: it is no blank, no round delimiter and no quote. -/
def isInk (c : Char) : Bool :=
  !isBlank c && c != '(' && c != ')' && c != '"'

/-- The number of characters of a text that count. -/
def ink (s : String) : Nat :=
  s.toList.countP isInk

@[simp] theorem ink_append (s t : String) : ink (s ++ t) = ink s + ink t := by
  rw [ink, String.toList_append, List.countP_append]
  rfl

theorem ink_blank : ink " " = 0 := by
  decide

/-- The ink of several texts. -/
def textsInk : List String → Nat
  | [] => 0
  | s :: ss => ink s + textsInk ss

/-- Texts with a blank between any two. -/
theorem ink_intercalate_blank (ss : List String) : ink (" ".intercalate ss) = textsInk ss := by
  induction ss with
  | nil => rw [String.intercalate_nil]; rfl
  | cons s ss ih =>
    cases ss with
    | nil => rw [String.intercalate_singleton]; rfl
    | cons t ts =>
      rw [String.intercalate_cons_cons, ink_append, ink_append, ih, ink_blank]
      show ink s + 0 + textsInk (t :: ts) = ink s + textsInk (t :: ts)
      rw [Nat.add_zero]

end Text

open Text

/-- The ink of a token.  Of a literal text, only the content counts. -/
def Token.ink (t : Token) : Nat :=
  if t.kind = .text then Text.ink t.content else Text.ink t.text

/-- The ink of a leaf. -/
def Leaf.ink : Leaf → Nat
  | .token t => t.ink
  | .row t => t.ink
  | .color _ written => Text.ink written

/-- The ink of several tokens. -/
def tokensInk : List Token → Nat
  | [] => 0
  | t :: ts => t.ink + tokensInk ts

/-- The ink of several leaves. -/
def leavesInk : List Leaf → Nat
  | [] => 0
  | l :: ls => l.ink + leavesInk ls

@[simp] theorem tokensInk_cons (t : Token) (ts : List Token) :
    tokensInk (t :: ts) = t.ink + tokensInk ts := rfl

@[simp] theorem leavesInk_nil : leavesInk [] = 0 := rfl

@[simp] theorem leavesInk_cons (l : Leaf) (ls : List Leaf) :
    leavesInk (l :: ls) = l.ink + leavesInk ls := rfl

@[simp] theorem leavesInk_append (ls ls' : List Leaf) :
    leavesInk (ls ++ ls') = leavesInk ls + leavesInk ls' := by
  induction ls with
  | nil => rw [List.nil_append, leavesInk_nil, Nat.zero_add]
  | cons l ls ih => rw [List.cons_append, leavesInk_cons, leavesInk_cons, ih, Nat.add_assoc]

theorem Token.Same.ink_eq {t u : Token} (h : t.Same u) : t.ink = u.ink := by
  rcases h with rfl | ⟨ht, hu, hvalue⟩
  · rfl
  · rw [Token.ink, Token.ink, if_pos ht, if_pos hu, Token.content, Token.content, hvalue]

@[simp] theorem Symbol.ink_token (s : Symbol) : s.token.ink = Text.ink s.text := by
  obtain ⟨role, hrole⟩ := s.token_kind
  have htext : s.token.text = s.text := by
    unfold Symbol.token
    split <;> rfl
  rw [Token.ink, if_neg (by rw [hrole]; exact nofun), htext]

/-- The text of a token that was read has at least the ink of the token. -/
theorem Token.Listed.ink_le {symbols : SymbolTable} {t : Token} (h : t.Listed symbols) :
    t.ink ≤ Text.ink t.text := by
  cases h with
  | @literal opening content closing =>
    rw [Token.ink, if_pos rfl]
    show (String.ofList content).toList.countP isInk ≤
      (String.ofList (opening ++ content ++ closing)).toList.countP isInk
    rw [String.toList_ofList, String.toList_ofList, List.countP_append, List.countP_append]
    omega
  | spelling => exact Nat.le_refl _
  | number => exact Nat.le_refl _
  | identifier => exact Nat.le_refl _

/-- A source has at least the ink of its tokens. -/
theorem Token.Laid.tokensInk_le {symbols : SymbolTable} {cs : List Char} {ts : List Token}
    (h : Laid cs ts) (hts : ∀ t ∈ ts, t.Listed symbols) : tokensInk ts ≤ cs.countP isInk := by
  induction h with
  | done => exact Nat.zero_le _
  | next hgap _ ih =>
    rw [List.forall_mem_cons] at hts
    have hfirst := hts.1.ink_le
    have hrest := ih hts.2
    rw [Text.ink] at hfirst
    rw [tokensInk_cons, List.countP_append, List.countP_append]
    omega

/-! ## The ink of what is written -/

namespace Expr

/-- Texts and leaves with commas between them. -/
theorem ink_intercalate_comma {ss : List String} {lss : List (List Leaf)}
    (h : ss.map Text.ink = lss.map leavesInk) :
    Text.ink (",".intercalate ss) = leavesInk ([.token .comma].intercalate lss) := by
  have hcomma : Text.ink "," = leavesInk [.token .comma] := by decide
  induction ss generalizing lss with
  | nil =>
    rw [List.map_nil, eq_comm, List.map_eq_nil_iff] at h
    rw [h, String.intercalate_nil, List.intercalate_nil]
    rfl
  | cons s ss ih =>
    obtain ⟨ls, lss, rfl⟩ : ∃ ls lss', lss = ls :: lss' := by
      cases lss with
      | nil => exact nomatch h
      | cons ls lss => exact ⟨ls, lss, rfl⟩
    rw [List.map_cons, List.map_cons, List.cons.injEq] at h
    cases ss with
    | nil =>
      have hnil : lss = [] := by simpa using h.2.symm
      rw [hnil, String.intercalate_singleton, List.intercalate_singleton]
      exact h.1
    | cons t ts =>
      cases lss with
      | nil => exact nomatch h.2
      | cons ls' lss =>
        rw [String.intercalate_cons_cons, List.intercalate_cons_cons, ink_append, ink_append,
          leavesInk_append, leavesInk_append, ih h.2, h.1, hcomma]

theorem ink_delimiter (d : Delimiter) : Text.ink d.source = leavesInk d.leaves := by
  cases d with
  | missing => rfl
  | symbol s => exact s.ink_token.symm
  | named id => rfl

/-- A text between delimiters. -/
theorem ink_between (left right : Delimiter) {text : String} {ls : List Leaf}
    (h : Text.ink text = leavesInk ls) :
    Text.ink (left.source ++ text ++ right.source) =
      leavesInk (left.leaves ++ ls ++ right.leaves) := by
  rw [ink_append, ink_append, leavesInk_append, leavesInk_append, h, ink_delimiter, ink_delimiter]

theorem ink_operator (o : Operator) : Text.ink o.source = o.leaf.ink := by
  cases o with
  | symbol s => exact s.ink_token.symm
  | identifier name => rfl

theorem ink_script {t : Token} {mark : String} {nested : Bool} {e : Expr}
    (hmark : Text.ink mark = t.ink) (he : Text.ink e.source = leavesInk (e.leaves nested)) :
    Text.ink (if e.isEmpty then "" else mark ++ e.source) =
      leavesInk (if e.isEmpty then [] else .token t :: e.leaves nested) := by
  split
  · rfl
  · rw [ink_append, hmark, he]
    rfl

mutual

/-- What a shaped expression is written as has the ink of its leaves. -/
theorem ink_source : ∀ (e : Expr) (nested : Bool), e.WellShaped →
    Text.ink e.source = leavesInk (e.leaves nested)
  | .empty, _, _ => rfl
  | .symbol s, _, _ => s.ink_token.symm
  | .identifier _, _, _ => rfl
  | .number _, _, _ => rfl
  | .text content, _, _ => by
    have hquote : Text.ink "\"" = 0 := by decide
    show Text.ink ("\"" ++ content ++ "\"") = Text.ink content + 0
    rw [ink_append, ink_append, hquote, Nat.zero_add]
  | .color _ written, _, _ => by
    have hleft : Text.ink "(" = 0 := by decide
    have hright : Text.ink ")" = 0 := by decide
    show Text.ink ("(" ++ written ++ ")") = Text.ink written + 0
    rw [ink_append, ink_append, hleft, hright, Nat.zero_add]
  | .sequence items, nested, h => by
    obtain ⟨⟨-, hadmits⟩, hitems⟩ := wellShaped_sequence.mp h
    show Text.ink (" ".intercalate (itemSources items)) = leavesInk (itemLeaves nested items)
    rw [ink_intercalate_blank]
    exact ink_itemSources items nested hitems hadmits
  | .paren left body right _, _, h => by
    have hbody := ink_source body true (wellShaped_paren.mp h).2
    exact ink_between left right hbody
  | .group left body right, _, h => by
    have hbody := ink_source body true (wellShaped_group.mp h).2
    exact ink_between left right hbody
  | .scripts base sub sup, nested, h => by
    obtain ⟨-, ⟨hbase, hsub⟩, hsup⟩ := wellShaped_scripts.mp h
    show Text.ink (base.source ++ (if sub.isEmpty then "" else "_" ++ sub.source) ++
        (if sup.isEmpty then "" else "^" ++ sup.source)) =
      leavesInk (base.leaves nested ++
        (if sub.isEmpty then [] else .token .sub :: sub.leaves nested) ++
        (if sup.isEmpty then [] else .token .sup :: sup.leaves nested))
    rw [ink_append, ink_append, leavesInk_append, leavesInk_append, ink_source base nested hbase,
      ink_script (t := .sub) (by decide) (ink_source sub nested hsub),
      ink_script (t := .sup) (by decide) (ink_source sup nested hsup)]
  | .unary operator operand, nested, h => by
    have hoperand := ink_source operand nested (wellShaped_unary.mp h).2
    show Text.ink (operator.source ++ " " ++ operand.source) =
      operator.leaf.ink + leavesInk (operand.leaves nested)
    rw [ink_append, ink_append, ink_blank, hoperand, ink_operator, Nat.add_zero]
  | .binary operator first second, nested, h => by
    obtain ⟨-, hfirst, hsecond⟩ := wellShaped_binary.mp h
    have hfirst := ink_source first nested hfirst
    have hsecond := ink_source second nested hsecond
    show Text.ink (operator.source ++ " " ++ first.source ++ " " ++ second.source) =
      operator.leaf.ink + leavesInk (first.leaves nested ++ second.leaves nested)
    rw [leavesInk_append]
    simp only [ink_append, ink_blank, hfirst, hsecond, ink_operator]
    omega
  | .infixed operator first second, nested, h => by
    obtain ⟨-, hfirst, hsecond⟩ := wellShaped_infixed.mp h
    have hfirst := ink_source first nested hfirst
    have hsecond := ink_source second nested hsecond
    show Text.ink (first.source ++ operator.source ++ second.source) =
      leavesInk (first.leaves nested ++ operator.leaf :: second.leaves nested)
    rw [leavesInk_append, leavesInk_cons, ink_append, ink_append, hfirst, hsecond, ink_operator]
    omega
  | .matrix left rows right, _, h => by
    have hrows := ink_intercalate_comma (ink_rowSources rows (wellShaped_matrix.mp h).2)
    exact ink_between left right hrows
  | .foreign _, _, _ => rfl

theorem ink_itemSources : ∀ (es : List Expr) (nested : Bool), (∀ e ∈ es, e.WellShaped) →
    (∀ e ∈ es, Place.item.Admits e) →
      textsInk (itemSources es) = leavesInk (itemLeaves nested es)
  | [], _, _, _ => rfl
  | e :: es, nested, hshaped, hadmits => by
    rw [List.forall_mem_cons] at hshaped hadmits
    have hne : e.isEmpty = false := isEmpty_eq_false fun he => hadmits.1 (by rw [he]; decide)
    have hfirst := ink_source e nested hshaped.1
    have hrest := ink_itemSources es nested hshaped.2 hadmits.2
    show Text.ink (if e.isEmpty then "None" else e.source) + textsInk (itemSources es) =
      leavesInk (e.leaves nested ++ itemLeaves nested es)
    rw [leavesInk_append, hne, hrest, ← hfirst]
    rfl

theorem ink_cellSources : ∀ es : List Expr, (∀ e ∈ es, e.WellShaped) →
    (cellSources es).map Text.ink = (cellLeaves es).map leavesInk
  | [], _ => rfl
  | e :: es, h => by
    rw [List.forall_mem_cons] at h
    show Text.ink e.source :: (cellSources es).map Text.ink =
      leavesInk (e.leaves true) :: (cellLeaves es).map leavesInk
    rw [ink_source e true h.1, ink_cellSources es h.2]

theorem ink_rowSources : ∀ rows : List (List Expr), (∀ row ∈ rows, ∀ e ∈ row, e.WellShaped) →
    (rowSources rows).map Text.ink = (rowLeaves rows).map leavesInk
  | [], _ => rfl
  | row :: rows, h => by
    have hleft : Text.ink "(" = Leaf.ink (.row .leftRound) := by decide
    have hright : Text.ink ")" = leavesInk [.row .rightRound] := by decide
    rw [List.forall_mem_cons] at h
    have hcells := ink_intercalate_comma (ink_cellSources row h.1)
    show Text.ink ("(" ++ ",".intercalate (cellSources row) ++ ")") ::
        (rowSources rows).map Text.ink =
      leavesInk (.row .leftRound :: [.token .comma].intercalate (cellLeaves row) ++
        [.row .rightRound]) :: (rowLeaves rows).map leavesInk
    rw [ink_rowSources rows h.2, ink_append, ink_append, hcells, hleft, hright, leavesInk_append]
    rfl

end

theorem ink_leafText_delimiter (d : Delimiter) : Text.ink d.leafText ≤ leavesInk d.leaves := by
  cases d with
  | missing => exact Nat.le_refl _
  | symbol s => exact Nat.le_of_eq s.ink_token.symm
  | named id => exact Nat.zero_le _

theorem ink_leafText_operator (o : Operator) : Text.ink o.leafText = o.leaf.ink := by
  cases o with
  | symbol s => exact s.ink_token.symm
  | identifier name => rfl

theorem ink_script_le {t : Token} {nested : Bool} {e : Expr}
    (he : Text.ink e.colorText ≤ leavesInk (e.leaves nested)) :
    Text.ink e.colorText ≤
      leavesInk (if e.isEmpty then [] else .token t :: e.leaves nested) := by
  split
  · rename_i hempty
    rw [isEmpty_iff.mp hempty]
    exact Nat.le_refl _
  · rw [leavesInk_cons]
    omega

theorem leavesInk_le_intercalate (lss : List (List Leaf)) :
    leavesInk lss.flatten ≤ leavesInk ([.token .comma].intercalate lss) := by
  induction lss with
  | nil => exact Nat.zero_le _
  | cons ls lss ih =>
    cases lss with
    | nil =>
      rw [List.intercalate_singleton, List.flatten_cons, List.flatten_nil, List.append_nil]
    | cons ls' lss =>
      rw [List.intercalate_cons_cons, leavesInk_append, leavesInk_append, List.flatten_cons,
        leavesInk_append]
      omega

mutual

/-- The text that a color is taken from has no more ink than the leaves. -/
theorem ink_colorText_le : ∀ (e : Expr) (nested : Bool),
    Text.ink e.colorText ≤ leavesInk (e.leaves nested)
  | .empty, _ => Nat.le_refl _
  | .symbol s, _ => Nat.le_of_eq s.ink_token.symm
  | .identifier _, _ => Nat.le_refl _
  | .number _, _ => Nat.le_refl _
  | .text _, _ => Nat.le_refl _
  | .color _ _, _ => Nat.le_refl _
  | .sequence items, nested => ink_itemsColorText_le items nested
  | .paren left body right _, _ => by
    have hleft := ink_leafText_delimiter left
    have hbody := ink_colorText_le body true
    have hright := ink_leafText_delimiter right
    show Text.ink (left.leafText ++ body.colorText ++ right.leafText) ≤
      leavesInk (left.leaves ++ body.leaves true ++ right.leaves)
    rw [ink_append, ink_append, leavesInk_append, leavesInk_append]
    omega
  | .group left body right, _ => by
    have hbody := ink_colorText_le body true
    show Text.ink body.colorText ≤ leavesInk (left.leaves ++ body.leaves true ++ right.leaves)
    rw [leavesInk_append, leavesInk_append]
    omega
  | .scripts base sub sup, nested => by
    have hbase := ink_colorText_le base nested
    have hsub := ink_script_le (t := .sub) (ink_colorText_le sub nested)
    have hsup := ink_script_le (t := .sup) (ink_colorText_le sup nested)
    show Text.ink (base.colorText ++ sub.colorText ++ sup.colorText) ≤
      leavesInk (base.leaves nested ++
        (if sub.isEmpty then [] else .token .sub :: sub.leaves nested) ++
        (if sup.isEmpty then [] else .token .sup :: sup.leaves nested))
    rw [ink_append, ink_append, leavesInk_append, leavesInk_append]
    omega
  | .unary operator operand, nested => by
    have hoperand := ink_colorText_le operand nested
    show Text.ink (operator.leafText ++ operand.colorText) ≤
      operator.leaf.ink + leavesInk (operand.leaves nested)
    rw [ink_append, ink_leafText_operator]
    omega
  | .binary operator first second, nested => by
    have hfirst := ink_colorText_le first nested
    have hsecond := ink_colorText_le second nested
    show Text.ink (operator.leafText ++ first.colorText ++ second.colorText) ≤
      operator.leaf.ink + leavesInk (first.leaves nested ++ second.leaves nested)
    rw [ink_append, ink_append, leavesInk_append, ink_leafText_operator]
    omega
  | .infixed operator first second, nested => by
    have hfirst := ink_colorText_le first nested
    have hsecond := ink_colorText_le second nested
    show Text.ink (operator.leafText ++ first.colorText ++ second.colorText) ≤
      leavesInk (first.leaves nested ++ operator.leaf :: second.leaves nested)
    rw [ink_append, ink_append, leavesInk_append, leavesInk_cons, ink_leafText_operator]
    omega
  | .matrix left rows right, _ => by
    have hrows := ink_rowsColorText_le rows
    have hcommas := leavesInk_le_intercalate (rowLeaves rows)
    show Text.ink (rowsColorText rows) ≤
      leavesInk (left.leaves ++ [.token .comma].intercalate (rowLeaves rows) ++ right.leaves)
    rw [leavesInk_append, leavesInk_append]
    omega
  | .foreign _, _ => Nat.zero_le _

theorem ink_itemsColorText_le : ∀ (es : List Expr) (nested : Bool),
    Text.ink (itemsColorText es) ≤ leavesInk (itemLeaves nested es)
  | [], _ => Nat.le_refl _
  | e :: es, nested => by
    have hfirst := ink_colorText_le e nested
    have hrest := ink_itemsColorText_le es nested
    show Text.ink (e.colorText ++ itemsColorText es) ≤
      leavesInk (e.leaves nested ++ itemLeaves nested es)
    rw [ink_append, leavesInk_append]
    omega

theorem ink_cellsColorText_le : ∀ es : List Expr,
    Text.ink (itemsColorText es) ≤ leavesInk (cellLeaves es).flatten
  | [] => Nat.le_refl _
  | e :: es => by
    have hfirst := ink_colorText_le e true
    have hrest := ink_cellsColorText_le es
    show Text.ink (e.colorText ++ itemsColorText es) ≤
      leavesInk (e.leaves true ++ (cellLeaves es).flatten)
    rw [ink_append, leavesInk_append]
    omega

theorem ink_rowsColorText_le : ∀ rows : List (List Expr),
    Text.ink (rowsColorText rows) ≤ leavesInk (rowLeaves rows).flatten
  | [] => Nat.le_refl _
  | row :: rows => by
    have hrow := ink_cellsColorText_le row
    have hcommas := leavesInk_le_intercalate (cellLeaves row)
    have hrest := ink_rowsColorText_le rows
    show Text.ink (itemsColorText row ++ rowsColorText rows) ≤
      leavesInk ((.row .leftRound :: [.token .comma].intercalate (cellLeaves row) ++
        [.row .rightRound]) ++ (rowLeaves rows).flatten)
    rw [ink_append, leavesInk_append, leavesInk_append]
    show _ ≤ Leaf.ink (.row .leftRound) +
      leavesInk ([.token .comma].intercalate (cellLeaves row)) + _ + _
    omega

end

end Expr

/-! ## A loss of tokens is a loss of ink -/

/-- Every operator between operands has ink. -/
theorem ink_pos_spellings :
    ∀ p ∈ SymbolTable.spellings.entries, ∀ t ∈ Token.ofEntry? p,
      t.kind = .role .infixed → 0 < t.ink := by
  decide +kernel

theorem Token.Listed.ink_pos {t : Token} (h : t.Listed .spellings) (ht : t.kind = .role .infixed) :
    0 < t.ink := by
  cases h with
  | @spelling text d role hd hrole =>
    refine ink_pos_spellings (text, d) (KeyedList.mem_of_value? hd) _ ?_ ht
    simp only [Token.ofEntry?, hrole, Option.mem_def]
  | _ => exact nomatch ht

theorem Token.Squares.ink_lt {t u : Token} (h : t.Squares u) : u.ink < t.ink := by
  rcases h with ⟨rfl, rfl⟩ | ⟨rfl, rfl⟩
  · decide
  · decide

namespace Spells

variable {color : Bool → String → List Token → List Token → Prop} {ts rest : List Token}
  {ls : List Leaf}

/-- Leaves have no more ink than the tokens that spell them. -/
theorem ink_le {lossy : Bool}
    (hcolor : ∀ nested written us mid, color nested written us mid →
      Text.ink written + tokensInk mid ≤ tokensInk us)
    (h : Spells lossy color ts ls rest) : leavesInk ls + tokensInk rest ≤ tokensInk ts := by
  induction h with
  | nil =>
    rw [leavesInk_nil]
    omega
  | @token t u ts ls rest hsame _ ih =>
    have hink : t.ink = u.ink := hsame.ink_eq
    show u.ink + leavesInk ls + tokensInk rest ≤ t.ink + tokensInk ts
    omega
  | @row t u ts ls rest h _ ih =>
    have hink : u.ink ≤ t.ink := by
      rcases h with hsame | ⟨-, hsquares⟩
      · exact Nat.le_of_eq hsame.ink_eq.symm
      · exact Nat.le_of_lt hsquares.ink_lt
    show u.ink + leavesInk ls + tokensInk rest ≤ t.ink + tokensInk ts
    omega
  | @color nested written ts mid ls rest h _ ih =>
    have hink := hcolor nested written ts mid h
    show Text.ink written + leavesInk ls + tokensInk rest ≤ tokensInk ts
    omega
  | drop _ _ _ _ ih =>
    rw [tokensInk_cons]
    omega

/-- Where no ink is lost, nothing is lost. -/
theorem exact_of_ink
    (hcolor : ∀ nested written us mid, color nested written us mid →
      Text.ink written + tokensInk mid ≤ tokensInk us)
    (hsuffix : ∀ nested written us mid, color nested written us mid → mid <:+ us)
    (h : Spells true color ts ls rest) (hts : ∀ t ∈ ts, t.Listed .spellings)
    (hink : tokensInk ts ≤ leavesInk ls + tokensInk rest) : Spells false color ts ls rest := by
  induction h with
  | nil => exact .nil
  | @token t u ts ls rest hsame _ ih =>
    have heq : t.ink = u.ink := hsame.ink_eq
    rw [List.forall_mem_cons] at hts
    rw [tokensInk_cons, leavesInk_cons] at hink
    refine .token hsame (ih hts.2 ?_)
    have hleaf : Leaf.ink (.token u) = u.ink := rfl
    omega
  | @row t u ts ls rest h hr ih =>
    have hle := hr.ink_le hcolor
    have hleaf : Leaf.ink (.row u) = u.ink := rfl
    rw [List.forall_mem_cons] at hts
    rw [tokensInk_cons, leavesInk_cons] at hink
    rcases h with hsame | ⟨-, hsquares⟩
    · have heq : t.ink = u.ink := hsame.ink_eq
      exact .row (.inl hsame) (ih hts.2 (by omega))
    · -- a square delimiter has more ink than a round one
      have hlt := hsquares.ink_lt
      omega
  | @color nested written ts mid ls rest h hr ih =>
    have hle := hcolor nested written ts mid h
    have hleaf : Leaf.ink (.color nested written) = Text.ink written := rfl
    rw [leavesInk_cons] at hink
    refine .color h (ih ?_ (by omega))
    exact fun t ht => hts t ((hsuffix nested written ts mid h).subset ht)
  | @drop t ts ls rest _ ht _ hr ih =>
    have hle := hr.ink_le hcolor
    have hpos := (hts t List.mem_cons_self).ink_pos ht
    rw [tokensInk_cons] at hink
    omega

end Spells

/-! ## Reading what was written -/

open Grammar

/-- Tokens that are read as an operand with the given text, and have the ink of that text. -/
def InkedOperand (s : Setting) (nested : Bool) (written : String) (us mid : List Token) : Prop :=
  ColorOperand s nested written us mid ∧ Text.ink written + tokensInk mid ≤ tokensInk us

theorem colorRule_inkedOperand (s : Setting) : ColorRule s (InkedOperand s) := by
  intro nested us e mid hd hspells
  refine ⟨⟨e, hd, rfl⟩, ?_⟩
  have hleaves := hspells.ink_le fun _ _ _ _ h => h.2
  have htext := Expr.ink_colorText_le e.unwrap nested
  rw [Expr.leaves_unwrap] at htext
  omega

theorem suffix_of_inkedOperand {s : Setting} (nested : Bool) (written : String)
    (us mid : List Token) (h : InkedOperand s nested written us mid) : mid <:+ us := by
  obtain ⟨⟨e, hd, -⟩, -⟩ := h
  exact hd.leavesSuffix

/-- If an expression is read from what it is written as, then the tokens are its leaves. -/
theorem spells_of_parse_source {e : Expr} (hshaped : e.WellShaped)
    (hparse : Expr.parse .spellings .basic e.source = .ok e) :
    Spells false (ColorOperand ⟨.basic, none⟩) (SymbolTable.spellings.read e.source).tokens
      (e.leaves false) [] := by
  have herror := SymbolTable.error_read_spellings e.source
  obtain ⟨items, hitems, hd⟩ := derives_of_parse hparse
  rw [herror] at hd
  have hspells := hd.spelled suffix_of_inkedOperand fun t ht =>
    ⟨Token.standard_read _ t ht, fun _ => colorRule_inkedOperand _⟩
  have hleaves : Expr.itemLeaves false items = e.leaves false := by
    rw [hitems, Expr.leaves_ofItems]
  have htokens : tokensInk (SymbolTable.spellings.read e.source).tokens ≤ Text.ink e.source :=
    (Token.laid_read herror).tokensInk_le (Token.listed_read _ e.source)
  have hink : Text.ink e.source = leavesInk (e.leaves false) := Expr.ink_source e false hshaped
  rw [hink, ← hleaves] at htokens
  have hexact := hspells.exact_of_ink (fun _ _ _ _ h => h.2) suffix_of_inkedOperand
    (Token.listed_read _ e.source) (Nat.le_trans htokens (Nat.le_add_right _ _))
  rw [hleaves] at hexact
  exact hexact.mono fun _ _ _ _ h => h.1

/-- With the built-in tables, every source is an expression.  What the expression is written as is
read as the same expression exactly if its tokens are the leaves of the expression. -/
theorem parse_source_iff (source : String) :
    ∃ e, Expr.parse .spellings .basic source = .ok e ∧
      (Expr.parse .spellings .basic e.source = .ok e ↔
        Spells false (ColorOperand ⟨.basic, none⟩) (SymbolTable.spellings.read e.source).tokens
          (e.leaves false) []) := by
  obtain ⟨items, hparse, hd⟩ := exists_derives_spellings source
  refine ⟨_, hparse, ?_, fun hspells => ?_⟩
  · exact spells_of_parse_source (Expr.wellShaped_ofItems hd.wellShaped).1
  · rw [Expr.leaves_ofItems] at hspells
    exact parse_of_spells hd hspells

/-- An opening bracket and a colon are written without a blank, and run together. -/
theorem parse_source_bracket_colon :
    ∃ e, Expr.parse .spellings .basic "( :" = .ok e ∧
      Expr.parse .spellings .basic e.source ≠ .ok e := by
  have htokens : (SymbolTable.spellings.read "( :").tokens =
      [.leftRound, ⟨.identifier, some ":", ":", []⟩] := by
    rw [SymbolTable.read_spellings]
    decide +kernel
  have htokens' : (SymbolTable.spellings.read "(:").tokens =
      [⟨.role .opening, some "langle", "(:", []⟩] := by
    rw [SymbolTable.read_spellings]
    decide +kernel
  have hd : Derives ⟨.basic, none⟩ (.run false (SymbolTable.spellings.read "( :").tokens
      [.paren (.symbol ⟨some "lparen", "("⟩) (.identifier ":") .missing false] []) := by
    have hbody : Derives ⟨.basic, none⟩
        (.run true [⟨.identifier, some ":", ":", []⟩] [.identifier ":"] []) :=
      .last (.bare (.leaf rfl) rfl rfl) (by simp) (.inl rfl)
    rw [htokens]
    exact .last (.bare (.unclosed rfl rfl hbody) rfl rfl) (by simp) (.inl rfl)
  have hd' : Derives ⟨.basic, none⟩ (.run false (SymbolTable.spellings.read "(:").tokens
      [.paren (.symbol ⟨some "langle", "(:"⟩) .empty .missing false] []) := by
    rw [htokens']
    exact .last (.bare (.unclosed rfl rfl (.done (.bare .atEnd rfl rfl))) rfl rfl) (by simp)
      (.inl rfl)
  refine ⟨_, parse_of_derives (SymbolTable.error_read_spellings _) hd, fun hparse => ?_⟩
  have hread : Expr.parse .spellings .basic "(:" = .ok _ :=
    parse_of_derives (SymbolTable.error_read_spellings _) hd'
  have hsource : Expr.source (.ofItems
      [.paren (.symbol ⟨some "lparen", "("⟩) (.identifier ":") .missing false]) = "(:" := by
    decide
  rw [hsource, hread] at hparse
  simp [Expr.ofItems] at hparse

end MathMarkup
