import MathMarkup.Proofs.ExprParts
import MathMarkup.Proofs.Lexing

/-!
# The shape of an expression that was read

An expression can stand in a number of places within another, and not every expression stands in
every place: `Place.Admits` says which do.  `Expr.Shaped` is what holds of a node in view of its
places: a sequence has two items at least, an operation between operands has both, a matrix has
rows of one length, and so on.

`Expr.WellShaped` says that all nodes are shaped.  The rules of the grammar keep it
(`Grammar.Derives.wellShaped`).  To go through, the statement has to say more of each kind of
reading: a simple expression could be the base of scripts, and an intermediate one an item.
-/

namespace MathMarkup

/-- The forms of expressions that some places do not admit. -/
inductive Form where
  | empty
  | sequence
  | paren
  | group
  | scripts
  | infixed
  | color
  | other
  deriving DecidableEq

/-- The form of an expression. -/
def Expr.form : Expr → Form
  | .empty => .empty
  | .sequence _ => .sequence
  | .paren _ _ _ _ => .paren
  | .group _ _ _ => .group
  | .scripts _ _ _ => .scripts
  | .infixed _ _ _ => .infixed
  | .color _ _ => .color
  | _ => .other

/-- The places of an expression within another, and the place of the whole. -/
inductive Place where
  | root
  /-- In a sequence. -/
  | item
  /-- Between delimiters. -/
  | body
  /-- Below scripts. -/
  | base
  | script
  /-- After an operator. -/
  | operand
  /-- Beside an operator between its operands. -/
  | side
  /-- In a row of a matrix. -/
  | cell

/-- The forms that never stand in a place. -/
def Place.excluded : Place → List Form
  | .root => [.group, .color]
  | .item => [.empty, .sequence, .group, .color]
  | .body => [.group, .color]
  | .base => [.empty, .sequence, .group, .scripts, .infixed, .color]
  | .script => [.sequence, .paren, .scripts, .infixed, .color]
  | .operand => [.sequence, .paren, .scripts, .infixed]
  | .side => [.empty, .sequence, .paren, .infixed, .color]
  | .cell => [.group, .color]

/-- An expression can stand in a place. -/
def Place.Admits (p : Place) (e : Expr) : Prop :=
  e.form ∉ p.excluded

instance (p : Place) (e : Expr) : Decidable (p.Admits e) :=
  inferInstanceAs (Decidable (e.form ∉ p.excluded))

namespace Expr

/-- What holds of a node in view of the expressions in its places. -/
def Shaped : Expr → Prop
  | .sequence items => 2 ≤ items.length ∧ ∀ e ∈ items, Place.item.Admits e
  | .paren left body _ keep => (∃ s, left = .symbol s) ∧ keep = false ∧ Place.body.Admits body
  | .group _ body _ => Place.body.Admits body
  | .scripts base sub sup =>
    Place.base.Admits base ∧ Place.script.Admits sub ∧ Place.script.Admits sup ∧
      (sub ≠ .empty ∨ sup ≠ .empty)
  | .unary _ operand => Place.operand.Admits operand
  | .binary _ first second => Place.operand.Admits first ∧ Place.operand.Admits second
  | .infixed _ first second => Place.side.Admits first ∧ Place.side.Admits second
  | .matrix left rows right =>
    (∃ s, left = .symbol s) ∧ (∃ s, right = .symbol s) ∧ 2 ≤ rows.length ∧
      (∃ n, 1 ≤ n ∧ ∀ row ∈ rows, row.length = n) ∧
      ∀ row ∈ rows, ∀ e ∈ row, Place.cell.Admits e ∧ ∀ i ∈ e.items, i.isComma = false
  | _ => True

/-- Every node of an expression is shaped. -/
def WellShaped (e : Expr) : Prop :=
  ∀ n ∈ e.nodes, n.Shaped

/-! ## Shapes of the parts give the shape of the whole -/

theorem wellShaped_empty : WellShaped .empty :=
  all_empty

theorem wellShaped_single {e : Expr} (hnodes : e.nodes = [e]) (h : e.Shaped) : WellShaped e :=
  all_single hnodes h

theorem wellShaped_sequence {items : List Expr} :
    WellShaped (.sequence items) ↔ Shaped (.sequence items) ∧ ∀ e ∈ items, WellShaped e :=
  all_sequence

theorem wellShaped_paren {left right : Delimiter} {body : Expr} {keep : Bool} :
    WellShaped (.paren left body right keep) ↔
      Shaped (.paren left body right keep) ∧ WellShaped body :=
  all_paren

theorem wellShaped_group {left right : Delimiter} {body : Expr} :
    WellShaped (.group left body right) ↔ Place.body.Admits body ∧ WellShaped body :=
  all_group

theorem wellShaped_scripts {base sub sup : Expr} :
    WellShaped (.scripts base sub sup) ↔
      Shaped (.scripts base sub sup) ∧ (WellShaped base ∧ WellShaped sub) ∧ WellShaped sup :=
  all_scripts

theorem wellShaped_unary {operator : Operator} {operand : Expr} :
    WellShaped (.unary operator operand) ↔ Place.operand.Admits operand ∧ WellShaped operand :=
  all_unary

theorem wellShaped_binary {operator : Operator} {first second : Expr} :
    WellShaped (.binary operator first second) ↔
      (Place.operand.Admits first ∧ Place.operand.Admits second) ∧
        WellShaped first ∧ WellShaped second :=
  all_binary

theorem wellShaped_infixed {operator : Operator} {first second : Expr} :
    WellShaped (.infixed operator first second) ↔
      (Place.side.Admits first ∧ Place.side.Admits second) ∧
        WellShaped first ∧ WellShaped second :=
  all_infixed

theorem wellShaped_matrix {left right : Delimiter} {rows : List (List Expr)} :
    WellShaped (.matrix left rows right) ↔
      Shaped (.matrix left rows right) ∧ ∀ row ∈ rows, ∀ e ∈ row, WellShaped e :=
  all_matrix

/-! ## Runs, operands and cells -/

/-- An expression that can be an item of a sequence, together with its nodes. -/
def ItemShaped (e : Expr) : Prop :=
  WellShaped e ∧ Place.item.Admits e

theorem admits_of_subset {p q : Place} {e : Expr} (hsub : q.excluded ⊆ p.excluded)
    (h : p.Admits e) : q.Admits e :=
  fun hmem => h (hsub hmem)

/-- Putting items together and taking them apart again. -/
theorem items_ofItems {es : List Expr} (h : ∀ e ∈ es, Place.item.Admits e) :
    (ofItems es).items = es := by
  match es with
  | [] => rfl
  | [e] =>
    have hitem := h e List.mem_cons_self
    cases e with
    | empty => exact absurd (by decide) hitem
    | sequence items => exact absurd (List.mem_cons_of_mem _ List.mem_cons_self) hitem
    | _ => rfl
  | e :: f :: es => rfl

theorem wellShaped_ofItems {es : List Expr} (h : ∀ e ∈ es, ItemShaped e) :
    WellShaped (ofItems es) ∧ Place.body.Admits (ofItems es) := by
  match es with
  | [] => exact ⟨wellShaped_empty, by decide⟩
  | [e] =>
    obtain ⟨hshaped, hitem⟩ := h e List.mem_cons_self
    exact ⟨hshaped, admits_of_subset (by decide) hitem⟩
  | e :: f :: es =>
    refine ⟨wellShaped_sequence.mpr ⟨⟨?_, ?_⟩, ?_⟩, ?_⟩
    · exact Nat.le_add_left 2 es.length
    · exact fun a ha => (h a ha).2
    · exact fun a ha => (h a ha).1
    · show Form.sequence ∉ Place.body.excluded
      decide

/-- The run that the body of a parenthesis stands for. -/
theorem itemShaped_of_mem_items {body : Expr} (hshaped : WellShaped body)
    (hbody : Place.body.Admits body) {e : Expr} (he : e ∈ body.items) : ItemShaped e := by
  cases body with
  | empty => exact nomatch he
  | sequence es =>
    obtain ⟨hself, hitems⟩ := wellShaped_sequence.mp hshaped
    exact ⟨hitems e he, hself.2 e he⟩
  | group left body right => exact absurd List.mem_cons_self hbody
  | color c written => exact absurd (List.mem_cons_of_mem _ List.mem_cons_self) hbody
  | _ =>
    obtain rfl := List.mem_singleton.mp he
    exact ⟨hshaped, of_decide_eq_true rfl⟩

theorem wellShaped_unwrap {e : Expr} (h : WellShaped e) : WellShaped e.unwrap := by
  unfold unwrap
  split
  · obtain ⟨⟨-, -, hbody⟩, hshaped⟩ := wellShaped_paren.mp h
    exact wellShaped_group.mpr ⟨hbody, hshaped⟩
  · exact h

/-- A shaped parenthesis does not keep its delimiters as an operand. -/
theorem form_unwrap {e : Expr} (h : WellShaped e) :
    e.unwrap.form = if e.form = .paren then .group else e.form := by
  cases e with
  | paren left body right keep =>
    obtain ⟨⟨-, rfl, -⟩, -⟩ := wellShaped_paren.mp h
    rfl
  | _ => rfl

/-- A place admits an expression whose delimiters are hidden. -/
theorem admits_unwrap {p q : Place} {e : Expr} (h : WellShaped e) (he : p.Admits e)
    (hgroup : .group ∉ q.excluded) (hsub : ∀ f ∈ q.excluded, f = .paren ∨ f ∈ p.excluded) :
    q.Admits e.unwrap := by
  intro hmem
  rw [form_unwrap h] at hmem
  split at hmem
  · exact hgroup hmem
  · rename_i hparen
    exact (hsub _ hmem).elim hparen he

theorem wellShaped_cell {body cell : Expr} (hshaped : WellShaped body)
    (hbody : Place.body.Admits body) (h : cell ∈ cells body) :
    WellShaped cell ∧ Place.cell.Admits cell ∧ ∀ i ∈ cell.items, i.isComma = false := by
  obtain ⟨chunk, hchunk, rfl⟩ := List.mem_map.mp h
  have hmem : ∀ e ∈ chunk, ItemShaped e := fun e he =>
    itemShaped_of_mem_items hshaped hbody (mem_of_mem_splitCommas hchunk he).1
  obtain ⟨hcell, hadmits⟩ := wellShaped_ofItems hmem
  refine ⟨hcell, hadmits, fun i hi => (mem_of_mem_splitCommas hchunk ?_).2⟩
  rwa [items_ofItems fun e he => (hmem e he).2] at hi

/-- The rows that are found among shaped items make a shaped matrix. -/
theorem wellShaped_matrix_of_rows {items : List Expr} {rows : List (List Expr)}
    (left right : Symbol) (hitems : ∀ e ∈ items, WellShaped e) (h : matrixRows? items = some rows) :
    WellShaped (.matrix (.symbol left) rows (.symbol right)) := by
  obtain ⟨bodies, hkind, rfl, htwo, n, hsame⟩ := rows_of_matrixRows? h
  have hbodies : ∀ body ∈ bodies, WellShaped body ∧ Place.body.Admits body := by
    intro body hbody
    have hrow : ∃ l r keep, .paren (.symbol l) body (.symbol r) keep ∈ items := by
      rcases hkind with hround | hsquare
      · exact exists_paren_of_rows hround hbody
      · exact exists_paren_of_rows hsquare hbody
    obtain ⟨l, r, keep, hmem⟩ := hrow
    obtain ⟨⟨-, -, hadmits⟩, hshaped⟩ := wellShaped_paren.mp (hitems _ hmem)
    exact ⟨hshaped, hadmits⟩
  have hcells : ∀ row ∈ bodies.map cells, ∀ e ∈ row,
      WellShaped e ∧ Place.cell.Admits e ∧ ∀ i ∈ e.items, i.isComma = false := by
    intro row hrow e he
    obtain ⟨body, hbody, rfl⟩ := List.mem_map.mp hrow
    exact wellShaped_cell (hbodies body hbody).1 (hbodies body hbody).2 he
  have hone : 1 ≤ n := by
    have hpos : 0 < (bodies.map cells).length := by omega
    obtain ⟨first, hfirst⟩ := List.exists_mem_of_length_pos hpos
    obtain ⟨body, -, rfl⟩ := List.mem_map.mp hfirst
    rw [← hsame _ hfirst, cells, List.length_map]
    exact List.length_pos_iff.mpr (splitCommas_ne_nil _)
  refine wellShaped_matrix.mpr ⟨?_, fun row hrow e he => (hcells row hrow e he).1⟩
  exact ⟨⟨left, rfl⟩, ⟨right, rfl⟩, htwo, ⟨n, hone, hsame⟩,
    fun row hrow e he => (hcells row hrow e he).2⟩

/-- A parenthesis around shaped items is shaped, also if it is read as a matrix. -/
theorem wellShaped_inferMatrix {items : List Expr} (left right : Symbol)
    (h : ∀ e ∈ items, ItemShaped e) :
    WellShaped (Expr.paren (.symbol left) (ofItems items) (.symbol right) false).inferMatrix ∧
      Place.base.Admits
        (Expr.paren (.symbol left) (ofItems items) (.symbol right) false).inferMatrix := by
  obtain ⟨hbody, hadmits⟩ := wellShaped_ofItems h
  have hparen : WellShaped (.paren (.symbol left) (ofItems items) (.symbol right) false) :=
    wellShaped_paren.mpr ⟨⟨⟨left, rfl⟩, rfl, hadmits⟩, hbody⟩
  rcases inferMatrix_paren (.symbol left) (.symbol right) (ofItems items) false with
    hsame | ⟨es, rows, hseq, hrows, hmatrix⟩
  · rw [hsame]
    exact ⟨hparen, of_decide_eq_true rfl⟩
  · rw [hmatrix]
    rw [hseq] at hbody
    exact ⟨wellShaped_matrix_of_rows left right (wellShaped_sequence.mp hbody).2 hrows,
      of_decide_eq_true rfl⟩

end Expr

/-! ## The rules keep the shape -/

namespace Grammar

open MathMarkup.Expr

/-- What is read is shaped, and fits the places where the grammar puts it. -/
def Judgment.WellShaped : Judgment → Prop
  | .simple _ _ e _ => e.WellShaped ∧ (e ≠ .empty → Place.base.Admits e)
  | .intermediate _ _ e _ =>
    e.WellShaped ∧ (e ≠ .empty → Place.item.Admits e ∧ e.form ≠ .infixed)
  | .run _ _ items _ => ∀ e ∈ items, ItemShaped e

theorem wellShaped_leaf (t : Token) : (leaf t).WellShaped ∧ Place.base.Admits (leaf t) := by
  unfold leaf
  split <;> exact ⟨wellShaped_single rfl trivial, of_decide_eq_true rfl⟩

/-- A simple expression without its delimiters can follow an operator, and be a script. -/
theorem admits_unwrap_simple {e : Expr} (h : e.WellShaped)
    (hbase : e ≠ .empty → Place.base.Admits e) :
    Place.operand.Admits e.unwrap ∧ Place.script.Admits e.unwrap := by
  by_cases he : e = .empty
  · subst he
    exact ⟨of_decide_eq_true rfl, of_decide_eq_true rfl⟩
  · exact ⟨admits_unwrap h (hbase he) (by decide) (by decide),
      admits_unwrap h (hbase he) (by decide) (by decide)⟩

theorem admits_item_of_base {e : Expr} (h : Place.base.Admits e) :
    Place.item.Admits e ∧ e.form ≠ .infixed := by
  refine ⟨admits_of_subset (by decide) h, fun hform => h ?_⟩
  rw [hform]
  decide

/-- An item that is no operation between operands can stand beside one. -/
theorem admits_side_of_item {e : Expr} (h : e.WellShaped)
    (hitem : Place.item.Admits e ∧ e.form ≠ .infixed) : Place.side.Admits e.unwrap := by
  intro hmem
  rw [form_unwrap h] at hmem
  have hside : ∀ f : Form, f ∉ Place.item.excluded → f ≠ .infixed →
      (if f = .paren then .group else f) ∉ Place.side.excluded := by
    intro f
    cases f <;> decide
  exact hside e.form hitem.1 hitem.2 hmem

/-- A conversion gives an operand again. -/
theorem wellShaped_convert {s : Setting} {c : Conversion} {e e' : Expr}
    (h : s.convert c e.unwrap = .ok e') (he : e.WellShaped)
    (hbase : e ≠ .empty → Place.base.Admits e) : e'.WellShaped ∧ Place.operand.Admits e' := by
  cases c with
  | keep =>
    cases h
    exact ⟨wellShaped_unwrap he, (admits_unwrap_simple he hbase).1⟩
  | color =>
    cases h
    exact ⟨wellShaped_single rfl trivial, of_decide_eq_true rfl⟩
  | unknown v => exact nomatch h

/-- Scripts on what stands before their operator. -/
theorem wellShaped_scripts_of_simple {s : Setting} {nested : Bool} {ts mid rest : List Token}
    {t : Token} {id : String} {e sub sup : Expr}
    (he : Derives s (.simple nested ts e (t :: mid))) (ht : t.isInfixed id = true)
    (ihe : (Judgment.simple nested ts e (t :: mid)).WellShaped)
    (hsub : sub.WellShaped ∧ Place.script.Admits sub)
    (hsup : sup.WellShaped ∧ Place.script.Admits sup) (hne : sub ≠ .empty ∨ sup ≠ .empty) :
    (Judgment.intermediate nested ts (.scripts e sub sup) rest).WellShaped := by
  have hbase := ihe.2 (he.ne_empty_of_isInfixed ht)
  have hself : Expr.Shaped (.scripts e sub sup) := ⟨hbase, hsub.2, hsup.2, hne⟩
  refine ⟨wellShaped_scripts.mpr ⟨hself, ⟨ihe.1, hsub.1⟩, hsup.1⟩, fun _ => ?_⟩
  exact ⟨of_decide_eq_true rfl, nofun⟩

theorem Derives.wellShaped {s : Setting} {j : Judgment} (h : Derives s j) : j.WellShaped := by
  have script {nested : Bool} {ts rest : List Token} {e : Expr}
      (h : (Judgment.simple nested ts e rest).WellShaped) :
      e.unwrap.WellShaped ∧ Place.script.Admits e.unwrap :=
    ⟨wellShaped_unwrap h.1, (admits_unwrap_simple h.1 h.2).2⟩
  have missing : Expr.WellShaped .empty ∧ Place.script.Admits .empty :=
    ⟨wellShaped_empty, by decide⟩
  induction h with
  | atEnd => exact ⟨wellShaped_empty, fun h => absurd rfl h⟩
  | atClosing => exact ⟨wellShaped_empty, fun h => absurd rfl h⟩
  | stray => exact ⟨wellShaped_single rfl trivial, fun _ => of_decide_eq_true rfl⟩
  | leaf => exact ⟨(wellShaped_leaf _).1, fun _ => (wellShaped_leaf _).2⟩
  | unary _ _ hc ih =>
    obtain ⟨hoperand, hadmits⟩ := wellShaped_convert hc ih.1 ih.2
    exact ⟨wellShaped_unary.mpr ⟨hadmits, hoperand⟩, fun _ => of_decide_eq_true rfl⟩
  | binary _ _ _ hc hd ihe ihf =>
    obtain ⟨hfirst, hadmits⟩ := wellShaped_convert hc ihe.1 ihe.2
    obtain ⟨hsecond, hadmits'⟩ := wellShaped_convert hd ihf.1 ihf.2
    exact ⟨wellShaped_binary.mpr ⟨⟨hadmits, hadmits'⟩, hfirst, hsecond⟩,
      fun _ => of_decide_eq_true rfl⟩
  | void =>
    refine ⟨wellShaped_paren.mpr ⟨⟨⟨_, rfl⟩, rfl, ?_⟩, wellShaped_empty⟩, fun _ => ?_⟩
    · exact of_decide_eq_true rfl
    · exact of_decide_eq_true rfl
  | paren _ _ _ _ ih =>
    obtain ⟨hshaped, hbase⟩ := wellShaped_inferMatrix _ _ ih
    exact ⟨hshaped, fun _ => hbase⟩
  | unclosed _ _ _ ih =>
    obtain ⟨hbody, hadmits⟩ := wellShaped_ofItems ih
    exact ⟨wellShaped_paren.mpr ⟨⟨⟨_, rfl⟩, rfl, hadmits⟩, hbody⟩, fun _ => of_decide_eq_true rfl⟩
  | bare _ _ _ ih => exact ⟨ih.1, fun hne => admits_item_of_base (ih.2 hne)⟩
  | dangling _ _ _ ih _ => exact ⟨ih.1, fun hne => admits_item_of_base (ih.2 hne)⟩
  | sub he ht _ hne _ ihe ihf =>
    exact wellShaped_scripts_of_simple he ht ihe (script ihf) missing (.inl (unwrap_ne_empty hne))
  | subSup he ht _ hne _ _ ihe ihf ihg =>
    exact wellShaped_scripts_of_simple he ht ihe (script ihf) (script ihg)
      (.inl (unwrap_ne_empty hne))
  | sup he ht _ hne ihe ihf =>
    exact wellShaped_scripts_of_simple he ht ihe missing (script ihf) (.inr (unwrap_ne_empty hne))
  | done => exact fun e he => nomatch he
  | last _ hne _ ih =>
    rintro e (_ | ⟨_, ⟨⟩⟩)
    exact ⟨ih.1, (ih.2 hne).1⟩
  | frac _ hne _ _ hfne _ ihe ihf ihr =>
    refine List.forall_mem_cons.mpr ⟨⟨?_, of_decide_eq_true rfl⟩, ihr⟩
    exact wellShaped_infixed.mpr ⟨⟨admits_side_of_item ihe.1 (ihe.2 hne),
      admits_side_of_item ihf.1 (ihf.2 hfne)⟩, wellShaped_unwrap ihe.1, wellShaped_unwrap ihf.1⟩
  | noFrac _ hne _ _ _ ihe _ ihr =>
    exact List.forall_mem_cons.mpr ⟨⟨ihe.1, (ihe.2 hne).1⟩, ihr⟩
  | more _ hne _ _ _ ihe ihr =>
    exact List.forall_mem_cons.mpr ⟨⟨ihe.1, (ihe.2 hne).1⟩, ihr⟩

end Grammar

/-! ## The expression of a source -/

open Grammar

/-- With any tables, an expression that is read from a source is shaped, all its nodes included. -/
theorem wellShaped_of_parse {symbols : SymbolTable} {colors : ColorTable} {source : String}
    {e : Expr} (h : Expr.parse symbols colors source = .ok e) :
    e.WellShaped ∧ Place.root.Admits e := by
  obtain ⟨items, rfl, hd⟩ := derives_of_parse h
  obtain ⟨hshaped, hbody⟩ := Expr.wellShaped_ofItems hd.wellShaped
  exact ⟨hshaped, Expr.admits_of_subset (by decide) hbody⟩

theorem wellShaped_scripted_source :
    Expr.parse .spellings .basic "x_1" = .ok (.scripts (.identifier "x") (.number "1") .empty) ∧
      Expr.WellShaped (.scripts (.identifier "x") (.number "1") .empty) := by
  have htokens : (SymbolTable.spellings.read "x_1").tokens =
      [⟨.identifier, some "x", "x", []⟩, .sub, ⟨.number, some "1", "1", []⟩] := by
    rw [SymbolTable.read_spellings]
    decide +kernel
  have hd : Derives ⟨.basic, none⟩ (.run false (SymbolTable.spellings.read "x_1").tokens
      [.scripts (.identifier "x") (.number "1") .empty] []) := by
    rw [htokens]
    exact .last (.sub (.leaf rfl) rfl (.leaf rfl) nofun rfl) nofun (.inl rfl)
  have hparse := parse_of_derives (SymbolTable.error_read_spellings "x_1") hd
  exact ⟨hparse, (wellShaped_of_parse hparse).1⟩

end MathMarkup
