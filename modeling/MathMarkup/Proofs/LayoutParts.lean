import MathMarkup.Layout
import MathMarkup.Proofs.ExprParts

/-!
# The parts of a layout

`Layout.All` says a property of a layout and of all its parts.

The parts of a layout are made of the nodes of the expression that is laid out, and of the entries
of the table.  So all parts have a property if the table makes such a part of every node
(`SymbolTable.Lays`).  The constructs of a layout are gone through once, in
`SymbolTable.Lays.all_layout`.
-/

namespace MathMarkup

namespace Layout

mutual

/-- A property of a layout and of all its parts. -/
def All (P : Layout → Prop) : Layout → Prop
  | .nothing => P .nothing
  | .foreign value => P (.foreign value)
  | .faulty fault => P (.faulty fault)
  | .invisible => P .invisible
  | .operator s => P (.operator s)
  | .name s => P (.name s)
  | .identifier s => P (.identifier s)
  | .number s => P (.number s)
  | .text s => P (.text s)
  | .colorText s => P (.colorText s)
  | .sequence items => P (.sequence items) ∧ AllItems P items
  | .row items => P (.row items) ∧ AllItems P items
  | .group a => P (.group a) ∧ a.All P
  | .fence left a right => P (.fence left a right) ∧ a.All P
  | .wrap left a right => P (.wrap left a right) ∧ a.All P
  | .matrix left rows right => P (.matrix left rows right) ∧ AllRows P rows
  | .sqrt a => P (.sqrt a) ∧ a.All P
  | .cancel a => P (.cancel a) ∧ a.All P
  | .root a b => P (.root a b) ∧ a.All P ∧ b.All P
  | .color rgb a => P (.color rgb a) ∧ a.All P
  | .fraction a b => P (.fraction a b) ∧ a.All P ∧ b.All P
  | .font s a => P (.font s a) ∧ a.All P
  | .operatorCall s a => P (.operatorCall s a) ∧ a.All P
  | .functionCall s a => P (.functionCall s a) ∧ a.All P
  | .scripts a b c => P (.scripts a b c) ∧ a.All P ∧ b.All P ∧ c.All P
  | .limits a b c => P (.limits a b c) ∧ a.All P ∧ b.All P ∧ c.All P
  | .accent a b position => P (.accent a b position) ∧ a.All P ∧ b.All P
  | .overset a b => P (.overset a b) ∧ a.All P ∧ b.All P
  | .underset a b => P (.underset a b) ∧ a.All P ∧ b.All P

/-- A property of layouts and of all their parts. -/
def AllItems (P : Layout → Prop) : List Layout → Prop
  | [] => True
  | l :: ls => l.All P ∧ AllItems P ls

/-- A property of rows of layouts and of all their parts. -/
def AllRows (P : Layout → Prop) : List (List Layout) → Prop
  | [] => True
  | cells :: rows => AllItems P cells ∧ AllRows P rows

end

theorem allItems_iff {P : Layout → Prop} {ls : List Layout} :
    AllItems P ls ↔ ∀ l ∈ ls, l.All P := by
  induction ls with
  | nil => simp [AllItems]
  | cons l ls ih => simp [AllItems, ih]

/-- A symbol or an identifier, which can be the mark of an accent. -/
def IsGlyph : Layout → Prop
  | .operator _ | .name _ | .identifier _ | .invisible => True
  | _ => False

/-- A glyph has no parts. -/
theorem IsGlyph.all {P : Layout → Prop} {l : Layout} (h : l.IsGlyph) (hl : P l) : l.All P := by
  cases l with
  | operator s => exact hl
  | name s => exact hl
  | identifier s => exact hl
  | invisible => exact hl
  | _ => exact h.elim

end Layout

namespace SymbolTable

variable {t : SymbolTable}

/-- A symbol that stands alone is a glyph. -/
theorem isGlyph_glyph (s : Symbol) : (t.glyph s).IsGlyph := by
  unfold glyph
  split
  · split <;> trivial
  · split <;> trivial

theorem isGlyph_operatorGlyph (operator : Operator) : (t.operatorGlyph operator).IsGlyph := by
  cases operator with
  | symbol s => exact isGlyph_glyph s
  | identifier name => trivial

theorem exists_lookup_of_resolve {id : Option String} {d : Descriptor}
    (h : t.resolve id = some d) : ∃ key, t.lookup key = some d := by
  obtain ⟨key, -, hd⟩ := Option.bind_eq_some_iff.mp h
  exact ⟨key, hd⟩

theorem exists_lookup_of_resolveOperator {operator : Operator} {d : Descriptor}
    (h : t.resolveOperator operator = some d) : ∃ key, t.lookup key = some d := by
  cases operator with
  | symbol s => exact exists_lookup_of_resolve h
  | identifier name => exact nomatch h

/-! ## What a table makes of the nodes -/

/-- A table makes parts with one property of nodes with another.  There is one case for each way of
making a part; a case of which the property asks nothing can be left out. -/
structure Lays (t : SymbolTable) (Q : Expr → Prop) (P : Layout → Prop) : Prop where
  nothing : P .nothing := by trivial
  foreign {value : Value} (h : Q (.foreign value)) : P (.foreign value) := by intros; trivial
  glyph (s : Symbol) : P (t.glyph s)
  identifier (name : String) : P (.identifier (some name)) := by intros; trivial
  number {digits : String} (h : Q (.number digits)) : P (.number (some digits)) := by
    intros; trivial
  text (content : String) : P (.text (some content)) := by intros; trivial
  colorText (content : String) : P (.colorText content) := by intros; trivial
  sequence (items : List Layout) : P (.sequence items) := by intros; trivial
  row (items : List Layout) : P (.row items) := by intros; trivial
  group (body : Layout) : P (.group body) := by intros; trivial
  paren {left right : Delimiter} {body : Expr} {keep : Bool} (h : Q (.paren left body right keep))
    (laid : Layout) : P (.fence (t.mark left) laid (t.mark right)) := by intros; trivial
  /-- The delimiters that an argument was written with. -/
  argument {left right : Delimiter} {body : Expr} (h : Q (.group left body right))
    (laid : Layout) : P (.fence (t.mark left) laid (t.mark right)) := by intros; trivial
  matrix {left right : Delimiter} {rows : List (List Expr)} (h : Q (.matrix left rows right))
    (laid : List (List Layout)) : P (.matrix (t.mark left) laid (t.mark right)) := by
    intros; trivial
  /-- An operator that is not in the table. -/
  unknown {operator : Operator} {e : Expr} (h : Q (.unary operator e))
    (hnone : t.resolveOperator operator = none) (operand : Layout) :
    P (.functionCall operator.id operand) := by intros; trivial
  functionCall {operator : Operator} {d : Descriptor} (hd : t.resolveOperator operator = some d)
    (operand : Layout) : P (.functionCall d.value operand) := by intros; trivial
  operatorCall {operator : Operator} {d : Descriptor} (hd : t.resolveOperator operator = some d)
    (operand : Layout) : P (.operatorCall d.value operand) := by intros; trivial
  wrap {operator : Operator} {d : Descriptor} (hd : t.resolveOperator operator = some d)
    (hkind : d.kind = .display .wrap) (operand : Layout) (h : operand.All P) :
    (t.wrapLayout d.extra operand).All P
  accent {operator : Operator} {d : Descriptor} (hd : t.resolveOperator operator = some d)
    (hkind : d.kind = .display .accent) (base : Layout) :
    P (.accent base (t.operatorGlyph operator) d.position) := by intros; trivial
  font {operator : Operator} {d : Descriptor} (hd : t.resolveOperator operator = some d)
    (hkind : d.kind = .display .font) (body : Layout) : P (.font d.value body) := by
    intros; trivial
  sqrt (body : Layout) : P (.sqrt body) := by intros; trivial
  cancel (body : Layout) : P (.cancel body) := by intros; trivial
  root (base index : Layout) : P (.root base index) := by intros; trivial
  color (rgb : RGB) (body : Layout) : P (.color rgb body) := by intros; trivial
  fraction (numerator denominator : Layout) : P (.fraction numerator denominator) := by
    intros; trivial
  scripts (base sub sup : Layout) : P (.scripts base sub sup) := by intros; trivial
  limits (base below above : Layout) : P (.limits base below above) := by intros; trivial
  overset (base above : Layout) : P (.overset base above) := by intros; trivial
  underset (base below : Layout) : P (.underset base below) := by intros; trivial

namespace Lays

variable {Q : Expr → Prop} {P : Layout → Prop}

theorem all_operatorGlyph (ht : t.Lays Q P) (operator : Operator) :
    (t.operatorGlyph operator).All P := by
  cases operator with
  | symbol s => exact (isGlyph_glyph s).all (ht.glyph s)
  | identifier name => exact ht.identifier name

theorem all_argument (ht : t.Lays Q P) {e : Expr} (he : e.All Q) {laid : Layout}
    (h : laid.All P) : (t.argument e laid).All P := by
  unfold SymbolTable.argument
  split
  · obtain ⟨hself, -⟩ := Expr.all_group.mp he
    split
    · exact ⟨ht.argument hself _, h.2⟩
    · exact h
  · exact h

theorem all_unaryLayout (ht : t.Lays Q P) {operator : Operator} {e : Expr}
    (he : (Expr.unary operator e).All Q) {operand : Layout} (h : operand.All P) :
    (t.unaryLayout operator e operand).All P := by
  obtain ⟨hself, he⟩ := Expr.all_unary.mp he
  have hargument := ht.all_argument he h
  unfold unaryLayout
  split
  · rename_i hnone
    exact ⟨ht.unknown hself hnone _, hargument⟩
  · rename_i d hd
    split
    · exact ⟨ht.operatorCall hd _, hargument⟩
    · rename_i hkind
      exact ht.wrap hd hkind _ h
    · rename_i hkind
      exact ⟨ht.accent hd hkind _, h, ht.all_operatorGlyph operator⟩
    · rename_i hkind
      exact ⟨ht.font hd hkind _, h⟩
    · exact ⟨ht.cancel _, h⟩
    · exact ⟨ht.sqrt _, h⟩
    · exact ⟨ht.functionCall hd _, hargument⟩

theorem all_presentRow (ht : t.Lays Q P) {parts : List Layout} (h : ∀ l ∈ parts, l.All P) :
    (presentRow parts).All P :=
  ⟨ht.row _, Layout.allItems_iff.mpr fun l hl => h l (List.mem_filter.mp hl).1⟩

theorem all_binaryLayout (ht : t.Lays Q P) (operator : Operator) (e : Expr)
    {first second : Layout} (hfirst : first.All P) (hsecond : second.All P) :
    (t.binaryLayout operator e first second).All P := by
  unfold binaryLayout
  split
  · exact ⟨ht.overset _ _, hsecond, hfirst⟩
  · exact ⟨ht.underset _ _, hsecond, hfirst⟩
  · exact ⟨ht.root _ _, hsecond, hfirst⟩
  · exact ⟨ht.fraction _ _, hfirst, hsecond⟩
  · exact ⟨ht.color _ _, hsecond⟩
  · refine ht.all_presentRow ?_
    simp only [List.forall_mem_cons]
    exact ⟨ht.all_operatorGlyph operator, hfirst, hsecond, List.forall_mem_nil _⟩

theorem all_infixedLayout (ht : t.Lays Q P) (operator : Operator) {first second : Layout}
    (hfirst : first.All P) (hsecond : second.All P) :
    (t.infixedLayout operator first second).All P := by
  unfold infixedLayout
  split
  · exact ⟨ht.fraction _ _, hfirst, hsecond⟩
  · refine ht.all_presentRow ?_
    simp only [List.forall_mem_cons]
    exact ⟨hfirst, ht.all_operatorGlyph operator, hsecond, List.forall_mem_nil _⟩

open MathMarkup.Expr in
mutual

/-- All parts of a layout have a property, if the table makes such parts of all nodes. -/
theorem all_layout (ht : t.Lays Q P) : ∀ e : Expr, All Q e → (t.layout e).All P
  | .empty, _ => ht.nothing
  | .symbol s, _ => (isGlyph_glyph s).all (ht.glyph s)
  | .identifier name, _ => ht.identifier name
  | .number _, h => ht.number (h _ List.mem_cons_self)
  | .text content, _ => ht.text content
  | .color _ written, _ => ht.colorText written
  | .sequence items, h => ⟨ht.sequence _, all_layouts ht items (all_sequence.mp h).2⟩
  | .paren _ body _ _, h => by
    obtain ⟨hself, hbody⟩ := all_paren.mp h
    exact ⟨ht.paren hself _, all_layout ht body hbody⟩
  | .group _ body _, h => ⟨ht.group _, all_layout ht body (all_group.mp h).2⟩
  | .scripts base sub sup, h => by
    obtain ⟨-, ⟨hbase, hsub⟩, hsup⟩ := all_scripts.mp h
    have hparts := And.intro (all_layout ht base hbase)
      (And.intro (all_layout ht sub hsub) (all_layout ht sup hsup))
    unfold layout
    split
    · exact ⟨ht.limits _ _ _, hparts⟩
    · exact ⟨ht.scripts _ _ _, hparts⟩
  | .unary _ operand, h =>
    ht.all_unaryLayout h (all_layout ht operand (all_unary.mp h).2)
  | .binary operator first second, h => by
    obtain ⟨-, hfirst, hsecond⟩ := all_binary.mp h
    exact ht.all_binaryLayout operator first (all_layout ht first hfirst)
      (all_layout ht second hsecond)
  | .infixed operator first second, h => by
    obtain ⟨-, hfirst, hsecond⟩ := all_infixed.mp h
    exact ht.all_infixedLayout operator (all_layout ht first hfirst) (all_layout ht second hsecond)
  | .matrix _ rows _, h => by
    obtain ⟨hself, hrows⟩ := all_matrix.mp h
    exact ⟨ht.matrix hself _, all_rowLayouts ht rows hrows⟩
  | .foreign _, h => ht.foreign (h _ List.mem_cons_self)

theorem all_layouts (ht : t.Lays Q P) :
    ∀ es : List Expr, (∀ e ∈ es, All Q e) → Layout.AllItems P (t.layouts es)
  | [], _ => trivial
  | e :: es, h =>
    ⟨all_layout ht e (h e List.mem_cons_self),
      all_layouts ht es fun e he => h e (List.mem_cons_of_mem _ he)⟩

theorem all_rowLayouts (ht : t.Lays Q P) :
    ∀ rows : List (List Expr), (∀ row ∈ rows, ∀ e ∈ row, All Q e) →
      Layout.AllRows P (t.rowLayouts rows)
  | [], _ => trivial
  | row :: rows, h =>
    ⟨all_layouts ht row (h row List.mem_cons_self),
      all_rowLayouts ht rows fun row hrow => h row (List.mem_cons_of_mem _ hrow)⟩

end

end Lays

end SymbolTable

end MathMarkup
