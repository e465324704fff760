import MathMarkup.Latex.Command
import MathMarkup.Proofs.Failure
import MathMarkup.Proofs.Faultless
import MathMarkup.Proofs.Nodes

/-!
# Every source can be shown

Ids may be missing (an invisible delimiter has none), operands may be missing, and an id may have
no entry in the glyph table or one that does not fit its operator; none of this keeps an expression
from being shown.  What does are values that are no expressions, and operators with one operand that
have no id: such an operator is written by its id where the glyph table has no entry for it.

* `SymbolTable.whole_layout`: an expression without these (`Expr.Showable`) has a whole layout
  under any table of glyphs that is complete.
* `Grammar.gives_showable`: an expression that is read is without these, if the operators with one
  operand have ids.
* `renders_of_fit`: the whole way from a source to a document.
-/

namespace MathMarkup

/-! ## Laying expressions out -/

/-- Metadata that can name a delimiter: none at all, nothing, or an id. -/
def Value.namesDelimiter : Option Value → Bool
  | none | some .null | some (.text _) => true
  | _ => false

/-- An entry that can be drawn: it has a text, and what it says of delimiters are ids. -/
def Descriptor.Drawable (d : Descriptor) : Prop :=
  d.value ≠ none ∧ Value.namesDelimiter (d.extra.value? "lparen") = true ∧
    Value.namesDelimiter (d.extra.value? "rparen") = true

instance (d : Descriptor) : Decidable d.Drawable :=
  inferInstanceAs (Decidable (_ ∧ _))

/-- What holds of an expression, node by node, that can be shown: it is no foreign value, and an
operator with one operand has an id. -/
def Expr.Showable : Expr → Prop
  | .foreign _ => False
  | .unary operator _ => operator.id ≠ none
  | _ => True

namespace SymbolTable

/-- A table of glyphs whose entries can all be drawn. -/
def Complete (t : SymbolTable) : Prop :=
  ∀ id d, t.lookup id = some d → d.Drawable

theorem complete_of_entries {t : SymbolTable} (h : ∀ p ∈ t.entries, p.2.Drawable) : t.Complete :=
  fun id d hd => h (id, d) (KeyedList.mem_of_value? hd)

theorem drawable_glyphs : ∀ p ∈ glyphs.entries, p.2.Drawable := by
  decide +kernel

theorem complete_glyphs : glyphs.Complete :=
  complete_of_entries drawable_glyphs

theorem valueOf_ne_none (id : String) {glyph : Option String} (h : glyph ≠ none) :
    Latex.valueOf id glyph ≠ none := by
  unfold Latex.valueOf
  split
  · exact nofun
  · split
    · exact nofun
    · exact h

/-- A LaTeX table has the entries of its glyph table with other texts. -/
theorem complete_latex : Latex.symbols.Complete := by
  refine complete_of_entries fun p hp => ?_
  obtain ⟨⟨id, d⟩, hd, rfl⟩ := List.mem_map.mp hp
  obtain ⟨hvalue, hleft, hright⟩ := drawable_glyphs (id, d) hd
  exact ⟨valueOf_ne_none id hvalue, hleft, hright⟩

section

variable {t : SymbolTable}

theorem plain_markOfId (id : String) : (t.markOfId id).Plain := by
  unfold markOfId
  split
  · rename_i d _
    cases d.value <;> trivial
  · trivial

theorem plain_mark (d : Delimiter) : (t.mark d).Plain := by
  unfold mark
  split
  · exact plain_markOfId _
  · trivial

theorem plain_markOfValue {v : Option Value} (h : Value.namesDelimiter v = true) :
    (t.markOfValue v).Plain := by
  unfold Value.namesDelimiter at h
  split at h
  · trivial
  · trivial
  · exact plain_markOfId _
  · exact nomatch h

theorem bind_delimiterFault?_eq_none {v : Option Value} (h : Value.namesDelimiter v = true) :
    v.bind delimiterFault? = none := by
  unfold Value.namesDelimiter at h
  split at h
  · rfl
  · rfl
  · rfl
  · exact nomatch h

theorem Complete.value_ne_none (ht : t.Complete) {id : Option String} {d : Descriptor}
    (h : t.resolve id = some d) : d.value ≠ none := by
  obtain ⟨key, hd⟩ := exists_lookup_of_resolve h
  exact (ht key d hd).1

theorem Complete.present_glyph (ht : t.Complete) (s : Symbol) :
    Layout.Present (t.glyph s) := by
  unfold glyph
  split
  · rename_i d hd
    have hvalue := ht.value_ne_none hd
    split
    · exact hvalue
    · exact hvalue
  · split
    · trivial
    · exact nofun

/-- The entry of an operator can be drawn. -/
theorem Complete.drawable (ht : t.Complete) {operator : Operator} {d : Descriptor}
    (h : t.resolveOperator operator = some d) : d.Drawable := by
  obtain ⟨key, hd⟩ := exists_lookup_of_resolveOperator h
  exact ht key d hd

theorem whole_wrapLayout {d : Descriptor} (hd : d.Drawable) {operand : Layout}
    (h : operand.Whole) : (t.wrapLayout d.extra operand).Whole := by
  unfold wrapLayout
  simp only [bind_delimiterFault?_eq_none hd.2.1, bind_delimiterFault?_eq_none hd.2.2,
    Option.none_or]
  exact ⟨⟨plain_markOfValue hd.2.1, plain_markOfValue hd.2.2⟩, h⟩

/-- A complete table has all texts that a layout needs but for operators that it does not know. -/
theorem Complete.lays (ht : t.Complete) : t.Lays Expr.Showable Layout.Present where
  foreign h := h
  glyph := ht.present_glyph
  identifier _ := nofun
  number _ := nofun
  text _ := nofun
  paren _ _ := ⟨plain_mark _, plain_mark _⟩
  argument _ _ := ⟨plain_mark _, plain_mark _⟩
  matrix _ _ := ⟨plain_mark _, plain_mark _⟩
  unknown h _ _ := h
  functionCall hd _ := (ht.drawable hd).1
  operatorCall hd _ := (ht.drawable hd).1
  wrap hd _ _ h := whole_wrapLayout (ht.drawable hd) h
  accent {operator _} _ _ _ := isGlyph_operatorGlyph operator
  font hd _ _ := (ht.drawable hd).1

/-- An expression that can be shown is laid out with all its texts. -/
theorem whole_layout (ht : t.Complete) (e : Expr) (h : e.All Expr.Showable) : (t.layout e).Whole :=
  ht.lays.all_layout e h

end

end SymbolTable

/-! ## What is read can be shown -/

/-- If every operator with one operand has an id, then what is read can be shown. -/
theorem Grammar.gives_showable (s : Setting) :
    Gives s (fun t => t.kind = .role .unary → t.value ≠ none) Expr.Showable where
  leaf _ _ := by
    unfold leaf
    split <;> trivial
  unary ht hkind _ := ht hkind

/-! ## From a source to a document -/

/-- A table that is fit for reading and showing: every entry has a role, no entry asks for a
conversion that does not exist, and an operator with one operand has an id. -/
structure SymbolTable.Fit (t : SymbolTable) : Prop where
  role (key : String) (d : Descriptor) (h : t.lookup key = some d) : ∃ role, d.kind = .grammar role
  conversion (key : String) (d : Descriptor) (h : t.lookup key = some d) :
    ∀ name ∈ ["convert_operand", "convert_operand1", "convert_operand2"],
      Value.IsConversion (d.extra.value? name)
  id (key : String) (d : Descriptor) (h : t.lookup key = some d)
    (hunary : d.kind = .grammar .unary) : d.value ≠ none

namespace SymbolTable.Fit

variable {t : SymbolTable}

theorem converts (ht : t.Fit) : t.Converts := by
  intro key d hd
  have hconversion := ht.conversion key d hd
  simp only [List.forall_mem_cons] at hconversion
  obtain ⟨hoperand, hfirst, hsecond, -⟩ := hconversion
  exact ⟨fun _ => hoperand, fun _ => ⟨hfirst, hsecond⟩⟩

theorem value_ne_none (ht : t.Fit) {u : Token} (hu : u.Listed t) (hkind : u.kind = .role .unary) :
    u.value ≠ none := by
  cases hu with
  | @spelling text d role hd hrole =>
    cases hkind
    exact ht.id text d hd hrole
  | _ => exact nomatch hkind

/-- With a fit table, every source is an expression, and the expression can be shown. -/
theorem exists_showable (ht : t.Fit) (colors : ColorTable) (source : String) :
    ∃ e, Expr.parse t colors source = .ok e ∧ Expr.All Expr.Showable e := by
  have hlisted := Token.listed_read t source
  obtain ⟨items, hparse, -⟩ := exists_derives_of_convertible colors
    (Token.error_readAll ht.role) fun u hu => ht.converts.convertible (hlisted u hu)
  exact ⟨_, hparse, all_of_parse hparse (Grammar.gives_showable _)
    fun u hu => ht.value_ne_none (hlisted u hu)⟩

end SymbolTable.Fit

/-- With a table that is fit, every source is read as an expression that each format writes without
a fault, whatever the choices of the format are. -/
theorem renders_of_fit {symbols : SymbolTable} (h : symbols.Fit) (colors : ColorTable)
    (source : String) :
    ∃ e, Expr.parse symbols colors source = .ok e ∧
      (∀ o inLine, ∃ text,
        ((Format.mathML o).document inLine [] (SymbolTable.glyphs.layout e)).read = .ok text) ∧
      (∀ o inLine, ∃ text,
        ((Format.html o).document inLine [] (SymbolTable.glyphs.layout e)).read = .ok text) ∧
      ∀ inLine, ∃ text,
        (Format.latex.document inLine [] (Latex.symbols.layout e)).read = .ok text := by
  obtain ⟨e, hparse, hshowable⟩ := h.exists_showable colors source
  have hglyphs := SymbolTable.whole_layout SymbolTable.complete_glyphs e hshowable
  have hlatex := SymbolTable.whole_layout SymbolTable.complete_latex e hshowable
  refine ⟨e, hparse, fun o inLine => ?_, fun o inLine => ?_, fun inLine => ?_⟩
  · exact ⟨_, ((Format.mathML o).finished_document inLine hglyphs).read_eq⟩
  · exact ⟨_, ((Format.html o).finished_document inLine hglyphs).read_eq⟩
  · exact ⟨_, (Format.latex.finished_document inLine hlatex).read_eq⟩

/-- Spellings with an invisible delimiter, an operator that no format knows, one that is known as a
fraction, and one without an id. -/
def SymbolTable.mixed : SymbolTable :=
  .ofRegistrations
    [⟨["\x7b:"], none, .grammar .opening, []⟩,
     ⟨["f"], some "unheard", .grammar .unary, []⟩,
     ⟨["g"], some "frac", .grammar .unary, [("convert_operand", .choice .colorOperand)]⟩,
     ⟨["h"], none, .grammar .binary, [("convert_operand2", .null)]⟩]

theorem SymbolTable.fit_mixed : SymbolTable.mixed.Fit := by
  have hentries : ∀ p ∈ SymbolTable.mixed.entries,
      (∃ role, p.2.kind = .grammar role) ∧
        (∀ name ∈ ["convert_operand", "convert_operand1", "convert_operand2"],
          Value.IsConversion (p.2.extra.value? name)) ∧
        (p.2.kind = .grammar .unary → p.2.value ≠ none) := by
    simp [mixed, ofRegistrations, Value.IsConversion, KeyedList.value?]
  constructor
  · exact fun key d h => (hentries _ (KeyedList.mem_of_value? h)).1
  · exact fun key d h => (hentries _ (KeyedList.mem_of_value? h)).2.1
  · exact fun key d h => (hentries _ (KeyedList.mem_of_value? h)).2.2

/-- The parenthesis is not closed, and the last operator has no operands. -/
theorem renders_of_fit_mixed :
    SymbolTable.mixed.Fit ∧ ∃ e, Expr.parse .mixed .basic "\x7b: f g red h" = .ok e ∧
      (∀ o inLine, ∃ text,
        ((Format.mathML o).document inLine [] (SymbolTable.glyphs.layout e)).read = .ok text) ∧
      (∀ o inLine, ∃ text,
        ((Format.html o).document inLine [] (SymbolTable.glyphs.layout e)).read = .ok text) ∧
      ∀ inLine, ∃ text,
        (Format.latex.document inLine [] (Latex.symbols.layout e)).read = .ok text :=
  ⟨SymbolTable.fit_mixed, renders_of_fit SymbolTable.fit_mixed .basic "\x7b: f g red h"⟩

end MathMarkup
