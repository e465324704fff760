import MathMarkup.Proofs.LatexTypeset
import MathMarkup.Proofs.Lossless
import MathMarkup.Proofs.Rendering

/-!
# LaTeX output nests

With the built-in tables, every source gives LaTeX source that nests and whose pieces keep their
lexemes (`latex_nests`).  The way there has three parts.

* A token that is read with the built-in spellings brings what LaTeX can show (`Token.Legible`): a
  number is numeric, a delimiter has an id of `Latex.delimiterIds`, and an operator with one operand
  has an entry in the LaTeX table.
* The grammar keeps this (`Grammar.gives_legible`): nodes get their delimiters from tokens, and a
  matrix or a group has those of the parenthesis it was.
* The LaTeX table lays such an expression out in texts that LaTeX knows
  (`SymbolTable.legible_layout`).
-/

namespace MathMarkup

namespace Latex

/-- The ids of the symbols that are written as delimiters. -/
def delimiterIds : List String :=
  ["lparen", "rparen", "lbracket", "rbracket", "lbrace", "rbrace", "vbar", "langle", "rangle",
    "parallel", "lfloor", "rfloor", "lceiling", "rceiling"]

theorem isDelimiter_of_id :
    ∀ id ∈ delimiterIds, ∃ d ∈ symbols.lookup id, ∃ s ∈ d.value, IsDelimiter s := by
  decide +kernel

/-- A function that is shown by delimiters names them by their ids. -/
theorem wrap_spec : ∀ p ∈ symbols.entries, p.2.kind = .display .wrap →
    (∃ id ∈ delimiterIds, p.2.extra.value? "lparen" = some (.text id)) ∧
      ∃ id ∈ delimiterIds, p.2.extra.value? "rparen" = some (.text id) := by
  decide +kernel

/-- The built-in spellings of delimiters and of operators with one operand have ids that LaTeX
knows. -/
theorem spelling_spec : ∀ p ∈ SymbolTable.spellings.entries,
    (p.2.kind ∈ [.grammar .opening, .grammar .closing, .grammar .fence] →
      ∀ id ∈ p.2.value, id ∈ delimiterIds) ∧
    (p.2.kind = .grammar .unary → ∃ id ∈ p.2.value, id ∈ symbols.keys) := by
  have hdelimiter : ∀ p ∈ SymbolTable.spellings.entries,
      p.2.kind ∈ [.grammar .opening, .grammar .closing, .grammar .fence] →
        ∀ id ∈ p.2.value, id ∈ delimiterIds := by
    decide +kernel
  have hunary : ∀ p ∈ SymbolTable.spellings.entries,
      p.2.kind = .grammar .unary → ∃ id ∈ p.2.value, id ∈ symbols.keys := by
    simp only [Text.mem_iff_asciiChars_mem]
    decide +kernel
  exact fun p hp => ⟨hdelimiter p hp, hunary p hp⟩

/-- A delimiter that LaTeX knows: one that is missing or invisible, or one with a known id. -/
def KnowsDelimiter (d : Delimiter) : Prop :=
  ∀ id ∈ d.id, id ∈ delimiterIds

end Latex

open Latex

/-- What holds of an expression, node by node, that LaTeX can show: numbers are numeric, delimiters
are known, and an operator with one operand has an entry in the LaTeX table. -/
def Expr.Legible : Expr → Prop
  | .foreign _ => False
  | .number digits => IsNumeric digits
  | .paren left _ right _ | .group left _ right | .matrix left _ right =>
    KnowsDelimiter left ∧ KnowsDelimiter right
  | .unary operator _ => ∃ d, Latex.symbols.resolveOperator operator = some d
  | _ => True

/-! ## Laying expressions out -/

namespace SymbolTable

theorem exists_value_of_resolve {id : Option String} {d : Descriptor}
    (h : Latex.symbols.resolve id = some d) : ∃ v ∈ d.value, IsValue v := by
  obtain ⟨v, hv⟩ := Option.ne_none_iff_exists'.mp (complete_latex.value_ne_none h)
  obtain ⟨key, hd⟩ := exists_lookup_of_resolve h
  exact ⟨v, hv, key, d, hd, hv⟩

theorem exists_value_of_resolveOperator {operator : Operator} {d : Descriptor}
    (h : Latex.symbols.resolveOperator operator = some d) : ∃ v ∈ d.value, IsValue v := by
  cases operator with
  | symbol s => exact exists_value_of_resolve h
  | identifier name => exact nomatch h

theorem delimits_markOfId {id : String} (h : id ∈ delimiterIds) :
    Delimits (Latex.symbols.markOfId id) := by
  obtain ⟨d, hd, s, hs, hdelimiter⟩ := isDelimiter_of_id id h
  have hmark : Latex.symbols.markOfId id = .text s := by
    rw [markOfId, hd]
    dsimp only
    rw [hs]
    rfl
  exact .inr ⟨s, hmark, ⟨id, d, hd, hs⟩, hdelimiter⟩

theorem delimits_mark {d : Delimiter} (h : KnowsDelimiter d) : Delimits (Latex.symbols.mark d) := by
  unfold mark
  split
  · rename_i id hid
    exact delimits_markOfId (h id hid)
  · exact .inl rfl

theorem legible_glyph (s : Symbol) : Layout.Legible (Latex.symbols.glyph s) := by
  unfold glyph
  split
  · rename_i d hd
    split
    · exact exists_value_of_resolve hd
    · exact exists_value_of_resolve hd
  · split
    · trivial
    · exact Option.some_ne_none _

theorem legible_wrapLayout {operator : Operator} {d : Descriptor}
    (hd : Latex.symbols.resolveOperator operator = some d) (hkind : d.kind = .display .wrap)
    {operand : Layout} (h : operand.All Layout.Legible) :
    (Latex.symbols.wrapLayout d.extra operand).All Layout.Legible := by
  obtain ⟨key, hkey⟩ := exists_lookup_of_resolveOperator hd
  obtain ⟨⟨left, hleft, hleftValue⟩, right, hright, hrightValue⟩ :=
    wrap_spec _ (KeyedList.mem_of_value? hkey) hkind
  unfold wrapLayout
  rw [hleftValue, hrightValue]
  exact ⟨⟨delimits_markOfId hleft, delimits_markOfId hright⟩, h⟩

/-- An accent is drawn as an operator. -/
theorem operatorGlyph_of_accent {operator : Operator} {d : Descriptor}
    (hd : Latex.symbols.resolveOperator operator = some d) (hkind : d.kind = .display .accent) :
    Latex.symbols.operatorGlyph operator = .operator d.value := by
  cases operator with
  | symbol s =>
    have hresolve : Latex.symbols.resolve s.id = some d := hd
    rw [operatorGlyph, glyph, hresolve]
    simp only [hkind]
    rfl
  | identifier name => exact nomatch hd

/-- The LaTeX table has entries that LaTeX knows. -/
theorem lays_latex : Latex.symbols.Lays Expr.Legible Layout.Legible where
  foreign h := h
  glyph := legible_glyph
  identifier _ := Option.some_ne_none _
  number h := ⟨_, rfl, h⟩
  text _ := Option.some_ne_none _
  paren h _ := ⟨delimits_mark h.1, delimits_mark h.2⟩
  argument h _ := ⟨delimits_mark h.1, delimits_mark h.2⟩
  matrix h _ := ⟨delimits_mark h.1, delimits_mark h.2⟩
  unknown h hnone _ := by
    obtain ⟨d, hd⟩ := h
    exact nomatch hnone.symm.trans hd
  functionCall hd _ := exists_value_of_resolveOperator hd
  operatorCall hd _ := exists_value_of_resolveOperator hd
  wrap hd hkind _ h := legible_wrapLayout hd hkind h
  accent hd hkind _ := ⟨_, operatorGlyph_of_accent hd hkind⟩
  font hd _ _ := exists_value_of_resolveOperator hd

/-- The LaTeX table lays an expression that LaTeX can show out in texts that LaTeX knows. -/
theorem legible_layout (e : Expr) (h : e.All Expr.Legible) :
    (Latex.symbols.layout e).All Layout.Legible :=
  lays_latex.all_layout e h

end SymbolTable

/-! ## What is read is legible -/

/-- What a token brings that LaTeX can show. -/
structure Token.Legible (t : Token) : Prop where
  number (h : t.kind = .number) : IsNumeric t.content
  delimiter (h : t.opens = true ∨ t.closes = true) : KnowsDelimiter (.symbol t.toSymbol)
  operator (h : t.kind = .role .unary) : ∃ d, Latex.symbols.resolve t.value = some d

/-- What is read from legible tokens is legible.  A matrix and a group have the delimiters of the
parenthesis that they were. -/
theorem Grammar.gives_legible (s : Setting) : Gives s Token.Legible Expr.Legible where
  leaf ht _ := by
    unfold leaf
    split
    · rename_i hkind
      exact ht.number hkind
    · trivial
    · trivial
    · trivial
  unary ht hkind _ := ht.operator hkind
  closed ht hopens hd hcloses _ := ⟨ht.delimiter (.inl hopens), hd.delimiter (.inr hcloses)⟩
  unclosed ht hopens _ := ⟨ht.delimiter (.inl hopens), nofun⟩
  group h := h
  matrix h _ _ := h

namespace Token

theorem isNumeric_of_isNumeral {s : String} (h : IsNumeral s.toList) : IsNumeric s := by
  obtain ⟨sign, whole, fraction, hs, hsign, hwhole, hfraction⟩ := h
  intro c hc
  rw [hs] at hc
  rcases List.mem_append.mp hc with hc | hc
  · rcases List.mem_append.mp hc with hc | hc
    · rcases hsign with rfl | rfl
      · exact nomatch hc
      · exact .inr (List.mem_cons.mpr (.inl (List.mem_singleton.mp hc)))
    · exact .inl (hwhole.2 c hc)
  · rcases hfraction with rfl | ⟨digits, hdigits, rfl⟩
    · exact nomatch hc
    · rcases List.mem_cons.mp hc with rfl | hc
      · exact .inr (by decide)
      · exact .inl (hdigits.2 c hc)

/-- A token that is read with the built-in spellings brings what LaTeX can show. -/
theorem legible_of_listed {t : Token} {rest : List Char} (h : t.Listed .spellings)
    (hform : t.Formed rest) : t.Legible := by
  cases h with
  | @spelling text d role hd hrole =>
    obtain ⟨hdelimiter, hunary⟩ := spelling_spec _ (KeyedList.mem_of_value? hd)
    refine ⟨by simp, fun hends => hdelimiter ?_, fun hkind => ?_⟩
    · show d.kind ∈ _
      rw [hrole]
      simp only [opens, closes, Bool.or_eq_true, beq_iff_eq, TokenKind.role.injEq] at hends
      rcases hends with (rfl | rfl) | (rfl | rfl) <;> decide
    · cases hkind
      obtain ⟨id, hid, hkey⟩ := hunary hrole
      obtain ⟨entry, hentry⟩ := KeyedList.exists_value? hkey
      exact ⟨entry, Option.bind_eq_some_iff.mpr ⟨id, hid, hentry⟩⟩
  | number => exact ⟨fun _ => isNumeric_of_isNumeral hform.2.2, by simp [opens, closes], by simp⟩
  | literal => exact ⟨by simp, by simp [opens, closes], by simp⟩
  | identifier => exact ⟨by simp, by simp [opens, closes], by simp⟩

theorem legible_read (source : String) :
    ∀ t ∈ (SymbolTable.spellings.read source).tokens, t.Legible := by
  intro t ht
  have hspread := spread_readAll (SymbolTable.error_read_spellings source)
  obtain ⟨rest, hform⟩ := hspread.exists_formed t ht
  exact legible_of_listed (listed_read .spellings source t ht) hform

/-- With the built-in tables, every source is laid out in texts that LaTeX knows. -/
theorem exists_legible_layout (colors : ColorTable) (source : String) :
    ∃ e, Expr.parse .spellings colors source = .ok e ∧
      (Latex.symbols.layout e).All Layout.Legible := by
  obtain ⟨items, hparse, -⟩ := exists_derives_of_convertible colors
    (SymbolTable.error_read_spellings source) fun t ht => (standard_read source t ht).convertible
  exact ⟨_, hparse, SymbolTable.legible_layout _
    (all_of_parse hparse (Grammar.gives_legible _) (legible_read source))⟩

end Token

/-! ## From a source to LaTeX -/

/-- With the built-in tables and any colors, every source is read as an expression that is written
in LaTeX, and what is written nests.  It is put together from known pieces.  Each lexeme belongs to
one of these; a piece with the command of a delimiter has one delimiter after a space, and nothing
else; and a control word is the command of a construct, the name of a character, or from a value of
the LaTeX table. -/
theorem latex_nests (A : Alphabet) (colors : ColorTable) (source : String) :
    ∃ e text, Expr.parse .spellings colors source = .ok e ∧
      (Format.latex.render Latex.symbols e).read = .ok text ∧
      Nested (lex A text) ∧
      ∃ ps, ps = Piece.ofLayout (Latex.symbols.layout e) ∧ text = Latex.source ps ∧
        (∀ p ∈ ps, p.Known) ∧
        lex A text = ps.flatMap (fun p => lex A p.text) ∧
        (∀ p ∈ ps, ∀ name ∈ sizingNames, .word name ∈ lex A p.text →
          ∃ d ∈ delimiters, lex A p.text = [.word name, .char ' ', d]) ∧
        ∀ name, .word name ∈ lex A text →
          name ∈ commandNames ∨ name ∈ characterNames ∨ ∃ s, IsValue s ∧ .word name ∈ lex A s := by
  obtain ⟨e, hparse, hlegible⟩ := Token.exists_legible_layout colors source
  have hwrites := writes_render _ hlegible
  have htypeset := typeset_ofLayout (A := A) _ hlegible
  refine ⟨e, _, hparse, ?_, ?_, _, rfl, rfl, htypeset.known, htypeset.lex_eq, ?_, ?_⟩
  · show (render _).read = _
    rw [hwrites]
    rfl
  · rw [htypeset.lex_eq]
    exact htypeset.nested
  · exact fun p hp name hname hmem => (htypeset.known p hp).lex_of_sizing hname hmem
  · intro name hname
    rw [htypeset.lex_eq] at hname
    obtain ⟨p, hp, hmem⟩ := List.mem_flatMap.mp hname
    exact (htypeset.known p hp).names hmem

end MathMarkup
