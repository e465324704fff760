import MathMarkup.Proofs.AsciiChars
import MathMarkup.Proofs.LatexPieces
import MathMarkup.Proofs.Lexing

/-!
# Pieces that go together

Two neighbours could be read as one lexeme, if the first ended in a control word and a letter
started the second.  In the pieces of a layout this does not happen, because a fixed text that no
letter starts stands between any two pieces, or starts the second.  `Latex.Joined` says that the
lexemes of the whole are those of the pieces, and there is one rule for such a text in the middle
(`Latex.Joined.across`).

`Latex.Typeset` says in addition that the whole nests.  It has a rule for each way of putting pieces
together, and `Latex.typeset_ofLayout` follows these through a legible layout.

What can be the value of a symbol is in the table, so the values are looked at one by one
(`Latex.selfContained_of_isValue`).
-/

namespace MathMarkup

namespace Latex

/-! ## Texts of the table -/

/-- A text that is a part of its own: engines agree on its lexemes, it nests and has no delimiters,
and what comes after it is not escaped. -/
structure SelfContained (s : String) : Prop where
  ascii : IsAscii s.toList
  after_ne : Scan.after .basic .plain s.toList ≠ .escape
  nested : Nested (lex .basic s)
  unsized : ∀ name ∈ sizingNames, .word name ∉ lex .basic s

theorem selfContained_iff {s : String} :
    SelfContained s ↔
      IsAscii (Text.asciiChars s) ∧ Scan.after .basic .plain (Text.asciiChars s) ≠ .escape ∧
        Nested (lexFrom .basic .plain (Text.asciiChars s)) ∧
        ∀ name ∈ sizingNames, .word name ∉ lexFrom .basic .plain (Text.asciiChars s) := by
  rw [Text.asciiChars_eq]
  exact ⟨fun h => ⟨h.1, h.2, h.3, h.4⟩, fun h => ⟨h.1, h.2.1, h.2.2.1, h.2.2.2⟩⟩

instance (s : String) : Decidable (SelfContained s) :=
  decidable_of_iff _ selfContained_iff.symm

theorem selfContained_values : ∀ p ∈ values, SelfContained p.2 := by
  decide +kernel

theorem selfContained_operatorNames :
    ∀ id ∈ operatorNames, SelfContained ("\\operatorname\x7b" ++ id ++ "\x7d") := by
  decide +kernel

/-- The glyphs that LaTeX could not show as they stand have other values in LaTeX.  Both tables list
them in one order. -/
theorem sublist_keys_values :
    List.Sublist
      (KeyedList.keys (SymbolTable.glyphs.entries.filter fun p =>
        ¬ ∀ s ∈ p.2.value, SelfContained s))
      values.keys := by
  decide +kernel

/-- The value of a symbol is a LaTeX value, a named operator, or the glyph of a symbol without a
LaTeX value. -/
theorem IsValue.cases {s : String} (h : IsValue s) :
    (∃ p ∈ values, p.2 = s) ∨ (∃ id ∈ operatorNames, "\\operatorname\x7b" ++ id ++ "\x7d" = s) ∨
      ∃ p ∈ SymbolTable.glyphs.entries, p.1 ∉ values.keys ∧ p.2.value = some s := by
  obtain ⟨key, d, hd, hs⟩ := h
  obtain ⟨⟨id, glyph⟩, hmem, heq⟩ := List.mem_map.mp (KeyedList.mem_of_value? hd)
  cases heq
  unfold valueOf at hs
  split at hs
  · rename_i value hvalue
    cases hs
    exact .inl ⟨_, KeyedList.mem_of_value? hvalue, rfl⟩
  · rename_i hvalue
    split at hs
    · rename_i hname
      cases hs
      exact .inr (.inl ⟨key, hname, rfl⟩)
    · refine .inr (.inr ⟨_, hmem, fun hkey => ?_, hs⟩)
      obtain ⟨value, hsome⟩ := KeyedList.exists_value? hkey
      exact nomatch hvalue.symm.trans hsome

/-- The values of the table are self-contained. -/
theorem selfContained_of_isValue {s : String} (h : IsValue s) : SelfContained s := by
  rcases h.cases with ⟨p, hp, rfl⟩ | ⟨id, hid, rfl⟩ | ⟨p, hp, hkey, hs⟩
  · exact selfContained_values p hp
  · exact selfContained_operatorNames id hid
  · by_contra hself
    -- a glyph that LaTeX could not show has another value
    have hfiltered : p ∈ SymbolTable.glyphs.entries.filter fun p =>
        ¬ ∀ s ∈ p.2.value, SelfContained s :=
      List.mem_filter.mpr ⟨hp, by simpa using ⟨s, hs, hself⟩⟩
    exact hkey (sublist_keys_values.subset (List.mem_map_of_mem hfiltered))

/-! ## Lexemes of known pieces -/

theorem inert_of_isNumeric {A : Alphabet} {s : String} (h : IsNumeric s) : Inert A s.toList := by
  unfold IsNumeric at h
  generalize s.toList = cs at h
  induction cs with
  | nil => exact inert_nil
  | cons c cs ih =>
    obtain ⟨hc, hcs⟩ := List.forall_mem_cons.mp h
    refine Inert.append (inert_char ?_) (ih hcs)
    intro hbrace
    simp only [List.mem_cons, List.not_mem_nil, or_false] at hbrace
    rcases hbrace with rfl | rfl | rfl <;> exact absurd hc (by decide)

theorem ascii_fixed : ∀ s ∈ breaks ++ commands, IsAscii s.toList := by
  decide

/-- A break starts with no letter and ends in a whole lexeme. -/
theorem break_spec : ∀ s ∈ breaks,
    s.toList.head?.map Alphabet.basic.isLetter = some false ∧
      Scan.after .basic .plain s.toList = .plain := by
  decide

theorem selfContained_commands : ∀ s ∈ separators ++ commands, SelfContained s := by
  decide

theorem enclosure_spec : ∀ p ∈ enclosures,
    (openAfter [] (lex .basic p.1)).bind (fun opened => openAfter opened (lex .basic p.2)) =
      some [] := by
  decide

theorem names_fixed : ∀ s ∈ breaks ++ commands, ∀ l ∈ lex .basic s, ∀ name ∈ l.name?,
    name ∈ commandNames ∧ name ∉ sizingNames := by
  decide

section

variable {A : Alphabet}

theorem lex_ascii {s : String} (h : IsAscii s.toList) : lex A s = lex .basic s :=
  lexFrom_ascii h .plain

theorem SelfContained.after_ne_escape {s : String} (h : SelfContained s) :
    Scan.after A .plain s.toList ≠ .escape := by
  rw [after_ascii h.ascii]
  exact h.after_ne

theorem SelfContained.nested_lex {s : String} (h : SelfContained s) : Nested (lex A s) := by
  rw [lex_ascii h.ascii]
  exact h.nested

theorem Inert.name_mem {s name : String} (h : Inert A s.toList) (hname : .word name ∈ lex A s) :
    name ∈ characterNames :=
  h.names _ hname name rfl

/-- What is written for a mark: a point, or the value of a symbol that stands for a delimiter. -/
theorem Delimits.text {m : Mark} (h : Delimits m) :
    ∃ s, m.visible?.getD "." = s ∧ IsDelimiter s ∧ SelfContained s ∧ (s = "." ∨ IsValue s) := by
  rcases h with rfl | ⟨s, rfl, hvalue, hdelimiter⟩
  · exact ⟨".", rfl, by decide +kernel, by decide +kernel, .inl rfl⟩
  · have hne : s ≠ "" := by
      rintro rfl
      exact absurd hdelimiter (by decide +kernel)
    have htext : (Mark.text s).visible?.getD "." = s := by
      rw [Mark.visible?, if_neg hne]
      rfl
    exact ⟨s, htext, hdelimiter, selfContained_of_isValue hvalue, .inr hvalue⟩

theorem sizing_spec : ∀ name ∈ sizingNames,
    IsAscii ("\\" ++ name ++ " ").toList ∧
      Scan.after .basic .plain ("\\" ++ name ++ " ").toList = .plain ∧
      lex .basic ("\\" ++ name ++ " ") = [.word name, .char ' '] := by
  decide

/-- A delimiter is its command, a space and one lexeme, which is a point or from a value. -/
theorem lex_delimiter {name : String} {m : Mark} (h : (Piece.delimiter name m).Known) :
    ∃ d ∈ delimiters, lex A (Piece.delimiter name m).text = [.word name, .char ' ', d] ∧
      (d = .char '.' ∨ ∃ s, IsValue s ∧ d ∈ lex A s) := by
  obtain ⟨hascii, hafter, hlex⟩ := sizing_spec name h.1
  obtain ⟨s, htext, ⟨d, hd, hone⟩, hself, hsource⟩ := h.2.text
  have hs : lex A s = [d] := (lex_ascii hself.ascii).trans hone
  refine ⟨d, hd, ?_, ?_⟩
  · rw [Piece.text, htext, lex, String.toList_append,
      lexFrom_append_of_plain (by rw [after_ascii hascii, hafter])]
    show lex A ("\\" ++ name ++ " ") ++ lex A s = _
    rw [lex_ascii hascii, hlex, hs]
    rfl
  · rcases hsource with rfl | hvalue
    · exact .inl (List.singleton_inj.mp hone).symm
    · exact .inr ⟨s, hvalue, hs ▸ List.mem_singleton_self d⟩

theorem eq_or_eq_of_word_mem {name command : String} {d : Lexeme}
    (h : .word name ∈ [.word command, .char ' ', d]) : name = command ∨ .word name = d := by
  simpa using h

namespace Piece.Known

variable {p : Piece}

theorem after_ne_escape (h : p.Known) : Scan.after A .plain p.text.toList ≠ .escape := by
  cases p with
  | fixed s =>
    rw [Piece.text, after_ascii (ascii_fixed s h)]
    rcases List.mem_append.mp h with hbreak | hcommand
    · rw [(break_spec s hbreak).2]
      decide
    · exact (selfContained_commands s (List.mem_append_right _ hcommand)).after_ne
  | value s => exact (selfContained_of_isValue h).after_ne_escape
  | escaped s =>
    rw [Piece.text, (inert_escape s).after_eq]
    decide
  | digits s =>
    rw [Piece.text, (inert_of_isNumeric h).after_eq]
    decide
  | delimiter name m =>
    obtain ⟨hascii, hafter, -⟩ := sizing_spec name h.1
    obtain ⟨s, htext, -, hself, -⟩ := h.2.text
    rw [Piece.text, htext, String.toList_append, after_append, after_ascii hascii, hafter]
    exact hself.after_ne_escape

/-- The control words of a piece are the commands of constructs, the names of characters and the
control words of values. -/
theorem names (h : p.Known) {name : String} (hname : .word name ∈ lex A p.text) :
    name ∈ commandNames ∨ name ∈ characterNames ∨ ∃ s, IsValue s ∧ .word name ∈ lex A s := by
  cases p with
  | fixed s =>
    rw [Piece.text, lex_ascii (ascii_fixed s h)] at hname
    exact .inl (names_fixed s h _ hname name rfl).1
  | value s => exact .inr (.inr ⟨s, h, hname⟩)
  | escaped s => exact .inr (.inl ((inert_escape s).name_mem hname))
  | digits s => exact .inr (.inl ((inert_of_isNumeric h).name_mem hname))
  | delimiter command m =>
    obtain ⟨d, -, hlex, hd⟩ := lex_delimiter (A := A) h
    rw [hlex] at hname
    rcases eq_or_eq_of_word_mem hname with rfl | rfl
    · exact .inl (List.mem_append_left _ h.1)
    · exact .inr (.inr (hd.resolve_left (by simp)))

/-- A piece with the command of a delimiter is this command, a space and one lexeme that stands for
a delimiter. -/
theorem lex_of_sizing (h : p.Known) {name : String} (hsizing : name ∈ sizingNames)
    (hname : .word name ∈ lex A p.text) :
    ∃ d ∈ delimiters, lex A p.text = [.word name, .char ' ', d] := by
  have hcharacter : ∀ name ∈ sizingNames, name ∉ characterNames := by decide
  have hdelimiter : ∀ name ∈ sizingNames, .word name ∉ delimiters := by decide
  cases p with
  | fixed s =>
    rw [Piece.text, lex_ascii (ascii_fixed s h)] at hname
    exact absurd hsizing (names_fixed s h _ hname name rfl).2
  | value s =>
    have hself := selfContained_of_isValue h
    rw [Piece.text, lex_ascii hself.ascii] at hname
    exact absurd hname (hself.unsized name hsizing)
  | escaped s => exact absurd ((inert_escape s).name_mem hname) (hcharacter name hsizing)
  | digits s => exact absurd ((inert_of_isNumeric h).name_mem hname) (hcharacter name hsizing)
  | delimiter command m =>
    obtain ⟨d, hd, hlex, -⟩ := lex_delimiter (A := A) h
    rw [hlex] at hname ⊢
    rcases eq_or_eq_of_word_mem hname with rfl | rfl
    · exact ⟨d, hd, rfl⟩
    · exact absurd hd (hdelimiter name hsizing)

end Piece.Known

/-! ## Pieces side by side -/

/-- Known pieces whose lexemes are the lexemes of the whole.  What comes after them is not
escaped. -/
structure Joined (A : Alphabet) (ps : List Piece) : Prop where
  known : ∀ p ∈ ps, p.Known
  after_ne : Scan.after A .plain (source ps).toList ≠ .escape
  lex_eq : lex A (source ps) = ps.flatMap fun p => lex A p.text

namespace Joined

variable {a b : List Piece}

theorem nil : Joined A [] :=
  ⟨nofun, nofun, rfl⟩

theorem single {p : Piece} (hp : p.Known) : Joined A [p] := by
  have hsource : source [p] = p.text := String.append_empty
  refine ⟨List.forall_mem_singleton.mpr hp, ?_, ?_⟩
  · rw [hsource]
    exact hp.after_ne_escape
  · rw [hsource, List.flatMap_singleton]

/-- Pieces can be put together across a break. -/
theorem across {s : String} (hs : s ∈ breaks) (ha : Joined A a) (hb : Joined A b) :
    Joined A (a ++ .fixed s :: b) := by
  have hknown : (Piece.fixed s).Known := List.mem_append_left _ hs
  have hascii := ascii_fixed s hknown
  obtain ⟨hhead, hafter⟩ := break_spec s hs
  obtain ⟨c, hc, hletter⟩ := Option.map_eq_some_iff.mp hhead
  obtain ⟨cs, hcs⟩ := List.head?_eq_some_iff.mp hc
  have hbreak : A.isLetter c = false := by
    rw [A.ascii c (hascii c (hcs ▸ List.mem_cons_self))]
    exact hletter
  have hsource : (source (a ++ .fixed s :: b)).toList =
      (source a).toList ++ c :: (cs ++ (source b).toList) := by
    rw [source_append, source, Piece.text, String.toList_append, String.toList_append, hcs,
      List.cons_append]
  have hplain : Scan.after A .plain (c :: cs) = .plain := by
    rw [← hcs, after_ascii hascii, hafter]
  refine ⟨?_, ?_, ?_⟩
  · exact List.forall_mem_append.mpr ⟨ha.known, List.forall_mem_cons.mpr ⟨hknown, hb.known⟩⟩
  · rw [hsource, after_append_of_break ha.after_ne hbreak, ← List.cons_append, after_append, hplain]
    exact hb.after_ne
  · rw [lex, hsource, lexFrom_append_of_break ha.after_ne hbreak, ← List.cons_append,
      lexFrom_append_of_plain hplain, ← hcs, List.flatMap_append, List.flatMap_cons, ← ha.lex_eq,
      ← hb.lex_eq]
    rfl

end Joined

/-- Pieces side by side that nest. -/
structure Typeset (A : Alphabet) (ps : List Piece) : Prop extends Joined A ps where
  nested : Nested (ps.flatMap fun p => lex A p.text)

namespace Typeset

variable {a b : List Piece}

theorem nil : Typeset A [] :=
  ⟨.nil, rfl⟩

theorem single {p : Piece} (hp : p.Known) (h : Nested (lex A p.text)) : Typeset A [p] :=
  ⟨.single hp, by rwa [List.flatMap_singleton]⟩

theorem command {s : String} (hs : s ∈ commands) : Typeset A [.fixed s] :=
  single (List.mem_append_right _ hs)
    (selfContained_commands s (List.mem_append_right _ hs)).nested_lex

theorem value {s : Option String} (h : ∃ v ∈ s, IsValue v) : Typeset A (s.toList.map .value) := by
  obtain ⟨v, rfl, hv⟩ := h
  exact single hv (selfContained_of_isValue hv).nested_lex

theorem escaped (s : String) : Typeset A [.escaped s] :=
  single trivial (inert_escape s).nested

theorem digits {s : String} (h : IsNumeric s) : Typeset A [.digits s] :=
  single h (inert_of_isNumeric h).nested

theorem separated {s : String} (ha : Typeset A a) (hs : s ∈ separators) (hb : Typeset A b) :
    Typeset A (a ++ .fixed s :: b) := by
  have hbreak : s ∈ breaks := List.mem_append_left _ (List.mem_append_left _ hs)
  have hself := selfContained_commands s (List.mem_append_left _ hs)
  refine ⟨ha.toJoined.across hbreak hb.toJoined, ?_⟩
  rw [List.flatMap_append, List.flatMap_cons]
  exact ha.nested.append (Nested.append hself.nested_lex hb.nested)

theorem enclosed {opening closing : String} (h : (opening, closing) ∈ enclosures)
    (ha : Typeset A a) (hb : Typeset A b) :
    Typeset A (a ++ .fixed opening :: (b ++ [.fixed closing])) := by
  have hopening : opening ∈ breaks :=
    List.mem_append_left _ (List.mem_append_right _ (List.mem_map_of_mem h))
  have hclosing : closing ∈ breaks := List.mem_append_right _ (List.mem_map_of_mem h)
  refine ⟨ha.toJoined.across hopening (hb.toJoined.across hclosing .nil), ?_⟩
  rw [List.flatMap_append, List.flatMap_cons, List.flatMap_append, List.flatMap_singleton]
  refine ha.nested.append (Nested.between ?_ hb.nested)
  have hspec := enclosure_spec _ h
  rwa [← lex_ascii (ascii_fixed _ (List.mem_append_left _ hopening)),
    ← lex_ascii (ascii_fixed _ (List.mem_append_left _ hclosing))] at hspec

theorem braced (ha : Typeset A a) (hb : Typeset A b) : Typeset A (a ++ Piece.braced b) :=
  enclosed (by decide) ha hb

theorem quoted (s : String) : Typeset A (Piece.quoted s) :=
  braced (command (by decide)) (escaped s)

theorem join {between : String} (hs : between ∈ separators) {pss : List (List Piece)}
    (h : ∀ ps ∈ pss, Typeset A ps) : Typeset A (Piece.join between pss) := by
  fun_induction Piece.join between pss with
  | case1 => exact nil
  | case2 ps => exact h ps List.mem_cons_self
  | case3 ps pss _ ih =>
    obtain ⟨hps, hpss⟩ := List.forall_mem_cons.mp h
    exact hps.separated hs (ih hpss)

/-- The lexemes of a body between delimiters. -/
theorem flatMap_lex_fence (left right : Mark) (a : List Piece) :
    List.flatMap (fun p => lex A p.text)
        ([Piece.delimiter "left" left] ++ Piece.fixed " " ::
          (a ++ Piece.fixed " " :: [Piece.delimiter "right" right])) =
      (lex A (Piece.delimiter "left" left).text ++ [Lexeme.char ' ']) ++
        (a.flatMap (fun p => lex A p.text) ++
          ([Lexeme.char ' '] ++ lex A (Piece.delimiter "right" right).text)) := by
  have hspace : lex A (Piece.fixed " ").text = [Lexeme.char ' '] := rfl
  simp [hspace]

theorem fence {left right : Mark} (hleft : Delimits left) (hright : Delimits right)
    (h : Typeset A a) : Typeset A (Piece.fence left a right) := by
  have hopens : ∀ d ∈ delimiters,
      openAfter [] ([.word "left", .char ' ', d] ++ [.char ' ']) = some [.fence] := by decide
  have hcloses : ∀ d ∈ delimiters,
      openAfter [.fence] ([.char ' '] ++ [.word "right", .char ' ', d]) = some [] := by decide
  unfold Piece.fence
  split
  · exact h
  · have hopening : (Piece.delimiter "left" left).Known := ⟨by decide, hleft⟩
    have hclosing : (Piece.delimiter "right" right).Known := ⟨by decide, hright⟩
    have hblank : " " ∈ breaks := by decide
    obtain ⟨d, hd, hlexd, -⟩ := lex_delimiter (A := A) hopening
    obtain ⟨d', hd', hlexd', -⟩ := lex_delimiter (A := A) hclosing
    have hjoined := h.toJoined.across hblank (.single hclosing)
    refine ⟨(Joined.single hopening).across hblank hjoined, ?_⟩
    rw [flatMap_lex_fence, hlexd, hlexd']
    refine Nested.between ?_ h.nested
    rw [hopens d hd]
    exact hcloses d' hd'

theorem script {marker : String} (hs : marker ∈ separators) (l : Layout) (ha : Typeset A a)
    (hb : Typeset A b) : Typeset A (a ++ Piece.script marker l b) := by
  have hplain := ha.separated hs hb
  have hbraced := ha.separated hs (braced nil hb)
  cases l with
  | nothing => exact (List.append_nil a).symm ▸ ha
  | operator | name | identifier | invisible | number | text => exact hplain
  | _ => exact hbraced

theorem call {function : Option String} (hfunction : ∃ v ∈ function, IsValue v) (l : Layout)
    (h : Typeset A a) : Typeset A (Piece.call function l a) := by
  unfold Piece.call
  split
  · rw [List.append_nil]
    exact value hfunction
  · exact (value hfunction).separated (by decide) h

end Typeset

/-! ## Layouts -/

theorem isNumeric_natRepr (n : Nat) : IsNumeric n.repr := by
  intro c hc
  rw [Nat.toList_repr] at hc
  have hdigit := Nat.isDigit_of_mem_toDigits (by decide) (by decide) hc
  simp only [Char.isDigit, Bool.and_eq_true, decide_eq_true_eq] at hdigit
  refine .inl ?_
  simp only [Text.isDigit, Bool.and_eq_true, decide_eq_true_eq]
  exact hdigit

theorem isNumeric_int (n : Int) : IsNumeric (toString n) := by
  cases n with
  | ofNat n => exact isNumeric_natRepr n
  | negSucc n =>
    intro c hc
    have hc : c ∈ ("-" ++ n.succ.repr).toList := hc
    rw [String.toList_append] at hc
    rcases List.mem_append.mp hc with hsign | hdigit
    · exact .inr (List.mem_cons.mpr (.inl (List.mem_singleton.mp hsign)))
    · exact isNumeric_natRepr _ c hdigit

theorem typeset_components (rgb : RGB) :
    Typeset A ([Piece.digits (toString rgb.r)] ++ Piece.fixed "," ::
      ([Piece.digits (toString rgb.g)] ++ Piece.fixed "," ::
        [Piece.digits (toString rgb.b)])) := by
  have hred : Typeset A [.digits (toString rgb.r)] := .digits (isNumeric_int rgb.r)
  have hgreen : Typeset A [.digits (toString rgb.g)] := .digits (isNumeric_int rgb.g)
  have hblue : Typeset A [.digits (toString rgb.b)] := .digits (isNumeric_int rgb.b)
  have hcomma : "," ∈ separators := by decide
  exact hred.separated hcomma (hgreen.separated hcomma hblue)

open Layout in
mutual

/-- The pieces of a legible layout go together. -/
theorem typeset_ofLayout : ∀ l : Layout, l.All Legible → Typeset A (Piece.ofLayout l)
  | .nothing, _ => .nil
  | .foreign _, h => h.elim
  | .faulty _, h => h.elim
  | .invisible, _ => .nil
  | .operator _, h => .value h
  | .name _, h => .value h
  | .identifier none, h => absurd rfl h
  | .identifier (some s), _ => .escaped s
  | .number _, ⟨v, rfl, hv⟩ => .digits hv
  | .text none, h => absurd rfl h
  | .text (some s), _ => .quoted s
  | .colorText s, _ => .quoted s
  | .sequence items, h => .join (by decide) (typeset_ofLayouts items h.2)
  | .row items, h => .join (by decide) (typeset_ofLayouts items h.2)
  | .group e, h => typeset_ofLayout e h.2
  | .fence _ e _, h => (typeset_ofLayout e h.2).fence h.1.1 h.1.2
  | .wrap _ e _, h => (typeset_ofLayout e h.2).fence h.1.1 h.1.2
  | .matrix _ rows _, h => by
    have hrows : Typeset A (Piece.join " \\\\ " (Piece.ofRows rows)) :=
      .join (by decide) (typeset_ofRows rows h.2)
    exact .fence h.1.1 h.1.2 (.enclosed (a := []) (by decide) .nil hrows)
  | .sqrt e, h => .braced (.command (by decide)) (typeset_ofLayout e h.2)
  | .cancel e, h => .braced (.command (by decide)) (typeset_ofLayout e h.2)
  | .root base index, h =>
    .braced (.enclosed (a := []) (by decide) .nil (typeset_ofLayout index h.2.2))
      (typeset_ofLayout base h.2.1)
  | .color rgb e, h =>
    .braced (.braced (.command (by decide)) (typeset_components rgb)) (typeset_ofLayout e h.2)
  | .fraction a b, h =>
    .braced (.braced (.command (by decide)) (typeset_ofLayout a h.2.1)) (typeset_ofLayout b h.2.2)
  | .font _ e, h => .braced (.value h.1) (typeset_ofLayout e h.2)
  | .operatorCall _ e, h => (typeset_ofLayout e h.2).call h.1 e
  | .functionCall _ e, h => (typeset_ofLayout e h.2).call h.1 e
  | .scripts a b c, h =>
    .script (by decide) c
      (.script (by decide) b (typeset_ofLayout a h.2.1) (typeset_ofLayout b h.2.2.1))
      (typeset_ofLayout c h.2.2.2)
  | .limits a b c, h =>
    .script (by decide) c
      (.script (by decide) b (typeset_ofLayout a h.2.1) (typeset_ofLayout b h.2.2.1))
      (typeset_ofLayout c h.2.2.2)
  | .accent a mark _, h => .braced (typeset_ofLayout mark h.2.2) (typeset_ofLayout a h.2.1)
  | .overset a b, h =>
    .braced (.braced (.command (by decide)) (typeset_ofLayout b h.2.2)) (typeset_ofLayout a h.2.1)
  | .underset a b, h =>
    .braced (.braced (.command (by decide)) (typeset_ofLayout b h.2.2)) (typeset_ofLayout a h.2.1)

theorem typeset_ofLayouts : ∀ ls : List Layout, AllItems Legible ls →
    ∀ ps ∈ Piece.ofLayouts ls, Typeset A ps
  | [], _ => nofun
  | l :: ls, h => List.forall_mem_cons.mpr ⟨typeset_ofLayout l h.1, typeset_ofLayouts ls h.2⟩

theorem typeset_ofRows : ∀ rows : List (List Layout), AllRows Legible rows →
    ∀ ps ∈ Piece.ofRows rows, Typeset A ps
  | [], _ => nofun
  | cells :: rows, h =>
    List.forall_mem_cons.mpr
      ⟨.join (by decide) (typeset_ofLayouts cells h.1), typeset_ofRows rows h.2⟩

end

end

end Latex

end MathMarkup
