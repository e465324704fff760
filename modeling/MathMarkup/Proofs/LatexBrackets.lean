import Mathlib.Data.List.Basic
import MathMarkup.Proofs.LatexArguments
import MathMarkup.Proofs.LatexTypeset

/-!
# Closing brackets in LaTeX source

Where the closing brackets come from that are outside braces in what LaTeX writes.  They are symbols
and delimiters that are shown by one, names with one, and the brackets of roots and colors.  Most
constructs put braces around their parts, which hides the brackets in these.

* `Layout.BaresBracket` says of a layout that one of its brackets is outside braces.
* `Latex.Bares` says of pieces that go together when this is so.  Its rules go along with those of
  `Latex.Typeset`, and `Latex.bares_ofLayout` follows them through a legible layout.
-/

namespace MathMarkup

/-! ## Brackets of layouts -/

namespace Layout

/-- A script that is written without braces. -/
def IsPlainScript : Layout → Prop
  | .operator _ | .name _ | .identifier _ | .invisible | .number _ | .text _ => True
  | _ => False

mutual

/-- A closing bracket is outside braces in what LaTeX writes for a layout. -/
def BaresBracket : Layout → Prop
  | .nothing | .foreign _ | .faulty _ | .invisible => False
  | .operator s | .name s => s = some "]"
  | .identifier s => ∃ n ∈ s, ']' ∈ n.toList
  | .number _ | .text _ | .colorText _ => False
  | .sequence items | .row items => AnyBaresBracket items
  | .group a => a.BaresBracket
  | .fence left a right | .wrap left a right =>
    left = .text "]" ∨ a.BaresBracket ∨ right = .text "]"
  | .matrix left rows right => left = .text "]" ∨ RowBaresBracket rows ∨ right = .text "]"
  | .root _ _ | .color _ _ => True
  | .sqrt _ | .cancel _ | .fraction _ _ | .overset _ _ | .underset _ _ => False
  | .font s _ => s = some "]"
  | .operatorCall s a | .functionCall s a => s = some "]" ∨ a.BaresBracket
  | .scripts a b c | .limits a b c =>
    (a.BaresBracket ∨ b.IsPlainScript ∧ b.BaresBracket) ∨ c.IsPlainScript ∧ c.BaresBracket
  | .accent _ mark _ => mark.BaresBracket

/-- A closing bracket is outside braces in what LaTeX writes for one of several layouts. -/
def AnyBaresBracket : List Layout → Prop
  | [] => False
  | l :: ls => l.BaresBracket ∨ AnyBaresBracket ls

/-- A closing bracket is outside braces in what LaTeX writes for a cell of a matrix. -/
def RowBaresBracket : List (List Layout) → Prop
  | [] => False
  | cells :: rows => AnyBaresBracket cells ∨ RowBaresBracket rows

end

end Layout

namespace Latex

/-! ## Brackets of texts -/

section

variable {A : Alphabet}

/-- A lexeme that is a character is from the source. -/
theorem mem_of_char_mem_lexFrom {c : Char} (hc : c ≠ '\\') {s : Scan} {cs : List Char}
    (h : .char c ∈ lexFrom A s cs) : c ∈ cs := by
  have hstep {s : Scan} {d : Char} (hd : .char c ∈ (s.step A d).1) : c = d := by
    unfold Scan.step at hd
    grind
  induction cs generalizing s with
  | nil => cases s <;> simp_all [lexFrom, Scan.close]
  | cons d cs ih =>
    rcases List.mem_append.mp h with hd | hcs
    · exact List.mem_cons.mpr (.inl (hstep hd))
    · exact List.mem_cons_of_mem d (ih hcs)

theorem not_unbraced_of_notMem {s : String} (h : ']' ∉ s.toList) :
    ¬ Unbraced (.char ']') (lex A s) :=
  fun hunbraced => h (mem_of_char_mem_lexFrom (by decide) hunbraced.mem)

/-- The only value of a symbol with a closing bracket is the bracket itself. -/
theorem eq_bracket_of_isValue {s : String} (h : IsValue s) (hs : ']' ∈ s.toList) : s = "]" := by
  have hvalues : ∀ p ∈ values, ']' ∉ p.2.toList := by
    simp only [← Text.asciiChars_eq]
    decide +kernel
  have hnames : ∀ id ∈ operatorNames, ']' ∉ ("\\operatorname\x7b" ++ id ++ "\x7d").toList := by
    decide
  have hglyphs : ∀ p ∈ SymbolTable.glyphs.entries, ∀ s ∈ p.2.value, ']' ∈ s.toList → s = "]" := by
    simp only [← Text.asciiChars_eq]
    decide +kernel
  rcases h.cases with ⟨p, hp, rfl⟩ | ⟨id, hid, rfl⟩ | ⟨p, hp, -, hvalue⟩
  · exact absurd hs (hvalues p hp)
  · exact absurd hs (hnames id hid)
  · exact hglyphs p hp s hvalue hs

theorem bracket_notMem_fixed : ∀ s ∈ separators ++ commands, s ≠ "\\textcolor[RGB]" →
    ']' ∉ s.toList := by
  decide

theorem unbraced_bracket : Unbraced (.char ']') (lex A "]") :=
  ⟨[], [], rfl, rfl⟩

theorem unbraced_value {s : String} (h : IsValue s) :
    Unbraced (.char ']') (lex A s) ↔ s = "]" := by
  constructor
  · intro hunbraced
    exact eq_bracket_of_isValue h (mem_of_char_mem_lexFrom (by decide) hunbraced.mem)
  · rintro rfl
    exact unbraced_bracket

theorem bracket_mem_escapeChar {c : Char} : ']' ∈ escapeChar c ↔ c = ']' := by
  constructor
  · unfold escapeChar
    split_ifs <;> simp_all [eq_comm]
  · rintro rfl
    decide

/-- Escaped text keeps its closing brackets, outside braces. -/
theorem unbraced_escape {s : String} :
    Unbraced (.char ']') (lex A (escape s)) ↔ ']' ∈ s.toList := by
  rw [lex, escape, String.toList_ofList]
  induction s.toList with
  | nil => simp [lexFrom, Scan.close, Unbraced]
  | cons c cs ih =>
    have hinert := inert_escapeChar (A := A) c
    have hc : Unbraced (.char ']') (lexFrom A .plain (escapeChar c)) ↔ c = ']' := by
      constructor
      · intro h
        exact bracket_mem_escapeChar.mp (mem_of_char_mem_lexFrom (by decide) h.mem)
      · rintro rfl
        exact ⟨[], [], rfl, rfl⟩
    rw [List.flatMap_cons, lexFrom_append_of_plain hinert.after_eq,
      unbraced_append hinert.nested.balanced, hc, ih, List.mem_cons, eq_comm]

theorem balanced_delimiter {name : String} {m : Mark} (h : (Piece.delimiter name m).Known) :
    Balanced (lex A (Piece.delimiter name m).text) := by
  have hdelimiters : ∀ d ∈ delimiters, Balanced [d] := by decide
  have hcommand : Balanced [.word name, .char ' '] := rfl
  obtain ⟨d, hd, hlex, -⟩ := lex_delimiter (A := A) h
  rw [hlex]
  exact hcommand.append (hdelimiters d hd)

/-- A delimiter has a closing bracket only if it is one. -/
theorem unbraced_delimiter {name : String} {m : Mark} (h : (Piece.delimiter name m).Known) :
    Unbraced (.char ']') (lex A (Piece.delimiter name m).text) ↔ m = .text "]" := by
  have hcommand : ∀ name ∈ sizingNames, ']' ∉ ("\\" ++ name ++ " ").toList := by decide
  have hbracket : ∀ name ∈ sizingNames, IsAscii ("\\" ++ name ++ " " ++ "]").toList ∧
      lex .basic ("\\" ++ name ++ " " ++ "]") = [.word name, .char ' '] ++ [.char ']'] := by
    decide
  constructor
  · intro hunbraced
    have hmem := mem_of_char_mem_lexFrom (by decide) hunbraced.mem
    rw [Piece.text, String.toList_append] at hmem
    have hmark := (List.mem_append.mp hmem).resolve_left (hcommand name h.1)
    obtain ⟨-, rfl | ⟨s, rfl, hvalue, -⟩⟩ := h
    · exact absurd hmark (by decide)
    · rw [Mark.visible?] at hmark
      split_ifs at hmark
      · exact absurd hmark (by decide)
      · rw [eq_bracket_of_isValue hvalue hmark]
  · rintro rfl
    obtain ⟨hascii, hlex⟩ := hbracket name h.1
    have htext : (Piece.delimiter name (.text "]")).text = "\\" ++ name ++ " " ++ "]" := rfl
    rw [htext, lex_ascii hascii, hlex]
    exact ⟨_, [], rfl, rfl⟩

/-! ## Brackets of pieces -/

/-- Pieces that go together, and in which a closing bracket is outside braces exactly if a condition
holds. -/
structure Bares (A : Alphabet) (ps : List Piece) (P : Prop) : Prop extends Typeset A ps where
  unbraced_iff : Unbraced (.char ']') (ps.flatMap fun p => lex A p.text) ↔ P

theorem Typeset.balanced {ps : List Piece} (h : Typeset A ps) :
    Balanced (ps.flatMap fun p => lex A p.text) :=
  h.nested.balanced

namespace Bares

variable {a b : List Piece} {P Q : Prop}

theorem congr (h : Bares A a P) (hPQ : P ↔ Q) : Bares A a Q :=
  ⟨h.toTypeset, h.unbraced_iff.trans hPQ⟩

theorem nil : Bares A [] False :=
  ⟨.nil, by simp [Unbraced]⟩

theorem single {p : Piece} (h : Typeset A [p]) (hp : Unbraced (.char ']') (lex A p.text) ↔ P) :
    Bares A [p] P :=
  ⟨h, by rwa [List.flatMap_singleton]⟩

theorem value {s : Option String} (h : ∃ v ∈ s, IsValue v) :
    Bares A (s.toList.map .value) (s = some "]") := by
  have htypeset := Typeset.value (A := A) h
  obtain ⟨v, rfl, hv⟩ := h
  exact single htypeset ((unbraced_value hv).trans Option.some_inj.symm)

theorem escaped (s : String) : Bares A [.escaped s] (']' ∈ s.toList) :=
  single (.escaped s) unbraced_escape

theorem digits {s : String} (h : IsNumeric s) : Bares A [.digits s] False := by
  refine single (.digits h) (iff_false_intro (not_unbraced_of_notMem fun hmem => ?_))
  exact absurd (h ']' hmem) (by decide)

theorem command {s : String} (hs : s ∈ commands) (hne : s ≠ "\\textcolor[RGB]") :
    Bares A [.fixed s] False :=
  single (.command hs) (iff_false_intro (not_unbraced_of_notMem
    (bracket_notMem_fixed s (List.mem_append_right _ hs) hne)))

theorem append (ha : Bares A a P) (htypeset : Typeset A (a ++ b))
    (hb : Unbraced (.char ']') (b.flatMap fun p => lex A p.text) ↔ Q) :
    Bares A (a ++ b) (P ∨ Q) := by
  refine ⟨htypeset, ?_⟩
  rw [List.flatMap_append, unbraced_append ha.balanced, ha.unbraced_iff, hb]

theorem separated {s : String} (ha : Bares A a P) (hs : s ∈ separators) (hb : Bares A b Q) :
    Bares A (a ++ .fixed s :: b) (P ∨ Q) := by
  have hself := selfContained_commands s (List.mem_append_left _ hs)
  have hnone : ¬ Unbraced (.char ']') (lex A s) := by
    refine not_unbraced_of_notMem (bracket_notMem_fixed s (List.mem_append_left _ hs) ?_)
    rintro rfl
    exact absurd hs (by decide)
  refine ha.append (ha.toTypeset.separated hs hb.toTypeset) ?_
  rw [List.flatMap_cons, Piece.text, unbraced_append hself.nested_lex.balanced, hb.unbraced_iff]
  exact or_iff_right hnone

/-- Braces hide what is in them. -/
theorem braced (ha : Bares A a P) (hb : Typeset A b) : Bares A (a ++ Piece.braced b) P := by
  have hnone : ¬ Unbraced (.char ']') ((Piece.braced b).flatMap fun p => lex A p.text) := by
    have hlex : (Piece.braced b).flatMap (fun p => lex A p.text) =
        .char '\x7b' :: (b.flatMap (fun p => lex A p.text) ++ [.char '\x7d']) := by
      rw [Piece.braced, List.flatMap_cons, List.flatMap_append, List.flatMap_singleton]
      rfl
    rw [hlex]
    exact not_unbraced_braced rfl hb.balanced
  exact (ha.append (ha.toTypeset.braced hb) (iff_false_intro hnone)).congr (or_iff_left not_false)

theorem quoted (s : String) : Bares A (Piece.quoted s) False :=
  (command (by decide) (by decide)).braced (.escaped s)

/-- A closing bracket that is written after balanced lexemes is outside braces. -/
theorem closed (ha : Balanced (a.flatMap fun p => lex A p.text))
    (h : Typeset A (a ++ .fixed "]" :: b)) : Bares A (a ++ .fixed "]" :: b) True := by
  refine ⟨h, iff_true_intro ?_⟩
  rw [List.flatMap_append, List.flatMap_cons]
  exact ⟨_, _, rfl, ha⟩

theorem color : Bares A [.fixed "\\textcolor[RGB]"] True := by
  refine single (.command (by decide)) (iff_true_intro ?_)
  rw [Piece.text, lex_ascii (by decide)]
  exact ⟨lex .basic "\\textcolor[RGB", [], by decide, by decide⟩

theorem join {between : String} (hs : between ∈ separators) {pss : List (List Piece)}
    (h : ∀ ps ∈ pss, Typeset A ps) :
    Bares A (Piece.join between pss)
      (∃ ps ∈ pss, Unbraced (.char ']') (ps.flatMap fun p => lex A p.text)) := by
  fun_induction Piece.join between pss with
  | case1 => exact nil.congr (by simp)
  | case2 ps => exact ⟨h ps List.mem_cons_self, by simp⟩
  | case3 ps pss _ ih =>
    obtain ⟨hps, hpss⟩ := List.forall_mem_cons.mp h
    have hfirst : Bares A ps _ := ⟨hps, Iff.rfl⟩
    exact (hfirst.separated hs (ih hpss)).congr (by simp)

theorem fence {left right : Mark} (hleft : Delimits left) (hright : Delimits right)
    (h : Bares A a P) :
    Bares A (Piece.fence left a right) (left = .text "]" ∨ P ∨ right = .text "]") := by
  have htypeset := h.toTypeset.fence hleft hright
  unfold Piece.fence at htypeset ⊢
  split
  · rename_i hnone
    exact h.congr (by simp [hnone])
  · rename_i hsome
    rw [if_neg hsome] at htypeset
    have hopening : (Piece.delimiter "left" left).Known := ⟨by decide, hleft⟩
    have hclosing : (Piece.delimiter "right" right).Known := ⟨by decide, hright⟩
    have hblank : ¬ Unbraced (.char ']') [.char ' '] := fun h => absurd h.mem (by decide)
    refine ⟨htypeset, ?_⟩
    rw [Typeset.flatMap_lex_fence, List.append_assoc,
      unbraced_append (balanced_delimiter hopening), unbraced_append (by decide),
      unbraced_append h.balanced, unbraced_append (by decide), unbraced_delimiter hopening,
      h.unbraced_iff, unbraced_delimiter hclosing]
    simp only [hblank, false_or]

theorem matrix (h : Bares A a P) :
    Bares A (.fixed "\\begin\x7bmatrix\x7d " :: (a ++ [.fixed " \\end\x7bmatrix\x7d"])) P := by
  have hopening : lex A "\\begin\x7bmatrix\x7d " = lex .basic "\\begin\x7bmatrix\x7d " :=
    lex_ascii (by decide)
  have hbalanced : Balanced (lex A "\\begin\x7bmatrix\x7d ") := by
    rw [hopening]
    decide
  refine ⟨.enclosed (a := []) (by decide) .nil h.toTypeset, ?_⟩
  rw [List.flatMap_cons, List.flatMap_append, List.flatMap_singleton, Piece.text, Piece.text,
    unbraced_append hbalanced, unbraced_append h.balanced, h.unbraced_iff,
    iff_false_intro (not_unbraced_of_notMem (by decide)),
    iff_false_intro (not_unbraced_of_notMem (by decide)), false_or, or_false]

theorem script {marker : String} (hs : marker ∈ separators) (l : Layout) (ha : Bares A a P)
    (hb : Bares A b Q) :
    Bares A (a ++ Piece.script marker l b) (P ∨ l.IsPlainScript ∧ Q) := by
  have hplain := ha.separated hs hb
  have hbraced := ha.separated hs (nil.braced hb.toTypeset)
  cases l with
  | nothing => exact ((List.append_nil a).symm ▸ ha).congr (by simp [Layout.IsPlainScript])
  | operator | name | identifier | invisible | number | text =>
    exact hplain.congr (by simp [Layout.IsPlainScript])
  | _ => exact hbraced.congr (by simp [Layout.IsPlainScript])

theorem call {function : Option String} (hfunction : ∃ v ∈ function, IsValue v) {l : Layout}
    (h : Bares A (Piece.ofLayout l) P) :
    Bares A (Piece.call function l (Piece.ofLayout l)) (function = some "]" ∨ P) := by
  unfold Piece.call
  split
  · rename_i hnothing
    cases l with
    | nothing =>
      have hP : ¬ P := fun hP => absurd (h.unbraced_iff.mpr hP).mem (by simp [Piece.ofLayout])
      rw [List.append_nil]
      exact (value hfunction).congr (or_iff_left hP).symm
    | _ => cases hnothing
  · exact (value hfunction).separated (by decide) h

end Bares

/-! ## Brackets of layouts -/

open Layout in
mutual

/-- What is written for a legible layout has a closing bracket outside braces exactly if the layout
bares one. -/
theorem bares_ofLayout :
    ∀ l : Layout, l.All Legible → Bares A (Piece.ofLayout l) l.BaresBracket
  | .nothing, _ => .nil
  | .foreign _, h => h.elim
  | .faulty _, h => h.elim
  | .invisible, _ => .nil
  | .operator _, h => .value h
  | .name _, h => .value h
  | .identifier none, h => absurd rfl h
  | .identifier (some s), _ => (Bares.escaped s).congr (by simp [BaresBracket])
  | .number _, ⟨v, rfl, hv⟩ => .digits hv
  | .text none, h => absurd rfl h
  | .text (some s), _ => .quoted s
  | .colorText s, _ => .quoted s
  | .sequence items, h =>
    (Bares.join (by decide) (typeset_ofLayouts items h.2)).congr (bares_ofLayouts items h.2)
  | .row items, h =>
    (Bares.join (by decide) (typeset_ofLayouts items h.2)).congr (bares_ofLayouts items h.2)
  | .group e, h => bares_ofLayout e h.2
  | .fence _ e _, h => (bares_ofLayout e h.2).fence h.1.1 h.1.2
  | .wrap _ e _, h => (bares_ofLayout e h.2).fence h.1.1 h.1.2
  | .matrix _ rows _, h => by
    have hrows : Bares A (Piece.join " \\\\ " (Piece.ofRows rows)) _ :=
      .join (by decide) (typeset_ofRows rows h.2)
    exact ((hrows.congr (bares_ofRows rows h.2)).matrix).fence h.1.1 h.1.2
  | .sqrt e, h => .braced (.command (by decide) (by decide)) (typeset_ofLayout e h.2)
  | .cancel e, h => .braced (.command (by decide) (by decide)) (typeset_ofLayout e h.2)
  | .root base index, h => by
    have hindex := typeset_ofLayout (A := A) index h.2.2
    have htypeset := typeset_ofLayout (A := A) (.root base index) h
    have hpieces : Piece.ofLayout (.root base index) =
        (.fixed "\\sqrt[" :: Piece.ofLayout index) ++ .fixed "]" ::
          Piece.braced (Piece.ofLayout base) := by
      simp [Piece.ofLayout]
    have hopening : Balanced (lex A "\\sqrt[") := by
      rw [lex_ascii (by decide)]
      decide
    rw [hpieces] at htypeset ⊢
    exact .closed (hopening.append hindex.balanced) htypeset
  | .color rgb e, h =>
    .braced (.braced .color (typeset_components rgb)) (typeset_ofLayout e h.2)
  | .fraction a b, h =>
    .braced (.braced (.command (by decide) (by decide)) (typeset_ofLayout a h.2.1))
      (typeset_ofLayout b h.2.2)
  | .font _ e, h => .braced (.value h.1) (typeset_ofLayout e h.2)
  | .operatorCall _ e, h => (bares_ofLayout e h.2).call h.1
  | .functionCall _ e, h => (bares_ofLayout e h.2).call h.1
  | .scripts a b c, h =>
    .script (by decide) c
      (.script (by decide) b (bares_ofLayout a h.2.1) (bares_ofLayout b h.2.2.1))
      (bares_ofLayout c h.2.2.2)
  | .limits a b c, h =>
    .script (by decide) c
      (.script (by decide) b (bares_ofLayout a h.2.1) (bares_ofLayout b h.2.2.1))
      (bares_ofLayout c h.2.2.2)
  | .accent a mark _, h => .braced (bares_ofLayout mark h.2.2) (typeset_ofLayout a h.2.1)
  | .overset a b, h =>
    .braced (.braced (.command (by decide) (by decide)) (typeset_ofLayout b h.2.2))
      (typeset_ofLayout a h.2.1)
  | .underset a b, h =>
    .braced (.braced (.command (by decide) (by decide)) (typeset_ofLayout b h.2.2))
      (typeset_ofLayout a h.2.1)

theorem bares_ofLayouts : ∀ ls : List Layout, AllItems Legible ls →
    ((∃ ps ∈ Piece.ofLayouts ls, Unbraced (.char ']') (ps.flatMap fun p => lex A p.text)) ↔
      AnyBaresBracket ls)
  | [], _ => by simp [Piece.ofLayouts, AnyBaresBracket]
  | l :: ls, h => by
    rw [Piece.ofLayouts, List.exists_mem_cons_iff, (bares_ofLayout l h.1).unbraced_iff,
      bares_ofLayouts ls h.2, AnyBaresBracket]

theorem bares_ofRows : ∀ rows : List (List Layout), AllRows Legible rows →
    ((∃ ps ∈ Piece.ofRows rows, Unbraced (.char ']') (ps.flatMap fun p => lex A p.text)) ↔
      RowBaresBracket rows)
  | [], _ => by simp [Piece.ofRows, RowBaresBracket]
  | cells :: rows, h => by
    have hcells : Bares A (Piece.join " & " (Piece.ofLayouts cells)) _ :=
      .join (by decide) (typeset_ofLayouts cells h.1)
    rw [Piece.ofRows, List.exists_mem_cons_iff, hcells.unbraced_iff, bares_ofLayouts cells h.1,
      bares_ofRows rows h.2, RowBaresBracket]

end

end

end Latex

end MathMarkup
