import MathMarkup.Proofs.LatexBrackets
import MathMarkup.Proofs.LatexNesting

/-!
# The index of a root in LaTeX

LaTeX writes the index of a root as an optional argument, and unlike other arguments without braces
around it.  So it is read as it was written exactly if no closing bracket is outside braces in it
(`roots_read_back_iff`).

* `Latex.all_of_isInfix`: the pieces of a part of a layout are among the pieces of the whole.
* `Latex.lex_rootSource`: around the index and the radicand of a root, and around the root itself,
  the lexemes are cut.
* `Latex.readsRoots_of_isInfix` puts these together with the brackets of the index
  (`Latex.bares_ofLayout`) and the reading of a root (`Latex.root?_eq_some_iff`).
-/

namespace MathMarkup

namespace Latex

/-! ## Parts of what is written -/

namespace Piece

theorem infix_braced (ps : List Piece) : ps <:+: braced ps :=
  ⟨[.fixed "\x7b"], [.fixed "\x7d"], rfl⟩

theorem infix_join {between : String} {ps : List Piece} {pss : List (List Piece)}
    (h : ps ∈ pss) : ps <:+: join between pss := by
  fun_induction join between pss with
  | case1 => cases h
  | case2 qs => exact List.mem_singleton.mp h ▸ List.infix_rfl
  | case3 qs pss _ ih =>
    rcases List.mem_cons.mp h with rfl | hmem
    · exact (List.prefix_append _ _).isInfix
    · exact (ih hmem).trans ((List.suffix_cons _ _).trans (List.suffix_append _ _)).isInfix

theorem infix_fence (left right : Mark) (ps : List Piece) : ps <:+: fence left ps right := by
  unfold fence
  split
  · exact List.infix_rfl
  · exact ⟨[.delimiter "left" left, .fixed " "], [.fixed " ", .delimiter "right" right],
      by simp⟩

theorem infix_script (marker : String) (l : Layout) :
    ofLayout l <:+: script marker l (ofLayout l) := by
  have hplain : ofLayout l <:+: .fixed marker :: ofLayout l := List.infix_cons List.infix_rfl
  have hbraced : ofLayout l <:+: .fixed marker :: braced (ofLayout l) :=
    List.infix_cons (infix_braced _)
  cases l with
  | nothing => exact List.nil_infix
  | operator | name | identifier | invisible | number | text => exact hplain
  | _ => exact hbraced

theorem infix_call (function : Option String) (l : Layout) :
    ofLayout l <:+: call function l (ofLayout l) := by
  unfold call
  split
  · rename_i hnothing
    cases l with
    | nothing => exact List.nil_infix
    | _ => cases hnothing
  · exact ((List.suffix_cons _ _).trans (List.suffix_append _ _)).isInfix

end Piece

section

variable {ps a b : List Piece} {P : Layout → Prop}

theorem left_of_isInfix (h : a ++ b <:+: ps) : a <:+: ps :=
  (List.prefix_append a b).isInfix.trans h

theorem right_of_isInfix (h : a ++ b <:+: ps) : b <:+: ps :=
  (List.suffix_append a b).isInfix.trans h

theorem right_of_braced (h : a ++ Piece.braced b <:+: ps) : b <:+: ps :=
  (Piece.infix_braced b).trans (right_of_isInfix h)

open Layout Piece in
mutual

/-- What holds of every layout whose pieces are among some pieces holds of all the parts of such a
layout. -/
theorem all_of_isInfix (hP : ∀ l : Layout, l.All Legible → ofLayout l <:+: ps → P l) :
    ∀ l : Layout, l.All Legible → ofLayout l <:+: ps → l.All P
  | .nothing, hl, h => hP _ hl h
  | .foreign _, hl, h => hP _ hl h
  | .faulty _, hl, h => hP _ hl h
  | .invisible, hl, h => hP _ hl h
  | .operator _, hl, h => hP _ hl h
  | .name _, hl, h => hP _ hl h
  | .identifier _, hl, h => hP _ hl h
  | .number _, hl, h => hP _ hl h
  | .text _, hl, h => hP _ hl h
  | .colorText _, hl, h => hP _ hl h
  | .sequence items, hl, h =>
    ⟨hP _ hl h, allItems_of_isInfix hP items hl.2 fun _ hqs => (infix_join hqs).trans h⟩
  | .row items, hl, h =>
    ⟨hP _ hl h, allItems_of_isInfix hP items hl.2 fun _ hqs => (infix_join hqs).trans h⟩
  | .group a, hl, h => ⟨hP _ hl h, all_of_isInfix hP a hl.2 h⟩
  | .fence left a right, hl, h =>
    ⟨hP _ hl h, all_of_isInfix hP a hl.2 ((infix_fence left right _).trans h)⟩
  | .wrap left a right, hl, h =>
    ⟨hP _ hl h, all_of_isInfix hP a hl.2 ((infix_fence left right _).trans h)⟩
  | .matrix left rows right, hl, h => by
    have hrows : join " \\\\ " (ofRows rows) <:+: ps :=
      (List.infix_cons (List.prefix_append _ _).isInfix).trans ((infix_fence left right _).trans h)
    exact ⟨hP _ hl h, allRows_of_isInfix hP rows hl.2 fun _ hqs => (infix_join hqs).trans hrows⟩
  | .sqrt a, hl, h => ⟨hP _ hl h, all_of_isInfix hP a hl.2 (right_of_braced h)⟩
  | .cancel a, hl, h => ⟨hP _ hl h, all_of_isInfix hP a hl.2 (right_of_braced h)⟩
  | .root a b, hl, h => by
    have hb : ofLayout b <:+: .fixed "\\sqrt[" :: (ofLayout b ++ [.fixed "]"]) :=
      List.infix_cons (List.prefix_append _ _).isInfix
    exact ⟨hP _ hl h, all_of_isInfix hP a hl.2.1 (right_of_braced h),
      all_of_isInfix hP b hl.2.2 (hb.trans (left_of_isInfix h))⟩
  | .color _ a, hl, h => ⟨hP _ hl h, all_of_isInfix hP a hl.2 (right_of_braced h)⟩
  | .fraction a b, hl, h =>
    ⟨hP _ hl h, all_of_isInfix hP a hl.2.1 (right_of_braced (left_of_isInfix h)),
      all_of_isInfix hP b hl.2.2 (right_of_braced h)⟩
  | .font _ a, hl, h => ⟨hP _ hl h, all_of_isInfix hP a hl.2 (right_of_braced h)⟩
  | .operatorCall s a, hl, h => ⟨hP _ hl h, all_of_isInfix hP a hl.2 ((infix_call s a).trans h)⟩
  | .functionCall s a, hl, h => ⟨hP _ hl h, all_of_isInfix hP a hl.2 ((infix_call s a).trans h)⟩
  | .scripts a b c, hl, h =>
    ⟨hP _ hl h, all_of_isInfix hP a hl.2.1 (left_of_isInfix (left_of_isInfix h)),
      all_of_isInfix hP b hl.2.2.1
        ((infix_script "_" b).trans (right_of_isInfix (left_of_isInfix h))),
      all_of_isInfix hP c hl.2.2.2 ((infix_script "^" c).trans (right_of_isInfix h))⟩
  | .limits a b c, hl, h =>
    ⟨hP _ hl h, all_of_isInfix hP a hl.2.1 (left_of_isInfix (left_of_isInfix h)),
      all_of_isInfix hP b hl.2.2.1
        ((infix_script "_" b).trans (right_of_isInfix (left_of_isInfix h))),
      all_of_isInfix hP c hl.2.2.2 ((infix_script "^" c).trans (right_of_isInfix h))⟩
  | .accent a mark _, hl, h =>
    ⟨hP _ hl h, all_of_isInfix hP a hl.2.1 (right_of_braced h),
      all_of_isInfix hP mark hl.2.2 (left_of_isInfix h)⟩
  | .overset a b, hl, h =>
    ⟨hP _ hl h, all_of_isInfix hP a hl.2.1 (right_of_braced h),
      all_of_isInfix hP b hl.2.2 (right_of_braced (left_of_isInfix h))⟩
  | .underset a b, hl, h =>
    ⟨hP _ hl h, all_of_isInfix hP a hl.2.1 (right_of_braced h),
      all_of_isInfix hP b hl.2.2 (right_of_braced (left_of_isInfix h))⟩

theorem allItems_of_isInfix (hP : ∀ l : Layout, l.All Legible → ofLayout l <:+: ps → P l) :
    ∀ ls : List Layout, AllItems Legible ls → (∀ qs ∈ ofLayouts ls, qs <:+: ps) → AllItems P ls
  | [], _, _ => trivial
  | l :: ls, hls, h => by
    obtain ⟨hfirst, hrest⟩ := List.forall_mem_cons.mp h
    exact ⟨all_of_isInfix hP l hls.1 hfirst, allItems_of_isInfix hP ls hls.2 hrest⟩

theorem allRows_of_isInfix (hP : ∀ l : Layout, l.All Legible → ofLayout l <:+: ps → P l) :
    ∀ rows : List (List Layout), AllRows Legible rows → (∀ qs ∈ ofRows rows, qs <:+: ps) →
      AllRows P rows
  | [], _, _ => trivial
  | cells :: rows, hrows, h => by
    obtain ⟨hfirst, hrest⟩ := List.forall_mem_cons.mp h
    exact ⟨allItems_of_isInfix hP cells hrows.1 fun _ hqs => (infix_join hqs).trans hfirst,
      allRows_of_isInfix hP rows hrows.2 hrest⟩

end

end

/-! ## Reading a root -/

section

variable {A : Alphabet}

/-- Whether what comes next is escaped does not depend on the letters that were read before. -/
theorem after_eq_escape_iff {s s' : Scan} (hs : s ≠ .escape) (hs' : s' ≠ .escape)
    (cs : List Char) : s.after A cs = .escape ↔ s'.after A cs = .escape := by
  induction cs generalizing s s' with
  | nil => exact iff_of_false hs hs'
  | cons c cs ih =>
    rw [after_cons, after_cons]
    by_cases hc : c = '\\'
    · subst hc
      have hslash : A.isLetter '\\' = false := A.ascii '\\' (by decide)
      have hstep {s : Scan} (hs : s ≠ .escape) : (s.step A '\\').2 = .escape := by
        cases s <;> simp_all [Scan.step]
      rw [hstep hs, hstep hs']
    · have hstep {s : Scan} (hs : s ≠ .escape) : (s.step A c).2 ≠ .escape := by
        unfold Scan.step
        grind
      exact ih (hstep hs) (hstep hs')

/-- What comes after known pieces is not escaped. -/
theorem source_ne_escape {ps : List Piece} (h : ∀ p ∈ ps, p.Known) :
    Scan.after A .plain (source ps).toList ≠ .escape := by
  induction ps with
  | nil => exact nofun
  | cons p ps ih =>
    obtain ⟨hp, hps⟩ := List.forall_mem_cons.mp h
    rw [source, String.toList_append, after_append, Ne,
      after_eq_escape_iff hp.after_ne_escape (by decide : Scan.plain ≠ .escape)]
    exact ih hps

/-- The source of a root, with what comes after it. -/
def rootSource (i b rest : String) : String :=
  "\\sqrt[" ++ i ++ "]\x7b" ++ b ++ "\x7d" ++ rest

/-- A root has the lexemes of its index and its radicand. -/
theorem lex_rootSource {i b : String} (hi : Scan.after A .plain i.toList ≠ .escape)
    (hb : Scan.after A .plain b.toList ≠ .escape) (rest : String) :
    lex A (rootSource i b rest) =
      .word "sqrt" :: .char '[' ::
        (lex A i ++ .char ']' :: .char '\x7b' :: (lex A b ++ .char '\x7d' :: lex A rest)) := by
  have hascii : IsAscii "\\sqrt[".toList := by decide
  have hopening : Scan.after A .plain "\\sqrt[".toList = .plain := by
    rw [after_ascii hascii]
    decide
  have hsource : (rootSource i b rest).toList =
      "\\sqrt[".toList ++ (i.toList ++ ']' :: '\x7b' :: (b.toList ++ '\x7d' :: rest.toList)) := by
    simp [rootSource]
  have hlex : lexFrom .basic .plain "\\sqrt[".toList = [.word "sqrt", .char '['] := by decide
  have hradicand : lexFrom A .plain (b.toList ++ '\x7d' :: rest.toList) =
      lex A b ++ .char '\x7d' :: lex A rest :=
    lexFrom_append_of_break hb (A.ascii '\x7d' (by decide))
  have hindex : lexFrom A .plain
      (i.toList ++ ']' :: '\x7b' :: (b.toList ++ '\x7d' :: rest.toList)) =
      lex A i ++ .char ']' :: .char '\x7b' ::
        lexFrom A .plain (b.toList ++ '\x7d' :: rest.toList) :=
    lexFrom_append_of_break hi (A.ascii ']' (by decide))
  rw [lex, hsource, lexFrom_append_of_plain hopening, lexFrom_ascii hascii, hlex, hindex, hradicand]
  rfl

/-- A root is cut off from what is written before it. -/
theorem lex_append_rootSource {before : String}
    (h : Scan.after A .plain before.toList ≠ .escape) (i b rest : String) :
    lex A (before ++ rootSource i b rest) = lex A before ++ lex A (rootSource i b rest) := by
  obtain ⟨cs, hcs⟩ : ∃ cs, (rootSource i b rest).toList = '\\' :: cs := by simp [rootSource]
  rw [lex, lex, lex, String.toList_append, hcs]
  exact lexFrom_append_of_break h (A.ascii '\\' (by decide))

/-- A root is written in a text, and LaTeX reads it there as it is exactly if its index bares no
closing bracket. -/
def ReadsRoots (A : Alphabet) (text : String) : Layout → Prop
  | .root base index =>
    ∃ before i b after, text = before ++ rootSource i b after ∧
      render index = .put i ∧ render base = .put b ∧
      lex A text = lex A before ++ lex A (rootSource i b after) ∧
      (Unbraced (.char ']') (lex A i) ↔ index.BaresBracket) ∧
      (root? (lex A (rootSource i b after)) = some (lex A i, lex A b, lex A after) ↔
        ¬ index.BaresBracket)
  | _ => True

/-- In what is written for a legible layout, every root is read as far as the brackets of its index
allow. -/
theorem readsRoots_of_isInfix {ps : List Piece} (hps : ∀ p ∈ ps, p.Known) {l : Layout}
    (hl : l.All Layout.Legible) (h : Piece.ofLayout l <:+: ps) : ReadsRoots A (source ps) l := by
  cases l with
  | root base index =>
    obtain ⟨before, after, rfl⟩ := h
    have hbase := typeset_ofLayout (A := A) base hl.2.1
    have hindex := bares_ofLayout (A := A) index hl.2.2
    have hsource : source (before ++ Piece.ofLayout (.root base index) ++ after) =
        source before ++ rootSource (source (Piece.ofLayout index)) (source (Piece.ofLayout base))
          (source after) := by
      have hclosing : "]\x7b" = "]" ++ "\x7b" := rfl
      simp only [source_append, Piece.ofLayout, Piece.braced, source, Piece.text, rootSource,
        hclosing, String.append_assoc, String.append_empty, List.cons_append]
    have hlex := lex_rootSource (A := A) hindex.after_ne hbase.after_ne (source after)
    have hunbraced : Unbraced (.char ']') (lex A (source (Piece.ofLayout index))) ↔
        index.BaresBracket := by
      rw [hindex.lex_eq, hindex.unbraced_iff]
    refine ⟨_, _, _, _, hsource, writes_render index hl.2.2, writes_render base hl.2.1, ?_,
      hunbraced, ?_⟩
    · have hbefore : ∀ p ∈ before, p.Known := fun p hp =>
        hps p (List.mem_append_left _ (List.mem_append_left _ hp))
      rw [hsource, lex_append_rootSource (source_ne_escape hbefore)]
    · rw [hlex, root?_eq_some_iff (hindex.lex_eq ▸ hindex.balanced) (hbase.lex_eq ▸ hbase.balanced),
        hunbraced]
  | _ => trivial

end

end Latex

open Latex Grammar

/-- With the built-in tables and any colors, every source is read as an expression that is written
in LaTeX, and every root of it is read there as it is exactly if its index bares no closing
bracket. -/
theorem roots_read_back_iff (A : Alphabet) (colors : ColorTable) (source : String) :
    ∃ e text, Expr.parse .spellings colors source = .ok e ∧
      (Format.latex.render Latex.symbols e).read = .ok text ∧
      (Latex.symbols.layout e).All (ReadsRoots A text) := by
  obtain ⟨e, hparse, hlegible⟩ := Token.exists_legible_layout colors source
  have hknown := (typeset_ofLayout (A := A) _ hlegible).known
  refine ⟨e, _, hparse, ?_, all_of_isInfix (fun l => readsRoots_of_isInfix hknown) _
    hlegible List.infix_rfl⟩
  show (render _).read = _
  rw [writes_render _ hlegible]
  rfl

/-- A root within the index of a root.  The bracket of the inner one ends the index, so its radicand
is taken for that of the outer one. -/
theorem root_in_index :
    ∃ e base index, Expr.parse .spellings .basic "root(root 3 2)x" = .ok e ∧
      Latex.symbols.layout e = .root base index ∧
      (Format.latex.render Latex.symbols e).read = .ok "\\sqrt[\\sqrt[3]\x7b2\x7d]\x7bx\x7d" ∧
      (render index).read = .ok "\\sqrt[3]\x7b2\x7d" ∧
      Unbraced (.char ']') (lex .basic "\\sqrt[3]\x7b2\x7d") ∧
      root? (lex .basic "\\sqrt[\\sqrt[3]\x7b2\x7d]\x7bx\x7d") =
        some (lex .basic "\\sqrt[3", lex .basic "2", lex .basic "]\x7bx\x7d") := by
  have htokens : (SymbolTable.spellings.read "root(root 3 2)x").tokens =
      [⟨.role .binary, some "root", "root", []⟩, .leftRound,
        ⟨.role .binary, some "root", "root", []⟩, ⟨.number, some "3", "3", []⟩,
        ⟨.number, some "2", "2", []⟩, .rightRound, ⟨.identifier, some "x", "x", []⟩] := by
    rw [SymbolTable.read_spellings]
    decide +kernel
  have hd : Derives ⟨.basic, none⟩ (.run false (SymbolTable.spellings.read "root(root 3 2)x").tokens
      [.binary (.symbol ⟨some "root", "root"⟩)
        (.group (.symbol ⟨some "lparen", "("⟩)
          (.binary (.symbol ⟨some "root", "root"⟩) (.number "3") (.number "2"))
          (.symbol ⟨some "rparen", ")"⟩))
        (.identifier "x")] []) := by
    rw [htokens]
    have hinner : Derives ⟨.basic, none⟩ (.run true
        [⟨.role .binary, some "root", "root", []⟩, ⟨.number, some "3", "3", []⟩,
          ⟨.number, some "2", "2", []⟩, .rightRound, ⟨.identifier, some "x", "x", []⟩]
        [.binary (.symbol ⟨some "root", "root"⟩) (.number "3") (.number "2")]
        [.rightRound, ⟨.identifier, some "x", "x", []⟩]) :=
      .last (.bare (.binary rfl (.leaf rfl) (.leaf rfl) rfl rfl) rfl rfl) (by simp)
        (.inr ⟨rfl, rfl⟩)
    exact .last (.bare (.binary rfl (.paren rfl rfl hinner rfl) (.leaf rfl) rfl rfl) rfl rfl)
      (by simp) (.inl rfl)
  refine ⟨_, _, _, parse_of_derives (SymbolTable.error_read_spellings _) hd, rfl, ?_, ?_, ?_, ?_⟩
  · decide +kernel
  · decide +kernel
  · exact ⟨lex .basic "\\sqrt[3", lex .basic "\x7b2\x7d", by decide, by decide⟩
  · decide

end MathMarkup
