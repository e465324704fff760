import MathMarkup.Proofs.LatexLexemes

/-!
# Escaped text in LaTeX

What LaTeX reads for one character of a text is the character itself, its control symbol, or its
control word with an empty pair of braces after it (`Latex.Stands`).  The braces keep the name of
the control word apart from a letter that comes next, so the lexemes of a text are those of its
characters, one after another.

* `Latex.shown_lex_escape`: the lexemes of escaped text show the text, so no two texts are escaped
  to the same source.
* `Latex.Quiet`: every lexeme of escaped text is harmless where it stands.
-/

namespace MathMarkup.Latex

/-! ## The lexemes of a character -/

/-- The characters that are written as control symbols. -/
def symbolChars : List Char :=
  ['&', '%', '$', '#', '_', '\x7b', '\x7d']

/-- The characters that are written as control words, each with its name. -/
def namedChars : List (Char × String) :=
  [('~', "textasciitilde"), ('^', "textasciicircum"), ('\\', "textbackslash")]

/-- The lexemes that stand for a character in text. -/
inductive Stands : Char → List Lexeme → Prop
  | char {c : Char} (hsymbol : c ∉ symbolChars) (hname : c ∉ namedChars.map Prod.fst) :
      Stands c [.char c]
  | symbol {c : Char} (hc : c ∈ symbolChars) : Stands c [.symbol c]
  | word {c : Char} {name : String} (h : (c, name) ∈ namedChars) :
      Stands c [.word name, .char '\x7b', .char '\x7d']

section

variable {A : Alphabet}

theorem stands_escapeChar (c : Char) : Stands c (lexFrom A .plain (escapeChar c)) := by
  have hsymbols : ∀ c ∈ symbolChars,
      IsAscii ['\\', c] ∧ lexFrom .basic .plain ['\\', c] = [.symbol c] := by
    simp only [symbolChars, List.forall_mem_cons, List.not_mem_nil, false_implies, implies_true,
      and_true]
    decide
  unfold escapeChar
  split
  · rename_i hc
    rw [lexFrom_ascii (hsymbols c hc).1, (hsymbols c hc).2]
    exact .symbol hc
  split
  · rename_i htilde
    rw [lexFrom_ascii (by decide)]
    exact .word (by rw [htilde]; decide)
  split
  · rename_i hcircum
    rw [lexFrom_ascii (by decide)]
    exact .word (by rw [hcircum]; decide)
  split
  · rename_i hslash
    rw [lexFrom_ascii (by decide)]
    exact .word (by rw [hslash]; decide)
  · rename_i hsymbol htilde hcircum hslash
    have hlex : lexFrom A .plain [c] = [.char c] := by simp [lexFrom, Scan.step, Scan.close, hslash]
    rw [hlex]
    refine .char hsymbol ?_
    simp [namedChars, htilde, hcircum, hslash]

/-- Escaped text has the lexemes of its characters. -/
theorem lex_escape (s : String) :
    lex A (escape s) = s.toList.flatMap fun c => lexFrom A .plain (escapeChar c) := by
  rw [lex, escape, String.toList_ofList]
  induction s.toList with
  | nil => rfl
  | cons c cs ih =>
    rw [List.flatMap_cons, List.flatMap_cons,
      lexFrom_append_of_plain (inert_escapeChar c).after_eq, ih]

example : lex .basic (escape "~a\x7b") =
    [.word "textasciitilde", .char '\x7b', .char '\x7d', .char 'a', .symbol '\x7b'] := by
  decide

/-! ## What is shown -/

/-- The characters that a lexeme shows in text.  Braces only group, and other control words are
left out. -/
def Lexeme.shown : Lexeme → List Char
  | .word name => (namedChars.filter fun p => p.2 = name).map Prod.fst
  | .symbol c => [c]
  | .char c => if c = '\x7b' ∨ c = '\x7d' then [] else [c]

theorem Stands.shown {c : Char} {ls : List Lexeme} (h : Stands c ls) :
    ls.flatMap Lexeme.shown = [c] := by
  cases h with
  | char hsymbol _ =>
    have hleft : c ≠ '\x7b' := by
      rintro rfl
      exact absurd hsymbol (by decide)
    have hright : c ≠ '\x7d' := by
      rintro rfl
      exact absurd hsymbol (by decide)
    simp [Lexeme.shown, hleft, hright]
  | symbol => rfl
  | word h =>
    have hall : ∀ p ∈ namedChars,
        [.word p.2, .char '\x7b', .char '\x7d'].flatMap Lexeme.shown = [p.1] := by
      decide
    exact hall _ h

/-- The lexemes of escaped text show the text. -/
theorem shown_lex_escape (s : String) : (lex A (escape s)).flatMap Lexeme.shown = s.toList := by
  rw [lex_escape, List.flatMap_assoc]
  simp only [(stands_escapeChar _).shown]
  exact List.flatMap_singleton' s.toList

theorem escape_injective : Function.Injective escape := by
  intro s t h
  have hshown : s.toList = t.toList := by
    rw [← shown_lex_escape (A := .basic) s, h, shown_lex_escape]
  exact String.toList_inj.mp hshown

end

/-! ## Lexemes in their place -/

/-- A lexeme does nothing in text, among those before and after it, but show a character. -/
structure Lexeme.InPlace (before : List Lexeme) (l : Lexeme) (after : List Lexeme) : Prop where
  /-- A control word has the name of a character, and an empty pair of braces comes after it. -/
  word (name : String) (h : l = .word name) :
    name ∈ characterNames ∧ [.char '\x7b', .char '\x7d'] <+: after
  /-- An opening brace belongs to such a pair. -/
  opening (h : l = .char '\x7b') : (∃ name, [.word name] <:+ before) ∧ [.char '\x7d'] <+: after
  /-- So does a closing brace. -/
  closing (h : l = .char '\x7d') : ∃ name, [.word name, .char '\x7b'] <:+ before
  /-- The other characters that LaTeX gives a meaning do not stand for themselves. -/
  special : ∀ c ∈ ['&', '%', '$', '#', '_', '~', '^', '\\'], l ≠ .char c

/-- Every lexeme is in its place. -/
def Quiet (ls : List Lexeme) : Prop :=
  ∀ before l after, ls = before ++ l :: after → l.InPlace before after

/-- What comes further away makes no difference. -/
theorem Lexeme.InPlace.extend {before after : List Lexeme} {l : Lexeme} (h : l.InPlace before after)
    (a b : List Lexeme) : l.InPlace (a ++ before) (after ++ b) where
  word name hl := ⟨(h.word name hl).1, (h.word name hl).2.trans (List.prefix_append after b)⟩
  opening hl := by
    obtain ⟨⟨name, hname⟩, hafter⟩ := h.opening hl
    exact ⟨⟨name, hname.trans (List.suffix_append a before)⟩,
      hafter.trans (List.prefix_append after b)⟩
  closing hl := by
    obtain ⟨name, hname⟩ := h.closing hl
    exact ⟨name, hname.trans (List.suffix_append a before)⟩
  special := h.special

theorem quiet_nil : Quiet [] :=
  fun before _ _ h => absurd h.symm (List.append_ne_nil_of_right_ne_nil before nofun)

theorem Quiet.append {a b : List Lexeme} (ha : Quiet a) (hb : Quiet b) : Quiet (a ++ b) := by
  intro before l after h
  rcases List.append_eq_append_iff.mp h with ⟨gap, rfl, hgap⟩ | ⟨gap, hgap, htail⟩
  · have hplace := (hb gap l after hgap).extend a []
    rwa [List.append_nil] at hplace
  · cases gap with
    | nil =>
      -- the lexeme is the first of the second part
      rw [List.append_nil] at hgap
      have hplace := (hb [] l after htail.symm).extend a []
      rwa [List.append_nil, List.append_nil, hgap] at hplace
    | cons l' gap =>
      obtain ⟨rfl, rfl⟩ := List.cons.inj htail
      exact (ha before l gap hgap).extend [] b

theorem quiet_single {l : Lexeme} (h : l.InPlace [] []) : Quiet [l] := by
  intro before l' after hl
  rcases before with _ | ⟨_, _ | ⟨_, _⟩⟩ <;> cases hl
  exact h

theorem Stands.quiet {c : Char} {ls : List Lexeme} (h : Stands c ls) : Quiet ls := by
  cases h with
  | char hsymbol hname =>
    -- the characters with a meaning are among those that are written in another way
    have hspecial : ∀ d ∈ ['&', '%', '$', '#', '_', '~', '^', '\\', '\x7b', '\x7d'],
        d ∈ symbolChars ∨ d ∈ namedChars.map Prod.fst := by
      simp [symbolChars, namedChars]
    have hne : ∀ d ∈ ['&', '%', '$', '#', '_', '~', '^', '\\', '\x7b', '\x7d'],
        Lexeme.char c ≠ .char d := by
      rintro d hd hcd
      cases hcd
      exact (hspecial c hd).elim hsymbol hname
    refine quiet_single ⟨nofun, fun hl => ?_, fun hl => ?_, fun d hd => hne d ?_⟩
    · exact absurd hl (hne '\x7b' (by decide))
    · exact absurd hl (hne '\x7d' (by decide))
    · exact List.mem_append_left ['\x7b', '\x7d'] hd
  | symbol => exact quiet_single ⟨nofun, nofun, nofun, nofun⟩
  | @word name h =>
    have hname : name ∈ characterNames := by
      have hall : ∀ p ∈ namedChars, p.2 ∈ characterNames := by decide
      exact hall _ h
    intro before l after hls
    rcases before with _ | ⟨_, _ | ⟨_, _ | ⟨_, _⟩⟩⟩
    · cases hls
      refine ⟨fun _ hl => ?_, nofun, nofun, nofun⟩
      cases hl
      exact ⟨hname, List.prefix_rfl⟩
    · cases hls
      exact ⟨nofun, fun _ => ⟨⟨name, List.suffix_rfl⟩, List.prefix_rfl⟩, nofun, by simp⟩
    · cases hls
      exact ⟨nofun, nofun, fun _ => ⟨name, List.suffix_rfl⟩, by simp⟩
    · simp at hls

/-- No two texts are escaped to the same source.  The control words of escaped text are the names of
three characters with an empty pair of braces after each, there are no other braces but in control
symbols, and none of the other characters with a meaning stands for itself. -/
theorem escape_injective_quiet :
    Function.Injective escape ∧ ∀ (A : Alphabet) (s : String), Quiet (lex A (escape s)) := by
  refine ⟨escape_injective, fun A s => ?_⟩
  rw [lex_escape]
  induction s.toList with
  | nil => exact quiet_nil
  | cons c cs ih =>
    rw [List.flatMap_cons]
    exact (stands_escapeChar c).quiet.append ih

end MathMarkup.Latex
