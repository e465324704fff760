import MathMarkup.Latex.Escape

/-!
# Lexemes of LaTeX source

LaTeX takes a backslash with all the letters after it for a control word, a backslash with one other
character for a control symbol, and every other character for itself.  `Latex.lex` reads source in
this way.  What counts as a letter beyond ASCII is up to the engine, so it is left open: an
`Alphabet` fixes the letters of ASCII only.

* Source that is put together from pieces has the lexemes of its pieces, unless a control word ends
  one piece and a letter starts the next (`Latex.lexFrom_append_of_break`,
  `Latex.lexFrom_append_of_plain`).
* `Latex.openAfter` follows the brackets: braces, `\left` with `\right`, and the environment of a
  matrix.  Lexemes nest (`Latex.Nested`) if no bracket is left open or closed by another.
* `Latex.inert_escape`: escaped text has no brackets but the empty pairs of braces after the names
  of three characters.
-/

namespace MathMarkup.Latex

/-! ## Lexemes -/

/-- The characters that the name of a command can have. -/
structure Alphabet where
  isLetter : Char → Bool
  ascii (c : Char) (hc : c.toNat < 128) : isLetter c = c.isAlpha

/-- The letters of ASCII and no others. -/
def Alphabet.basic : Alphabet :=
  ⟨Char.isAlpha, fun _ _ => rfl⟩

/-- What LaTeX reads source as. -/
inductive Lexeme where
  /-- A backslash and letters. -/
  | word (name : String)
  /-- A backslash and one other character. -/
  | symbol (c : Char)
  | char (c : Char)
  deriving DecidableEq

/-- The name of a control word. -/
def Lexeme.name? : Lexeme → Option String
  | .word name => some name
  | _ => none

/-- What has been read of the next lexeme. -/
inductive Scan where
  | plain
  /-- A backslash. -/
  | escape
  /-- A backslash and the given letters. -/
  | word (name : List Char)
  deriving DecidableEq

namespace Scan

/-- Reads a character: the lexemes that it completes, and what has been read of the next. -/
def step (A : Alphabet) : Scan → Char → List Lexeme × Scan
  | .plain, c => if c = '\\' then ([], .escape) else ([.char c], .plain)
  | .escape, c => if A.isLetter c then ([], .word [c]) else ([.symbol c], .plain)
  | .word name, c =>
    if A.isLetter c then ([], .word (name ++ [c]))
    else if c = '\\' then ([.word (String.ofList name)], .escape)
    else ([.word (String.ofList name), .char c], .plain)

/-- What is completed by the end of the source. -/
def close : Scan → List Lexeme
  | .plain => []
  | .escape => [.char '\\']
  | .word name => [.word (String.ofList name)]

/-- What has been read of the next lexeme after some source. -/
def after (A : Alphabet) (s : Scan) (cs : List Char) : Scan :=
  cs.foldl (fun s c => (s.step A c).2) s

end Scan

/-- The lexemes of source after what has been read of the first. -/
def lexFrom (A : Alphabet) : Scan → List Char → List Lexeme
  | s, [] => s.close
  | s, c :: cs => (s.step A c).1 ++ lexFrom A (s.step A c).2 cs

/-- The lexemes of source. -/
def lex (A : Alphabet) (source : String) : List Lexeme :=
  lexFrom A .plain source.toList

/-! ## Pieces of source -/

section

variable {A : Alphabet}

@[simp] theorem after_nil (s : Scan) : s.after A [] = s := rfl

@[simp] theorem after_cons (s : Scan) (c : Char) (cs : List Char) :
    s.after A (c :: cs) = (s.step A c).2.after A cs := rfl

theorem after_append (s : Scan) (a b : List Char) :
    s.after A (a ++ b) = (s.after A a).after A b :=
  List.foldl_append

/-- Source can be cut where what has been read makes a lexeme of its own. -/
theorem lexFrom_append {s : Scan} {a b : List Char}
    (h : lexFrom A (s.after A a) b = (s.after A a).close ++ lexFrom A .plain b) :
    lexFrom A s (a ++ b) = lexFrom A s a ++ lexFrom A .plain b := by
  induction a generalizing s with
  | nil => exact h
  | cons c cs ih =>
    rw [List.cons_append, lexFrom, lexFrom, ih h, List.append_assoc]

/-- Source can be cut after a whole lexeme that no letter goes on. -/
theorem lexFrom_append_of_plain {a b : List Char} (ha : Scan.after A .plain a = .plain) :
    lexFrom A .plain (a ++ b) = lexFrom A .plain a ++ lexFrom A .plain b := by
  refine lexFrom_append ?_
  rw [ha]
  rfl

/-- A character that is no letter ends a control word. -/
theorem step_word {c : Char} (hc : A.isLetter c = false) (name : List Char) :
    (Scan.word name).step A c =
      (.word (String.ofList name) :: (Scan.plain.step A c).1, (Scan.plain.step A c).2) := by
  simp only [Scan.step, hc]
  by_cases hslash : c = '\\' <;> simp [hslash]

/-- Source can be cut before a character that is no letter. -/
theorem lexFrom_append_of_break {a b : List Char} {c : Char}
    (ha : Scan.after A .plain a ≠ .escape) (hc : A.isLetter c = false) :
    lexFrom A .plain (a ++ c :: b) = lexFrom A .plain a ++ lexFrom A .plain (c :: b) := by
  refine lexFrom_append ?_
  cases hscan : Scan.after A .plain a with
  | plain => rfl
  | escape => exact absurd hscan ha
  | word name =>
    rw [lexFrom, step_word hc]
    rfl

example : lex .basic "\\in\x7bt\x7d" = lex .basic "\\in" ++ lex .basic "\x7bt\x7d" ∧
    lex .basic "\\int" ≠ lex .basic "\\in" ++ lex .basic "t" := by
  decide

theorem after_append_of_break {a b : List Char} {c : Char}
    (ha : Scan.after A .plain a ≠ .escape) (hc : A.isLetter c = false) :
    Scan.after A .plain (a ++ c :: b) = Scan.after A .plain (c :: b) := by
  rw [after_append]
  cases hscan : Scan.after A .plain a with
  | plain => rfl
  | escape => exact absurd hscan ha
  | word name => rw [after_cons, step_word hc, after_cons]

/-! ## ASCII -/

/-- A text of ASCII characters. -/
def IsAscii (cs : List Char) : Prop :=
  ∀ c ∈ cs, c.toNat < 128

instance (cs : List Char) : Decidable (IsAscii cs) :=
  List.decidableBAll (fun c : Char => c.toNat < 128) cs

theorem step_ascii {c : Char} (hc : c.toNat < 128) (s : Scan) : s.step A c = s.step .basic c := by
  have hletter : A.isLetter c = Alphabet.basic.isLetter c := A.ascii c hc
  cases s with
  | plain => rfl
  | escape => rw [Scan.step, Scan.step, hletter]
  | word name => rw [Scan.step, Scan.step, hletter]

/-- Engines agree on the lexemes of a text of ASCII characters. -/
theorem lexFrom_ascii {cs : List Char} (h : IsAscii cs) (s : Scan) :
    lexFrom A s cs = lexFrom .basic s cs := by
  induction cs generalizing s with
  | nil => rfl
  | cons c cs ih =>
    obtain ⟨hc, hcs⟩ := List.forall_mem_cons.mp h
    rw [lexFrom, lexFrom, step_ascii hc, ih hcs]

theorem after_ascii {cs : List Char} (h : IsAscii cs) (s : Scan) :
    s.after A cs = s.after .basic cs := by
  induction cs generalizing s with
  | nil => rfl
  | cons c cs ih =>
    obtain ⟨hc, hcs⟩ := List.forall_mem_cons.mp h
    rw [after_cons, after_cons, step_ascii hc, ih hcs]

end

/-! ## Brackets -/

/-- The kinds of brackets. -/
inductive Bracket where
  | brace
  /-- The commands `\left` and `\right`. -/
  | fence
  /-- The environment of a matrix. -/
  | matrix
  deriving DecidableEq

/-- The lexemes that stand for delimiters.  A point stands for one that is missing. -/
def delimiters : List Lexeme :=
  [.char '.', .char '(', .char ')', .char '[', .char ']', .char '|', .symbol '\x7b', .symbol '\x7d',
    .word "langle", .word "rangle", .word "parallel", .word "lfloor", .word "rfloor",
    .word "lceil", .word "rceil"]

/-- The name of the environment between braces. -/
def matrixName : List Lexeme :=
  "\x7bmatrix\x7d".toList.map .char

namespace Lexeme

def opens? : Lexeme → Option Bracket
  | .char '\x7b' => some .brace
  | .word "left" => some .fence
  | .word "begin" => some .matrix
  | _ => none

def closes? : Lexeme → Option Bracket
  | .char '\x7d' => some .brace
  | .word "right" => some .fence
  | .word "end" => some .matrix
  | _ => none

/-- The brackets that are open after a lexeme, unless it closes one that is not the innermost. -/
def turn (l : Lexeme) (opened : List Bracket) : Option (List Bracket) :=
  match l.opens?, l.closes? with
  | some b, _ => some (b :: opened)
  | none, some b => if opened.head? = some b then some opened.tail else none
  | none, none => some opened

/-- Whether what a lexeme asks for comes after it: a space and a delimiter after `\left` and
`\right`, and the name of the environment after `\begin` and `\end`. -/
def served (l : Lexeme) (ls : List Lexeme) : Bool :=
  if l ∈ [.word "left", .word "right"] then
    match ls with
    | .char ' ' :: d :: _ => d ∈ delimiters
    | _ => false
  else if l ∈ [.word "begin", .word "end"] then matrixName.isPrefixOf ls
  else true

end Lexeme

/-- The brackets that are open after lexemes, unless some lexeme is out of place. -/
def openAfter : List Bracket → List Lexeme → Option (List Bracket)
  | opened, [] => some opened
  | opened, l :: ls =>
    if l.served ls then (l.turn opened).bind fun opened => openAfter opened ls else none

/-- Every lexeme is in its place, and every bracket is closed before those around it. -/
def Nested (ls : List Lexeme) : Prop :=
  openAfter [] ls = some []

instance (ls : List Lexeme) : Decidable (Nested ls) :=
  inferInstanceAs (Decidable (_ = _))

theorem turn_append {l : Lexeme} {opened opened' : List Bracket} (h : l.turn opened = some opened')
    (outer : List Bracket) : l.turn (opened ++ outer) = some (opened' ++ outer) := by
  unfold Lexeme.turn at h ⊢
  split at h
  · cases h
    rfl
  · split at h
    · rename_i hhead
      cases h
      obtain ⟨tail, rfl⟩ := List.head?_eq_some_iff.mp hhead
      rw [List.cons_append, List.head?_cons, if_pos rfl]
      rfl
    · exact nomatch h
  · cases h
    rfl

theorem served_append {l : Lexeme} {ls : List Lexeme} (h : l.served ls = true)
    (rest : List Lexeme) : l.served (ls ++ rest) = true := by
  unfold Lexeme.served at h ⊢
  split
  · rename_i hfence
    rw [if_pos hfence] at h
    split at h
    · exact h
    · exact nomatch h
  · rename_i hfence
    rw [if_neg hfence] at h
    split
    · rename_i hmatrix
      rw [if_pos hmatrix, List.isPrefixOf_iff_prefix] at h
      exact List.isPrefixOf_iff_prefix.mpr (h.trans (List.prefix_append ls rest))
    · rfl

/-- Brackets that are open outside stay open. -/
theorem openAfter_append_outer {opened opened' : List Bracket} {ls : List Lexeme}
    (h : openAfter opened ls = some opened') (outer : List Bracket) :
    openAfter (opened ++ outer) ls = some (opened' ++ outer) := by
  induction ls generalizing opened with
  | nil =>
    cases h
    rfl
  | cons l ls ih =>
    rw [openAfter] at h ⊢
    split at h
    · rename_i hserved
      obtain ⟨mid, hmid, hrest⟩ := Option.bind_eq_some_iff.mp h
      rw [if_pos hserved, turn_append hmid]
      exact ih hrest
    · exact nomatch h

/-- Lexemes are followed piece by piece. -/
theorem openAfter_append {opened opened' : List Bracket} {a : List Lexeme}
    (h : openAfter opened a = some opened') (b : List Lexeme) :
    openAfter opened (a ++ b) = openAfter opened' b := by
  induction a generalizing opened with
  | nil =>
    cases h
    rfl
  | cons l ls ih =>
    rw [openAfter] at h
    split at h
    · rename_i hserved
      obtain ⟨mid, hmid, hrest⟩ := Option.bind_eq_some_iff.mp h
      rw [List.cons_append, openAfter, if_pos (served_append hserved b), hmid]
      exact ih hrest
    · exact nomatch h

theorem Nested.append {a b : List Lexeme} (ha : Nested a) (hb : Nested b) : Nested (a ++ b) := by
  unfold Nested
  rw [openAfter_append ha]
  exact hb

/-- Lexemes that nest can stand between those that open brackets and those that close them. -/
theorem Nested.between {opening closing ls : List Lexeme}
    (h : (openAfter [] opening).bind (fun opened => openAfter opened closing) = some [])
    (hls : Nested ls) : Nested (opening ++ (ls ++ closing)) := by
  obtain ⟨opened, hopening, hclosing⟩ := Option.bind_eq_some_iff.mp h
  have hinner : openAfter opened ls = some opened := openAfter_append_outer hls opened
  unfold Nested
  rw [openAfter_append hopening, openAfter_append hinner]
  exact hclosing

example : Nested (lex .basic "\\frac\x7b1\x7d\x7b\\left ( x \\right .\x7d") ∧
    ¬ Nested (lex .basic "\\frac\x7b1\x7d\x7b\\left ( x\x7d \\right .") := by
  decide +kernel

/-! ## Escaped text -/

/-- The control words that stand for characters. -/
def characterNames : List String :=
  ["textasciitilde", "textasciicircum", "textbackslash"]

/-- Source that ends in a whole lexeme, nests, and has no control words but those that stand for
characters. -/
structure Inert (A : Alphabet) (cs : List Char) : Prop where
  after_eq : Scan.after A .plain cs = .plain
  nested : Nested (lexFrom A .plain cs)
  names : ∀ l ∈ lexFrom A .plain cs, ∀ name ∈ l.name?, name ∈ characterNames

instance (A : Alphabet) (cs : List Char) : Decidable (Inert A cs) :=
  decidable_of_iff (_ ∧ _ ∧ _) ⟨fun h => ⟨h.1, h.2.1, h.2.2⟩, fun h => ⟨h.1, h.2, h.3⟩⟩

section

variable {A : Alphabet}

theorem inert_nil : Inert A [] :=
  ⟨rfl, rfl, nofun⟩

theorem Inert.append {a b : List Char} (ha : Inert A a) (hb : Inert A b) : Inert A (a ++ b) := by
  have hlex := lexFrom_append_of_plain (b := b) ha.after_eq
  refine ⟨?_, ?_, ?_⟩
  · rw [after_append, ha.after_eq, hb.after_eq]
  · rw [hlex]
    exact ha.nested.append hb.nested
  · rw [hlex]
    exact List.forall_mem_append.mpr ⟨ha.names, hb.names⟩

/-- A character that is no brace and no backslash stands for itself. -/
theorem inert_char {c : Char} (hc : c ∉ ['\x7b', '\x7d', '\\']) : Inert A [c] := by
  simp only [List.mem_cons, List.not_mem_nil, or_false, not_or] at hc
  obtain ⟨hleft, hright, hslash⟩ := hc
  have hlex : lexFrom A .plain [c] = [.char c] := by simp [lexFrom, Scan.step, Scan.close, hslash]
  refine ⟨?_, ?_, ?_⟩
  · simp [Scan.step, hslash]
  · rw [hlex]
    simp [Nested, openAfter, Lexeme.served, Lexeme.turn, Lexeme.opens?, Lexeme.closes?, hleft,
      hright]
  · rw [hlex]
    exact List.forall_mem_singleton.mpr nofun

theorem inert_of_ascii {cs : List Char} (hcs : IsAscii cs) (h : Inert .basic cs) : Inert A cs := by
  refine ⟨?_, ?_, ?_⟩
  · rw [after_ascii hcs, h.after_eq]
  · rw [lexFrom_ascii hcs]
    exact h.nested
  · rw [lexFrom_ascii hcs]
    exact h.names

theorem inert_escapeChar (c : Char) : Inert A (escapeChar c) := by
  have hsymbols : ∀ c ∈ ['&', '%', '$', '#', '_', '\x7b', '\x7d'],
      IsAscii ['\\', c] ∧ Inert .basic ['\\', c] := by
    simp only [List.forall_mem_cons, List.not_mem_nil, false_implies, implies_true, and_true]
    decide
  unfold escapeChar
  split
  · rename_i hc
    exact inert_of_ascii (hsymbols c hc).1 (hsymbols c hc).2
  split
  · exact inert_of_ascii (by decide) (by decide)
  split
  · exact inert_of_ascii (by decide) (by decide)
  split
  · exact inert_of_ascii (by decide) (by decide)
  · rename_i hsymbol _ _ hslash
    refine inert_char fun hc => ?_
    simp_all

/-- Escaped text is inert. -/
theorem inert_escape (s : String) : Inert A (escape s).toList := by
  rw [escape, String.toList_ofList]
  induction s.toList with
  | nil => exact inert_nil
  | cons c cs ih =>
    rw [List.flatMap_cons]
    exact (inert_escapeChar c).append ih

end

end MathMarkup.Latex
