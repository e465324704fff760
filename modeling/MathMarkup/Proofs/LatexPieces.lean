import MathMarkup.Latex.Command
import MathMarkup.Latex.Render
import MathMarkup.Proofs.LatexLexemes
import MathMarkup.Proofs.LayoutParts
import MathMarkup.Text.Blank

/-!
# LaTeX source in pieces

LaTeX source is put together from pieces: fixed texts that belong to a construct, the values of
symbols, texts from the source, numbers, and delimiters.

* `Latex.Piece.ofLayout` gives the pieces of a layout, and `Latex.Piece.Known` says what a piece can
  be.
* `Layout.Legible` says of a layout, part by part, that its texts are fit for LaTeX.
* `Latex.writes_render`: what is written for a legible layout are its pieces, one after another.
-/

namespace MathMarkup

namespace Latex

/-! ## Pieces -/

/-- A piece of LaTeX source. -/
inductive Piece where
  /-- A text that belongs to a construct. -/
  | fixed (s : String)
  /-- The value of a symbol. -/
  | value (s : String)
  /-- A text from the source, which is escaped. -/
  | escaped (s : String)
  | digits (s : String)
  /-- A delimiter after the command that sizes it.  A point stands for a missing one. -/
  | delimiter (name : String) (m : Mark)

/-- A piece as it is written. -/
def Piece.text : Piece → String
  | .fixed s => s
  | .value s => s
  | .escaped s => escape s
  | .digits s => s
  | .delimiter name m => "\\" ++ name ++ " " ++ m.visible?.getD "."

/-- Pieces one after another. -/
def source : List Piece → String
  | [] => ""
  | p :: ps => p.text ++ source ps

theorem source_append (a b : List Piece) : source (a ++ b) = source a ++ source b := by
  induction a with
  | nil => simp [source]
  | cons p ps ih => simp [source, ih, String.append_assoc]

namespace Piece

/-- Pieces between braces. -/
def braced (ps : List Piece) : List Piece :=
  .fixed "\x7b" :: (ps ++ [.fixed "\x7d"])

/-- Lists of pieces with a fixed text between any two. -/
def join (between : String) : List (List Piece) → List Piece
  | [] => []
  | [ps] => ps
  | ps :: pss => ps ++ .fixed between :: join between pss

/-- A text as the argument of its command. -/
def quoted (s : String) : List Piece :=
  [.fixed "\\text"] ++ braced [.escaped s]

/-- A body between delimiters, unless both are missing. -/
def fence (left : Mark) (body : List Piece) (right : Mark) : List Piece :=
  if left = .none ∧ right = .none then body
  else
    [Piece.delimiter "left" left] ++ Piece.fixed " " ::
      (body ++ Piece.fixed " " :: [Piece.delimiter "right" right])

/-- A script after its marker. -/
def script (marker : String) (l : Layout) (ps : List Piece) : List Piece :=
  match l with
  | .nothing => []
  | .operator _ | .name _ | .identifier _ | .invisible | .number _ | .text _ => .fixed marker :: ps
  | _ => .fixed marker :: braced ps

/-- An operator or function before its operand. -/
def call (function : Option String) (l : Layout) (ps : List Piece) : List Piece :=
  function.toList.map .value ++ if l.isNothing then [] else .fixed " " :: ps

mutual

/-- The pieces of a layout.  What cannot be written has none. -/
def ofLayout : Layout → List Piece
  | .nothing => []
  | .foreign _ => []
  | .faulty _ => []
  | .invisible => []
  | .operator glyph => glyph.toList.map .value
  | .name glyph => glyph.toList.map .value
  | .identifier n => n.toList.map .escaped
  | .number n => n.toList.map .digits
  | .text content => content.elim [] quoted
  | .colorText content => quoted content
  | .sequence items => join " " (ofLayouts items)
  | .row items => join " " (ofLayouts items)
  | .group e => ofLayout e
  | .fence left e right => fence left (ofLayout e) right
  | .wrap left e right => fence left (ofLayout e) right
  | .matrix left rows right =>
    fence left
      (.fixed "\\begin\x7bmatrix\x7d " ::
        (join " \\\\ " (ofRows rows) ++ [.fixed " \\end\x7bmatrix\x7d"]))
      right
  | .sqrt e => [.fixed "\\sqrt"] ++ braced (ofLayout e)
  | .cancel e => [.fixed "\\cancel"] ++ braced (ofLayout e)
  | .root base index =>
    .fixed "\\sqrt[" :: (ofLayout index ++ [.fixed "]"]) ++ braced (ofLayout base)
  | .color rgb e =>
    [Piece.fixed "\\textcolor[RGB]"] ++
      braced ([Piece.digits (toString rgb.r)] ++ Piece.fixed "," ::
        ([Piece.digits (toString rgb.g)] ++ Piece.fixed "," ::
          [Piece.digits (toString rgb.b)])) ++
      braced (ofLayout e)
  | .fraction numerator denominator =>
    [.fixed "\\frac"] ++ braced (ofLayout numerator) ++ braced (ofLayout denominator)
  | .font style e => style.toList.map .value ++ braced (ofLayout e)
  | .operatorCall glyph e => call glyph e (ofLayout e)
  | .functionCall n e => call n e (ofLayout e)
  | .scripts base sub sup =>
    ofLayout base ++ script "_" sub (ofLayout sub) ++ script "^" sup (ofLayout sup)
  | .limits base below above =>
    ofLayout base ++ script "_" below (ofLayout below) ++ script "^" above (ofLayout above)
  | .accent base mark _ => ofLayout mark ++ braced (ofLayout base)
  | .overset base above =>
    [.fixed "\\overset"] ++ braced (ofLayout above) ++ braced (ofLayout base)
  | .underset base below =>
    [.fixed "\\underset"] ++ braced (ofLayout below) ++ braced (ofLayout base)

/-- The pieces of several layouts. -/
def ofLayouts : List Layout → List (List Piece)
  | [] => []
  | l :: ls => ofLayout l :: ofLayouts ls

/-- The pieces of the rows of a matrix. -/
def ofRows : List (List Layout) → List (List Piece)
  | [] => []
  | row :: rows => join " & " (ofLayouts row) :: ofRows rows

end

end Piece

/-! ## Pieces that are written -/

/-- The texts that stand between pieces. -/
def separators : List String :=
  [" ", " & ", " \\\\ ", "_", "^", ","]

/-- The texts that stand around pieces. -/
def enclosures : List (String × String) :=
  [("\x7b", "\x7d"), ("\\sqrt[", "]"), ("\\begin\x7bmatrix\x7d ", " \\end\x7bmatrix\x7d")]

/-- The texts that set pieces apart. -/
def breaks : List String :=
  separators ++ enclosures.map Prod.fst ++ enclosures.map Prod.snd

/-- The commands of constructs, each before an argument in braces. -/
def commands : List String :=
  ["\\sqrt", "\\cancel", "\\frac", "\\overset", "\\underset", "\\text", "\\textcolor[RGB]"]

/-- The names of the commands that size delimiters. -/
def sizingNames : List String :=
  ["left", "right"]

/-- The names of the commands that constructs are written with. -/
def commandNames : List String :=
  sizingNames ++
    ["begin", "end", "sqrt", "cancel", "frac", "overset", "underset", "text", "textcolor"]

/-- A text is the value of a symbol in the built-in LaTeX table. -/
def IsValue (s : String) : Prop :=
  ∃ id d, symbols.lookup id = some d ∧ d.value = some s

/-- A text is one lexeme that stands for a delimiter. -/
def IsDelimiter (s : String) : Prop :=
  ∃ d ∈ delimiters, lex .basic s = [d]

instance (s : String) : Decidable (IsDelimiter s) :=
  inferInstanceAs (Decidable (∃ d ∈ delimiters, lex .basic s = [d]))

/-- A mark is missing, or is the value of a symbol that stands for a delimiter. -/
def Delimits (m : Mark) : Prop :=
  m = .none ∨ ∃ s, m = .text s ∧ IsValue s ∧ IsDelimiter s

/-- A text of the characters that numbers are written with. -/
def IsNumeric (s : String) : Prop :=
  ∀ c ∈ s.toList, Text.isDigit c = true ∨ c ∈ ['-', '.']

/-- What a piece of a construct can be. -/
def Piece.Known : Piece → Prop
  | .fixed s => s ∈ breaks ++ commands
  | .value s => IsValue s
  | .escaped _ => True
  | .digits s => IsNumeric s
  | .delimiter name m => name ∈ sizingNames ∧ Delimits m

end Latex

namespace Layout

open Latex

/-- What holds of a layout, part by part, whose texts are known to LaTeX: symbols show values of the
table, and delimiters are delimiters. -/
def Legible : Layout → Prop
  | .foreign _ | .faulty _ => False
  | .operator s | .name s | .font s _ | .operatorCall s _ | .functionCall s _ => ∃ v ∈ s, IsValue v
  | .identifier s | .text s => s ≠ none
  | .number s => ∃ v ∈ s, IsNumeric v
  | .fence left _ right | .wrap left _ right | .matrix left _ right =>
    Delimits left ∧ Delimits right
  | .accent _ mark _ => ∃ s, mark = .operator s
  | _ => True

end Layout

namespace Latex

/-! ## What is written -/

/-- A draft has the text of pieces. -/
def Writes (d : Draft) (ps : List Piece) : Prop :=
  d = .put (source ps)

namespace Writes

variable {d d' : Draft} {ps qs : List Piece}

theorem nil : Writes .empty [] :=
  rfl

theorem piece (p : Piece) : Writes (.put p.text) [p] := by
  unfold Writes
  rw [source, source, String.append_empty]

theorem append (h : Writes d ps) (h' : Writes d' qs) : Writes (d ++ d') (ps ++ qs) := by
  unfold Writes at *
  rw [h, h', source_append]
  rfl

theorem fixed (s : String) : Writes (.put s) [.fixed s] :=
  piece (.fixed s)

theorem delimiter {command name : String} (h : command = "\\" ++ name) (m : Mark) :
    Writes (Latex.delimiter command m) [.delimiter name m] := by
  rw [h]
  exact piece (.delimiter name m)

theorem braced (h : Writes d ps) : Writes (Latex.braced d) (Piece.braced ps) :=
  ((fixed "\x7b").append h).append (fixed "\x7d")

/-- A text that is there is a piece of its own. -/
theorem putOption {s : Option String} {P : String → Prop} (hs : ∃ v ∈ s, P v) {f : String → Piece}
    (hf : ∀ v, (f v).text = v) : Writes (.putOption s) (s.toList.map f) := by
  obtain ⟨v, rfl, -⟩ := hs
  have h := piece (f v)
  rwa [hf] at h

theorem value {s : Option String} (hs : ∃ v ∈ s, IsValue v) :
    Writes (.putOption s) (s.toList.map .value) :=
  putOption hs fun _ => rfl

theorem quoted (s : String) : Writes (text (some s)) (Piece.quoted s) := by
  have h := (fixed "\\text").append (piece (.escaped s)).braced
  have htext : text (some s) = .put "\\text" ++ Latex.braced (.put (escape s)) := by
    show Draft.put ("\\text\x7b" ++ escape s ++ "\x7d") =
      Draft.put ("\\text" ++ ("\x7b" ++ escape s ++ "\x7d"))
    rw [← String.append_assoc, ← String.append_assoc]
    rfl
  exact htext ▸ h

theorem join (between : String) (pss : List (List Piece)) :
    Writes (.join between (pss.map fun ps => .put (source ps))) (Piece.join between pss) := by
  fun_induction Piece.join between pss with
  | case1 => exact nil
  | case2 ps => rfl
  | case3 ps pss hne ih =>
    obtain ⟨qs, qss, rfl⟩ := List.exists_cons_of_ne_nil hne
    have h : Writes (.put (source ps)) ps := rfl
    have hall := (h.append (fixed between)).append ih
    rwa [List.append_assoc] at hall

theorem fence (left right : Mark) (h : Writes d ps) :
    Writes (Latex.fence left d right) (Piece.fence left ps right) := by
  unfold Latex.fence Piece.fence
  split
  · exact h
  · have hleft := delimiter (show "\\left" = "\\" ++ "left" from rfl) left
    have hright := delimiter (show "\\right" = "\\" ++ "right" from rfl) right
    simpa using (((hleft.append (fixed " ")).append h).append (fixed " ")).append hright

theorem script (marker : String) (l : Layout) (h : Writes d ps) :
    Writes (Latex.script marker l d) (Piece.script marker l ps) := by
  have hplain := (fixed marker).append h
  have hbraced := (fixed marker).append h.braced
  cases l with
  | nothing => exact nil
  | operator | name | identifier | invisible | number | text => exact hplain
  | _ => exact hbraced

theorem call {function : Option String} (hfunction : ∃ v ∈ function, IsValue v) (l : Layout)
    (h : Writes d ps) : Writes (Latex.call function l d) (Piece.call function l ps) := by
  refine (value hfunction).append ?_
  split
  · exact nil
  · exact (fixed " ").append h

theorem color (rgb : RGB) (h : Writes d ps) :
    Writes
      (.put ("\\textcolor[RGB]\x7b" ++ toString rgb.r ++ "," ++ toString rgb.g ++ "," ++
        toString rgb.b ++ "\x7d") ++ Latex.braced d)
      ([Piece.fixed "\\textcolor[RGB]"] ++
        Piece.braced ([Piece.digits (toString rgb.r)] ++ Piece.fixed "," ::
          ([Piece.digits (toString rgb.g)] ++ Piece.fixed "," ::
            [Piece.digits (toString rgb.b)])) ++
        Piece.braced ps) := by
  have hopening : "\\textcolor[RGB]\x7b" = "\\textcolor[RGB]" ++ "\x7b" := rfl
  refine append ?_ h.braced
  simp only [Writes, Piece.braced, source, Piece.text, hopening, String.append_assoc,
    String.append_empty, List.cons_append, List.nil_append]

end Writes

open Layout in
mutual

/-- The pieces of a layout are what is written, one after another. -/
theorem writes_render : ∀ l : Layout, l.All Legible → Writes (render l) (Piece.ofLayout l)
  | .nothing, _ => .nil
  | .foreign _, h => h.elim
  | .faulty _, h => h.elim
  | .invisible, _ => .nil
  | .operator _, h => .value h
  | .name _, h => .value h
  | .identifier none, h => absurd rfl h
  | .identifier (some s), _ => .piece (.escaped s)
  | .number _, h => .putOption h fun _ => rfl
  | .text none, h => absurd rfl h
  | .text (some s), _ => .quoted s
  | .colorText s, _ => .quoted s
  | .sequence items, h => by
    rw [render, renders_eq_map items h.2]
    exact .join " " _
  | .row items, h => by
    rw [render, renders_eq_map items h.2]
    exact .join " " _
  | .group e, h => writes_render e h.2
  | .fence left e right, h => (writes_render e h.2).fence left right
  | .wrap left e right, h => (writes_render e h.2).fence left right
  | .matrix left rows right, h => by
    have hrows := renderRows_eq_map rows h.2 ▸ Writes.join " \\\\ " (Piece.ofRows rows)
    exact (((Writes.fixed _).append hrows).append (.fixed _)).fence left right
  | .sqrt e, h => (Writes.fixed "\\sqrt").append (writes_render e h.2).braced
  | .cancel e, h => (Writes.fixed "\\cancel").append (writes_render e h.2).braced
  | .root base index, h =>
    (((Writes.fixed "\\sqrt[").append (writes_render index h.2.2)).append (.fixed "]")).append
      (writes_render base h.2.1).braced
  | .color rgb e, h => (writes_render e h.2).color rgb
  | .fraction a b, h =>
    ((Writes.fixed "\\frac").append (writes_render a h.2.1).braced).append
      (writes_render b h.2.2).braced
  | .font _ e, h => (Writes.value h.1).append (writes_render e h.2).braced
  | .operatorCall _ e, h => (writes_render e h.2).call h.1 e
  | .functionCall _ e, h => (writes_render e h.2).call h.1 e
  | .scripts a b c, h =>
    ((writes_render a h.2.1).append ((writes_render b h.2.2.1).script "_" b)).append
      ((writes_render c h.2.2.2).script "^" c)
  | .limits a b c, h =>
    ((writes_render a h.2.1).append ((writes_render b h.2.2.1).script "_" b)).append
      ((writes_render c h.2.2.2).script "^" c)
  | .accent a mark _, h => by
    obtain ⟨⟨s, rfl⟩, ha, hmark⟩ := h
    exact (Writes.value hmark).append (writes_render a ha).braced
  | .overset a b, h =>
    ((Writes.fixed "\\overset").append (writes_render b h.2.2).braced).append
      (writes_render a h.2.1).braced
  | .underset a b, h =>
    ((Writes.fixed "\\underset").append (writes_render b h.2.2).braced).append
      (writes_render a h.2.1).braced

theorem renders_eq_map : ∀ ls : List Layout, AllItems Legible ls →
    renders ls = (Piece.ofLayouts ls).map fun ps => .put (source ps)
  | [], _ => rfl
  | l :: ls, h => by
    rw [renders, writes_render l h.1, renders_eq_map ls h.2]
    rfl

theorem renderRows_eq_map : ∀ rows : List (List Layout), AllRows Legible rows →
    renderRows rows = (Piece.ofRows rows).map fun ps => .put (source ps)
  | [], _ => rfl
  | cells :: rows, h => by
    rw [renderRows, renders_eq_map cells h.1, Writes.join " & " (Piece.ofLayouts cells),
      renderRows_eq_map rows h.2]
    rfl

end

end Latex

end MathMarkup
