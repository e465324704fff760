import MathMarkup.Symbol.Table

/-!
# Glyphs

The built-in glyph table.  It maps every symbol id of the spelling table to the text that shows it
and to the display class that decides its layout.
-/

namespace MathMarkup.SymbolTable

namespace Glyph

/-- An id that is shown in the given display class. -/
def glyph (display : Display) (id text : String) : Registration :=
  ⟨[id], some text, .display display, []⟩

/-- An operator. -/
def op : String → String → Registration := glyph .operator

/-- An identifier. -/
def ident : String → String → Registration := glyph .identifier

/-- An operator with its scripts below and above it. -/
def limits (id text : String) : Registration :=
  { op id text with extra := [("underover", .bool true)] }

/-- An accent in the given position. -/
def accent (position : Choice) (id text : String) : Registration :=
  { glyph .accent id text with extra := [("position", .choice position)] }

/-- A function that is shown by delimiters around its operand. -/
def wrap (id left right : String) : Registration :=
  { glyph .wrap id id with extra := [("lparen", .text left), ("rparen", .text right)] }

/-- Operations. -/
def operations : List Registration := [
  op "plus" "+", op "minus" "−", op "cdot" "⋅", op "ast" "*", op "star" "⋆", op "slash" "/",
  op "backslash" "\\", op "setminus" "\\", op "times" "×", op "ltimes" "⋉", op "rtimes" "⋊",
  op "bowtie" "⋈", op "div" "÷", op "circ" "⚬", op "oplus" "⊕", op "otimes" "⊗", op "odot" "⊙",
  limits "sum" "∑", limits "prod" "∏", op "wedge" "∧", limits "bigwedge" "⋀", op "vee" "∨",
  limits "bigvee" "⋁", op "cap" "∩", limits "bigcap" "⋂", op "cup" "∪", limits "bigcup" "⋃"]

/-- Relations. -/
def relations : List Registration := [
  op "eq" "=", op "ne" "≠", op "assign" "≔", op "lt" "<", op "gt" ">", op "le" "≤", op "ge" "≥",
  op "prec" "≺", op "succ" "≻", op "preceq" "⪯", op "succeq" "⪰", op "in" "∈", op "notin" "∉",
  op "subset" "⊂", op "supset" "⊃", op "subseteq" "⊆", op "supseteq" "⊇", op "equiv" "≡",
  op "cong" "≅", op "approx" "≈", op "propto" "∝"]

/-- Logic. -/
def logic : List Registration := [
  glyph .text "and" "and", glyph .text "or" "or", op "not" "¬", op "implies" "⇒", op "if" "if",
  op "iff" "⇔", op "forall" "∀", op "exists" "∃", op "bot" "⊥", op "top" "⊤", op "vdash" "⊢",
  op "models" "⊨"]

/-- Brackets. -/
def brackets : List Registration := [
  glyph .opening "lparen" "(", glyph .closing "rparen" ")", glyph .opening "lbracket" "[",
  glyph .closing "rbracket" "]", glyph .opening "lbrace" "\x7b", glyph .closing "rbrace" "\x7d",
  glyph .fence "vbar" "|", glyph .opening "langle" "〈", glyph .closing "rangle" "〉",
  glyph .fence "parallel" "∥"]

/-- Further symbols. -/
def miscellaneous : List Registration := [
  op "integral" "∫", ident "dx" "dx", ident "dy" "dy", ident "dz" "dz", ident "dt" "dt",
  op "contourintegral" "∮", op "partial" "∂", op "nabla" "∇", op "pm" "±", op "emptyset" "∅",
  op "infty" "∞", op "aleph" "ℵ", op "ellipsis" "…", op "therefore" "∴", op "because" "∵",
  op "angle" "∠", op "triangle" "△", op "prime" "′", accent .above "tilde" "~",
  op "nbsp" "\u00a0", op "frown" "⌢", op "quad" "\u00a0\u00a0",
  op "qquad" "\u00a0\u00a0\u00a0\u00a0", op "cdots" "⋯", op "vdots" "⋮", op "ddots" "⋱",
  op "diamond" "⋄", op "square" "□", op "lfloor" "⌊", op "rfloor" "⌋", op "lceiling" "⌈",
  op "rceiling" "⌉", op "dstruck_captial_c" "ℂ", op "dstruck_captial_n" "ℕ",
  op "dstruck_captial_q" "ℚ", op "dstruck_captial_r" "ℝ", op "dstruck_captial_z" "ℤ",
  ident "f" "f", ident "g" "g"]

/-- Standard functions. -/
def functions : List Registration :=
  [limits "lim" "lim", limits "Lim" "Lim", limits "min" "min", limits "max" "max"] ++
  ["sin", "Sin", "cos", "Cos", "tan", "Tan", "sinh", "Sinh", "cosh", "Cosh", "tanh", "Tanh",
    "cot", "Cot", "sec", "Sec", "csc", "Csc", "arcsin", "arccos", "arctan", "coth", "sech",
    "csch", "exp", "log", "Log", "ln", "Ln", "det", "dim", "mod", "gcd", "lcm", "lub", "glb"].map
    fun name => ident name name

/-- Functions that are shown by delimiters around their operand.  The delimiters are given by their
symbol ids. -/
def wraps : List Registration := [
  wrap "abs" "vbar" "vbar", wrap "Abs" "vbar" "vbar", wrap "norm" "parallel" "parallel",
  wrap "floor" "lfloor" "rfloor", wrap "ceil" "lceiling" "rceiling"]

/-- Arrows. -/
def arrows : List Registration := [
  op "uparrow" "↑", op "downarrow" "↓", op "rightarrow" "→", op "to" "→", op "rightarrowtail" "↣",
  op "twoheadrightarrow" "↠", op "twoheadrightarrowtail" "⤖", op "mapsto" "↦", op "leftarrow" "←",
  op "leftrightarrow" "↔", op "Rightarrow" "⇒", op "Leftarrow" "⇐", op "Leftrightarrow" "⇔"]

/-- Constructs with one operand. -/
def unaryConstructs : List Registration := [
  glyph .sqrt "sqrt" "sqrt", glyph .cancel "cancel" "cancel"]

/-- Constructs with two operands. -/
def binaryConstructs : List Registration := [
  glyph .root "root" "root", glyph .frac "frac" "frac", glyph .above "stackrel" "stackrel",
  glyph .above "overset" "overset", glyph .below "underset" "underset",
  glyph .color "color" "color"]

/-- Accents, and the script operators where they stand alone. -/
def accents : List Registration := [
  op "sub" "_", op "sup" "^", accent .above "hat" "^", accent .above "overline" "¯",
  accent .above "vec" "→", accent .above "dot" ".", accent .above "ddot" "..",
  accent .above "overarc" "⏜", accent .below "underline" "_", accent .below "underbrace" "⏟",
  accent .above "overbrace" "⏞"]

/-- Fonts. -/
def fonts : List Registration :=
  ["bold", "double_struck", "italic", "bold_italic", "script", "bold_script", "monospace",
    "fraktur", "bold_fraktur", "sans_serif", "bold_sans_serif", "sans_serif_italic",
    "sans_serif_bold_italic"].map
    fun name => glyph .font name name

/-- Greek letters.  Most capitals with a glyph of their own are operators. -/
def greek : List Registration := [
  ident "alpha" "α", ident "Alpha" "Α", ident "beta" "β", ident "Beta" "Β", ident "gamma" "γ",
  op "Gamma" "Γ", ident "delta" "δ", op "Delta" "Δ", ident "epsilon" "ε", ident "Epsilon" "Ε",
  ident "varepsilon" "ɛ", ident "zeta" "ζ", ident "Zeta" "Ζ", ident "eta" "η", ident "Eta" "Η",
  ident "theta" "θ", op "Theta" "Θ", ident "vartheta" "ϑ", ident "iota" "ι", ident "Iota" "Ι",
  ident "kappa" "κ", ident "Kappa" "Κ", ident "lambda" "λ", op "Lambda" "Λ", ident "mu" "μ",
  ident "Mu" "Μ", ident "nu" "ν", ident "Nu" "Ν", ident "xi" "ξ", op "Xi" "Ξ",
  ident "omicron" "ο", ident "Omicron" "Ο", ident "pi" "π", op "Pi" "Π", ident "rho" "ρ",
  ident "Rho" "Ρ", ident "sigma" "σ", op "Sigma" "Σ", ident "tau" "τ", ident "Tau" "Τ",
  ident "upsilon" "υ", ident "Upsilon" "Υ", ident "phi" "φ", ident "Phi" "Φ", ident "varphi" "ϕ",
  ident "chi" "χ", ident "Chi" "Χ", ident "psi" "ψ", ident "Psi" "Ψ", ident "omega" "ω",
  op "Omega" "Ω"]

end Glyph

open Glyph in
/-- The built-in glyph table. -/
def glyphs : SymbolTable :=
  ofRegistrations (operations ++ relations ++ logic ++ brackets ++ miscellaneous ++ functions ++
    wraps ++ arrows ++ unaryConstructs ++ binaryConstructs ++ accents ++ fonts ++ greek)

end MathMarkup.SymbolTable
