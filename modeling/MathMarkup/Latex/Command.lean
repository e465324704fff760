import MathMarkup.Symbol.Glyph

/-!
# LaTeX commands

The values of symbols in LaTeX.  A LaTeX table is a glyph table in which each value is replaced by
the command or character that shows it in math mode; kinds, metadata and order stay.
-/

namespace MathMarkup.Latex

namespace Command

/-- Operations. -/
def operations : KeyedList String := [
  ("minus", "-"), ("cdot", "\\cdot"), ("ast", "\\ast"), ("star", "\\star"),
  ("backslash", "\\backslash"), ("setminus", "\\setminus"), ("times", "\\times"),
  ("ltimes", "\\ltimes"), ("rtimes", "\\rtimes"), ("bowtie", "\\bowtie"), ("div", "\\div"),
  ("circ", "\\circ"), ("oplus", "\\oplus"), ("otimes", "\\otimes"), ("odot", "\\odot"),
  ("sum", "\\sum"), ("prod", "\\prod"), ("wedge", "\\wedge"), ("bigwedge", "\\bigwedge"),
  ("vee", "\\vee"), ("bigvee", "\\bigvee"), ("cap", "\\cap"), ("bigcap", "\\bigcap"),
  ("cup", "\\cup"), ("bigcup", "\\bigcup")]

/-- Relations. -/
def relations : KeyedList String := [
  ("ne", "\\neq"), ("assign", ":="), ("le", "\\leq"), ("ge", "\\geq"), ("prec", "\\prec"),
  ("succ", "\\succ"), ("preceq", "\\preceq"), ("succeq", "\\succeq"), ("in", "\\in"),
  ("notin", "\\notin"), ("subset", "\\subset"), ("supset", "\\supset"),
  ("subseteq", "\\subseteq"), ("supseteq", "\\supseteq"), ("equiv", "\\equiv"),
  ("cong", "\\cong"), ("approx", "\\approx"), ("propto", "\\propto")]

/-- Logic. -/
def logic : KeyedList String := [
  ("and", "\\text\x7band\x7d"), ("or", "\\text\x7bor\x7d"), ("not", "\\neg"),
  ("implies", "\\implies"), ("if", "\\text\x7bif\x7d"), ("iff", "\\iff"), ("forall", "\\forall"),
  ("exists", "\\exists"), ("bot", "\\bot"), ("top", "\\top"), ("vdash", "\\vdash"),
  ("models", "\\models")]

/-- Brackets. -/
def brackets : KeyedList String := [
  ("lbrace", "\\\x7b"), ("rbrace", "\\\x7d"), ("langle", "\\langle"), ("rangle", "\\rangle"),
  ("parallel", "\\parallel")]

/-- Further symbols. -/
def miscellaneous : KeyedList String := [
  ("integral", "\\int"), ("contourintegral", "\\oint"), ("partial", "\\partial"),
  ("nabla", "\\nabla"), ("pm", "\\pm"), ("emptyset", "\\emptyset"), ("infty", "\\infty"),
  ("aleph", "\\aleph"), ("ellipsis", "\\ldots"), ("therefore", "\\therefore"),
  ("because", "\\because"), ("angle", "\\angle"), ("triangle", "\\triangle"), ("prime", "'"),
  ("tilde", "\\tilde"), ("nbsp", "\\;"), ("frown", "\\frown"), ("quad", "\\quad"),
  ("qquad", "\\qquad"), ("cdots", "\\cdots"), ("vdots", "\\vdots"), ("ddots", "\\ddots"),
  ("diamond", "\\diamond"), ("square", "\\square"), ("lfloor", "\\lfloor"),
  ("rfloor", "\\rfloor"), ("lceiling", "\\lceil"), ("rceiling", "\\rceil"),
  ("dstruck_captial_c", "\\mathbb\x7bC\x7d"), ("dstruck_captial_n", "\\mathbb\x7bN\x7d"),
  ("dstruck_captial_q", "\\mathbb\x7bQ\x7d"), ("dstruck_captial_r", "\\mathbb\x7bR\x7d"),
  ("dstruck_captial_z", "\\mathbb\x7bZ\x7d")]

/-- Standard functions. -/
def functions : KeyedList String := [
  ("lim", "\\lim"), ("min", "\\min"), ("max", "\\max"), ("sin", "\\sin"), ("cos", "\\cos"),
  ("tan", "\\tan"), ("sinh", "\\sinh"), ("cosh", "\\cosh"), ("tanh", "\\tanh"), ("cot", "\\cot"),
  ("sec", "\\sec"), ("csc", "\\csc"), ("arcsin", "\\arcsin"), ("arccos", "\\arccos"),
  ("arctan", "\\arctan"), ("coth", "\\coth"), ("exp", "\\exp"), ("log", "\\log"), ("ln", "\\ln"),
  ("det", "\\det"), ("dim", "\\dim"), ("gcd", "\\gcd")]

/-- Arrows. -/
def arrows : KeyedList String := [
  ("uparrow", "\\uparrow"), ("downarrow", "\\downarrow"), ("rightarrow", "\\rightarrow"),
  ("to", "\\rightarrow"), ("rightarrowtail", "\\rightarrowtail"),
  ("twoheadrightarrow", "\\twoheadrightarrow"),
  ("twoheadrightarrowtail", "\\twoheadrightarrowtail"), ("mapsto", "\\mapsto"),
  ("leftarrow", "\\leftarrow"), ("leftrightarrow", "\\leftrightarrow"),
  ("Rightarrow", "\\Rightarrow"), ("Leftarrow", "\\Leftarrow"),
  ("Leftrightarrow", "\\Leftrightarrow")]

/-- Roots, fractions, colors and scripts. -/
def constructs : KeyedList String := [
  ("sqrt", "\\sqrt"), ("cancel", "\\cancel"), ("root", "\\sqrt"), ("frac", "\\frac"),
  ("stackrel", "\\stackrel"), ("overset", "\\overset"), ("underset", "\\underset"),
  ("color", "\\textcolor"), ("sub", "\\_"), ("sup", "\\textasciicircum\x7b\x7d")]

/-- Accents. -/
def accents : KeyedList String := [
  ("hat", "\\hat"), ("overline", "\\overline"), ("vec", "\\vec"), ("dot", "\\dot"),
  ("ddot", "\\ddot"), ("overarc", "\\overparen"), ("underline", "\\underline"),
  ("underbrace", "\\underbrace"), ("overbrace", "\\overbrace")]

/-- Fonts. -/
def fonts : KeyedList String := [
  ("bold", "\\mathbf"), ("double_struck", "\\mathbb"), ("italic", "\\mathit"),
  ("bold_italic", "\\boldsymbol"), ("script", "\\mathscr"), ("bold_script", "\\mathscr"),
  ("monospace", "\\mathtt"), ("fraktur", "\\mathfrak"), ("bold_fraktur", "\\mathfrak"),
  ("sans_serif", "\\mathsf"), ("bold_sans_serif", "\\mathsf"), ("sans_serif_italic", "\\mathsf"),
  ("sans_serif_bold_italic", "\\mathsf")]

/-- Greek letters.  A capital without a command of its own is the Latin letter of the same form. -/
def greek : KeyedList String := [
  ("alpha", "\\alpha"), ("Alpha", "A"), ("beta", "\\beta"), ("Beta", "B"), ("gamma", "\\gamma"),
  ("Gamma", "\\Gamma"), ("delta", "\\delta"), ("Delta", "\\Delta"), ("epsilon", "\\epsilon"),
  ("Epsilon", "E"), ("varepsilon", "\\varepsilon"), ("zeta", "\\zeta"), ("Zeta", "Z"),
  ("eta", "\\eta"), ("Eta", "H"), ("theta", "\\theta"), ("Theta", "\\Theta"),
  ("vartheta", "\\vartheta"), ("iota", "\\iota"), ("Iota", "I"), ("kappa", "\\kappa"),
  ("Kappa", "K"), ("lambda", "\\lambda"), ("Lambda", "\\Lambda"), ("mu", "\\mu"), ("Mu", "M"),
  ("nu", "\\nu"), ("Nu", "N"), ("xi", "\\xi"), ("Xi", "\\Xi"), ("omicron", "o"), ("Omicron", "O"),
  ("pi", "\\pi"), ("Pi", "\\Pi"), ("rho", "\\rho"), ("Rho", "P"), ("sigma", "\\sigma"),
  ("Sigma", "\\Sigma"), ("tau", "\\tau"), ("Tau", "T"), ("upsilon", "\\upsilon"),
  ("Upsilon", "\\Upsilon"), ("phi", "\\phi"), ("Phi", "\\Phi"), ("varphi", "\\varphi"),
  ("chi", "\\chi"), ("Chi", "X"), ("psi", "\\psi"), ("Psi", "\\Psi"), ("omega", "\\omega"),
  ("Omega", "\\Omega")]

end Command

open Command in
/-- The LaTeX value of each symbol id that has one. -/
def values : KeyedList String :=
  operations ++ relations ++ logic ++ brackets ++ miscellaneous ++ functions ++
    arrows ++ constructs ++ accents ++ fonts ++ greek

/-- The functions without a command of their own, which are set as named operators. -/
def operatorNames : List String :=
  ["Sin", "Cos", "Tan", "Sinh", "Cosh", "Tanh", "Cot", "Sec", "Csc", "sech", "csch", "Log",
    "Ln", "mod", "lcm", "lub", "glb", "Lim"]

/-- The LaTeX value of a symbol id whose glyph is given. -/
def valueOf (id : String) (glyph : Option String) : Option String :=
  match values.value? id with
  | some value => some value
  | none =>
    if id ∈ operatorNames then some ("\\operatorname\x7b" ++ id ++ "\x7d") else glyph

/-- The LaTeX table over a glyph table. -/
def tableOver (glyphs : SymbolTable) : SymbolTable :=
  ⟨glyphs.entries.map fun (id, d) => (id, { d with value := valueOf id d.value })⟩

/-- The built-in LaTeX table. -/
def symbols : SymbolTable :=
  tableOver SymbolTable.glyphs

end MathMarkup.Latex
