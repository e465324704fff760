import MathMarkup.Symbol.Table

/-!
# Spellings

The built-in spelling table.  It maps every spelling of the notation to a symbol id and to the
role that the spelling has in the grammar.  The glyph tables are keyed by these ids.
-/

namespace MathMarkup.SymbolTable

namespace Spelling

/-- Spellings of a symbol that stands for itself. -/
def sym (keys : List String) (id : String) : Registration :=
  ⟨keys, some id, .grammar .symbol, []⟩

/-- Spellings of an operator with one operand after it. -/
def unary (keys : List String) (id : String) : Registration :=
  ⟨keys, some id, .grammar .unary, []⟩

/-- Spellings of an operator with two operands after it. -/
def binary (keys : List String) (id : String) : Registration :=
  ⟨keys, some id, .grammar .binary, []⟩

/-- Spellings of an operator between its operands. -/
def infixed (keys : List String) (id : String) : Registration :=
  ⟨keys, some id, .grammar .infixed, []⟩

/-- Spellings of an opening delimiter. -/
def opening (keys : List String) (id : Option String) : Registration :=
  ⟨keys, id, .grammar .opening, []⟩

/-- Spellings of a closing delimiter. -/
def closing (keys : List String) (id : Option String) : Registration :=
  ⟨keys, id, .grammar .closing, []⟩

/-- Spellings of a delimiter that opens and closes. -/
def fence (keys : List String) (id : String) : Registration :=
  ⟨keys, some id, .grammar .fence, []⟩

/-- Operations. -/
def operations : List Registration := [
  sym ["+"] "plus", sym ["-"] "minus", sym ["*"] "cdot", sym ["**"] "ast", sym ["***"] "star",
  sym ["//"] "slash", sym ["\\\\"] "backslash", sym ["setminus"] "setminus",
  sym ["xx", "times"] "times", sym ["|><"] "ltimes", sym ["><|"] "rtimes", sym ["|><|"] "bowtie",
  sym ["-:", "div", "divide"] "div", sym ["@", "circ"] "circ", sym ["o+", "oplus"] "oplus",
  sym ["ox", "otimes"] "otimes", sym ["o.", "odot"] "odot", sym ["sum"] "sum",
  sym ["prod"] "prod", sym ["^^", "wedge"] "wedge", sym ["^^^", "bigwedge"] "bigwedge",
  sym ["vv", "vee"] "vee", sym ["vvv", "bigvee"] "bigvee", sym ["nn", "cap"] "cap",
  sym ["nnn", "bigcap"] "bigcap", sym ["uu", "cup"] "cup", sym ["uuu", "bigcup"] "bigcup"]

/-- Relations. -/
def relations : List Registration := [
  sym ["="] "eq", sym ["!=", "ne"] "ne", sym [":="] "assign", sym ["<", "lt"] "lt",
  sym [">", "gt"] "gt", sym ["<=", "le"] "le", sym [">=", "ge"] "ge",
  sym ["-<", "-lt", "prec"] "prec", sym [">-", "succ"] "succ", sym ["-<=", "preceq"] "preceq",
  sym [">-=", "succeq"] "succeq", sym ["in"] "in", sym ["!in", "notin"] "notin",
  sym ["sub", "subset"] "subset", sym ["sup", "supset"] "supset",
  sym ["sube", "subseteq"] "subseteq", sym ["supe", "supseteq"] "supseteq",
  sym ["-=", "equiv"] "equiv", sym ["~=", "cong"] "cong", sym ["~~", "approx"] "approx",
  sym ["prop", "propto"] "propto"]

/-- Logic. -/
def logic : List Registration := [
  sym ["and"] "and", sym ["or"] "or", sym ["not", "neg"] "not", sym ["=>", "implies"] "implies",
  sym ["if"] "if", sym ["<=>", "iff"] "iff", sym ["AA", "forall"] "forall",
  sym ["EE", "exists"] "exists", sym ["_|_", "bot"] "bot", sym ["TT", "top"] "top",
  sym ["|--", "vdash"] "vdash", sym ["|==", "models"] "models"]

/-- Brackets.  The delimiters written with a brace and a colon are invisible. -/
def brackets : List Registration := [
  opening ["("] (some "lparen"), closing [")"] (some "rparen"), opening ["["] (some "lbracket"),
  closing ["]"] (some "rbracket"), opening ["\x7b"] (some "lbrace"),
  closing ["\x7d"] (some "rbrace"), fence ["|"] "vbar", sym [":|:"] "vbar",
  opening ["|:"] (some "vbar"), closing [":|"] (some "vbar"),
  opening ["(:", "<<"] (some "langle"), closing [":)", ">>"] (some "rangle"),
  opening ["\x7b:"] none, closing [":\x7d"] none]

/-- Further symbols. -/
def miscellaneous : List Registration := [
  sym ["int", "integral"] "integral", sym ["dx"] "dx", sym ["dy"] "dy", sym ["dz"] "dz",
  sym ["dt"] "dt", sym ["oint"] "contourintegral", sym ["del"] "partial", sym ["grad"] "nabla",
  sym ["+-"] "pm", sym ["O/"] "emptyset", sym ["oo"] "infty", sym ["aleph"] "aleph",
  sym ["...", "ellipsis"] "ellipsis", sym [":."] "therefore", sym [":'"] "because",
  sym ["/_"] "angle", sym ["/_\\"] "triangle", sym ["'"] "prime", sym ["\\ "] "nbsp",
  sym ["frown"] "frown", sym ["quad"] "quad", sym ["qquad"] "qquad", sym ["cdots"] "cdots",
  sym ["vdots"] "vdots", sym ["ddots"] "ddots", sym ["diamond"] "diamond",
  sym ["square"] "square", sym ["|__"] "lfloor", sym ["__|"] "rfloor", sym ["|~"] "lceiling",
  sym ["~|"] "rceiling", sym ["CC"] "dstruck_captial_c", sym ["NN"] "dstruck_captial_n",
  sym ["QQ"] "dstruck_captial_q", sym ["RR"] "dstruck_captial_r", sym ["ZZ"] "dstruck_captial_z",
  sym ["f"] "f", sym ["g"] "g"]

/-- Standard functions. -/
def functions : List Registration :=
  [sym ["lim"] "lim", sym ["Lim"] "Lim", sym ["min"] "min", sym ["max"] "max"] ++
  ["sin", "Sin", "cos", "Cos", "tan", "Tan", "sinh", "Sinh", "cosh", "Cosh", "tanh", "Tanh",
    "cot", "Cot", "sec", "Sec", "csc", "Csc", "arcsin", "arccos", "arctan", "coth", "sech",
    "csch", "exp", "abs", "Abs", "norm", "floor", "ceil", "log", "Log", "ln", "Ln", "det",
    "dim", "mod", "gcd", "lcm", "lub", "glb"].map
    fun name => unary [name] name

/-- Arrows. -/
def arrows : List Registration := [
  sym ["uarr"] "uparrow", sym ["darr"] "downarrow", sym ["rarr"] "rightarrow",
  sym ["->", "to"] "to", sym [">->"] "rightarrowtail", sym ["->>"] "twoheadrightarrow",
  sym [">->>"] "twoheadrightarrowtail", sym ["|->"] "mapsto", sym ["larr"] "leftarrow",
  sym ["harr"] "leftrightarrow", sym ["rArr"] "Rightarrow", sym ["lArr"] "Leftarrow",
  sym ["hArr"] "Leftrightarrow"]

/-- Roots, fractions, colors and scripts. -/
def constructs : List Registration := [
  unary ["sqrt"] "sqrt", unary ["cancel"] "cancel", binary ["root"] "root",
  binary ["frac"] "frac", binary ["stackrel"] "stackrel", binary ["overset"] "overset",
  binary ["underset"] "underset",
  { binary ["color"] "color" with extra := [("convert_operand1", .choice .colorOperand)] },
  infixed ["/"] "frac", infixed ["_"] "sub", infixed ["^"] "sup"]

/-- Accents. -/
def accents : List Registration := [
  unary ["hat"] "hat", unary ["bar", "overline"] "overline", unary ["vec"] "vec",
  unary ["tilde"] "tilde", unary ["dot"] "dot", unary ["ddot"] "ddot",
  unary ["overarc", "overparen"] "overarc", unary ["ul", "underline"] "underline",
  unary ["ubrace", "underbrace"] "underbrace", unary ["obrace", "overbrace"] "overbrace"]

/-- Fonts. -/
def fonts : List Registration := [
  unary ["bb", "mathbf"] "bold", unary ["bbb", "mathbb"] "double_struck", unary ["ii"] "italic",
  unary ["bii"] "bold_italic", unary ["cc", "mathcal"] "script", unary ["bcc"] "bold_script",
  unary ["tt", "mathtt"] "monospace", unary ["fr", "mathfrak"] "fraktur",
  unary ["bfr"] "bold_fraktur", unary ["sf", "mathsf"] "sans_serif",
  unary ["bsf"] "bold_sans_serif", unary ["sfi"] "sans_serif_italic",
  unary ["sfbi"] "sans_serif_bold_italic"]

/-- Greek letters. -/
def greek : List Registration :=
  ["alpha", "Alpha", "beta", "Beta", "gamma", "Gamma", "delta", "Delta", "epsilon", "Epsilon",
    "varepsilon", "zeta", "Zeta", "eta", "Eta", "theta", "Theta", "vartheta", "iota", "Iota",
    "kappa", "Kappa", "lambda", "Lambda", "mu", "Mu", "nu", "Nu", "xi", "Xi", "omicron",
    "Omicron", "pi", "Pi", "rho", "Rho", "sigma", "Sigma", "tau", "Tau", "upsilon", "Upsilon",
    "phi", "Phi", "varphi", "chi", "Chi", "psi", "Psi", "omega", "Omega"].map fun name =>
    sym [name] name

end Spelling

open Spelling in
/-- The built-in spelling table. -/
def spellings : SymbolTable :=
  ofRegistrations (operations ++ relations ++ logic ++ brackets ++ miscellaneous ++ functions ++
    arrows ++ constructs ++ accents ++ fonts ++ greek)

end MathMarkup.SymbolTable
