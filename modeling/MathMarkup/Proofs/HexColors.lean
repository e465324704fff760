import Mathlib.Data.List.Forall2
import MathMarkup.Proofs.ColorNames

/-!
# Colors in hexadecimal digits

A color can be given by digits instead of a name: a number sign and two digits for each part, or one
digit that stands for two.  `RGB.Literal` says which texts these are.

The text of an operand is looked at from its start.  If a literal starts it, the color is that of
the longest such literal (`RGB.Leads`), and what comes after the literal makes no difference.  So a
text that only starts with a literal is not looked up in the table, although it is no literal
itself.  `ColorTable.Names` says what a text stands for as a whole, and `operand_color_iff` says
exactly when an operand gets that color.
-/

namespace MathMarkup

/-! ## Digits -/

namespace Text.Hex

/-- A character is the digit of a number, in small or in capital letters. -/
def IsDigit (c : Char) (n : Nat) : Prop :=
  n < 16 ∧ (c = smallDigit n ∨ c = capitalDigit n)

theorem value?_eq_some_iff {c : Char} {n : Nat} : value? c = some n ↔ IsDigit c n := by
  constructor
  · intro h
    have hascii : c.toNat < 128 := by
      simp only [value?, Char.le_def, UInt32.le_iff_toNat_le] at h
      have hnine : '9'.val.toNat < 128 := by decide
      have hsmall : 'f'.val.toNat < 128 := by decide
      have hcapital : 'F'.val.toNat < 128 := by decide
      show c.val.toNat < 128
      split at h
      · omega
      split at h
      · omega
      split at h
      · omega
      · cases h
    have hall : ∀ k < 128, ∀ n ∈ value? (Char.ofNat k),
        n < 16 ∧ (Char.ofNat k = smallDigit n ∨ Char.ofNat k = capitalDigit n) := by
      decide +kernel
    have hc := hall c.toNat hascii
    rw [Char.ofNat_toNat] at hc
    exact hc n h
  · rintro ⟨hn, hc⟩
    have hall : ∀ n < 16, value? (smallDigit n) = some n ∧ value? (capitalDigit n) = some n := by
      decide
    rcases hc with rfl | rfl
    · exact (hall n hn).1
    · exact (hall n hn).2

/-- The numbers of several digits. -/
theorem mapM_value?_eq_some_iff {ds : List Char} {ns : List Nat} :
    ds.mapM value? = some ns ↔ List.Forall₂ IsDigit ds ns := by
  induction ds generalizing ns with
  | nil => simp [eq_comm]
  | cons d ds ih =>
    simp [List.mapM_cons, List.forall₂_cons_left_iff, Option.bind_eq_some_iff, value?_eq_some_iff,
      ih, @eq_comm _ ns]

end Text.Hex

open Text

/-! ## Literals -/

namespace RGB

/-- A color in digits: a number sign and two digits for each part, or one that stands for two. -/
inductive Literal : List Char → RGB → Prop
  | six {ds : List Char} {r r' g g' b b' : Nat}
      (h : List.Forall₂ Hex.IsDigit ds [r, r', g, g', b, b']) :
      Literal ('#' :: ds) ⟨16 * r + r', 16 * g + g', 16 * b + b'⟩
  | three {ds : List Char} {r g b : Nat} (h : List.Forall₂ Hex.IsDigit ds [r, g, b]) :
      Literal ('#' :: ds) ⟨16 * r + r, 16 * g + g, 16 * b + b⟩

theorem Literal.length {literal : List Char} {c : RGB} (h : Literal literal c) :
    literal.length = 7 ∨ literal.length = 4 := by
  cases h with
  | six h => exact .inl (congrArg (· + 1) h.length_eq)
  | three h => exact .inr (congrArg (· + 1) h.length_eq)

/-- The longest literal that starts a text has the given color, and the given rest comes after
it. -/
def Leads (text : List Char) (c : RGB) (rest : List Char) : Prop :=
  ∃ literal, literal ++ rest = text ∧ Literal literal c ∧
    ∀ other d, Literal other d → other <+: text → other.length ≤ literal.length

end RGB

namespace ColorTable

open RGB

/-- A literal with six digits starts a text exactly if its color is found there. -/
theorem hex6?_eq_some_iff {text : List Char} {c : RGB} :
    hex6? text = some c ↔
      ∃ literal, Literal literal c ∧ literal.length = 7 ∧ literal <+: text := by
  constructor
  · intro h
    unfold hex6? at h
    split at h
    · split at h
      · rename_i hvalues
        cases h
        exact ⟨_, .six (Hex.mapM_value?_eq_some_iff.mp hvalues), rfl, _, rfl⟩
      · cases h
    · cases h
  · rintro ⟨_, ⟨hds⟩ | ⟨hds⟩, hlength, rest, rfl⟩
    · have hvalues := Hex.mapM_value?_eq_some_iff.mpr hds
      rcases hds with _ | ⟨_, _ | ⟨_, _ | ⟨_, _ | ⟨_, _ | ⟨_, _ | ⟨_, _ | _⟩⟩⟩⟩⟩⟩
      simp only [List.cons_append, hex6?, hvalues]
    · have hfour := hds.length_eq
      simp at hfour hlength
      omega

/-- A literal with three digits starts a text exactly if its color is found there. -/
theorem hex3?_eq_some_iff {text : List Char} {c : RGB} :
    hex3? text = some c ↔
      ∃ literal, Literal literal c ∧ literal.length = 4 ∧ literal <+: text := by
  constructor
  · intro h
    unfold hex3? at h
    split at h
    · split at h
      · rename_i hvalues
        cases h
        have hliteral := Literal.three (Hex.mapM_value?_eq_some_iff.mp hvalues)
        exact ⟨_, by convert hliteral using 2 <;> omega, rfl, _, rfl⟩
      · cases h
    · cases h
  · rintro ⟨_, ⟨hds⟩ | ⟨hds⟩, hlength, rest, rfl⟩
    · have hseven := hds.length_eq
      simp at hseven hlength
      omega
    · have hvalues := Hex.mapM_value?_eq_some_iff.mpr hds
      rcases hds with _ | ⟨_, _ | ⟨_, _ | ⟨_, _ | _⟩⟩⟩
      simp only [List.cons_append, hex3?, hvalues, Option.some.injEq, RGB.mk.injEq]
      omega

/-- What leads a text: a literal with six digits or else one with three. -/
theorem leads_iff {text rest : List Char} {c : RGB} :
    Leads text c rest ↔
      hex6? text = some c ∧ rest = text.drop 7 ∨
        hex6? text = none ∧ hex3? text = some c ∧ rest = text.drop 4 := by
  constructor
  · rintro ⟨literal, rfl, hliteral, hlongest⟩
    have hstart : literal <+: literal ++ rest := List.prefix_append literal rest
    rcases hliteral.length with hseven | hfour
    · refine .inl ⟨hex6?_eq_some_iff.mpr ⟨literal, hliteral, hseven, hstart⟩, ?_⟩
      rw [← hseven, List.drop_left]
    · refine .inr ⟨Option.eq_none_iff_forall_ne_some.mpr fun d hd => ?_,
        hex3?_eq_some_iff.mpr ⟨literal, hliteral, hfour, hstart⟩, ?_⟩
      · obtain ⟨other, hother, hseven, hprefix⟩ := hex6?_eq_some_iff.mp hd
        have hle := hlongest other d hother hprefix
        omega
      · rw [← hfour, List.drop_left]
  · rintro (⟨hsix, rfl⟩ | ⟨hnone, hthree, rfl⟩)
    · obtain ⟨literal, hliteral, hseven, left, rfl⟩ := hex6?_eq_some_iff.mp hsix
      refine ⟨literal, by rw [← hseven, List.drop_left], hliteral, fun other d hother _ => ?_⟩
      rcases hother.length with h | h <;> omega
    · obtain ⟨literal, hliteral, hfour, left, rfl⟩ := hex3?_eq_some_iff.mp hthree
      refine ⟨literal, by rw [← hfour, List.drop_left], hliteral, fun other d hother hstart => ?_⟩
      rcases hother.length with hseven | h
      · have hsome := hex6?_eq_some_iff.mpr ⟨other, hother, hseven, hstart⟩
        rw [hnone] at hsome
        cases hsome
      · omega

theorem leads_unique {text rest rest' : List Char} {c c' : RGB} (h : Leads text c rest)
    (h' : Leads text c' rest') : c = c' ∧ rest = rest' := by
  rw [leads_iff] at h h'
  grind

variable {colors : ColorTable} {s : String}

/-- The literal that leads a text decides its color. -/
theorem ofText_of_leads {c : RGB} {rest : List Char} (h : Leads s.toList c rest) :
    colors.ofText s = c := by
  unfold ofText
  rcases leads_iff.mp h with ⟨hsix, -⟩ | ⟨hnone, hthree, -⟩
  · rw [hsix]
  · rw [hnone, hthree]

/-- A text that no literal leads is looked up. -/
theorem ofText_of_not_leads (h : ∀ c rest, ¬ Leads s.toList c rest) :
    colors.ofText s = (colors.lookup s).getD .black := by
  have hsix : hex6? s.toList = none :=
    Option.eq_none_iff_forall_ne_some.mpr fun c hc => h c _ (leads_iff.mpr (.inl ⟨hc, rfl⟩))
  have hthree : hex3? s.toList = none :=
    Option.eq_none_iff_forall_ne_some.mpr fun c hc =>
      h c _ (leads_iff.mpr (.inr ⟨hsix, hc, rfl⟩))
  unfold ofText
  rw [hsix, hthree]

/-- A literal leads itself. -/
theorem leads_of_literal {text : List Char} {c : RGB} (h : Literal text c) : Leads text c [] :=
  ⟨text, List.append_nil text, h, fun _ _ _ hprefix => hprefix.length_le⟩

/-- A text that a literal leads is a literal exactly if nothing comes after the literal. -/
theorem literal_iff_of_leads {text rest : List Char} {c d : RGB} (h : Leads text c rest) :
    Literal text d ↔ rest = [] ∧ c = d := by
  constructor
  · intro hliteral
    exact (leads_unique h (leads_of_literal hliteral)).symm
  · rintro ⟨rfl, rfl⟩
    obtain ⟨literal, rfl, hliteral, -⟩ := h
    rwa [List.append_nil]

/-- The color that a text stands for as a whole: that of a literal if the text is one, and else that
of a name, which is black if the table does not have it. -/
def Names (colors : ColorTable) (s : String) (c : RGB) : Prop :=
  Literal s.toList c ∨
    (∀ d, ¬ Literal s.toList d) ∧ c = (colors.entries.value? (lowerCase s)).getD .black

/-- A text has the color that it stands for as a whole exactly if nothing comes after the literal
that leads it, or the table happens to have the color of the literal. -/
theorem names_ofText_iff :
    colors.Names s (colors.ofText s) ↔
      ∀ c rest, Leads s.toList c rest → rest = [] ∨ c = (colors.lookup s).getD .black := by
  by_cases hleads : ∃ c rest, Leads s.toList c rest
  · obtain ⟨c, rest, h⟩ := hleads
    have hnames : colors.Names s c ↔ rest = [] ∨ c = (colors.lookup s).getD .black := by
      unfold Names lookup
      simp only [literal_iff_of_leads h]
      by_cases hrest : rest = [] <;> simp [hrest]
    rw [ofText_of_leads h, hnames]
    refine ⟨fun hor d left hd => ?_, fun hall => hall c rest h⟩
    obtain ⟨rfl, rfl⟩ := leads_unique h hd
    exact hor
  · simp only [not_exists] at hleads
    refine ⟨fun _ c rest h => absurd h (hleads c rest), fun _ => .inr ⟨fun d hd => ?_, ?_⟩⟩
    · exact hleads d [] (leads_of_literal hd)
    · exact ofText_of_not_leads hleads

end ColorTable

/-! ## Literals between parentheses -/

/-- A literal between parentheses is read as its color, whatever else stands there. -/
theorem parse_color_of_leads (colors : ColorTable) {w : String} {c : RGB} {rest : List Char}
    (hw : ∀ d ∈ w.toList, isColorChar d = true) (h : RGB.Leads w.toList c rest) :
    Expr.parse .spellings colors ("color(" ++ w ++ ")x") =
      .ok (.binary (.symbol ⟨some "color", "color"⟩) (.color c w) (.identifier "x")) := by
  obtain ⟨ts, htokens, hts, htexts⟩ := Token.exists_tokens_color hw
  have hd := Grammar.derives_color colors hts htexts
  rw [← htokens, ColorTable.ofText_of_leads h] at hd
  exact parse_of_derives (SymbolTable.error_read_spellings _) hd

/-- The color of an operand.  The longest literal that starts its text decides; only a text that no
literal starts is looked up, and is black if the table does not have it.  So the color is the one
that the text stands for as a whole exactly if nothing comes after the literal, or the table happens
to have the color of the literal. -/
theorem operand_color_iff (s : Grammar.Setting) (e : Expr) :
    ∃ c, s.convert .color e = .ok (.color c e.colorText) ∧
      (∀ d rest, RGB.Leads e.colorText.toList d rest → c = d) ∧
      ((∀ d rest, ¬ RGB.Leads e.colorText.toList d rest) →
        c = (s.colors.lookup e.colorText).getD .black) ∧
      (s.colors.Names e.colorText c ↔
        ∀ d rest, RGB.Leads e.colorText.toList d rest →
          rest = [] ∨ d = (s.colors.lookup e.colorText).getD .black) := by
  refine ⟨s.colors.ofText e.colorText, rfl, fun d rest h => ?_, fun h => ?_, ?_⟩
  · exact ColorTable.ofText_of_leads h
  · exact ColorTable.ofText_of_not_leads h
  · exact ColorTable.names_ofText_iff

/-- Five digits are no literal, and the table has no such name, but the first three of them are
taken for the color. -/
theorem operand_color_five_digits :
    Expr.parse .spellings .basic "color(#12345)x" =
        .ok (.binary (.symbol ⟨some "color", "color"⟩) (.color ⟨17, 34, 51⟩ "#12345")
          (.identifier "x")) ∧
      ColorTable.basic.Names "#12345" .black ∧
      ¬ ColorTable.basic.Names "#12345" ⟨17, 34, 51⟩ := by
  have hleads : RGB.Leads "#12345".toList ⟨17, 34, 51⟩ ['4', '5'] :=
    ColorTable.leads_iff.mpr (.inr ⟨by decide, by decide, rfl⟩)
  have hliteral (c : RGB) : ¬ RGB.Literal "#12345".toList c :=
    fun h => absurd h.length (by decide)
  have hname : (ColorTable.basic.entries.value? (lowerCase "#12345")).getD .black = .black := by
    decide +kernel
  refine ⟨?_, .inr ⟨hliteral, hname.symm⟩, ?_⟩
  · have hw : ∀ d ∈ "#12345".toList, isColorChar d = true := List.all_eq_true.mp (by decide)
    have hsource : "color(" ++ "#12345" ++ ")x" = "color(#12345)x" := by decide
    rw [← hsource]
    exact parse_color_of_leads .basic hw hleads
  · rintro (h | ⟨-, h⟩)
    · exact hliteral _ h
    · rw [hname] at h
      exact absurd h (by decide)

end MathMarkup
