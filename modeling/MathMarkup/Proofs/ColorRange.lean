import MathMarkup.Color.History
import MathMarkup.Proofs.HexColors
import MathMarkup.Proofs.Nodes

/-!
# Colors in range

The parts of every color that is read lie between 0 and 255, and the color is written in a form that
is read as the same color.

* A registration checks its parts before it changes the table, so the colors of a table are in range
  after any history of edits (`ColorTable.History.inRange_apply` for one edit,
  `ColorTable.History.inRange_applyAll` for all).
* A literal has its parts in range by its digits (`RGB.Literal.inRange`), so the color of every text
  is in range (`ColorTable.inRange_ofText`).
* Every color within an expression is the color of the text beside it (`eq_ofText_of_parse`).
* A color in range is written as a literal of itself (`RGB.literal_hex`).
-/

namespace MathMarkup

/-! ## Ranges -/

/-- Every part of a color lies between 0 and 255. -/
def RGB.InRange (c : RGB) : Prop :=
  ∀ part ∈ [c.r, c.g, c.b], 0 ≤ part ∧ part ≤ 255

instance (c : RGB) : Decidable c.InRange :=
  inferInstanceAs (Decidable (∀ part ∈ [c.r, c.g, c.b], 0 ≤ part ∧ part ≤ 255))

theorem RGB.inRange_iff {c : RGB} :
    c.InRange ↔ (0 ≤ c.r ∧ c.r ≤ 255) ∧ (0 ≤ c.g ∧ c.g ≤ 255) ∧ 0 ≤ c.b ∧ c.b ≤ 255 := by
  simp [InRange]

namespace ColorTable

/-- Every color of a table is in range. -/
def InRange (t : ColorTable) : Prop :=
  ∀ p ∈ t.entries, p.2.InRange

instance (t : ColorTable) : Decidable t.InRange :=
  inferInstanceAs (Decidable (∀ p ∈ t.entries, p.2.InRange))

theorem inRange_empty : empty.InRange :=
  nofun

theorem inRange_basic : basic.InRange := by
  decide

/-- A registration goes through exactly if it has a name and the color is in range. -/
theorem add_eq_ok_iff {t t' : ColorTable} {names : List String} {c : RGB} :
    t.add names c = .ok t' ↔ names ≠ [] ∧ c.InRange ∧ t' = t.set names c := by
  have hfind : [c.r, c.g, c.b].find? (fun part => !(0 ≤ part && part ≤ 255)) = none ↔
      c.InRange := by
    simp [List.find?_eq_none, RGB.InRange]
  cases names with
  | nil => simp [add]
  | cons name names =>
    unfold add
    split
    · rename_i hnil
      cases hnil
    · rename_i hcons
      cases hcons
      cases hpart : [c.r, c.g, c.b].find? (fun part => !(0 ≤ part && part ≤ 255)) with
      | none => simp [hfind.mp hpart, eq_comm]
      | some part =>
        have hout : ¬ c.InRange := by
          rw [← hfind, hpart]
          exact nofun
        simp [hout]

variable {t : ColorTable}

theorem inRange_set (h : t.InRange) {c : RGB} (hc : c.InRange) (names : List String) :
    (t.set names c).InRange := by
  unfold set
  induction names generalizing t with
  | nil => exact h
  | cons name names ih =>
    refine ih (t := ⟨t.entries.set (Text.lowerCase name) c⟩) fun p hp => ?_
    rcases KeyedList.mem_set hp with rfl | hmem
    · exact hc
    · exact h p hmem

theorem inRange_update (h : t.InRange) {other : ColorTable} (hother : other.InRange) :
    (t.update other).InRange := by
  obtain ⟨entries⟩ := other
  unfold update
  induction entries generalizing t with
  | nil => exact h
  | cons q entries ih =>
    obtain ⟨hq, hentries⟩ := List.forall_mem_cons.mp hother
    refine ih (t := ⟨t.entries.set q.1 q.2⟩) (fun p hp => ?_) hentries
    rcases KeyedList.mem_set hp with rfl | hmem
    · exact hq
    · exact h p hmem

namespace History

/-- The colors of the table in the making, and of the tables that were taken, are in range. -/
structure InRange (h : History) : Prop where
  current : h.current.InRange
  taken : ∀ t ∈ h.taken, t.InRange

theorem inRange_empty : InRange {} :=
  ⟨ColorTable.inRange_empty, nofun⟩

/-- An edit keeps the colors in range, whether it fails or not. -/
theorem inRange_apply {h : History} (hh : h.InRange) {edit : Edit}
    (hedit : ∀ other, edit = .update other → other.InRange) : (h.apply edit).1.InRange := by
  cases edit with
  | add names c =>
    unfold apply
    dsimp only
    split
    · rename_i table hadd
      obtain ⟨-, hc, rfl⟩ := add_eq_ok_iff.mp hadd
      exact ⟨inRange_set hh.current hc names, hh.taken⟩
    · exact hh
  | update other => exact ⟨inRange_update hh.current (hedit other rfl), hh.taken⟩
  | take =>
    refine ⟨hh.current, fun t ht => ?_⟩
    rcases List.mem_append.mp ht with hmem | hmem
    · exact hh.taken t hmem
    · exact List.mem_singleton.mp hmem ▸ hh.current

theorem inRange_applyAll {h : History} (hh : h.InRange) {edits : List Edit}
    (hedits : ∀ other, .update other ∈ edits → other.InRange) : (h.applyAll edits).InRange := by
  induction edits generalizing h with
  | nil => exact hh
  | cons edit edits ih =>
    refine ih (inRange_apply hh fun other heq => ?_) fun other hmem => ?_
    · exact hedits other (heq ▸ List.mem_cons_self)
    · exact hedits other (List.mem_cons_of_mem edit hmem)

end History

end ColorTable

/-! ## Colors of texts -/

theorem RGB.Literal.inRange {literal : List Char} {c : RGB} (h : Literal literal c) :
    c.InRange := by
  rw [RGB.inRange_iff]
  cases h with
  | six h =>
    rcases h with _ | ⟨⟨h1, -⟩, _ | ⟨⟨h2, -⟩, _ | ⟨⟨h3, -⟩, _ | ⟨⟨h4, -⟩, _ | ⟨⟨h5, -⟩,
      _ | ⟨⟨h6, -⟩, _ | _⟩⟩⟩⟩⟩⟩
    dsimp only
    omega
  | three h =>
    rcases h with _ | ⟨⟨h1, -⟩, _ | ⟨⟨h2, -⟩, _ | ⟨⟨h3, -⟩, _ | _⟩⟩⟩
    dsimp only
    omega

/-- With a table in range, every text has a color in range. -/
theorem ColorTable.inRange_ofText {colors : ColorTable} (h : colors.InRange) (s : String) :
    (colors.ofText s).InRange := by
  by_cases hleads : ∃ c rest, RGB.Leads s.toList c rest
  · obtain ⟨c, rest, hlead⟩ := hleads
    rw [ofText_of_leads hlead]
    obtain ⟨literal, -, hliteral, -⟩ := hlead
    exact hliteral.inRange
  · simp only [not_exists] at hleads
    rw [ofText_of_not_leads hleads]
    cases hlookup : colors.lookup s with
    | none => exact (by decide : RGB.black.InRange)
    | some c => exact h _ (KeyedList.mem_of_value? hlookup)

/-! ## Colors within expressions -/

namespace Expr

/-- What holds of a node if it is a color: it is the color of the text that stands beside it. -/
def Tinted (colors : ColorTable) : Expr → Prop
  | .color c written => c = colors.ofText written
  | _ => True

end Expr

/-- Colors come from conversions only, and these make the color of the text that they leave. -/
theorem Grammar.gives_tinted (s : Setting) :
    Gives s (fun _ => True) (Expr.Tinted s.colors) where
  leaf _ _ := by
    unfold leaf
    split <;> trivial
  color _ := rfl

/-- A color within the expression of a source is the color of its text. -/
theorem eq_ofText_of_parse {symbols : SymbolTable} {colors : ColorTable} {source : String}
    {e : Expr} (h : Expr.parse symbols colors source = .ok e) {c : RGB} {written : String}
    (hc : .color c written ∈ e.nodes) : c = colors.ofText written := by
  exact all_of_parse h (Grammar.gives_tinted _) (fun _ _ => trivial) _ hc

/-! ## Writing colors -/

namespace RGB

open Text

/-- The digits in small letters. -/
def smallDigits : List Char :=
  "0123456789abcdef".toList

theorem hexPart_of_range {n : Int} (h : 0 ≤ n ∧ n ≤ 255) :
    hexPart n = [Hex.smallDigit (n.toNat / 16), Hex.smallDigit (n.toNat % 16)] := by
  have hlt : n.toNat / 16 < 16 := by omega
  rw [hexPart, if_neg (by omega), Hex.padded, Hex.digits]
  split
  · rename_i hsmall
    rw [Nat.div_eq_of_lt hsmall, Nat.mod_eq_of_lt hsmall]
    rfl
  · rw [Hex.digits, if_pos hlt]
    rfl

/-- The form of a color in range. -/
theorem toList_hex {c : RGB} (h : c.InRange) :
    c.hex.toList = '#' :: [c.r.toNat / 16, c.r.toNat % 16, c.g.toNat / 16, c.g.toNat % 16,
      c.b.toNat / 16, c.b.toNat % 16].map Hex.smallDigit := by
  obtain ⟨hr, hg, hb⟩ := inRange_iff.mp h
  rw [hex, String.toList_ofList, hexPart_of_range hr, hexPart_of_range hg, hexPart_of_range hb]
  rfl

/-- A color in range is written as a literal of itself. -/
theorem literal_hex {c : RGB} (h : c.InRange) : Literal c.hex.toList c := by
  obtain ⟨hr, hg, hb⟩ := inRange_iff.mp h
  have hdigits (ns : List Nat) (hns : ∀ n ∈ ns, n < 16) :
      List.Forall₂ Hex.IsDigit (ns.map Hex.smallDigit) ns := by
    rw [List.forall₂_map_left_iff, List.forall₂_same]
    exact fun n hn => ⟨hns n hn, .inl rfl⟩
  have hliteral := Literal.six (hdigits [c.r.toNat / 16, c.r.toNat % 16, c.g.toNat / 16,
    c.g.toNat % 16, c.b.toNat / 16, c.b.toNat % 16] (by simp; omega))
  rw [toList_hex h]
  convert hliteral using 1
  obtain ⟨r, g, b⟩ := c
  rw [RGB.mk.injEq]
  dsimp only at hr hg hb ⊢
  omega

theorem smallDigit_mem {n : Nat} (h : n < 16) : Hex.smallDigit n ∈ smallDigits := by
  revert n
  decide

/-- A color in range is written with six digits in small letters. -/
theorem hex_eq {c : RGB} (h : c.InRange) :
    ∃ ds, c.hex = String.ofList ('#' :: ds) ∧ ds.length = 6 ∧ ∀ d ∈ ds, d ∈ smallDigits := by
  refine ⟨_, String.toList_inj.mp ((toList_hex h).trans String.toList_ofList.symm), rfl, ?_⟩
  obtain ⟨hr, hg, hb⟩ := inRange_iff.mp h
  refine List.forall_mem_map.mpr fun n hn => smallDigit_mem ?_
  simp only [List.mem_cons, List.not_mem_nil, or_false] at hn
  omega

end RGB

/-! ## From a source to a color and back -/

/-- A color in range is read back from the form it is written in. -/
theorem parse_hex {c : RGB} (h : c.InRange) (colors : ColorTable) :
    Expr.parse .spellings colors ("color(" ++ c.hex ++ ")x") =
      .ok (.binary (.symbol ⟨some "color", "color"⟩) (.color c c.hex) (.identifier "x")) := by
  refine parse_color_of_leads colors ?_ (ColorTable.leads_of_literal (RGB.literal_hex h))
  obtain ⟨ds, hhex, -, hds⟩ := RGB.hex_eq h
  have hchars : ∀ d ∈ RGB.smallDigits, Text.isColorChar d = true := List.all_eq_true.mp (by decide)
  rw [hhex, String.toList_ofList]
  exact List.forall_mem_cons.mpr ⟨by decide, fun d hd => hchars d (hds d hd)⟩

/-- Take a table of colors that was made by registrations, and a source that is read with it.  Every
color in the expression is in range; it is written as a number sign and six digits in small letters;
and from that it is read as the same color. -/
theorem colors_read_back {edits : List ColorTable.Edit}
    (hedits : ∀ other, .update other ∈ edits → other = .basic) {colors : ColorTable}
    (hcolors : colors ∈ (ColorTable.History.applyAll {} edits).taken) {symbols : SymbolTable}
    {source : String} {e : Expr} (hparse : Expr.parse symbols colors source = .ok e) {c : RGB}
    {written : String} (hc : .color c written ∈ e.nodes) :
    c.InRange ∧
      (∃ ds, c.hex = String.ofList ('#' :: ds) ∧ ds.length = 6 ∧ ∀ d ∈ ds, d ∈ RGB.smallDigits) ∧
      Expr.parse .spellings colors ("color(" ++ c.hex ++ ")x") =
        .ok (.binary (.symbol ⟨some "color", "color"⟩) (.color c c.hex) (.identifier "x")) := by
  have hhistory : (ColorTable.History.applyAll {} edits).InRange :=
    ColorTable.History.inRange_applyAll ColorTable.History.inRange_empty fun other hother =>
      hedits other hother ▸ ColorTable.inRange_basic
  have hrange : c.InRange := by
    rw [eq_ofText_of_parse hparse hc]
    exact ColorTable.inRange_ofText (hhistory.taken colors hcolors) written
  exact ⟨hrange, RGB.hex_eq hrange, parse_hex hrange colors⟩

/-- One registration is refused.  The digits of the color are doubled, and the letters among them
are spellings of fonts. -/
theorem colors_read_back_doubled :
    ∃ colors ∈ (ColorTable.History.applyAll {}
        [.update .basic, .add ["far"] ⟨256, 0, 0⟩, .add ["Near", "near"] ⟨255, 0, 0⟩, .take]).taken,
      ∃ e, Expr.parse .spellings colors "color(#abc)x" = .ok e ∧
        .color ⟨170, 187, 204⟩ "#abc" ∈ e.nodes ∧
        (RGB.mk 170 187 204).InRange ∧
        (∃ ds, (RGB.mk 170 187 204).hex = String.ofList ('#' :: ds) ∧ ds.length = 6 ∧
          ∀ d ∈ ds, d ∈ RGB.smallDigits) ∧
        Expr.parse .spellings colors "color(#aabbcc)x" =
          .ok (.binary (.symbol ⟨some "color", "color"⟩) (.color ⟨170, 187, 204⟩ "#aabbcc")
            (.identifier "x")) := by
  have hleads : RGB.Leads "#abc".toList ⟨170, 187, 204⟩ [] :=
    ColorTable.leads_iff.mpr (.inr ⟨by decide, by decide, rfl⟩)
  have hw : ∀ d ∈ "#abc".toList, Text.isColorChar d = true := List.all_eq_true.mp (by decide)
  have hparse (colors : ColorTable) := parse_color_of_leads colors hw hleads
  have hmem : .color ⟨170, 187, 204⟩ "#abc" ∈ (Expr.binary (.symbol ⟨some "color", "color"⟩)
      (.color ⟨170, 187, 204⟩ "#abc") (.identifier "x")).nodes := by
    simp [Expr.nodes]
  have hcolors := List.mem_singleton_self (ColorTable.History.applyAll {}
    [.update .basic, .add ["far"] ⟨256, 0, 0⟩, .add ["Near", "near"] ⟨255, 0, 0⟩, .take]).current
  have hedits (other : ColorTable) (hother : ColorTable.Edit.update other ∈ [.update .basic,
      .add ["far"] ⟨256, 0, 0⟩, .add ["Near", "near"] ⟨255, 0, 0⟩, .take]) : other = .basic := by
    simpa using hother
  have hhex : (RGB.mk 170 187 204).hex = "#aabbcc" :=
    String.toList_inj.mp ((RGB.toList_hex (by decide)).trans (by decide))
  obtain ⟨hrange, hform, hback⟩ := colors_read_back hedits hcolors (hparse _) hmem
  have hwritten : "color(" ++ "#aabbcc" ++ ")x" = "color(#aabbcc)x" := by decide
  rw [hhex, hwritten] at hback
  exact ⟨_, hcolors, _, hparse _, hmem, hrange, hform, hback⟩

end MathMarkup
