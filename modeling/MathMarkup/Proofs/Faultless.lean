import MathMarkup.Format
import MathMarkup.Proofs.LayoutParts

/-!
# Layouts that are written without a fault

A renderer meets a fault where it has to write a text that is not there, a value that is no text,
or a value that is no expression.  A layout is whole (`Layout.Whole`) if it holds none of these, and
then every format writes it to its end.

* MathML and HTML go through trees: a whole layout becomes markup without a fault
  (`MathML.allSound_content`, `Html.allSound_content`), and such markup is written to its end
  (`Markup.finished_write`).
* LaTeX is written at once.  It can also go on over a text that is missing, and leave a gap, so
  there is more to say of the draft than that it has no fault (`Draft.Finished`).
* `Format.finished_document`: the three formats together.
-/

namespace MathMarkup

/-! ## Drafts -/

namespace Draft

/-- A draft without fault and gap. -/
def Finished (d : Draft) : Prop :=
  d.fault = none ∧ d.gap = false

theorem Finished.read_eq {d : Draft} (h : d.Finished) : d.read = .ok d.text := by
  simp [read, written, h.1, h.2]

theorem finished_empty : empty.Finished :=
  ⟨rfl, rfl⟩

theorem finished_put (s : String) : (put s).Finished :=
  ⟨rfl, rfl⟩

theorem finished_putOption {s : Option String} (h : s ≠ none) : (putOption s).Finished := by
  cases s with
  | none => exact absurd rfl h
  | some s => exact finished_put s

theorem Finished.append {a b : Draft} (ha : a.Finished) (hb : b.Finished) : (a ++ b).Finished := by
  show (Draft.append a b).Finished
  unfold Draft.append
  rw [ha.1]
  exact ⟨hb.1, by simp [ha.2, hb.2]⟩

theorem finished_join (between : String) {ds : List Draft} (h : ∀ d ∈ ds, d.Finished) :
    (join between ds).Finished := by
  induction ds with
  | nil => exact finished_empty
  | cons d ds ih =>
    rw [List.forall_mem_cons] at h
    cases ds with
    | nil => exact h.1
    | cons d' ds => exact (h.1.append (finished_put between)).append (ih h.2)

end Draft

/-! ## Markup -/

namespace Markup

mutual

/-- Markup without a fault. -/
def Sound : Markup → Prop
  | .element _ _ children => AllSound children
  | .text _ => True
  | .fault _ => False

/-- Pieces of markup without a fault. -/
def AllSound : List Markup → Prop
  | [] => True
  | m :: ms => m.Sound ∧ AllSound ms

end

@[simp] theorem allSound_nil : AllSound [] := trivial

@[simp] theorem allSound_cons {m : Markup} {ms : List Markup} :
    AllSound (m :: ms) ↔ m.Sound ∧ AllSound ms := Iff.rfl

@[simp] theorem allSound_append {ms ms' : List Markup} :
    AllSound (ms ++ ms') ↔ AllSound ms ∧ AllSound ms' := by
  induction ms with
  | nil => simp
  | cons m ms ih => simp [ih, and_assoc]

@[simp] theorem sound_element {tag : Tag} {attributes : KeyedList String}
    {children : List Markup} : (element tag attributes children).Sound ↔ AllSound children :=
  Iff.rfl

@[simp] theorem sound_leaf {tag : Tag} {attributes : KeyedList String} {content : Option String} :
    (leaf tag attributes content).Sound ↔ content ≠ none := by
  cases content with
  | none => simp [leaf, AllSound, Sound]
  | some s => simp [leaf, AllSound, Sound]

mutual

/-- Markup without a fault is written to its end. -/
theorem finished_write : ∀ m : Markup, m.Sound → m.write.Finished
  | .element _ _ children, h =>
    ((Draft.finished_put _).append (finished_writeAll children h)).append (Draft.finished_put _)
  | .text _, _ => Draft.finished_put _
  | .fault _, h => h.elim

theorem finished_writeAll : ∀ ms : List Markup, AllSound ms → (writeAll ms).Finished
  | [], _ => Draft.finished_empty
  | m :: ms, h => (finished_write m h.1).append (finished_writeAll ms h.2)

end

end Markup

/-! ## Layouts -/

/-- A mark that is missing or a text. -/
def Mark.Plain : Mark → Prop
  | .other _ => False
  | _ => True

namespace Layout

/-- What holds of a layout, part by part, whose texts are all there. -/
def Present : Layout → Prop
  | .foreign _ | .faulty _ => False
  | .operator s | .name s | .identifier s | .number s | .text s => s ≠ none
  | .font s _ | .operatorCall s _ | .functionCall s _ => s ≠ none
  | .fence left _ right | .wrap left _ right | .matrix left _ right => left.Plain ∧ right.Plain
  | .accent _ mark _ => mark.IsGlyph
  | _ => True

/-- A layout whose texts are all there. -/
def Whole (l : Layout) : Prop :=
  l.All Present

end Layout

/-! ## MathML -/

namespace MathML

open Markup

section

variable (o : Options)

@[simp] theorem sound_element {name : String} {children : List Markup} :
    (o.element name children).Sound ↔ AllSound children := Iff.rfl

@[simp] theorem sound_elementWith {name : String} {attributes : KeyedList String}
    {children : List Markup} : (o.elementWith name attributes children).Sound ↔ AllSound children :=
  Iff.rfl

@[simp] theorem sound_leaf {name : String} {content : Option String} :
    (o.leaf name content).Sound ↔ content ≠ none := Markup.sound_leaf

@[simp] theorem allSound_child {l : Layout} {ms : List Markup} :
    AllSound (o.child l ms) ↔ AllSound ms := by
  unfold Options.child
  split <;> simp

@[simp] theorem allSound_fenceBody {l : Layout} {ms : List Markup} :
    AllSound (o.fenceBody l ms) ↔ AllSound ms := by
  unfold Options.fenceBody
  split <;> simp

theorem allSound_delimiter {m : Mark} (h : m.Plain) : AllSound (o.delimiter m) := by
  cases m with
  | none => trivial
  | text s => simp [Options.delimiter]
  | other value => exact h.elim

theorem allSound_fence {left right : Mark} {body : List Markup} (hleft : left.Plain)
    (hbody : AllSound body) (hright : right.Plain) : AllSound (o.fence left body right) := by
  unfold Options.fence
  split
  · split
    · exact hbody
    · simpa using hbody
  · simp [allSound_delimiter o hleft, allSound_delimiter o hright, hbody]

theorem allSound_scripted {lowerTag upperTag bothTag : String} (lower upper : Layout)
    {base lowerBody upperBody : List Markup} (hbase : AllSound base)
    (hlower : AllSound lowerBody) (hupper : AllSound upperBody) :
    AllSound (o.scripted lowerTag upperTag bothTag lower upper base lowerBody upperBody) := by
  unfold Options.scripted
  split <;> simp [hbase, hlower, hupper]

mutual

/-- A whole layout is written without a fault. -/
theorem allSound_content : ∀ l : Layout, l.Whole → AllSound (content o l)
  | .nothing, _ => trivial
  | .foreign _, h => h.elim
  | .faulty _, h => h.elim
  | .invisible, _ => trivial
  | .operator _, h => by simpa [content] using show _ ≠ none from h
  | .name _, h => by simpa [content] using show _ ≠ none from h
  | .identifier _, h => by simpa [content] using show _ ≠ none from h
  | .number _, h => by simpa [content] using show _ ≠ none from h
  | .text _, h => by simpa [content] using show _ ≠ none from h
  | .colorText _, _ => by simp [content]
  | .sequence items, ⟨_, h⟩ => allSound_contents items h
  | .row items, ⟨_, h⟩ => by simpa [content] using allSound_contents items h
  | .group e, ⟨_, h⟩ => by simpa [content] using allSound_content e h
  | .fence _ e _, ⟨⟨hleft, hright⟩, h⟩ =>
    allSound_fence o hleft (by simpa using allSound_content e h) hright
  | .wrap _ e _, ⟨⟨hleft, hright⟩, h⟩ =>
    allSound_fence o hleft (by simpa using allSound_content e h) hright
  | .matrix _ rows _, ⟨⟨hleft, hright⟩, h⟩ =>
    allSound_fence o hleft (by simpa using allSound_rowContents rows h) hright
  | .sqrt e, ⟨_, h⟩ => by simpa [content] using allSound_content e h
  | .cancel e, ⟨_, h⟩ => by simpa [content] using allSound_content e h
  | .root a b, ⟨_, ha, hb⟩ => by
    simpa [content] using ⟨allSound_content a ha, allSound_content b hb⟩
  | .color _ e, ⟨_, h⟩ => by simpa [content] using allSound_content e h
  | .fraction a b, ⟨_, ha, hb⟩ => by
    simpa [content] using ⟨allSound_content a ha, allSound_content b hb⟩
  | .font none _, ⟨h, _⟩ => absurd rfl h
  | .font (some _) e, ⟨_, h⟩ => by simpa [content] using allSound_content e h
  | .operatorCall _ e, ⟨hs, h⟩ => by simpa [content] using ⟨hs, allSound_content e h⟩
  | .functionCall _ e, ⟨hs, h⟩ => by simpa [content] using ⟨hs, allSound_content e h⟩
  | .scripts a b c, ⟨_, ha, hb, hc⟩ =>
    allSound_scripted o b c (by simpa using allSound_content a ha)
      (by simpa using allSound_content b hb) (by simpa using allSound_content c hc)
  | .limits a b c, ⟨_, ha, hb, hc⟩ =>
    allSound_scripted o b c (by simpa using allSound_content a ha)
      (by simpa using allSound_content b hb) (by simpa using allSound_content c hc)
  | .accent a mark .below, ⟨_, ha, hmark⟩ =>
    allSound_scripted o mark .nothing (by simpa using allSound_content a ha)
      (by simpa using allSound_content mark hmark) trivial
  | .accent a mark .above, ⟨_, ha, hmark⟩ =>
    allSound_scripted o .nothing mark (by simpa using allSound_content a ha) trivial
      (by simpa using allSound_content mark hmark)
  | .overset a b, ⟨_, ha, hb⟩ =>
    allSound_scripted o .nothing b (by simpa using allSound_content a ha) trivial
      (by simpa using allSound_content b hb)
  | .underset a b, ⟨_, ha, hb⟩ =>
    allSound_scripted o b .nothing (by simpa using allSound_content a ha)
      (by simpa using allSound_content b hb) trivial

theorem allSound_contents :
    ∀ ls : List Layout, Layout.AllItems Layout.Present ls → AllSound (contents o ls)
  | [], _ => trivial
  | l :: ls, h => by simpa [contents] using ⟨allSound_content l h.1, allSound_contents ls h.2⟩

theorem allSound_rowContents :
    ∀ rows : List (List Layout), Layout.AllRows Layout.Present rows → AllSound (rowContents o rows)
  | [], _ => trivial
  | row :: rows, h => by
    simpa [rowContents] using ⟨allSound_cellContents row h.1, allSound_rowContents rows h.2⟩

theorem allSound_cellContents :
    ∀ ls : List Layout, Layout.AllItems Layout.Present ls → AllSound (cellContents o ls)
  | [], _ => trivial
  | l :: ls, h => by
    simpa [cellContents] using ⟨allSound_content l h.1, allSound_cellContents ls h.2⟩

end

end

end MathML

/-! ## HTML -/

namespace Html

open Markup

section

variable (o : Options)

@[simp] theorem sound_span {part : String} {children : List Markup} :
    (o.span part children).Sound ↔ AllSound children := Iff.rfl

@[simp] theorem sound_spanWith {part : String} {attributes : KeyedList String}
    {children : List Markup} : (o.spanWith part attributes children).Sound ↔ AllSound children :=
  Iff.rfl

@[simp] theorem sound_leaf {part : String} {content : Option String} :
    (o.leaf part content).Sound ↔ content ≠ none := Markup.sound_leaf

@[simp] theorem sound_blank : o.blank.Sound := by
  simp [Options.blank]

@[simp] theorem allSound_child {l : Layout} {ms : List Markup} :
    AllSound (o.child l ms) ↔ AllSound ms := by
  unfold Options.child
  split <;> simp

theorem allSound_row {l : Layout} {ms : List Markup} (h : AllSound ms) : AllSound (o.row l ms) := by
  unfold Options.row
  split
  · trivial
  · exact h
  · simpa using h

theorem allSound_delimiter (attributes : KeyedList String) {m : Mark} (h : m.Plain) :
    AllSound (o.delimiter attributes m) := by
  cases m with
  | none => trivial
  | text s => simp [Options.delimiter]
  | other value => exact h.elim

theorem allSound_fence {left right : Mark} {body : List Markup} (hleft : left.Plain)
    (hbody : AllSound body) (hright : right.Plain) : AllSound (o.fence left body right) := by
  simp [Options.fence, allSound_delimiter o _ hleft, allSound_delimiter o _ hright, hbody]

theorem sound_script {l : Layout} {ms : List Markup} (h : AllSound ms) : (o.script l ms).Sound := by
  unfold Options.script
  split
  · simp
  · simpa using h

theorem sound_limit {l : Layout} {ms : List Markup} (h : AllSound ms) : (o.limit l ms).Sound := by
  unfold Options.limit
  split
  · simp
  · simpa using h

theorem allSound_underover {base : List Markup} {below above : Markup} (hbase : AllSound base)
    (hbelow : below.Sound) (habove : above.Sound) : AllSound (o.underover base below above) := by
  simp [Options.underover, hbase, hbelow, habove]

theorem sound_fractionPart {part : List Markup} (h : AllSound part) :
    (o.fractionPart part).Sound := by
  simpa [Options.fractionPart] using h

theorem allSound_matrix {left right : Mark} (rows columns : Nat) {cells : List Markup}
    (hleft : left.Plain) (hcells : AllSound cells) (hright : right.Plain) :
    AllSound (o.matrix left rows columns cells right) := by
  simp [Options.matrix, allSound_delimiter o _ hleft, allSound_delimiter o _ hright, hcells]

mutual

/-- A whole layout is written without a fault. -/
theorem allSound_content : ∀ l : Layout, l.Whole → AllSound (content o l)
  | .nothing, _ => trivial
  | .foreign _, h => h.elim
  | .faulty _, h => h.elim
  | .invisible, _ => trivial
  | .operator _, h => by simpa [content] using show _ ≠ none from h
  | .name _, h => by simpa [content] using show _ ≠ none from h
  | .identifier _, h => by simpa [content] using show _ ≠ none from h
  | .number _, h => by simpa [content] using show _ ≠ none from h
  | .text _, h => by simpa [content] using show _ ≠ none from h
  | .colorText _, _ => by simp [content]
  | .sequence items, ⟨_, h⟩ => allSound_contents items h
  | .row items, ⟨_, h⟩ => by simpa [content] using allSound_contents items h
  | .group e, ⟨_, h⟩ => allSound_row o (allSound_content e h)
  | .fence _ e _, ⟨⟨hleft, hright⟩, h⟩ =>
    allSound_fence o hleft (allSound_row o (allSound_content e h)) hright
  | .wrap _ e _, ⟨⟨hleft, hright⟩, h⟩ =>
    allSound_fence o hleft (by simpa using allSound_content e h) hright
  | .matrix _ rows _, ⟨⟨hleft, hright⟩, h⟩ =>
    allSound_matrix o _ _ hleft (allSound_rowContents rows h) hright
  | .sqrt e, ⟨_, h⟩ => by simpa [content] using allSound_row o (allSound_content e h)
  | .cancel e, ⟨_, h⟩ => by simpa [content] using allSound_row o (allSound_content e h)
  | .root a b, ⟨_, ha, hb⟩ => by
    simpa [content] using ⟨allSound_content b hb, allSound_row o (allSound_content a ha)⟩
  | .color _ e, ⟨_, h⟩ => by simpa [content] using allSound_row o (allSound_content e h)
  | .fraction a b, ⟨_, ha, hb⟩ => by
    have hupper := sound_fractionPart o ((allSound_child o (l := a)).mpr (allSound_content a ha))
    have hlower := sound_fractionPart o ((allSound_child o (l := b)).mpr (allSound_content b hb))
    simpa [content] using ⟨hupper, hlower⟩
  | .font _ e, ⟨_, h⟩ => by simpa [content] using allSound_row o (allSound_content e h)
  | .operatorCall _ e, ⟨hs, h⟩ => by simpa [content] using ⟨hs, allSound_content e h⟩
  | .functionCall _ e, ⟨hs, h⟩ => by simpa [content] using ⟨hs, allSound_content e h⟩
  | .scripts a b c, ⟨_, ha, hb, hc⟩ => by
    have hsub := sound_script o (l := b) (allSound_content b hb)
    have hsup := sound_script o (l := c) (allSound_content c hc)
    simpa [content, Options.subsup] using ⟨allSound_content a ha, hsup, hsub⟩
  | .limits a b c, ⟨_, ha, hb, hc⟩ =>
    allSound_underover o (by simpa using allSound_content a ha)
      (sound_limit o (allSound_content b hb)) (sound_limit o (allSound_content c hc))
  | .accent a mark .below, ⟨_, ha, hmark⟩ =>
    allSound_underover o (by simpa using allSound_content a ha)
      (sound_limit o (allSound_content mark hmark)) (sound_limit o trivial)
  | .accent a mark .above, ⟨_, ha, hmark⟩ =>
    allSound_underover o (by simpa using allSound_content a ha) (sound_limit o trivial)
      (sound_limit o (allSound_content mark hmark))
  | .overset a b, ⟨_, ha, hb⟩ =>
    allSound_underover o (by simpa using allSound_content a ha) (sound_limit o trivial)
      (sound_limit o (allSound_content b hb))
  | .underset a b, ⟨_, ha, hb⟩ =>
    allSound_underover o (by simpa using allSound_content a ha)
      (sound_limit o (allSound_content b hb)) (sound_limit o trivial)

theorem allSound_contents :
    ∀ ls : List Layout, Layout.AllItems Layout.Present ls → AllSound (contents o ls)
  | [], _ => trivial
  | l :: ls, h => by simpa [contents] using ⟨allSound_content l h.1, allSound_contents ls h.2⟩

theorem allSound_rowContents :
    ∀ rows : List (List Layout), Layout.AllRows Layout.Present rows → AllSound (rowContents o rows)
  | [], _ => trivial
  | row :: rows, h => by
    simpa [rowContents] using ⟨allSound_cellContents row h.1, allSound_rowContents rows h.2⟩

theorem allSound_cellContents :
    ∀ ls : List Layout, Layout.AllItems Layout.Present ls → AllSound (cellContents o ls)
  | [], _ => trivial
  | l :: ls, h => by
    simpa [cellContents] using ⟨allSound_content l h.1, allSound_cellContents ls h.2⟩

end

end

end Html

/-! ## LaTeX -/

namespace Latex

open Draft

theorem finished_braced {d : Draft} (h : d.Finished) : (braced d).Finished :=
  ((finished_put _).append h).append (finished_put _)

theorem finished_name {s : Option String} (h : s ≠ none) : (name s).Finished := by
  cases s with
  | none => exact absurd rfl h
  | some s => exact finished_put _

theorem finished_text {s : Option String} (h : s ≠ none) : (text s).Finished := by
  cases s with
  | none => exact absurd rfl h
  | some s => exact finished_put _

theorem finished_fence (left right : Mark) {body : Draft} (h : body.Finished) :
    (fence left body right).Finished := by
  unfold fence
  split
  · exact h
  · have hleft : (delimiter "\\left" left).Finished := finished_put _
    have hright : (delimiter "\\right" right).Finished := finished_put _
    exact ((((hleft.append (finished_put _)).append h).append (finished_put _)).append hright)

theorem finished_script (marker : String) (l : Layout) {d : Draft} (h : d.Finished) :
    (script marker l d).Finished := by
  have hplain : (put marker ++ d).Finished := (finished_put marker).append h
  have hbraced : (put marker ++ braced d).Finished :=
    (finished_put marker).append (finished_braced h)
  cases l with
  | nothing => exact finished_empty
  | operator | name | identifier | invisible | number | text => exact hplain
  | _ => exact hbraced

theorem finished_scripted {base sub sup : Draft} (l l' : Layout) (hbase : base.Finished)
    (hsub : sub.Finished) (hsup : sup.Finished) : (scripted base l l' sub sup).Finished :=
  (hbase.append (finished_script "_" l hsub)).append (finished_script "^" l' hsup)

theorem finished_call {function : Option String} (l : Layout) {operand : Draft}
    (hfunction : function ≠ none) (h : operand.Finished) : (call function l operand).Finished := by
  unfold call
  refine (finished_putOption hfunction).append ?_
  split
  · exact finished_empty
  · exact (finished_put " ").append h

theorem finished_accentCommand {mark : Layout} (hmark : mark.Whole) (hglyph : mark.IsGlyph) :
    (accentCommand mark).Finished := by
  cases mark with
  | operator s => exact finished_putOption hmark
  | name s => exact finished_putOption hmark
  | identifier s => exact finished_put _
  | invisible => exact finished_put _
  | _ => exact hglyph.elim

mutual

/-- A whole layout is written without a fault or a gap. -/
theorem finished_render : ∀ l : Layout, l.Whole → (render l).Finished
  | .nothing, _ => finished_empty
  | .foreign _, h => h.elim
  | .faulty _, h => h.elim
  | .invisible, _ => finished_empty
  | .operator _, h => finished_putOption h
  | .name _, h => finished_putOption h
  | .identifier _, h => finished_name h
  | .number _, h => finished_putOption h
  | .text _, h => finished_text h
  | .colorText _, _ => finished_text (Option.some_ne_none _)
  | .sequence items, ⟨_, h⟩ => finished_join _ (finished_renders items h)
  | .row items, ⟨_, h⟩ => finished_join _ (finished_renders items h)
  | .group e, ⟨_, h⟩ => finished_render e h
  | .fence left e right, ⟨_, h⟩ => finished_fence left right (finished_render e h)
  | .wrap left e right, ⟨_, h⟩ => finished_fence left right (finished_render e h)
  | .matrix left rows right, ⟨_, h⟩ =>
    finished_fence left right (((finished_put _).append
      (finished_join _ (finished_renderRows rows h))).append (finished_put _))
  | .sqrt e, ⟨_, h⟩ => (finished_put _).append (finished_braced (finished_render e h))
  | .cancel e, ⟨_, h⟩ => (finished_put _).append (finished_braced (finished_render e h))
  | .root a b, ⟨_, ha, hb⟩ =>
    (((finished_put _).append (finished_render b hb)).append (finished_put _)).append
      (finished_braced (finished_render a ha))
  | .color _ e, ⟨_, h⟩ => (finished_put _).append (finished_braced (finished_render e h))
  | .fraction a b, ⟨_, ha, hb⟩ =>
    ((finished_put _).append (finished_braced (finished_render a ha))).append
      (finished_braced (finished_render b hb))
  | .font _ e, ⟨hs, h⟩ => (finished_putOption hs).append (finished_braced (finished_render e h))
  | .operatorCall _ e, ⟨hs, h⟩ => finished_call e hs (finished_render e h)
  | .functionCall _ e, ⟨hs, h⟩ => finished_call e hs (finished_render e h)
  | .scripts a b c, ⟨_, ha, hb, hc⟩ =>
    finished_scripted b c (finished_render a ha) (finished_render b hb) (finished_render c hc)
  | .limits a b c, ⟨_, ha, hb, hc⟩ =>
    finished_scripted b c (finished_render a ha) (finished_render b hb) (finished_render c hc)
  | .accent a _ _, ⟨hglyph, ha, hmark⟩ =>
    (finished_accentCommand hmark hglyph).append (finished_braced (finished_render a ha))
  | .overset a b, ⟨_, ha, hb⟩ =>
    ((finished_put _).append (finished_braced (finished_render b hb))).append
      (finished_braced (finished_render a ha))
  | .underset a b, ⟨_, ha, hb⟩ =>
    ((finished_put _).append (finished_braced (finished_render b hb))).append
      (finished_braced (finished_render a ha))

theorem finished_renders :
    ∀ ls : List Layout, Layout.AllItems Layout.Present ls → ∀ d ∈ renders ls, d.Finished
  | [], _ => nofun
  | l :: ls, h => List.forall_mem_cons.mpr ⟨finished_render l h.1, finished_renders ls h.2⟩

theorem finished_renderRows :
    ∀ rows : List (List Layout), Layout.AllRows Layout.Present rows →
      ∀ d ∈ renderRows rows, d.Finished
  | [], _ => nofun
  | row :: rows, h =>
    List.forall_mem_cons.mpr
      ⟨finished_join _ (finished_renders row h.1), finished_renderRows rows h.2⟩

end

end Latex

/-! ## Documents -/

/-- A whole layout is a document in every format. -/
theorem Format.finished_document (f : Format) (inLine : Bool) {l : Layout} (h : l.Whole) :
    (f.document inLine [] l).Finished := by
  cases f with
  | mathML o => exact Markup.finished_write _ (MathML.allSound_content o l h)
  | html o => exact Markup.finished_write _ (Html.allSound_row o (Html.allSound_content o l h))
  | latex => exact Latex.finished_render l h

end MathMarkup
