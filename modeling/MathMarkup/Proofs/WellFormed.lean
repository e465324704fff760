import MathMarkup.Proofs.ElementTrees
import MathMarkup.Proofs.LayoutParts

/-!
# Documents are element trees

Texts, values and classes reach a document in many places.  Names are written as they stand: those
that the formats bring along, the prefix before them, the names of the attributes of the whole
element, and in HTML the names of fonts, which become classes.  Where these are made of the
characters of names, a document is read as one element (`document_reads_as_element`), whatever the
expression and its texts are: as the element that the format made of it.

* `MathML.allNamed_content`, `Html.allNamed_content`: the markup of a layout has names for names.
* `SymbolTable.fontsNamed_layout`: in a layout, the fonts have the names that the table gives them.
-/

namespace MathMarkup

/-! ## Fonts -/

namespace Layout

/-- If this is a font, its name is one. -/
def FontNamed : Layout → Prop
  | .font style _ => ∀ s ∈ style, IsName s
  | _ => True

/-- The fonts in a layout have names. -/
def FontsNamed : Layout → Prop :=
  All FontNamed

end Layout

/-! ## MathML -/

namespace Markup

@[simp] theorem allNamed_nil : AllNamed [] := trivial

@[simp] theorem allNamed_cons {m : Markup} {ms : List Markup} :
    AllNamed (m :: ms) ↔ m.Named ∧ AllNamed ms := Iff.rfl

@[simp] theorem allNamed_append {ms ms' : List Markup} :
    AllNamed (ms ++ ms') ↔ AllNamed ms ∧ AllNamed ms' := by
  induction ms with
  | nil => simp
  | cons m ms ih => simp [ih, and_assoc]

theorem named_leaf {tag : Tag} {attributes : KeyedList String} (htag : tag.Named)
    (hkeys : ∀ key ∈ attributes.keys, IsName key) (content : Option String) :
    (leaf tag attributes content).Named := by
  cases content with
  | none => exact ⟨htag, hkeys, trivial, trivial⟩
  | some s => exact ⟨htag, hkeys, trivial, trivial⟩

end Markup

theorem isName_of_keys_single {key value : String} (h : IsName key) :
    ∀ k ∈ KeyedList.keys [(key, value)], IsName k :=
  List.forall_mem_singleton.mpr h

namespace MathML

open Markup

section

variable {o : Options} (hpre : IsName o.tagPrefix)

include hpre

theorem named_tag {name : String} (hname : IsName name ∧ name ≠ "") :
    Tag.Named ⟨o.tagPrefix ++ name, none⟩ := by
  refine ⟨fun h => hname.2 ?_, hpre.append hname.1, by simp⟩
  exact (String.append_eq_empty_iff.mp h).2

theorem named_element {name : String} (hname : IsName name ∧ name ≠ "") {children : List Markup}
    (h : AllNamed children) : (o.element name children).Named :=
  ⟨named_tag hpre hname, List.forall_mem_nil _, h⟩

theorem named_elementWith {name : String} (hname : IsName name ∧ name ≠ "")
    {attributes : KeyedList String} (hkeys : ∀ key ∈ attributes.keys, IsName key)
    {children : List Markup} (h : AllNamed children) :
    (o.elementWith name attributes children).Named :=
  ⟨named_tag hpre hname, hkeys, h⟩

theorem allNamed_leaf {name : String} (hname : IsName name ∧ name ≠ "") (s : Option String) :
    AllNamed [o.leaf name s] :=
  ⟨named_leaf (named_tag hpre hname) (List.forall_mem_nil _) s, trivial⟩

theorem allNamed_element {name : String} (hname : IsName name ∧ name ≠ "")
    {children : List Markup} (h : AllNamed children) : AllNamed [o.element name children] :=
  ⟨named_element hpre hname h, trivial⟩

theorem allNamed_child {l : Layout} {ms : List Markup} (h : AllNamed ms) :
    AllNamed (o.child l ms) := by
  unfold Options.child
  split
  · exact allNamed_element hpre (by decide) h
  · exact h

theorem allNamed_fenceBody {l : Layout} {ms : List Markup} (h : AllNamed ms) :
    AllNamed (o.fenceBody l ms) := by
  unfold Options.fenceBody
  split
  · exact allNamed_child hpre h
  · exact h

theorem allNamed_delimiter (m : Mark) : AllNamed (o.delimiter m) := by
  cases m with
  | none => trivial
  | text s => exact allNamed_leaf hpre (by decide) (some s)
  | other value => exact allNamed_element hpre (by decide) ⟨trivial, trivial⟩

theorem allNamed_fence (left right : Mark) {body : List Markup} (h : AllNamed body) :
    AllNamed (o.fence left body right) := by
  unfold Options.fence
  split
  · split
    · exact h
    · refine ⟨named_elementWith hpre (by decide) ?_ h, trivial⟩
      show ∀ key ∈ ["open", "close"], IsName key
      decide
  · refine allNamed_element hpre (by decide) ?_
    simp [allNamed_delimiter hpre left, allNamed_delimiter hpre right, h]

theorem allNamed_scripted {lowerTag upperTag bothTag : String}
    (hlowerTag : IsName lowerTag ∧ lowerTag ≠ "") (hupperTag : IsName upperTag ∧ upperTag ≠ "")
    (hbothTag : IsName bothTag ∧ bothTag ≠ "") (lower upper : Layout)
    {base lowerBody upperBody : List Markup} (hbase : AllNamed base) (hlower : AllNamed lowerBody)
    (hupper : AllNamed upperBody) :
    AllNamed (o.scripted lowerTag upperTag bothTag lower upper base lowerBody upperBody) := by
  unfold Options.scripted
  split
  · exact allNamed_element hpre hbothTag (by simp [hbase, hlower, hupper])
  · exact allNamed_element hpre hlowerTag (by simp [hbase, hlower])
  · exact allNamed_element hpre hupperTag (by simp [hbase, hupper])
  · exact hbase

theorem allNamed_subsup (sub sup : Layout) {base subBody supBody : List Markup}
    (hbase : AllNamed base) (hsub : AllNamed subBody) (hsup : AllNamed supBody) :
    AllNamed (o.subsup sub sup base subBody supBody) :=
  allNamed_scripted hpre (by decide) (by decide) (by decide) sub sup hbase hsub hsup

theorem allNamed_underover (below above : Layout) {base belowBody aboveBody : List Markup}
    (hbase : AllNamed base) (hbelow : AllNamed belowBody) (habove : AllNamed aboveBody) :
    AllNamed (o.underover below above base belowBody aboveBody) :=
  allNamed_scripted hpre (by decide) (by decide) (by decide) below above hbase hbelow habove

mutual

/-- The markup of a layout has names for names. -/
theorem allNamed_content : ∀ l : Layout, AllNamed (content o l)
  | .nothing => trivial
  | .foreign _ => ⟨trivial, trivial⟩
  | .faulty _ => ⟨trivial, trivial⟩
  | .invisible => trivial
  | .operator s => allNamed_leaf hpre (by decide) s
  | .name s => allNamed_leaf hpre (by decide) s
  | .identifier s => allNamed_leaf hpre (by decide) s
  | .number s => allNamed_leaf hpre (by decide) s
  | .text s => allNamed_leaf hpre (by decide) s
  | .colorText s => allNamed_leaf hpre (by decide) (some s)
  | .sequence items => allNamed_contents items
  | .row items => allNamed_element hpre (by decide) (allNamed_contents items)
  | .group a => allNamed_child hpre (allNamed_content a)
  | .fence left a right =>
    allNamed_fence hpre left right (allNamed_fenceBody hpre (allNamed_content a))
  | .wrap left a right =>
    allNamed_fence hpre left right (allNamed_fenceBody hpre (allNamed_content a))
  | .matrix left rows right =>
    allNamed_fence hpre left right
      (allNamed_element hpre (by decide) (allNamed_rowContents rows))
  | .sqrt a => allNamed_element hpre (by decide) (allNamed_child hpre (allNamed_content a))
  | .cancel a =>
    ⟨named_elementWith hpre (by decide) (isName_of_keys_single (by decide))
      (allNamed_child hpre (allNamed_content a)), trivial⟩
  | .root a b => by
    have ha : AllNamed (body o a) := allNamed_child hpre (allNamed_content a)
    have hb : AllNamed (body o b) := allNamed_child hpre (allNamed_content b)
    exact allNamed_element hpre (by decide) (allNamed_append.mpr ⟨ha, hb⟩)
  | .color _ a =>
    ⟨named_elementWith hpre (by decide) (isName_of_keys_single (by decide))
      (allNamed_child hpre (allNamed_content a)), trivial⟩
  | .fraction a b => by
    have ha : AllNamed (body o a) := allNamed_child hpre (allNamed_content a)
    have hb : AllNamed (body o b) := allNamed_child hpre (allNamed_content b)
    exact allNamed_element hpre (by decide) (allNamed_append.mpr ⟨ha, hb⟩)
  | .font none _ => ⟨trivial, trivial⟩
  | .font (some _) a =>
    ⟨named_elementWith hpre (by decide) (isName_of_keys_single (by decide))
      (allNamed_child hpre (allNamed_content a)), trivial⟩
  | .operatorCall s a =>
    allNamed_element hpre (by decide)
      (allNamed_append.mpr ⟨allNamed_leaf hpre (by decide) s, allNamed_content a⟩)
  | .functionCall s a =>
    allNamed_element hpre (by decide)
      (allNamed_append.mpr ⟨allNamed_leaf hpre (by decide) s, allNamed_content a⟩)
  | .scripts a b c => by
    have ha : AllNamed (body o a) := allNamed_child hpre (allNamed_content a)
    have hb : AllNamed (body o b) := allNamed_child hpre (allNamed_content b)
    have hc : AllNamed (body o c) := allNamed_child hpre (allNamed_content c)
    exact allNamed_subsup hpre b c ha hb hc
  | .limits a b c => by
    have ha : AllNamed (body o a) := allNamed_child hpre (allNamed_content a)
    have hb : AllNamed (body o b) := allNamed_child hpre (allNamed_content b)
    have hc : AllNamed (body o c) := allNamed_child hpre (allNamed_content c)
    exact allNamed_underover hpre b c ha hb hc
  | .accent a b .below => by
    have ha : AllNamed (body o a) := allNamed_child hpre (allNamed_content a)
    have hb : AllNamed (body o b) := allNamed_child hpre (allNamed_content b)
    exact allNamed_underover hpre b .nothing ha hb trivial
  | .accent a b .above => by
    have ha : AllNamed (body o a) := allNamed_child hpre (allNamed_content a)
    have hb : AllNamed (body o b) := allNamed_child hpre (allNamed_content b)
    exact allNamed_underover hpre .nothing b ha trivial hb
  | .overset a b => by
    have ha : AllNamed (body o a) := allNamed_child hpre (allNamed_content a)
    have hb : AllNamed (body o b) := allNamed_child hpre (allNamed_content b)
    exact allNamed_underover hpre .nothing b ha trivial hb
  | .underset a b => by
    have ha : AllNamed (body o a) := allNamed_child hpre (allNamed_content a)
    have hb : AllNamed (body o b) := allNamed_child hpre (allNamed_content b)
    exact allNamed_underover hpre b .nothing ha hb trivial

theorem allNamed_contents : ∀ ls : List Layout, AllNamed (contents o ls)
  | [] => trivial
  | l :: ls =>
    allNamed_append.mpr ⟨allNamed_child hpre (allNamed_content l), allNamed_contents ls⟩

theorem allNamed_rowContents : ∀ rows : List (List Layout), AllNamed (rowContents o rows)
  | [] => trivial
  | row :: rows =>
    ⟨named_element hpre (by decide) (allNamed_cellContents row), allNamed_rowContents rows⟩

theorem allNamed_cellContents : ∀ ls : List Layout, AllNamed (cellContents o ls)
  | [] => trivial
  | l :: ls =>
    ⟨named_element hpre (by decide) (allNamed_child hpre (allNamed_content l)),
      allNamed_cellContents ls⟩

end

end

end MathML

/-! ## HTML -/

namespace Html

open Markup

theorem isName_fontName {style : Option String} {body : Layout}
    (h : Layout.FontNamed (.font style body)) : IsName (fontName style) := by
  cases style with
  | none => decide
  | some style => exact IsName.append (by decide) (h style rfl)

section

variable {o : Options} (hpre : IsName o.classPrefix)

include hpre

theorem named_tag {part : String} (hpart : IsName part) : (o.tag part).Named := by
  refine ⟨show "span" ≠ "" by decide, show IsName "span" by decide, ?_⟩
  rintro style ⟨⟩
  exact (IsName.append (by decide) hpre).append hpart

theorem named_span {part : String} (hpart : IsName part) {children : List Markup}
    (h : AllNamed children) : (o.span part children).Named :=
  ⟨named_tag hpre hpart, List.forall_mem_nil _, h⟩

theorem named_spanWith {part : String} (hpart : IsName part) {attributes : KeyedList String}
    (hkeys : ∀ key ∈ attributes.keys, IsName key) {children : List Markup}
    (h : AllNamed children) : (o.spanWith part attributes children).Named :=
  ⟨named_tag hpre hpart, hkeys, h⟩

theorem named_leaf {part : String} (hpart : IsName part) (s : Option String) :
    (o.leaf part s).Named :=
  Markup.named_leaf (named_tag hpre hpart) (List.forall_mem_nil _) s

theorem allNamed_leaf {part : String} (hpart : IsName part) (s : Option String) :
    AllNamed [o.leaf part s] :=
  ⟨named_leaf hpre hpart s, trivial⟩

theorem allNamed_span {part : String} (hpart : IsName part) {children : List Markup}
    (h : AllNamed children) : AllNamed [o.span part children] :=
  ⟨named_span hpre hpart h, trivial⟩

theorem allNamed_child {l : Layout} {ms : List Markup} (h : AllNamed ms) :
    AllNamed (o.child l ms) := by
  unfold Options.child
  split
  · exact allNamed_span hpre (by decide) h
  · exact h

theorem allNamed_row {l : Layout} {ms : List Markup} (h : AllNamed ms) :
    AllNamed (o.row l ms) := by
  unfold Options.row
  split
  · trivial
  · exact h
  · exact allNamed_span hpre (by decide) h

theorem allNamed_delimiter (attributes : KeyedList String)
    (hkeys : ∀ key ∈ attributes.keys, IsName key) (m : Mark) :
    AllNamed (o.delimiter attributes m) := by
  cases m with
  | none => trivial
  | text s => exact ⟨Markup.named_leaf (named_tag hpre (by decide)) hkeys (some s), trivial⟩
  | other value => exact ⟨named_spanWith hpre (by decide) hkeys ⟨trivial, trivial⟩, trivial⟩

theorem allNamed_fence (left right : Mark) {body : List Markup} (h : AllNamed body) :
    AllNamed (o.fence left body right) := by
  have hleft := allNamed_delimiter hpre [] (List.forall_mem_nil _) left
  have hright := allNamed_delimiter hpre [] (List.forall_mem_nil _) right
  exact allNamed_span hpre (by decide)
    (allNamed_append.mpr ⟨allNamed_append.mpr ⟨hleft, h⟩, hright⟩)

theorem allNamed_matrix (left right : Mark) (rows columns : Nat) {cells : List Markup}
    (h : AllNamed cells) : AllNamed (o.matrix left rows columns cells right) := by
  have hkeys : ∀ key ∈ KeyedList.keys (Options.braceStyle rows), IsName key :=
    isName_of_keys_single (by decide)
  have hleft := allNamed_delimiter hpre _ hkeys left
  have hright := allNamed_delimiter hpre _ hkeys right
  have hgrid : (o.spanWith "matrix" (Options.gridStyle rows columns) cells).Named :=
    named_spanWith hpre (by decide) (isName_of_keys_single (by decide)) h
  refine allNamed_span hpre (by decide) ?_
  simp [hleft, hright, hgrid]

theorem named_script {l : Layout} {ms : List Markup} (h : AllNamed ms) :
    (o.script l ms).Named := by
  unfold Options.script
  split
  · exact named_leaf hpre (by decide) _
  · exact named_span hpre (by decide) (allNamed_child hpre h)

theorem named_limit {l : Layout} {ms : List Markup} (h : AllNamed ms) :
    (o.limit l ms).Named := by
  unfold Options.limit
  split
  · exact named_span hpre (by decide) (allNamed_leaf hpre (by decide) _)
  · exact named_span hpre (by decide) (allNamed_child hpre h)

theorem allNamed_subsup {base : List Markup} {sub sup : Markup} (hbase : AllNamed base)
    (hsub : sub.Named) (hsup : sup.Named) : AllNamed (o.subsup base sub sup) :=
  allNamed_append.mpr
    ⟨hbase, allNamed_span hpre (by decide) ⟨hsup, hsub, trivial⟩⟩

theorem allNamed_underover {base : List Markup} {below above : Markup} (hbase : AllNamed base)
    (hbelow : below.Named) (habove : above.Named) : AllNamed (o.underover base below above) := by
  refine ⟨named_leaf hpre (by decide) _, allNamed_span hpre (by decide) ?_⟩
  simp [hbase, hbelow, habove]

theorem named_fractionPart {part : List Markup} (h : AllNamed part) :
    (o.fractionPart part).Named := by
  refine named_span hpre (by decide) (allNamed_span hpre (by decide) ?_)
  exact allNamed_span hpre (by decide) (allNamed_span hpre (by decide) h)

end

mutual

/-- The markup of a layout has names for names, if its fonts have names. -/
theorem allNamed_content {o : Options} (hpre : IsName o.classPrefix) :
    ∀ l : Layout, l.FontsNamed → AllNamed (content o l)
  | .nothing, _ => trivial
  | .foreign _, _ => ⟨trivial, trivial⟩
  | .faulty _, _ => ⟨trivial, trivial⟩
  | .invisible, _ => trivial
  | .operator s, _ => allNamed_leaf hpre (by decide) s
  | .name s, _ => allNamed_leaf hpre (by decide) s
  | .identifier s, _ => allNamed_leaf hpre (by decide) s
  | .number s, _ => allNamed_leaf hpre (by decide) s
  | .text s, _ => allNamed_leaf hpre (by decide) s
  | .colorText s, _ => allNamed_leaf hpre (by decide) (some s)
  | .sequence items, h => allNamed_contents hpre items h.2
  | .row items, h => allNamed_span hpre (by decide) (allNamed_contents hpre items h.2)
  | .group a, h => allNamed_row hpre (allNamed_content hpre a h.2)
  | .fence left a right, h =>
    allNamed_fence hpre left right (allNamed_row hpre (allNamed_content hpre a h.2))
  | .wrap left a right, h =>
    allNamed_fence hpre left right (allNamed_child hpre (allNamed_content hpre a h.2))
  | .matrix left rows right, h =>
    allNamed_matrix hpre left right _ _ (allNamed_rowContents hpre rows h.2)
  | .sqrt a, h =>
    allNamed_span hpre (by decide) (allNamed_row hpre (allNamed_content hpre a h.2))
  | .cancel a, h =>
    allNamed_span hpre (by decide) (allNamed_row hpre (allNamed_content hpre a h.2))
  | .root a b, ⟨_, ha, hb⟩ => by
    have hbase := allNamed_row hpre (l := a) (allNamed_content hpre a ha)
    have hindex := allNamed_child hpre (l := b) (allNamed_content hpre b hb)
    refine allNamed_span hpre (by decide) ⟨named_span hpre (by decide) hindex, ?_⟩
    exact allNamed_span hpre (by decide) hbase
  | .color _ a, h =>
    ⟨named_spanWith hpre (by decide) (isName_of_keys_single (by decide))
      (allNamed_row hpre (allNamed_content hpre a h.2)), trivial⟩
  | .fraction a b, ⟨_, ha, hb⟩ => by
    have hupper := named_fractionPart hpre (allNamed_child hpre (l := a)
      (allNamed_content hpre a ha))
    have hlower := named_fractionPart hpre (allNamed_child hpre (l := b)
      (allNamed_content hpre b hb))
    exact ⟨named_leaf hpre (by decide) _,
      allNamed_span hpre (by decide) ⟨hupper, hlower, trivial⟩⟩
  | .font _ a, h =>
    allNamed_span hpre (isName_fontName h.1)
      (allNamed_row hpre (allNamed_content hpre a h.2))
  | .operatorCall s a, h =>
    allNamed_span hpre (by decide)
      ⟨named_leaf hpre (by decide) s, allNamed_child hpre (allNamed_content hpre a h.2)⟩
  | .functionCall s a, h =>
    allNamed_span hpre (by decide)
      ⟨named_leaf hpre (by decide) s, allNamed_child hpre (allNamed_content hpre a h.2)⟩
  | .scripts a b c, ⟨_, ha, hb, hc⟩ =>
    allNamed_subsup hpre (allNamed_child hpre (allNamed_content hpre a ha))
      (named_script hpre (allNamed_content hpre b hb))
      (named_script hpre (allNamed_content hpre c hc))
  | .limits a b c, ⟨_, ha, hb, hc⟩ =>
    allNamed_underover hpre (allNamed_child hpre (allNamed_content hpre a ha))
      (named_limit hpre (allNamed_content hpre b hb))
      (named_limit hpre (allNamed_content hpre c hc))
  | .accent a b .below, ⟨_, ha, hb⟩ =>
    allNamed_underover hpre (allNamed_child hpre (allNamed_content hpre a ha))
      (named_limit hpre (allNamed_content hpre b hb)) (named_limit hpre trivial)
  | .accent a b .above, ⟨_, ha, hb⟩ =>
    allNamed_underover hpre (allNamed_child hpre (allNamed_content hpre a ha))
      (named_limit hpre trivial) (named_limit hpre (allNamed_content hpre b hb))
  | .overset a b, ⟨_, ha, hb⟩ =>
    allNamed_underover hpre (allNamed_child hpre (allNamed_content hpre a ha))
      (named_limit hpre trivial) (named_limit hpre (allNamed_content hpre b hb))
  | .underset a b, ⟨_, ha, hb⟩ =>
    allNamed_underover hpre (allNamed_child hpre (allNamed_content hpre a ha))
      (named_limit hpre (allNamed_content hpre b hb)) (named_limit hpre trivial)

theorem allNamed_contents {o : Options} (hpre : IsName o.classPrefix) :
    ∀ ls : List Layout, Layout.AllItems Layout.FontNamed ls → AllNamed (contents o ls)
  | [], _ => trivial
  | l :: ls, h =>
    allNamed_append.mpr
      ⟨allNamed_child hpre (allNamed_content hpre l h.1), allNamed_contents hpre ls h.2⟩

theorem allNamed_rowContents {o : Options} (hpre : IsName o.classPrefix) :
    ∀ rows : List (List Layout), Layout.AllRows Layout.FontNamed rows →
      AllNamed (rowContents o rows)
  | [], _ => trivial
  | row :: rows, h =>
    allNamed_append.mpr
      ⟨allNamed_cellContents hpre row h.1, allNamed_rowContents hpre rows h.2⟩

theorem allNamed_cellContents {o : Options} (hpre : IsName o.classPrefix) :
    ∀ ls : List Layout, Layout.AllItems Layout.FontNamed ls → AllNamed (cellContents o ls)
  | [], _ => trivial
  | l :: ls, h =>
    ⟨named_span hpre (by decide) (allNamed_child hpre (allNamed_content hpre l h.1)),
      allNamed_cellContents hpre ls h.2⟩

end

end Html

/-! ## From expressions to layouts -/

namespace SymbolTable

/-- A table in which fonts have names. -/
def FontsNamed (t : SymbolTable) : Prop :=
  ∀ id d, t.lookup id = some d → d.kind = .display .font → ∀ style ∈ d.value, IsName style

section

variable {t : SymbolTable}

theorem FontsNamed.fontNamed (ht : t.FontsNamed) {operator : Operator} {d : Descriptor}
    (h : t.resolveOperator operator = some d) (hkind : d.kind = .display .font)
    (operand : Layout) : Layout.FontNamed (.font d.value operand) := by
  obtain ⟨key, hd⟩ := exists_lookup_of_resolveOperator h
  exact ht key d hd hkind

/-- Only fonts have names that come from the table as they are. -/
theorem FontsNamed.lays (ht : t.FontsNamed) : t.Lays (fun _ => True) Layout.FontNamed where
  glyph s := by
    unfold glyph
    split
    · split <;> trivial
    · split <;> trivial
  wrap _ _ _ h := by
    simp only [wrapLayout]
    split
    · trivial
    · exact ⟨trivial, h⟩
  font hd hkind body := ht.fontNamed hd hkind body

/-- The fonts of a layout have names, if those of the table have. -/
theorem fontsNamed_layout (ht : t.FontsNamed) (e : Expr) : (t.layout e).FontsNamed :=
  ht.lays.all_layout e fun _ _ => trivial

end

end SymbolTable

/-! ## Documents -/

/-- The attributes of a document, each key once. -/
def attributeTexts (attributes : KeyedList Value) : KeyedList String :=
  (KeyedList.ofPairs attributes).map fun (key, value) => (key, value.display)

theorem KeyedList.mem_keys_foldl {α : Type} {key : String} (pairs m : KeyedList α)
    (h : key ∈ keys (pairs.foldl (fun m p => set m p.1 p.2) m)) :
    key ∈ keys m ∨ key ∈ keys pairs := by
  induction pairs generalizing m with
  | nil => exact .inl h
  | cons p pairs ih =>
    rcases ih (set m p.1 p.2) h with hm | hpairs
    · rw [keys_set] at hm
      split at hm
      · exact .inl hm
      · rcases List.mem_append.mp hm with hm | hm
        · exact .inl hm
        · rw [List.mem_singleton.mp hm]
          exact .inr List.mem_cons_self
    · exact .inr (List.mem_cons_of_mem _ hpairs)

theorem isName_attributeTexts {attributes : KeyedList Value}
    (h : ∀ key ∈ attributes.keys, IsName key) :
    ∀ key ∈ (attributeTexts attributes).keys, IsName key := by
  intro key hkey
  have hkey : key ∈ (KeyedList.ofPairs attributes).keys := by
    simpa [attributeTexts, KeyedList.keys] using hkey
  rcases KeyedList.mem_keys_foldl attributes [] hkey with hnil | hkey
  · exact absurd hnil List.not_mem_nil
  · exact h key hkey

namespace Format

/-- A document that is finished has no attribute of a reserved name. -/
theorem documentWith_of_read {f : Format} {inLine : Bool} {attributes : KeyedList Value}
    {l : Layout} {s : String} (h : (f.document inLine attributes l).read = .ok s) :
    (f.documentWith inLine (attributeTexts attributes) l).read = .ok s := by
  unfold document at h
  split at h
  · cases h
  · exact h

end Format

theorem MathML.named_document {o : Options} (hpre : IsName o.tagPrefix)
    {attributes : KeyedList Value} (hkeys : ∀ key ∈ attributes.keys, IsName key) (l : Layout) :
    (document o (attributeTexts attributes) l).Named :=
  named_elementWith hpre (by decide) (isName_attributeTexts hkeys) (allNamed_content hpre l)

theorem Html.named_document {o : Options} (hpre : IsName o.classPrefix) (inLine : Bool)
    {attributes : KeyedList Value} (hkeys : ∀ key ∈ attributes.keys, IsName key) {l : Layout}
    (hfonts : l.FontsNamed) : (document o inLine (attributeTexts attributes) l).Named := by
  have hpart : IsName (if inLine then "inline" else "block") := by
    cases inLine <;> decide
  exact named_spanWith hpre hpart (isName_attributeTexts hkeys)
    (allNamed_row hpre (allNamed_content hpre l hfonts))

/-- A text that is plain ASCII, with ampersands only where references start. -/
structure Text.Plain (s : String) : Prop where
  ascii : ∀ c ∈ s.toList, c.toNat ≤ 0x7F
  referent : ∀ before after, s.toList = before ++ '&' :: after →
    ∃ name rest, after = name ++ ';' :: rest ∧ (referent? (String.ofList name)).isSome = true

/-- A document in MathML or HTML is one element: where the names that are not from the format are
made of the characters of names, it is read as the element that the format made. -/
theorem document_reads_as_element (t : SymbolTable) (e : Expr) (inLine : Bool)
    {attributes : KeyedList Value} (hkeys : ∀ key ∈ attributes.keys, IsName key) {s : String} :
    (∀ o : MathML.Options, IsName o.tagPrefix →
      ((Format.mathML o).document inLine attributes (t.layout e)).read = .ok s →
        Node.read? s = some [.element (o.tagPrefix ++ "math") (attributeTexts attributes)
          (Markup.forest (MathML.content o (t.layout e)))] ∧ Text.Plain s) ∧
    ∀ o : Html.Options, IsName o.classPrefix → t.FontsNamed →
      ((Format.html o).document inLine attributes (t.layout e)).read = .ok s →
        Node.read? s = some [.element "span"
          (("class", "math-" ++ o.classPrefix ++ if inLine then "inline" else "block") ::
            attributeTexts attributes)
          (Markup.forest (Html.row o (t.layout e)))] ∧ Text.Plain s := by
  have hplain {root : Node} (h : Node.read? s = some [root]) : Text.Plain s :=
    ⟨Node.ascii_of_read? h, fun _ _ => Node.referent?_of_read? h⟩
  constructor
  · intro o hpre h
    have hread := Markup.read?_of_read (MathML.named_document hpre hkeys (t.layout e))
      (Format.documentWith_of_read h)
    exact ⟨hread, hplain hread⟩
  · intro o hpre hfonts h
    have hread := Markup.read?_of_read
      (Html.named_document hpre inLine hkeys (SymbolTable.fontsNamed_layout hfonts e))
      (Format.documentWith_of_read h)
    exact ⟨hread, hplain hread⟩

/-- A table with one font. -/
def SymbolTable.oneFont : SymbolTable :=
  .ofRegistrations [⟨["bold"], some "bold", .display .font, []⟩]

theorem SymbolTable.fontsNamed_oneFont : SymbolTable.oneFont.FontsNamed := by
  intro id d h _ style hstyle
  simp only [lookup, oneFont, ofRegistrations, KeyedList.value?, List.flatMap_cons, List.map_cons,
    List.map_nil, List.flatMap_nil, List.append_nil] at h
  split at h
  · cases h
    cases hstyle
    decide
  · cases h

/-- A text in that font, with characters that cannot be written as they stand. -/
def Expr.boldText : Expr :=
  .unary (.symbol ⟨some "bold", "bb"⟩) (.text "<é\"&")

theorem Layout.whole_boldText : (SymbolTable.oneFont.layout .boldText).Whole := by
  show (Layout.font (some "bold") (.text (some "<é\"&"))).Whole
  simp [Layout.Whole, Layout.All, Layout.Present]

theorem document_reads_as_element_bold :
    (∃ s, ((Format.mathML ⟨"m:", true⟩).document true [("id", .text "\">")]
        (SymbolTable.oneFont.layout .boldText)).read = .ok s ∧
      Node.read? s = some [.element "m:math" [("id", "\">")]
        [.element "m:mstyle" [("mathvariant", "bold")]
          [.element "m:mtext" [] [.char '<', .char 'é', .char '"', .char '&']]]]) ∧
    ∃ s, ((Format.html ⟨""⟩).document false [] (SymbolTable.oneFont.layout .boldText)).read =
        .ok s ∧
      Node.read? s = some [.element "span" [("class", "math-block")]
        [.element "span" [("class", "math-row")]
          [.element "span" [("class", "math-font-bold")]
            [.element "span" [("class", "math-row")]
              [.element "span" [("class", "math-text")]
                [.char '<', .char 'é', .char '"', .char '&']]]]]] := by
  have hsound : (MathML.document ⟨"m:", true⟩ [("id", "\">")]
      (SymbolTable.oneFont.layout .boldText)).Sound :=
    MathML.allSound_content _ _ Layout.whole_boldText
  have hmathML : ((Format.mathML ⟨"m:", true⟩).document true [("id", .text "\">")]
      (SymbolTable.oneFont.layout .boldText)).read = .ok _ :=
    (Markup.finished_write _ hsound).read_eq
  have hhtml := (Format.finished_document (.html ⟨""⟩) false Layout.whole_boldText).read_eq
  refine ⟨⟨_, hmathML, ?_⟩, _, hhtml, ?_⟩
  · exact ((document_reads_as_element .oneFont .boldText true (by decide)).1 ⟨"m:", true⟩
      (by decide) hmathML).1
  · exact ((document_reads_as_element .oneFont .boldText false (by decide)).2 ⟨""⟩ (by decide)
      SymbolTable.fontsNamed_oneFont hhtml).1

end MathMarkup
