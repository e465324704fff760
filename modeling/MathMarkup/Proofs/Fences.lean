import MathMarkup.Proofs.Finishing
import MathMarkup.Proofs.WellFormed

/-!
# Delimiters as attributes and as operators

MathML has two ways to write delimiters: as attributes of an element around the body, and as
operators in a row with the body.  With attributes, a body between delimiters that are both
invisible gets no element at all, and a body that is a sequence gets a row of its own.

Both ways give the same trees once each element with delimiters has been replaced by operators
around its children and each row by its children (`fenced_agrees`).  A delimiter that is an empty
text would be an operator in the one way and nothing in the other, so there must be none.

* `Node.rewrite` replaces elements from the inside to the outside.
* `MathML.level_fence`: a body between delimiters, in either way.
* `MathML.level_content`: layouts.
-/

namespace MathMarkup

/-! ## Rewriting trees -/

namespace Node

mutual

/-- Replaces each element of a tree by the trees that a function makes of it, the elements among
its children first. -/
def rewrite (f : String → KeyedList String → List Node → List Node) : Node → List Node
  | .element name attributes children => f name attributes (rewriteAll f children)
  | .char c => [.char c]

/-- Replaces each element of several trees. -/
def rewriteAll (f : String → KeyedList String → List Node → List Node) : List Node → List Node
  | [] => []
  | n :: ns => n.rewrite f ++ rewriteAll f ns

end

section

variable (f : String → KeyedList String → List Node → List Node)

theorem rewriteAll_append (ns ms : List Node) :
    rewriteAll f (ns ++ ms) = rewriteAll f ns ++ rewriteAll f ms := by
  induction ns with
  | nil => rfl
  | cons n ns ih => rw [List.cons_append, rewriteAll, ih, rewriteAll, List.append_assoc]

theorem rewriteAll_element (name : String) (attributes : KeyedList String)
    (children : List Node) :
    rewriteAll f [.element name attributes children] =
      f name attributes (rewriteAll f children) :=
  List.append_nil _

theorem rewriteAll_chars (cs : List Char) : rewriteAll f (cs.map .char) = cs.map .char := by
  induction cs with
  | nil => rfl
  | cons c cs ih => rw [List.map_cons, rewriteAll, ih]; rfl

end

end Node

namespace MathML

open Markup

/-- A text as an operator, unless it is empty. -/
def operatorOf (tagPrefix s : String) : List Node :=
  if s = "" then [] else [.element (tagPrefix ++ "mo") [] (s.toList.map .char)]

/-- Replaces each element that has delimiters as attributes by operators around its children. -/
def unfence (tagPrefix : String) : List Node → List Node :=
  Node.rewriteAll fun name attributes children =>
    if name = tagPrefix ++ "mfenced" then
      operatorOf tagPrefix ((attributes.value? "open").getD "") ++ children ++
        operatorOf tagPrefix ((attributes.value? "close").getD "")
    else [.element name attributes children]

/-- Replaces each row by its children. -/
def spliceRows (tagPrefix : String) : List Node → List Node :=
  Node.rewriteAll fun name attributes children =>
    if name = tagPrefix ++ "mrow" then children else [.element name attributes children]

/-- Trees without rows and with delimiters as operators. -/
def level (tagPrefix : String) (ns : List Node) : List Node :=
  spliceRows tagPrefix (unfence tagPrefix ns)

section

variable {p : String}

theorem unfence_element {name : String} (h : name ≠ "mfenced") (attributes : KeyedList String)
    (children : List Node) :
    unfence p [.element (p ++ name) attributes children] =
      [.element (p ++ name) attributes (unfence p children)] := by
  have hname : p ++ name ≠ p ++ "mfenced" := mt (String.append_right_inj p).mp h
  rw [unfence, Node.rewriteAll_element, if_neg hname]

theorem unfence_fenced (left right : String) (children : List Node) :
    unfence p [.element (p ++ "mfenced") [("open", left), ("close", right)] children] =
      operatorOf p left ++ unfence p children ++ operatorOf p right := by
  rw [unfence, Node.rewriteAll_element, if_pos rfl]
  rfl

theorem spliceRows_element {name : String} (h : name ≠ "mrow") (attributes : KeyedList String)
    (children : List Node) :
    spliceRows p [.element (p ++ name) attributes children] =
      [.element (p ++ name) attributes (spliceRows p children)] := by
  have hname : p ++ name ≠ p ++ "mrow" := mt (String.append_right_inj p).mp h
  rw [spliceRows, Node.rewriteAll_element, if_neg hname]

theorem spliceRows_append (ns ms : List Node) :
    spliceRows p (ns ++ ms) = spliceRows p ns ++ spliceRows p ms :=
  Node.rewriteAll_append _ ns ms

theorem spliceRows_operatorOf (s : String) : spliceRows p (operatorOf p s) = operatorOf p s := by
  unfold operatorOf
  split
  · rfl
  · rw [spliceRows_element (by decide), spliceRows, Node.rewriteAll_chars]

@[simp] theorem level_append (ns ms : List Node) :
    level p (ns ++ ms) = level p ns ++ level p ms := by
  simp only [level, unfence, spliceRows, Node.rewriteAll_append]

theorem level_element {name : String} (hfenced : name ≠ "mfenced") (hrow : name ≠ "mrow")
    (attributes : KeyedList String) (children : List Node) :
    level p [.element (p ++ name) attributes children] =
      [.element (p ++ name) attributes (level p children)] := by
  rw [level, unfence_element hfenced, spliceRows_element hrow, level]

theorem level_row (attributes : KeyedList String) (children : List Node) :
    level p [.element (p ++ "mrow") attributes children] = level p children := by
  rw [level, unfence_element (by decide), spliceRows, Node.rewriteAll_element, if_pos rfl]
  rfl

theorem level_chars (cs : List Char) : level p (cs.map .char) = cs.map .char := by
  rw [level, unfence, Node.rewriteAll_chars, spliceRows, Node.rewriteAll_chars]

theorem level_fenced (left right : String) (children : List Node) :
    level p [.element (p ++ "mfenced") [("open", left), ("close", right)] children] =
      operatorOf p left ++ level p children ++ operatorOf p right := by
  rw [level, unfence_fenced, spliceRows_append, spliceRows_append, spliceRows_operatorOf,
    spliceRows_operatorOf, level]

end

/-! ## Delimiters -/

end MathML

/-- If this is a construct between delimiters, none of them is an empty text. -/
def Layout.MarksFilled : Layout → Prop
  | .fence left _ right | .wrap left _ right | .matrix left _ right =>
    left ≠ .text "" ∧ right ≠ .text ""
  | _ => True

namespace MathML

open Markup

section

variable {o : Options}

theorem level_child (l : Layout) (ms : List Markup) :
    level o.tagPrefix (forest (o.child l ms)) = level o.tagPrefix (forest ms) := by
  unfold Options.child
  split
  · exact level_row [] (forest ms)
  · rfl

theorem level_fenceBody (l : Layout) (ms : List Markup) :
    level o.tagPrefix (forest (o.fenceBody l ms)) = level o.tagPrefix (forest ms) := by
  unfold Options.fenceBody
  split
  · exact level_child l ms
  · rfl

/-- A delimiter as an operator, if it is visible. -/
def markOf (p : String) (m : Mark) : List Node :=
  operatorOf p (m.visible?.getD "")

theorem level_delimiter {m : Mark} (hplain : m.Plain) (hfilled : m ≠ .text "") :
    level o.tagPrefix (forest (o.delimiter m)) = markOf o.tagPrefix m := by
  cases m with
  | none => rfl
  | text s =>
    -- an empty text would be an operator here and nothing as an attribute
    have hs : s ≠ "" := fun hs => hfilled (congrArg Mark.text hs)
    have hnodes : forest (o.delimiter (.text s)) =
        [.element (o.tagPrefix ++ "mo") [] (s.toList.map .char)] := by
      rw [Options.delimiter, forest_cons, Options.leaf, nodes_leaf]
      rfl
    rw [hnodes, level_element (by decide) (by decide), level_chars, markOf, Mark.visible?,
      if_neg hs, Option.getD_some, operatorOf, if_neg hs]
  | other value => exact hplain.elim

/-- A body between delimiters, whichever way they are written. -/
theorem level_fence {left right : Mark} (hleft : left.Plain ∧ left ≠ .text "")
    (hright : right.Plain ∧ right ≠ .text "") (ms : List Markup) :
    level o.tagPrefix (forest (o.fence left ms right)) =
      markOf o.tagPrefix left ++ level o.tagPrefix (forest ms) ++ markOf o.tagPrefix right := by
  unfold Options.fence
  split
  · split
    · rename_i hnone
      -- no element at all, and no operators either
      rw [hnone.1, hnone.2]
      exact (List.append_nil _).symm
    · exact level_fenced _ _ _
  · have hrow : level o.tagPrefix (forest [o.element "mrow"
        (o.delimiter left ++ ms ++ o.delimiter right)]) = _ := level_row [] (forest _)
    rw [forest_append, forest_append, level_append, level_append,
      level_delimiter hleft.1 hleft.2, level_delimiter hright.1 hright.2] at hrow
    exact hrow

end

/-! ## Layouts -/

section

variable {p : String} {b b' : Bool}

/-- An element that stays, around bodies that agree. -/
theorem level_congr {name : String} (hname : name ≠ "mfenced" ∧ name ≠ "mrow")
    (attributes : KeyedList String) {ms ms' : List Markup}
    (h : level p (forest ms) = level p (forest ms')) :
    level p (forest [Options.elementWith ⟨p, b⟩ name attributes ms]) =
      level p (forest [Options.elementWith ⟨p, b'⟩ name attributes ms']) := by
  have hleft : level p (forest [Options.elementWith ⟨p, b⟩ name attributes ms]) =
      [.element (p ++ name) attributes (level p (forest ms))] :=
    level_element hname.1 hname.2 attributes (forest ms)
  have hright : level p (forest [Options.elementWith ⟨p, b'⟩ name attributes ms']) =
      [.element (p ++ name) attributes (level p (forest ms'))] :=
    level_element hname.1 hname.2 attributes (forest ms')
  rw [hleft, hright, h]

theorem level_congr_row {ms ms' : List Markup} (h : level p (forest ms) = level p (forest ms')) :
    level p (forest [Options.element ⟨p, b⟩ "mrow" ms]) =
      level p (forest [Options.element ⟨p, b'⟩ "mrow" ms']) :=
  ((level_row [] (forest ms)).trans h).trans (level_row [] (forest ms')).symm

theorem level_congr_child (l : Layout) {ms ms' : List Markup}
    (h : level p (forest ms) = level p (forest ms')) :
    level p (forest (Options.child ⟨p, b⟩ l ms)) =
      level p (forest (Options.child ⟨p, b'⟩ l ms')) :=
  ((@level_child ⟨p, b⟩ l ms).trans h).trans (@level_child ⟨p, b'⟩ l ms').symm

theorem level_congr_append {ms ms' ns ns' : List Markup}
    (h : level p (forest ms) = level p (forest ms'))
    (h' : level p (forest ns) = level p (forest ns')) :
    level p (forest (ms ++ ns)) = level p (forest (ms' ++ ns')) := by
  rw [forest_append, forest_append, level_append, level_append, h, h']

theorem level_congr_scripted {lowerTag upperTag bothTag : String}
    (hlower : lowerTag ≠ "mfenced" ∧ lowerTag ≠ "mrow")
    (hupper : upperTag ≠ "mfenced" ∧ upperTag ≠ "mrow")
    (hboth : bothTag ≠ "mfenced" ∧ bothTag ≠ "mrow") (lower upper : Layout)
    {base lowerBody upperBody base' lowerBody' upperBody' : List Markup}
    (h : level p (forest base) = level p (forest base'))
    (hlow : level p (forest lowerBody) = level p (forest lowerBody'))
    (hup : level p (forest upperBody) = level p (forest upperBody')) :
    level p (forest (Options.scripted ⟨p, b⟩ lowerTag upperTag bothTag lower upper base lowerBody
        upperBody)) =
      level p (forest (Options.scripted ⟨p, b'⟩ lowerTag upperTag bothTag lower upper base'
        lowerBody' upperBody')) := by
  unfold Options.scripted
  split
  · exact level_congr hboth [] (level_congr_append (level_congr_append h hlow) hup)
  · exact level_congr hlower [] (level_congr_append h hlow)
  · exact level_congr hupper [] (level_congr_append h hup)
  · exact h

theorem level_congr_underover (below above : Layout)
    {base belowBody aboveBody base' belowBody' aboveBody' : List Markup}
    (h : level p (forest base) = level p (forest base'))
    (hbelow : level p (forest belowBody) = level p (forest belowBody'))
    (habove : level p (forest aboveBody) = level p (forest aboveBody')) :
    level p (forest (Options.underover ⟨p, b⟩ below above base belowBody aboveBody)) =
      level p (forest (Options.underover ⟨p, b'⟩ below above base' belowBody' aboveBody')) :=
  level_congr_scripted (by decide) (by decide) (by decide) below above h hbelow habove

/-- Bodies that agree, between delimiters. -/
theorem level_congr_fence {left right : Mark} (hplain : left.Plain ∧ right.Plain)
    (hfilled : left ≠ .text "" ∧ right ≠ .text "") {ms ms' : List Markup}
    (h : level p (forest ms) = level p (forest ms')) :
    level p (forest (Options.fence ⟨p, b⟩ left ms right)) =
      level p (forest (Options.fence ⟨p, b'⟩ left ms' right)) := by
  have hleft := @level_fence ⟨p, b⟩ left right ⟨hplain.1, hfilled.1⟩ ⟨hplain.2, hfilled.2⟩ ms
  have hright := @level_fence ⟨p, b'⟩ left right ⟨hplain.1, hfilled.1⟩ ⟨hplain.2, hfilled.2⟩ ms'
  rw [hleft, hright, h]

theorem level_congr_fenceBody (l : Layout) {ms ms' : List Markup}
    (h : level p (forest ms) = level p (forest ms')) :
    level p (forest (Options.fenceBody ⟨p, b⟩ l ms)) =
      level p (forest (Options.fenceBody ⟨p, b'⟩ l ms')) :=
  ((@level_fenceBody ⟨p, b⟩ l ms).trans h).trans (@level_fenceBody ⟨p, b'⟩ l ms').symm

mutual

/-- A layout is written as trees that agree, whichever way its delimiters are written. -/
theorem level_content : ∀ l : Layout, l.All (Layout.Finishes false) → l.All Layout.MarksFilled →
    level p (forest (content ⟨p, b⟩ l)) = level p (forest (content ⟨p, b'⟩ l))
  | .nothing, _, _ => rfl
  | .foreign _, _, _ => rfl
  | .faulty _, _, _ => rfl
  | .invisible, _, _ => rfl
  | .operator _, _, _ => rfl
  | .name _, _, _ => rfl
  | .identifier _, _, _ => rfl
  | .number _, _, _ => rfl
  | .text _, _, _ => rfl
  | .colorText _, _, _ => rfl
  | .sequence items, h, h' => level_contents items h.2 h'.2
  | .row items, h, h' => level_congr_row (level_contents items h.2 h'.2)
  | .group a, h, h' => level_congr_child a (level_content a h.2 h'.2)
  | .fence _ a _, h, h' =>
    level_congr_fence (h.1 rfl) h'.1 (level_congr_fenceBody a (level_content a h.2 h'.2))
  | .wrap _ a _, h, h' =>
    level_congr_fence (h.1 rfl) h'.1 (level_congr_fenceBody a (level_content a h.2 h'.2))
  | .matrix _ rows _, h, h' =>
    level_congr_fence (h.1 rfl) h'.1
      (level_congr (by decide) [] (level_rowContents rows h.2 h'.2))
  | .sqrt a, h, h' => level_congr (by decide) [] (level_congr_child a (level_content a h.2 h'.2))
  | .cancel a, h, h' => level_congr (by decide) _ (level_congr_child a (level_content a h.2 h'.2))
  | .root a b, h, h' =>
    level_congr (by decide) [] (level_congr_append
      (level_congr_child a (level_content a h.2.1 h'.2.1))
      (level_congr_child b (level_content b h.2.2 h'.2.2)))
  | .color _ a, h, h' => level_congr (by decide) _ (level_congr_child a (level_content a h.2 h'.2))
  | .fraction a b, h, h' =>
    level_congr (by decide) [] (level_congr_append
      (level_congr_child a (level_content a h.2.1 h'.2.1))
      (level_congr_child b (level_content b h.2.2 h'.2.2)))
  | .font none _, _, _ => rfl
  | .font (some _) a, h, h' =>
    level_congr (by decide) _ (level_congr_child a (level_content a h.2 h'.2))
  | .operatorCall s a, h, h' =>
    level_congr_row (@level_congr_append p [Options.leaf ⟨p, b⟩ "mo" s]
      [Options.leaf ⟨p, b'⟩ "mo" s] _ _ rfl (level_content a h.2 h'.2))
  | .functionCall s a, h, h' =>
    level_congr_row (@level_congr_append p [Options.leaf ⟨p, b⟩ "mi" s]
      [Options.leaf ⟨p, b'⟩ "mi" s] _ _ rfl (level_content a h.2 h'.2))
  | .scripts a b c, h, h' =>
    level_congr_scripted (by decide) (by decide) (by decide) b c
      (level_congr_child a (level_content a h.2.1 h'.2.1))
      (level_congr_child b (level_content b h.2.2.1 h'.2.2.1))
      (level_congr_child c (level_content c h.2.2.2 h'.2.2.2))
  | .limits a b c, h, h' =>
    level_congr_underover b c (level_congr_child a (level_content a h.2.1 h'.2.1))
      (level_congr_child b (level_content b h.2.2.1 h'.2.2.1))
      (level_congr_child c (level_content c h.2.2.2 h'.2.2.2))
  | .accent a b .below, h, h' =>
    level_congr_underover b .nothing (level_congr_child a (level_content a h.2.1 h'.2.1))
      (level_congr_child b (level_content b h.2.2 h'.2.2)) rfl
  | .accent a b .above, h, h' =>
    level_congr_underover .nothing b (level_congr_child a (level_content a h.2.1 h'.2.1)) rfl
      (level_congr_child b (level_content b h.2.2 h'.2.2))
  | .overset a b, h, h' =>
    level_congr_underover .nothing b (level_congr_child a (level_content a h.2.1 h'.2.1)) rfl
      (level_congr_child b (level_content b h.2.2 h'.2.2))
  | .underset a b, h, h' =>
    level_congr_underover b .nothing (level_congr_child a (level_content a h.2.1 h'.2.1))
      (level_congr_child b (level_content b h.2.2 h'.2.2)) rfl

theorem level_contents : ∀ ls : List Layout, Layout.AllItems (Layout.Finishes false) ls →
    Layout.AllItems Layout.MarksFilled ls →
      level p (forest (contents ⟨p, b⟩ ls)) = level p (forest (contents ⟨p, b'⟩ ls))
  | [], _, _ => rfl
  | l :: ls, h, h' =>
    level_congr_append (level_congr_child l (level_content l h.1 h'.1))
      (level_contents ls h.2 h'.2)

theorem level_rowContents : ∀ rows : List (List Layout),
    Layout.AllRows (Layout.Finishes false) rows → Layout.AllRows Layout.MarksFilled rows →
      level p (forest (rowContents ⟨p, b⟩ rows)) = level p (forest (rowContents ⟨p, b'⟩ rows))
  | [], _, _ => rfl
  | row :: rows, h, h' =>
    @level_congr_append p [_] [_] _ _ (level_congr (by decide) []
      (level_cellContents row h.1 h'.1)) (level_rowContents rows h.2 h'.2)

theorem level_cellContents : ∀ ls : List Layout, Layout.AllItems (Layout.Finishes false) ls →
    Layout.AllItems Layout.MarksFilled ls →
      level p (forest (cellContents ⟨p, b⟩ ls)) = level p (forest (cellContents ⟨p, b'⟩ ls))
  | [], _, _ => rfl
  | l :: ls, h, h' =>
    @level_congr_append p [_] [_] _ _ (level_congr (by decide) []
      (level_congr_child l (level_content l h.1 h'.1))) (level_cellContents ls h.2 h'.2)

end

end

end MathML

/-! ## Documents -/

/-- Documents with delimiters as attributes and as operators agree: their elements are the same
after each element with delimiters has become operators around its children and each row has become
its children.  The elements are those that the format makes; where names are written for names,
these are what the documents are read as. -/
theorem fenced_agrees (t : SymbolTable) (e : Expr) (p : String) (inLine : Bool)
    (attributes : KeyedList Value) (hmarks : (t.layout e).All Layout.MarksFilled)
    {fenced plain : String}
    (hfenced : ((Format.mathML ⟨p, true⟩).document inLine attributes (t.layout e)).read =
      .ok fenced)
    (hplain : ((Format.mathML ⟨p, false⟩).document inLine attributes (t.layout e)).read =
      .ok plain) :
    MathML.spliceRows p (MathML.unfence p
        (MathML.document ⟨p, true⟩ (attributeTexts attributes) (t.layout e)).nodes) =
      MathML.spliceRows p (MathML.unfence p
        (MathML.document ⟨p, false⟩ (attributeTexts attributes) (t.layout e)).nodes) ∧
    (IsName p → (∀ key ∈ attributes.keys, IsName key) →
      Node.read? fenced =
        some (MathML.document ⟨p, true⟩ (attributeTexts attributes) (t.layout e)).nodes ∧
      Node.read? plain =
        some (MathML.document ⟨p, false⟩ (attributeTexts attributes) (t.layout e)).nodes) := by
  have hwrite := Format.documentWith_of_read hplain
  -- delimiters that are written as operators are texts
  have hall : (t.layout e).All (Layout.Finishes false) :=
    MathML.all_finishes _ (Markup.sound_of_write _ (Draft.of_read hwrite).1)
  constructor
  · exact MathML.level_congr (by decide) _ (MathML.level_content (t.layout e) hall hmarks)
  · intro hpre hkeys
    constructor
    · exact Markup.read?_of_read (@MathML.named_document ⟨p, true⟩ hpre _ hkeys (t.layout e))
        (Format.documentWith_of_read hfenced)
    · exact Markup.read?_of_read (@MathML.named_document ⟨p, false⟩ hpre _ hkeys (t.layout e))
        hwrite

/-- A sequence between delimiters, with a parenthesis in it whose delimiters are missing. -/
def Expr.halfOpen : Expr :=
  .paren (.named "(") (.sequence [.identifier "x", .paren .missing (.number "2") .missing false])
    (.named "]") false

theorem fenced_agrees_half_open :
    ∃ fenced plain,
      ((Format.mathML ⟨"", true⟩).document true [] (SymbolTable.empty.layout .halfOpen)).read =
        .ok fenced ∧
      ((Format.mathML ⟨"", false⟩).document true [] (SymbolTable.empty.layout .halfOpen)).read =
        .ok plain ∧
      Node.read? fenced = some [.element "math" []
        [.element "mfenced" [("open", "("), ("close", "]")]
          [.element "mrow" [] [.element "mi" [] [.char 'x'], .element "mn" [] [.char '2']]]]] ∧
      Node.read? plain = some [.element "math" []
        [.element "mrow" [] [.element "mo" [] [.char '('], .element "mi" [] [.char 'x'],
          .element "mrow" [] [.element "mn" [] [.char '2']], .element "mo" [] [.char ']']]]] ∧
      MathML.spliceRows "" (MathML.unfence ""
          (MathML.document ⟨"", true⟩ [] (SymbolTable.empty.layout .halfOpen)).nodes) =
        MathML.spliceRows "" (MathML.unfence ""
          (MathML.document ⟨"", false⟩ [] (SymbolTable.empty.layout .halfOpen)).nodes) := by
  have hlayout : SymbolTable.empty.layout .halfOpen =
      .fence (.text "(") (.sequence [.identifier (some "x"),
        .fence .none (.number (some "2")) .none]) (.text "]") := rfl
  have hmarks : (SymbolTable.empty.layout .halfOpen).All Layout.MarksFilled := by
    simp [hlayout, Layout.All, Layout.AllItems, Layout.MarksFilled]
  have hwhole : (SymbolTable.empty.layout .halfOpen).Whole := by
    simp [hlayout, Layout.Whole, Layout.All, Layout.AllItems, Layout.Present, Mark.Plain]
  have hfenced := (Format.finished_document (.mathML ⟨"", true⟩) true hwhole).read_eq
  have hplain := (Format.finished_document (.mathML ⟨"", false⟩) true hwhole).read_eq
  obtain ⟨hlevel, hread⟩ := fenced_agrees .empty .halfOpen "" true [] hmarks hfenced hplain
  obtain ⟨hreadFenced, hreadPlain⟩ := hread (by decide) (by decide)
  exact ⟨_, _, hfenced, hplain, hreadFenced, hreadPlain, hlevel⟩

end MathMarkup
