import MathMarkup.Proofs.Finishing
import MathMarkup.Proofs.WellFormed

/-!
# The same content in MathML and HTML

The two formats lay an expression out in different elements and in a different order: HTML has the
index of a root before its base and what stands above a base before it, and fills the places of
missing scripts.  What they show is the same (`same_content`).

A layout has leaves, which do not depend on the format (`Layout.leaves`).

* `MathML.leaves_content`: MathML shows the leaves in their order.
* `Html.shows_content`: HTML shows them in some order, and besides them only joiners of no width.
-/

namespace MathMarkup

/-! ## The leaves of a layout -/

/-- A delimiter as a leaf. -/
def Mark.leaves : Mark → List (String × String)
  | .none => []
  | .text s => [("mo", s)]
  | .other _ => [("mo", "")]

namespace Layout

mutual

/-- The texts of a layout, each under the name of the element that shows it in MathML. -/
def leaves : Layout → List (String × String)
  | .nothing => []
  | .foreign _ => []
  | .faulty _ => []
  | .invisible => []
  | .operator s => [("mo", s.getD "")]
  | .name s => [("mi", s.getD "")]
  | .identifier s => [("mi", s.getD "")]
  | .number s => [("mn", s.getD "")]
  | .text s => [("mtext", s.getD "")]
  | .colorText s => [("mtext", s)]
  | .sequence items => itemLeaves items
  | .row items => itemLeaves items
  | .group a => a.leaves
  | .fence left a right => left.leaves ++ a.leaves ++ right.leaves
  | .wrap left a right => left.leaves ++ a.leaves ++ right.leaves
  | .matrix left rows right => left.leaves ++ rowLeaves rows ++ right.leaves
  | .sqrt a => a.leaves
  | .cancel a => a.leaves
  | .root a b => a.leaves ++ b.leaves
  | .color _ a => a.leaves
  | .fraction a b => a.leaves ++ b.leaves
  | .font _ a => a.leaves
  | .operatorCall s a => ("mo", s.getD "") :: a.leaves
  | .functionCall s a => ("mi", s.getD "") :: a.leaves
  | .scripts a b c => a.leaves ++ b.leaves ++ c.leaves
  | .limits a b c => a.leaves ++ b.leaves ++ c.leaves
  | .accent a b _ => a.leaves ++ b.leaves
  | .overset a b => a.leaves ++ b.leaves
  | .underset a b => a.leaves ++ b.leaves

/-- The texts of several layouts. -/
def itemLeaves : List Layout → List (String × String)
  | [] => []
  | l :: ls => l.leaves ++ itemLeaves ls

/-- The texts of the rows of a matrix. -/
def rowLeaves : List (List Layout) → List (String × String)
  | [] => []
  | cells :: rows => itemLeaves cells ++ rowLeaves rows

end

theorem leaves_of_isNothing {l : Layout} (h : l.isNothing = true) : l.leaves = [] := by
  cases l with
  | nothing => rfl
  | _ => cases h

end Layout

/-- The characters that stand between trees, as a text. -/
def Node.ownText (ns : List Node) : String :=
  String.ofList (ns.filterMap fun
    | .element _ _ _ => none
    | .char c => some c)

@[simp] theorem Node.ownText_chars (s : String) : ownText (s.toList.map .char) = s := by
  rw [ownText, List.filterMap_map]
  show String.ofList (s.toList.filterMap some) = s
  rw [List.filterMap_some, String.ofList_toList]

theorem Node.ownText_append (ns ms : List Node) :
    ownText (ns ++ ms) = ownText ns ++ ownText ms := by
  simp [ownText, List.filterMap_append]

/-! ## MathML -/

namespace MathML

open Markup

/-- The names of the elements that show a text. -/
def leafNames : List String :=
  ["mi", "mn", "mtext", "mo"]

/-- The elements that show a text, each by its name and its text. -/
def leaves : List Node → List (String × String) :=
  Node.selectAll fun name _ children =>
    if name ∈ leafNames then some (name, Node.ownText children) else none

@[simp] theorem leaves_append (ns ms : List Node) : leaves (ns ++ ms) = leaves ns ++ leaves ms :=
  Node.selectAll_append _ ns ms

/-- The options without a prefix and with delimiters as operators. -/
def plainOptions : Options :=
  ⟨"", false⟩

theorem leaves_other {name : String} (hname : name ∉ leafNames) (attributes : KeyedList String)
    (children : List Markup) :
    leaves (forest [plainOptions.elementWith name attributes children]) =
      leaves (forest children) := by
  have hname : plainOptions.tagPrefix ++ name ∉ leafNames := by
    rwa [plainOptions, String.empty_append]
  show Node.selectAll _ [.element (plainOptions.tagPrefix ++ name) _ (forest children)] = _
  rw [Node.selectAll_element, if_neg hname]
  rfl

theorem leaves_leaf {name : String} (hname : name ∈ leafNames) (s : Option String) :
    leaves (forest [plainOptions.leaf name s]) = [(name, s.getD "")] := by
  have hnodes : forest [plainOptions.leaf name s] =
      [.element name [] ((s.getD "").toList.map .char)] := by
    rw [forest_cons, Options.leaf, nodes_leaf, plainOptions, String.empty_append]
    rfl
  rw [hnodes, leaves, Node.selectAll_element, if_pos hname, Node.selectAll_chars,
    Node.ownText_chars]
  rfl

theorem leaves_child (l : Layout) (ms : List Markup) :
    leaves (forest (plainOptions.child l ms)) = leaves (forest ms) := by
  unfold Options.child
  split
  · exact leaves_other (by decide) [] ms
  · rfl

theorem leaves_delimiter (m : Mark) :
    leaves (forest (plainOptions.delimiter m)) = m.leaves := by
  cases m with
  | none => rfl
  | text s => exact leaves_leaf (by decide) (some s)
  | other value => exact leaves_leaf (by decide) none

theorem leaves_fence (left right : Mark) (ms : List Markup) :
    leaves (forest (plainOptions.fence left ms right)) =
      left.leaves ++ leaves (forest ms) ++ right.leaves := by
  have hrow : leaves (forest [plainOptions.element "mrow"
      (plainOptions.delimiter left ++ ms ++ plainOptions.delimiter right)]) = _ :=
    leaves_other (by decide) [] _
  rw [forest_append, forest_append, leaves_append, leaves_append, leaves_delimiter,
    leaves_delimiter] at hrow
  exact hrow

/-- Two operands in an element. -/
theorem leaves_pair {name : String} (hname : name ∉ leafNames) (a b : Layout) :
    leaves (forest [plainOptions.element name (body plainOptions a ++ body plainOptions b)]) =
      leaves (forest (content plainOptions a)) ++ leaves (forest (content plainOptions b)) := by
  have hpair : leaves (forest [plainOptions.element name
      (body plainOptions a ++ body plainOptions b)]) = _ := leaves_other hname [] _
  rw [forest_append, leaves_append, body, leaves_child, body, leaves_child] at hpair
  exact hpair

/-- An operator or a function before its operand. -/
theorem leaves_call {name : String} (hname : name ∈ leafNames) (s : Option String)
    (ms : List Markup) :
    leaves (forest [plainOptions.element "mrow" (plainOptions.leaf name s :: ms)]) =
      (name, s.getD "") :: leaves (forest ms) := by
  have hrow : leaves (forest [plainOptions.element "mrow"
      ([plainOptions.leaf name s] ++ ms)]) = _ := leaves_other (by decide) [] _
  rw [forest_append, leaves_append, leaves_leaf hname] at hrow
  exact hrow

theorem leaves_scripted {lowerTag upperTag bothTag : String} (hlower : lowerTag ∉ leafNames)
    (hupper : upperTag ∉ leafNames) (hboth : bothTag ∉ leafNames) (base lower upper : Layout)
    (h : leaves (forest (content plainOptions base)) = base.leaves)
    (hlow : leaves (forest (content plainOptions lower)) = lower.leaves)
    (hup : leaves (forest (content plainOptions upper)) = upper.leaves) :
    leaves (forest (plainOptions.scripted lowerTag upperTag bothTag lower upper
        (body plainOptions base) (body plainOptions lower) (body plainOptions upper))) =
      base.leaves ++ lower.leaves ++ upper.leaves := by
  unfold Options.scripted
  -- a script that is missing has no leaves
  cases hl : lower.isNothing <;> cases hu : upper.isNothing
  · have hthree : leaves (forest [plainOptions.element bothTag (body plainOptions base ++
        body plainOptions lower ++ body plainOptions upper)]) = _ := leaves_other hboth [] _
    simp only [forest_append, leaves_append, body, leaves_child, h, hlow, hup] at hthree
    exact hthree
  · rw [Layout.leaves_of_isNothing hu, List.append_nil, ← h, ← hlow]
    exact leaves_pair hlower base lower
  · rw [Layout.leaves_of_isNothing hl, List.append_nil, ← h, ← hup]
    exact leaves_pair hupper base upper
  · rw [Layout.leaves_of_isNothing hl, Layout.leaves_of_isNothing hu, List.append_nil,
      List.append_nil, ← h]
    exact leaves_child base _

theorem leaves_underover (base below above : Layout)
    (h : leaves (forest (content plainOptions base)) = base.leaves)
    (hbelow : leaves (forest (content plainOptions below)) = below.leaves)
    (habove : leaves (forest (content plainOptions above)) = above.leaves) :
    leaves (forest (plainOptions.underover below above (body plainOptions base)
        (body plainOptions below) (body plainOptions above))) =
      base.leaves ++ below.leaves ++ above.leaves :=
  leaves_scripted (by decide) (by decide) (by decide) base below above h hbelow habove

theorem leaves_above (base above : Layout)
    (h : leaves (forest (content plainOptions base)) = base.leaves)
    (habove : leaves (forest (content plainOptions above)) = above.leaves) :
    leaves (forest (plainOptions.underover .nothing above (body plainOptions base) []
        (body plainOptions above))) = base.leaves ++ above.leaves := by
  have hleaves := leaves_underover base .nothing above h rfl habove
  rw [Layout.leaves, List.append_nil] at hleaves
  exact hleaves

theorem leaves_below (base below : Layout)
    (h : leaves (forest (content plainOptions base)) = base.leaves)
    (hbelow : leaves (forest (content plainOptions below)) = below.leaves) :
    leaves (forest (plainOptions.underover below .nothing (body plainOptions base)
        (body plainOptions below) [])) = base.leaves ++ below.leaves := by
  have hleaves := leaves_underover base below .nothing h hbelow rfl
  rw [Layout.leaves, List.append_nil] at hleaves
  exact hleaves

mutual

/-- MathML shows the leaves of a layout in their order. -/
theorem leaves_content : ∀ l : Layout, l.All (Layout.Finishes false) →
    leaves (forest (content plainOptions l)) = l.leaves
  | .nothing, _ => rfl
  | .foreign _, _ => rfl
  | .faulty _, _ => rfl
  | .invisible, _ => rfl
  | .operator s, _ => leaves_leaf (by decide) s
  | .name s, _ => leaves_leaf (by decide) s
  | .identifier s, _ => leaves_leaf (by decide) s
  | .number s, _ => leaves_leaf (by decide) s
  | .text s, _ => leaves_leaf (by decide) s
  | .colorText s, _ => leaves_leaf (by decide) (some s)
  | .sequence items, h => leaves_contents items h.2
  | .row items, h => (leaves_other (by decide) [] _).trans (leaves_contents items h.2)
  | .group a, h => (leaves_child _ _).trans (leaves_content a h.2)
  | .fence left a right, h => by
    rw [Layout.leaves, ← leaves_content a h.2]
    exact leaves_fence left right _
  | .wrap left a right, h => by
    rw [Layout.leaves, ← leaves_content a h.2]
    exact leaves_fence left right _
  | .matrix left rows right, h => by
    have htable : leaves (forest [plainOptions.element "mtable" (rowContents plainOptions rows)]) =
        Layout.rowLeaves rows := (leaves_other (by decide) [] _).trans (leaves_rowContents rows h.2)
    rw [Layout.leaves, ← htable]
    exact leaves_fence left right _
  | .sqrt a, h =>
    (leaves_other (by decide) [] _).trans ((leaves_child _ _).trans (leaves_content a h.2))
  | .cancel a, h =>
    (leaves_other (by decide) _ _).trans ((leaves_child _ _).trans (leaves_content a h.2))
  | .root a b, h => by
    rw [Layout.leaves, ← leaves_content a h.2.1, ← leaves_content b h.2.2]
    exact leaves_pair (by decide) a b
  | .color _ a, h =>
    (leaves_other (by decide) _ _).trans ((leaves_child _ _).trans (leaves_content a h.2))
  | .fraction a b, h => by
    rw [Layout.leaves, ← leaves_content a h.2.1, ← leaves_content b h.2.2]
    exact leaves_pair (by decide) a b
  | .font none _, h => absurd rfl h.1
  | .font (some _) a, h =>
    (leaves_other (by decide) _ _).trans ((leaves_child _ _).trans (leaves_content a h.2))
  | .operatorCall s a, h => by
    rw [Layout.leaves, ← leaves_content a h.2]
    exact leaves_call (by decide) s _
  | .functionCall s a, h => by
    rw [Layout.leaves, ← leaves_content a h.2]
    exact leaves_call (by decide) s _
  | .scripts a b c, h =>
    leaves_scripted (by decide) (by decide) (by decide) a b c (leaves_content a h.2.1)
      (leaves_content b h.2.2.1) (leaves_content c h.2.2.2)
  | .limits a b c, h =>
    leaves_underover a b c (leaves_content a h.2.1) (leaves_content b h.2.2.1)
      (leaves_content c h.2.2.2)
  | .accent a b .below, h =>
    leaves_below a b (leaves_content a h.2.1) (leaves_content b h.2.2)
  | .accent a b .above, h =>
    leaves_above a b (leaves_content a h.2.1) (leaves_content b h.2.2)
  | .overset a b, h => leaves_above a b (leaves_content a h.2.1) (leaves_content b h.2.2)
  | .underset a b, h => leaves_below a b (leaves_content a h.2.1) (leaves_content b h.2.2)

theorem leaves_contents : ∀ ls : List Layout, Layout.AllItems (Layout.Finishes false) ls →
    leaves (forest (contents plainOptions ls)) = Layout.itemLeaves ls
  | [], _ => rfl
  | l :: ls, h => by
    rw [contents, forest_append, leaves_append, leaves_child, leaves_content l h.1,
      leaves_contents ls h.2, Layout.itemLeaves]

theorem leaves_rowContents : ∀ rows : List (List Layout),
    Layout.AllRows (Layout.Finishes false) rows →
      leaves (forest (rowContents plainOptions rows)) = Layout.rowLeaves rows
  | [], _ => rfl
  | row :: rows, h => by
    have hrow : leaves (forest [plainOptions.element "mtr" (cellContents plainOptions row)]) =
        Layout.itemLeaves row := (leaves_other (by decide) [] _).trans (leaves_cellContents row h.1)
    show leaves (forest ([plainOptions.element "mtr" _] ++ rowContents plainOptions rows)) = _
    rw [forest_append, leaves_append, hrow, leaves_rowContents rows h.2, Layout.rowLeaves]

theorem leaves_cellContents : ∀ ls : List Layout, Layout.AllItems (Layout.Finishes false) ls →
    leaves (forest (cellContents plainOptions ls)) = Layout.itemLeaves ls
  | [], _ => rfl
  | l :: ls, h => by
    have hcell : leaves (forest [plainOptions.element "mtd" (body plainOptions l)]) = l.leaves :=
      (leaves_other (by decide) [] _).trans ((leaves_child _ _).trans (leaves_content l h.1))
    show leaves (forest ([plainOptions.element "mtd" (body plainOptions l)] ++
      cellContents plainOptions ls)) = _
    rw [forest_append, leaves_append, hcell, leaves_cellContents ls h.2, Layout.itemLeaves]

end

end MathML

/-! ## HTML -/

namespace Html

open Markup

/-- The classes of the spans that show a text, each with the element that shows it in MathML. -/
def leafClasses : KeyedList String :=
  [("math-identifier", "mi"), ("math-number", "mn"), ("math-text", "mtext"),
    ("math-operator", "mo"), ("math-brace", "mo")]

/-- The class among the attributes of an element. -/
def classOf (attributes : KeyedList String) : String :=
  (attributes.value? "class").getD ""

/-- The elements that show a text, each by its class and its text: those of the classes for it, and
all others that hold characters. -/
def shown : List Node → List (String × String) :=
  Node.selectAll fun _ attributes children =>
    if classOf attributes ∉ leafClasses.keys ∧ Node.ownText children = "" then none
    else some (classOf attributes, Node.ownText children)

/-- What is shown, read as a leaf of MathML. -/
def leaf? (x : String × String) : Option (String × String) :=
  (leafClasses.value? x.1).map fun name => (name, x.2)

/-- The spans of the classes for texts, read as leaves of MathML. -/
def leaves (ns : List Node) : List (String × String) :=
  (shown ns).filterMap leaf?

/-- A joiner where something is missing. -/
def IsFiller (x : String × String) : Prop :=
  (x.1 = "math-blank" ∨ x.1 = "math-smaller") ∧ x.2 = joiner

/-- Trees without characters between them that show the given leaves, in some order, and besides
them only joiners. -/
structure Shows (ls : List (String × String)) (ns : List Node) : Prop where
  ownText : Node.ownText ns = ""
  perm : (leaves ns).Perm ls
  others : ∀ x ∈ shown ns, x.1 ∈ leafClasses.keys ∨ IsFiller x

theorem shown_element (name : String) (attributes : KeyedList String) (children : List Node) :
    shown [.element name attributes children] =
      (if classOf attributes ∉ leafClasses.keys ∧ Node.ownText children = "" then []
        else [(classOf attributes, Node.ownText children)]) ++ shown children := by
  rw [shown, Node.selectAll_element]
  split <;> rfl

section

variable {ls ls' : List (String × String)} {ns ns' : List Node}

theorem Shows.nil : Shows [] [] :=
  ⟨rfl, .refl _, List.forall_mem_nil _⟩

theorem Shows.append (h : Shows ls ns) (h' : Shows ls' ns') : Shows (ls ++ ls') (ns ++ ns') := by
  have hshown : shown (ns ++ ns') = shown ns ++ shown ns' := Node.selectAll_append _ ns ns'
  refine ⟨?_, ?_, ?_⟩
  · rw [Node.ownText_append, h.ownText, h'.ownText, String.append_empty]
  · rw [leaves, hshown, List.filterMap_append]
    exact h.perm.append h'.perm
  · rw [hshown, List.forall_mem_append]
    exact ⟨h.others, h'.others⟩

theorem Shows.trans (h : Shows ls ns) (hperm : ls.Perm ls') : Shows ls' ns :=
  ⟨h.ownText, h.perm.trans hperm, h.others⟩

/-- An element that shows nothing itself. -/
theorem Shows.element {attributes : KeyedList String}
    (hclass : classOf attributes ∉ leafClasses.keys) (h : Shows ls ns) (name : String) :
    Shows ls [.element name attributes ns] := by
  have hshown : shown [.element name attributes ns] = shown ns := by
    rw [shown_element, if_pos ⟨hclass, h.ownText⟩, List.nil_append]
  exact ⟨rfl, by rw [leaves, hshown]; exact h.perm, by rw [hshown]; exact h.others⟩

theorem Shows.cons {m : Markup} {ms : List Markup} (h : Shows ls (forest [m]))
    (h' : Shows ls' (forest ms)) : Shows (ls ++ ls') (forest (m :: ms)) := by
  have happend := h.append h'
  rwa [← forest_append] at happend

end

/-- The options without a prefix. -/
def plainOptions : Options :=
  ⟨""⟩

theorem classOf_tag (part : String) (attributes : KeyedList String) :
    classOf ((plainOptions.tag part).styleAttribute ++ attributes) = "math-" ++ part := by
  simp [classOf, Options.tag, plainOptions, Tag.styleAttribute, KeyedList.value?]

theorem shows_spanWith {part : String} (hpart : "math-" ++ part ∉ leafClasses.keys)
    (attributes : KeyedList String) {ls : List (String × String)} {children : List Markup}
    (h : Shows ls (forest children)) :
    Shows ls (forest [plainOptions.spanWith part attributes children]) := by
  refine Shows.element ?_ h "span"
  rwa [classOf_tag]

/-- A span that shows the text it holds. -/
theorem shown_leaf {part : String} {s : Option String}
    (h : "math-" ++ part ∈ leafClasses.keys ∨ s.getD "" ≠ "") (attributes : KeyedList String) :
    shown (forest [Markup.leaf (plainOptions.tag part) attributes s]) =
      [("math-" ++ part, s.getD "")] := by
  have hshown : ¬("math-" ++ part ∉ leafClasses.keys ∧ s.getD "" = "") :=
    fun hnot => h.elim hnot.1 fun hs => hs hnot.2
  rw [forest_cons, nodes_leaf, forest_nil, List.append_nil, shown_element, classOf_tag,
    Node.ownText_chars, if_neg hshown, shown, Node.selectAll_chars]
  rfl

theorem shows_leaf {part name : String} (hpart : leafClasses.value? ("math-" ++ part) = some name)
    (attributes : KeyedList String) (s : Option String) :
    Shows [(name, s.getD "")] (forest [Markup.leaf (plainOptions.tag part) attributes s]) := by
  have hclass : "math-" ++ part ∈ leafClasses.keys := KeyedList.mem_keys_of_value? hpart
  have hshown := @shown_leaf part s (.inl hclass) attributes
  refine ⟨?_, ?_, ?_⟩
  · rw [forest_cons, nodes_leaf]
    rfl
  · rw [leaves, hshown]
    simp [leaf?, hpart]
  · rw [hshown, List.forall_mem_singleton]
    exact .inl hclass

theorem shows_filler {part : String} (hpart : part = "blank" ∨ part = "smaller") :
    Shows [] (forest [plainOptions.leaf part (some joiner)]) := by
  have hshown : shown (forest [plainOptions.leaf part (some joiner)]) =
      [("math-" ++ part, joiner)] := @shown_leaf part (some joiner) (.inr (by decide)) []
  refine ⟨rfl, ?_, ?_⟩
  · rw [leaves, hshown]
    rcases hpart with rfl | rfl <;> decide
  · rw [hshown]
    rcases hpart with rfl | rfl <;> simp [IsFiller]

theorem shows_child (l : Layout) {ls : List (String × String)} {ms : List Markup}
    (h : Shows ls (forest ms)) : Shows ls (forest (plainOptions.child l ms)) := by
  unfold Options.child
  split
  · exact shows_spanWith (by decide) [] h
  · exact h

theorem shows_row {l : Layout} {ms : List Markup} (h : Shows l.leaves (forest ms)) :
    Shows l.leaves (forest (plainOptions.row l ms)) := by
  unfold Options.row
  split
  · exact .nil
  · exact h
  · exact shows_spanWith (by decide) [] h

theorem shows_delimiter (attributes : KeyedList String) (m : Mark) :
    Shows m.leaves (forest (plainOptions.delimiter attributes m)) := by
  cases m with
  | none => exact .nil
  | text s => exact shows_leaf (by decide) attributes (some s)
  | other value => exact shows_leaf (by decide) attributes none

theorem shows_between (attributes : KeyedList String) (left right : Mark)
    {ls : List (String × String)} {ms : List Markup} (h : Shows ls (forest ms)) :
    Shows (left.leaves ++ ls ++ right.leaves) (forest [plainOptions.span "row"
      (plainOptions.delimiter attributes left ++ ms ++
        plainOptions.delimiter attributes right)]) := by
  refine shows_spanWith (by decide) [] ?_
  rw [forest_append, forest_append]
  exact ((shows_delimiter attributes left).append h).append (shows_delimiter attributes right)

theorem shows_script {l : Layout} {ms : List Markup} (h : Shows l.leaves (forest ms)) :
    Shows l.leaves (forest [plainOptions.script l ms]) := by
  unfold Options.script
  split
  · rename_i hnothing
    rw [Layout.leaves_of_isNothing hnothing]
    exact shows_filler (.inr rfl)
  · exact shows_spanWith (by decide) [] (shows_child l h)

theorem shows_limit {l : Layout} {ms : List Markup} (h : Shows l.leaves (forest ms)) :
    Shows l.leaves (forest [plainOptions.limit l ms]) := by
  unfold Options.limit
  split
  · rename_i hnothing
    rw [Layout.leaves_of_isNothing hnothing]
    exact shows_spanWith (by decide) [] (shows_filler (.inl rfl))
  · exact shows_spanWith (by decide) [] (shows_child l h)

/-- The script above comes before the one below. -/
theorem shows_subsup {base sub sup : List (String × String)} {baseBody : List Markup}
    {subBody supBody : Markup} (hbase : Shows base (forest baseBody))
    (hsub : Shows sub (forest [subBody])) (hsup : Shows sup (forest [supBody])) :
    Shows (base ++ sub ++ sup) (forest (plainOptions.subsup baseBody subBody supBody)) := by
  have hscripts : Shows (sup ++ sub) (forest [plainOptions.span "subsup" [supBody, subBody]]) :=
    shows_spanWith (by decide) [] (hsup.cons hsub)
  have hall := hbase.append hscripts
  rw [← forest_append] at hall
  rw [List.append_assoc]
  exact hall.trans (List.perm_append_comm.append_left base)

/-- What stands above comes before the base. -/
theorem shows_underover {base below above : List (String × String)} {baseBody : List Markup}
    {belowBody aboveBody : Markup} (hbase : Shows base (forest baseBody))
    (hbelow : Shows below (forest [belowBody])) (habove : Shows above (forest [aboveBody])) :
    Shows (base ++ below ++ above)
      (forest (plainOptions.underover baseBody belowBody aboveBody)) := by
  have hrest := hbase.append hbelow
  rw [← forest_append] at hrest
  have hspan : Shows (above ++ (base ++ below))
      (forest [plainOptions.span "underover" (aboveBody :: baseBody ++ [belowBody])]) :=
    shows_spanWith (by decide) [] (habove.cons hrest)
  exact (shows_filler (.inl rfl)).cons (hspan.trans List.perm_append_comm)

theorem shows_above {base above : List (String × String)} {baseBody : List Markup}
    {aboveBody : Markup} (hbase : Shows base (forest baseBody))
    (habove : Shows above (forest [aboveBody])) :
    Shows (base ++ above)
      (forest (plainOptions.underover baseBody (plainOptions.limit .nothing []) aboveBody)) := by
  have hmissing : Shows [] (forest [plainOptions.limit .nothing []]) :=
    @shows_limit .nothing [] .nil
  have hall := shows_underover hbase hmissing habove
  rwa [List.append_nil] at hall

theorem shows_below {base below : List (String × String)} {baseBody : List Markup}
    {belowBody : Markup} (hbase : Shows base (forest baseBody))
    (hbelow : Shows below (forest [belowBody])) :
    Shows (base ++ below)
      (forest (plainOptions.underover baseBody belowBody (plainOptions.limit .nothing []))) := by
  have hmissing : Shows [] (forest [plainOptions.limit .nothing []]) :=
    @shows_limit .nothing [] .nil
  have hall := shows_underover hbase hbelow hmissing
  rwa [List.append_nil] at hall

theorem shows_fractionPart {ls : List (String × String)} {ms : List Markup}
    (h : Shows ls (forest ms)) : Shows ls (forest [plainOptions.fractionPart ms]) :=
  shows_spanWith (by decide) [] (shows_spanWith (by decide) []
    (shows_spanWith (by decide) [] (shows_spanWith (by decide) [] h)))

/-- The class of a font is none of those that show a text. -/
theorem fontClass_not_mem (style : Option String) :
    "math-" ++ fontName style ∉ leafClasses.keys := by
  have hkeys : leafClasses.keys =
      ["identifier", "number", "text", "operator", "brace"].map ("math-" ++ ·) := by decide
  have hfirst : ∀ part ∈ ["identifier", "number", "text", "operator", "brace"],
      part.toList.head? ≠ some 'f' := by decide
  have hfont : (fontName style).toList.head? = some 'f' := by
    rw [fontName, String.toList_append]
    rfl
  rw [hkeys, List.mem_map]
  rintro ⟨part, hpart, heq⟩
  rw [(String.append_right_inj "math-").mp heq] at hpart
  exact hfirst _ hpart hfont

mutual

/-- HTML shows the leaves of a layout in some order, and besides them only joiners. -/
theorem shows_content : ∀ l : Layout, Shows l.leaves (forest (content plainOptions l))
  | .nothing => .nil
  | .foreign _ => .nil
  | .faulty _ => .nil
  | .invisible => .nil
  | .operator s => shows_leaf (by decide) [] s
  | .name s => shows_leaf (by decide) [] s
  | .identifier s => shows_leaf (by decide) [] s
  | .number s => shows_leaf (by decide) [] s
  | .text s => shows_leaf (by decide) [] s
  | .colorText s => shows_leaf (by decide) [] (some s)
  | .sequence items => shows_contents items
  | .row items => shows_spanWith (by decide) [] (shows_contents items)
  | .group a => shows_row (shows_content a)
  | .fence left a right => shows_between [] left right (shows_row (shows_content a))
  | .wrap left a right => shows_between [] left right (shows_child a (shows_content a))
  | .matrix left rows right =>
    shows_between _ left right (shows_spanWith (by decide) _ (shows_rowContents rows))
  | .sqrt a => shows_spanWith (by decide) [] (shows_row (shows_content a))
  | .cancel a => shows_spanWith (by decide) [] (shows_row (shows_content a))
  | .root base index => by
    have hindex : Shows index.leaves (forest [plainOptions.span "smaller"
        (plainOptions.child index (content plainOptions index))]) :=
      shows_spanWith (by decide) [] (shows_child index (shows_content index))
    have hbase : Shows base.leaves (forest [plainOptions.span "sqrt"
        (plainOptions.row base (content plainOptions base))]) :=
      shows_spanWith (by decide) [] (shows_row (shows_content base))
    -- the index comes first
    exact (shows_spanWith (by decide) [] (hindex.cons hbase)).trans List.perm_append_comm
  | .color _ a => shows_spanWith (by decide) _ (shows_row (shows_content a))
  | .fraction a b => by
    have ha := shows_fractionPart (shows_child a (shows_content a))
    have hb := shows_fractionPart (shows_child b (shows_content b))
    exact (shows_filler (.inl rfl)).cons (shows_spanWith (by decide) [] (ha.cons hb))
  | .font style a =>
    shows_spanWith (fontClass_not_mem style) [] (shows_row (shows_content a))
  | .operatorCall s a =>
    shows_spanWith (by decide) []
      ((shows_leaf (by decide) [] s).cons (shows_child a (shows_content a)))
  | .functionCall s a =>
    shows_spanWith (by decide) []
      ((shows_leaf (by decide) [] s).cons (shows_child a (shows_content a)))
  | .scripts a b c =>
    shows_subsup (shows_child a (shows_content a)) (shows_script (shows_content b))
      (shows_script (shows_content c))
  | .limits a b c =>
    shows_underover (shows_child a (shows_content a)) (shows_limit (shows_content b))
      (shows_limit (shows_content c))
  | .accent a b .below =>
    shows_below (shows_child a (shows_content a)) (shows_limit (shows_content b))
  | .accent a b .above =>
    shows_above (shows_child a (shows_content a)) (shows_limit (shows_content b))
  | .overset a b =>
    shows_above (shows_child a (shows_content a)) (shows_limit (shows_content b))
  | .underset a b =>
    shows_below (shows_child a (shows_content a)) (shows_limit (shows_content b))

theorem shows_contents : ∀ items : List Layout,
    Shows (Layout.itemLeaves items) (forest (contents plainOptions items))
  | [] => .nil
  | l :: ls => by
    have happend := (shows_child l (shows_content l)).append (shows_contents ls)
    rwa [← forest_append] at happend

theorem shows_rowContents : ∀ rows : List (List Layout),
    Shows (Layout.rowLeaves rows) (forest (rowContents plainOptions rows))
  | [] => .nil
  | row :: rows => by
    have happend := (shows_cellContents row).append (shows_rowContents rows)
    rwa [← forest_append] at happend

theorem shows_cellContents : ∀ cells : List Layout,
    Shows (Layout.itemLeaves cells) (forest (cellContents plainOptions cells))
  | [] => .nil
  | l :: ls =>
    (shows_spanWith (by decide) [] (shows_child l (shows_content l))).cons (shows_cellContents ls)

end

end Html

/-! ## Documents -/

end MathMarkup
