import Mathlib.Data.List.Forall2
import MathMarkup.Proofs.Blank
import MathMarkup.Proofs.WellFormed

/-!
# The number of children in MathML

Fractions, roots and bases with scripts are elements with a fixed number of children.  The
constructs of an expression that become such elements are listed by `SymbolTable.constructsOf`, each
with its operands, in the order of the elements.  `arity_law` says that the elements have as many
children as their constructs have operands, unless an operand is blank.

* `MathML.fixed_content`: the elements in question are the constructs, and the number of children
  of each is that of its operands which are not blank.
-/

namespace MathMarkup

/-! ## Constructs with a fixed number of operands -/

/-- The elements with a fixed number of children. -/
def MathML.arities : KeyedList Nat :=
  [("mfrac", 2), ("mroot", 2), ("msub", 2), ("msup", 2), ("munder", 2), ("mover", 2),
    ("msubsup", 3), ("munderover", 3)]

/-- A construct that becomes an element with a fixed number of children. -/
inductive Construct where
  | frac (numerator denominator : Expr)
  | root (base index : Expr)
  | sub (base sub : Expr)
  | sup (base sup : Expr)
  | subsup (base sub sup : Expr)
  | under (base below : Expr)
  | over (base above : Expr)
  | underover (base below above : Expr)

namespace Construct

/-- The name of the element. -/
def name : Construct → String
  | .frac _ _ => "mfrac"
  | .root _ _ => "mroot"
  | .sub _ _ => "msub"
  | .sup _ _ => "msup"
  | .subsup _ _ _ => "msubsup"
  | .under _ _ => "munder"
  | .over _ _ => "mover"
  | .underover _ _ _ => "munderover"

/-- The operands in the order of the children. -/
def operands : Construct → List Expr
  | .frac a b | .root a b | .sub a b | .sup a b | .under a b | .over a b => [a, b]
  | .subsup a b c | .underover a b c => [a, b, c]

/-- Every construct has as many operands as its element has children. -/
theorem arity (c : Construct) : MathML.arities.value? c.name = some c.operands.length := by
  cases c <;> rfl

/-- A base with what stands below and above it.  Without either there is no construct. -/
def scripted (lower upper : Expr → Expr → Construct) (both : Expr → Expr → Expr → Construct)
    (base below above : Expr) : List Construct :=
  match below.isEmpty, above.isEmpty with
  | false, false => [both base below above]
  | false, true => [lower base below]
  | true, false => [upper base above]
  | true, true => []

/-- Scripts after a base. -/
def ofScripts : Expr → Expr → Expr → List Construct :=
  scripted .sub .sup .subsup

/-- Scripts below and above a base. -/
def ofLimits : Expr → Expr → Expr → List Construct :=
  scripted .under .over .underover

/-- An accent on a base. -/
def ofAccent (base mark : Expr) : Position → List Construct
  | .below => ofLimits base mark .empty
  | .above => ofLimits base .empty mark

end Construct

namespace SymbolTable

/-- The construct that an operator makes with one operand, which can be an accent. -/
def unaryConstruct (t : SymbolTable) (operator : Operator) (operand : Expr) : List Construct :=
  match t.resolveOperator operator with
  | none => []
  | some d =>
    if d.kind = .display .accent then Construct.ofAccent operand operator.toExpr d.position else []

mutual

/-- The constructs of an expression, from the outside to the inside. -/
def constructsOf (t : SymbolTable) : Expr → List Construct
  | .sequence items => t.itemConstructs items
  | .paren _ body _ _ => t.constructsOf body
  | .group _ body _ => t.constructsOf body
  | .scripts base sub sup =>
    (if (t.resolveExpr base).any Descriptor.hasLimits then Construct.ofLimits base sub sup
      else Construct.ofScripts base sub sup) ++
      (t.constructsOf base ++ (t.constructsOf sub ++ t.constructsOf sup))
  | .unary operator operand => t.unaryConstruct operator operand ++ t.constructsOf operand
  | .binary operator first second =>
    match (t.resolveOperator operator).map Descriptor.kind with
    | some (.display .above) =>
      Construct.ofLimits second .empty first ++ (t.constructsOf second ++ t.constructsOf first)
    | some (.display .below) =>
      Construct.ofLimits second first .empty ++ (t.constructsOf second ++ t.constructsOf first)
    | some (.display .root) =>
      .root second first :: (t.constructsOf second ++ t.constructsOf first)
    | some (.display .frac) =>
      .frac first second :: (t.constructsOf first ++ t.constructsOf second)
    | _ => t.constructsOf first ++ t.constructsOf second
  | .infixed operator first second =>
    match (t.resolveOperator operator).map Descriptor.kind with
    | some (.display .frac) =>
      .frac first second :: (t.constructsOf first ++ t.constructsOf second)
    | _ => t.constructsOf first ++ t.constructsOf second
  | .matrix _ rows _ => t.rowConstructs rows
  | _ => []

/-- The constructs of several expressions. -/
def itemConstructs (t : SymbolTable) : List Expr → List Construct
  | [] => []
  | e :: es => t.constructsOf e ++ t.itemConstructs es

/-- The constructs of the rows of a matrix. -/
def rowConstructs (t : SymbolTable) : List (List Expr) → List Construct
  | [] => []
  | row :: rows => t.itemConstructs row ++ t.rowConstructs rows

end

end SymbolTable

namespace MathML

open Markup

/-! ## The elements with a fixed number of children -/

/-- The elements with a fixed number of children, each by its name and the number it has. -/
def fixed (tagPrefix : String) : List Node → List (String × Nat) :=
  Node.selectAll fun name _ children =>
    if name ∈ arities.keys.map (tagPrefix ++ ·) then some (name, children.length) else none

/-- Those elements in the markup of a layout. -/
def fixedIn (o : Options) (l : Layout) : List (String × Nat) :=
  fixed o.tagPrefix (forest (content o l))

section

variable {o : Options} {t : SymbolTable}

@[simp] theorem fixed_append (ns ms : List Node) :
    fixed o.tagPrefix (ns ++ ms) = fixed o.tagPrefix ns ++ fixed o.tagPrefix ms :=
  Node.selectAll_append _ ns ms

theorem fixed_elementWith (name : String) (attributes : KeyedList String)
    (children : List Markup) :
    fixed o.tagPrefix (forest [o.elementWith name attributes children]) =
      (if name ∈ arities.keys then [(o.tagPrefix ++ name, (forest children).length)] else []) ++
        fixed o.tagPrefix (forest children) := by
  have hmem : o.tagPrefix ++ name ∈ arities.keys.map (o.tagPrefix ++ ·) ↔ name ∈ arities.keys :=
    List.mem_map_of_injective fun a b => (String.append_right_inj o.tagPrefix).mp
  show Node.selectAll _ [.element (o.tagPrefix ++ name) _ (forest children)] = _
  rw [Node.selectAll_element]
  simp only [hmem]
  split <;> rfl

/-- An element that may have any number of children. -/
theorem fixed_other {name : String} (hname : name ∉ arities.keys) (attributes : KeyedList String)
    (children : List Markup) :
    fixed o.tagPrefix (forest [o.elementWith name attributes children]) =
      fixed o.tagPrefix (forest children) := by
  rw [fixed_elementWith, if_neg hname, List.nil_append]

theorem fixed_leaf {name : String} (hname : name ∉ arities.keys) (s : Option String) :
    fixed o.tagPrefix (forest [o.leaf name s]) = [] := by
  cases s with
  | none => exact fixed_other hname [] [.fault .missingText]
  | some s =>
    have hleaf := fixed_other (o := o) hname [] [.text s]
    have htext : forest [.text s] = s.toList.map .char := List.append_nil _
    rw [htext] at hleaf
    exact hleaf.trans (Node.selectAll_chars _ s.toList)

theorem fixed_child (l : Layout) (ms : List Markup) :
    fixed o.tagPrefix (forest (o.child l ms)) = fixed o.tagPrefix (forest ms) := by
  unfold Options.child
  split
  · exact fixed_other (by decide) [] ms
  · rfl

theorem fixed_body (l : Layout) : fixed o.tagPrefix (forest (body o l)) = fixedIn o l :=
  fixed_child l (content o l)

theorem fixed_fenceBody (l : Layout) (ms : List Markup) :
    fixed o.tagPrefix (forest (o.fenceBody l ms)) = fixed o.tagPrefix (forest ms) := by
  unfold Options.fenceBody
  split
  · exact fixed_child l ms
  · rfl

theorem fixed_delimiter (m : Mark) : fixed o.tagPrefix (forest (o.delimiter m)) = [] := by
  cases m with
  | none => rfl
  | text s => exact fixed_leaf (by decide) (some s)
  | other value => exact fixed_other (by decide) [] [.fault (.notText value)]

theorem fixed_fence (left right : Mark) (ms : List Markup) :
    fixed o.tagPrefix (forest (o.fence left ms right)) = fixed o.tagPrefix (forest ms) := by
  unfold Options.fence
  split
  · split
    · rfl
    · exact fixed_other (by decide) _ ms
  · have hname : "mrow" ∉ arities.keys := by decide
    have hrow := fixed_other (o := o) hname [] (o.delimiter left ++ ms ++ o.delimiter right)
    rw [forest_append, forest_append, fixed_append, fixed_append, fixed_delimiter,
      fixed_delimiter, List.nil_append, List.append_nil] at hrow
    exact hrow

/-! ### Constructs -/

/-- The element of a construct, by its name and the number of its operands that are not blank. -/
def entry (t : SymbolTable) (o : Options) (c : Construct) : String × Nat :=
  (o.tagPrefix ++ c.name, c.operands.countP fun e => !t.isBlank o.fenced e)

/-- Operands as the children of an element. -/
def operandBodies (t : SymbolTable) (o : Options) (es : List Expr) : List Markup :=
  es.flatMap fun e => body o (t.layout e)

theorem length_operandBodies {es : List Expr}
    (h : ∀ e ∈ es, Finishable t o e) :
    (forest (operandBodies t o es)).length = es.countP fun e => !t.isBlank o.fenced e := by
  induction es with
  | nil => rfl
  | cons e es ih =>
    rw [List.forall_mem_cons] at h
    have hwritten := (written_body e h.1).length_eq
    rw [operandBodies, List.flatMap_cons, forest_append, List.length_append, hwritten,
      List.countP_cons, ← ih h.2, Nat.add_comm, operandBodies]
    cases t.isBlank o.fenced e <;> rfl

theorem fixed_operandBodies (es : List Expr) :
    fixed o.tagPrefix (forest (operandBodies t o es)) =
      es.flatMap fun e => fixedIn o (t.layout e) := by
  induction es with
  | nil => rfl
  | cons e es ih =>
    rw [operandBodies, List.flatMap_cons, forest_append, fixed_append, List.flatMap_cons, ← ih]
    rw [fixed_body, operandBodies]

/-- The element of a construct and those in its operands. -/
theorem fixed_construct (c : Construct)
    (h : ∀ e ∈ c.operands, Finishable t o e) :
    fixed o.tagPrefix (forest [o.element c.name (operandBodies t o c.operands)]) =
      entry t o c :: c.operands.flatMap fun e => fixedIn o (t.layout e) := by
  have hname : c.name ∈ arities.keys := by
    cases c <;> simp [Construct.name, arities, KeyedList.keys]
  have helement := fixed_elementWith (o := o) c.name [] (operandBodies t o c.operands)
  rw [if_pos hname, length_operandBodies h, fixed_operandBodies] at helement
  exact helement

theorem fixed_pair (c : Construct) {a b : Expr} (hc : c.operands = [a, b])
    (ha : Finishable t o a) (hb : Finishable t o b) :
    fixed o.tagPrefix
        (forest [o.element c.name (body o (t.layout a) ++ body o (t.layout b))]) =
      entry t o c :: (fixedIn o (t.layout a) ++ fixedIn o (t.layout b)) := by
  have hfixed := fixed_construct (o := o) (t := t) c
  rw [hc] at hfixed
  simpa [operandBodies] using hfixed (by simp [ha, hb])

theorem fixed_of_isEmpty {e : Expr} (h : e.isEmpty = true) : fixedIn o (t.layout e) = [] := by
  cases e with
  | empty => rfl
  | _ => cases h

/-- A base with what stands below and above it.  The tags are the names of the constructs. -/
theorem fixed_scripted {lower upper : Expr → Expr → Construct}
    {both : Expr → Expr → Expr → Construct} {lowerTag upperTag bothTag : String}
    (hlower : ∀ a b, (lower a b).name = lowerTag ∧ (lower a b).operands = [a, b])
    (hupper : ∀ a b, (upper a b).name = upperTag ∧ (upper a b).operands = [a, b])
    (hboth : ∀ a b c, (both a b c).name = bothTag ∧ (both a b c).operands = [a, b, c])
    {base below above : Expr} (hbase : Finishable t o base) (hbelow : Finishable t o below)
    (habove : Finishable t o above) :
    fixed o.tagPrefix (forest (o.scripted lowerTag upperTag bothTag (t.layout below)
        (t.layout above) (body o (t.layout base)) (body o (t.layout below))
        (body o (t.layout above)))) =
      (Construct.scripted lower upper both base below above).map (entry t o) ++
        (fixedIn o (t.layout base) ++
          (fixedIn o (t.layout below) ++ fixedIn o (t.layout above))) := by
  unfold Options.scripted Construct.scripted
  -- the writer and the list of constructs ask for the same scripts
  rw [isNothing_layout, isNothing_layout]
  cases hlow : below.isEmpty <;> cases hup : above.isEmpty
  · have hfixed := fixed_construct (o := o) (t := t) (both base below above)
    rw [(hboth _ _ _).1, (hboth _ _ _).2] at hfixed
    simpa [operandBodies] using hfixed (by simp [hbase, hbelow, habove])
  · have hfixed := fixed_pair (lower base below) (hlower _ _).2 hbase hbelow
    rw [(hlower _ _).1] at hfixed
    simpa [fixed_of_isEmpty hup] using hfixed
  · have hfixed := fixed_pair (upper base above) (hupper _ _).2 hbase habove
    rw [(hupper _ _).1] at hfixed
    simpa [fixed_of_isEmpty hlow] using hfixed
  · simp [fixed_of_isEmpty hlow, fixed_of_isEmpty hup, fixed_body]

theorem fixed_argument (e : Expr) :
    fixedIn o (t.argument e (t.layout e)) = fixedIn o (t.layout e) := by
  generalize t.layout e = l
  unfold SymbolTable.argument
  split
  · split
    · rename_i body _
      show fixed o.tagPrefix (forest (o.fence _ _ _)) = fixed o.tagPrefix (forest (o.child _ _))
      rw [fixed_fence, fixed_fenceBody, fixed_child]
    · rfl
  · rfl

/-- The parts of a row finish, those that are missing included. -/
theorem all_of_presentRow {parts : List Layout}
    (h : (SymbolTable.presentRow parts).All (Layout.Finishes o.fenced)) :
    ∀ l ∈ parts, l.All (Layout.Finishes o.fenced) := by
  intro l hl
  cases hnothing : l.isNothing with
  | false => exact Layout.allItems_iff.mp h.2 l (List.mem_filter.mpr ⟨hl, by simp [hnothing]⟩)
  | true =>
    cases l with
    | nothing => trivial
    | _ => cases hnothing

/-- Items side by side, but for those that are missing. -/
theorem fixed_present (parts : List Layout) :
    fixed o.tagPrefix (forest (contents o (parts.filter fun part => !part.isNothing))) =
      parts.flatMap fun l => fixedIn o l := by
  induction parts with
  | nil => rfl
  | cons l parts ih =>
    rw [List.flatMap_cons, List.filter_cons, ← ih]
    split
    · rw [contents, forest_append, fixed_append, ← body, fixed_body]
    · rename_i hnothing
      cases l with
      | nothing => rfl
      | _ => exact absurd rfl hnothing

theorem fixed_presentRow (parts : List Layout) :
    fixedIn o (SymbolTable.presentRow parts) =
      parts.flatMap fun l => fixedIn o l :=
  (fixed_other (by decide) [] _).trans (fixed_present parts)

/-- An operator or a function before its operand. -/
theorem fixed_call {name : String} (hname : name ∉ arities.keys) (s : Option String)
    (ms : List Markup) :
    fixed o.tagPrefix (forest [o.element "mrow" (o.leaf name s :: ms)]) =
      fixed o.tagPrefix (forest ms) := by
  have hrow := fixed_other (o := o) (show "mrow" ∉ arities.keys by decide) []
    ([o.leaf name s] ++ ms)
  rw [forest_append, fixed_append, fixed_leaf hname, List.nil_append] at hrow
  exact hrow

theorem fixed_of_isGlyph {l : Layout} (h : l.IsGlyph) : fixedIn o l = [] := by
  cases l with
  | operator s => exact fixed_leaf (by decide) s
  | name s => exact fixed_leaf (by decide) s
  | identifier s => exact fixed_leaf (by decide) s
  | invisible => rfl
  | _ => exact h.elim

theorem fixed_operatorGlyph (operator : Operator) : fixedIn o (t.operatorGlyph operator) = [] :=
  fixed_of_isGlyph (SymbolTable.isGlyph_operatorGlyph operator)

theorem layout_toExpr (operator : Operator) :
    t.layout operator.toExpr = t.operatorGlyph operator := by
  cases operator <;> rfl

/-- An argument finishes only if it does without its delimiters. -/
theorem all_of_argument {e : Expr} {laid : Layout}
    (h : (t.argument e laid).All (Layout.Finishes o.fenced)) :
    laid.All (Layout.Finishes o.fenced) := by
  unfold SymbolTable.argument at h
  split at h
  · split at h
    · exact ⟨trivial, h.2⟩
    · exact h
  · exact h

theorem fixed_limits {base below above : Expr}
    (hbase : Finishable t o base) (hbelow : Finishable t o below) (habove : Finishable t o above) :
    fixed o.tagPrefix (forest (o.underover (t.layout below) (t.layout above)
        (body o (t.layout base)) (body o (t.layout below)) (body o (t.layout above)))) =
      (Construct.ofLimits base below above).map (entry t o) ++
        (fixedIn o (t.layout base) ++
          (fixedIn o (t.layout below) ++ fixedIn o (t.layout above))) := by
  refine fixed_scripted ?_ ?_ ?_ hbase hbelow habove
  · exact fun _ _ => ⟨rfl, rfl⟩
  · exact fun _ _ => ⟨rfl, rfl⟩
  · exact fun _ _ _ => ⟨rfl, rfl⟩

theorem fixed_above {base above : Expr} (hbase : Finishable t o base)
    (habove : Finishable t o above) :
    fixed o.tagPrefix (forest (o.underover .nothing (t.layout above) (body o (t.layout base)) []
        (body o (t.layout above)))) =
      (Construct.ofLimits base .empty above).map (entry t o) ++
        (fixedIn o (t.layout base) ++ fixedIn o (t.layout above)) := by
  have hempty : Finishable t o .empty := trivial
  exact fixed_limits hbase hempty habove

theorem fixed_below {base below : Expr} (hbase : Finishable t o base)
    (hbelow : Finishable t o below) :
    fixed o.tagPrefix (forest (o.underover (t.layout below) .nothing (body o (t.layout base))
        (body o (t.layout below)) [])) =
      (Construct.ofLimits base below .empty).map (entry t o) ++
        (fixedIn o (t.layout base) ++ fixedIn o (t.layout below)) := by
  have hempty : Finishable t o .empty := trivial
  have hfixed := fixed_limits hbase hbelow hempty
  rw [fixed_of_isEmpty (e := .empty) rfl, List.append_nil] at hfixed
  exact hfixed

/-- The sign of an accent has nothing in it. -/
theorem fixed_accent {base : Expr} (hbase : Finishable t o base)
    (operator : Operator) (position : Position) :
    fixedIn o (.accent (t.layout base) (t.operatorGlyph operator) position) =
      (Construct.ofAccent base operator.toExpr position).map (entry t o) ++
        fixedIn o (t.layout base) := by
  have hmark : Finishable t o operator.toExpr := by
    rw [Finishable, layout_toExpr]
    have hglyph := SymbolTable.isGlyph_operatorGlyph (t := t) operator
    exact hglyph.all hglyph.finishes
  rw [← List.append_nil (fixedIn o (t.layout base)), ← fixed_operatorGlyph operator,
    ← layout_toExpr]
  cases position with
  | above => exact fixed_above hbase hmark
  | below => exact fixed_below hbase hmark

theorem fixed_unary (operator : Operator) {operand : Expr}
    (h : Finishable t o (.unary operator operand))
    (hoperand : Finishable t o operand →
      fixedIn o (t.layout operand) = (t.constructsOf operand).map (entry t o)) :
    fixedIn o (t.layout (.unary operator operand)) =
      (t.constructsOf (.unary operator operand)).map (entry t o) := by
  rw [Finishable, SymbolTable.layout] at h
  rw [SymbolTable.layout]
  generalize hl : t.unaryLayout operator operand (t.layout operand) = l at h ⊢
  unfold SymbolTable.unaryLayout at hl
  split at hl
  · rename_i hnone
    rw [← hl] at h ⊢
    rw [SymbolTable.constructsOf, List.map_append, SymbolTable.unaryConstruct, hnone,
      ← hoperand (all_of_argument h.2), ← fixed_argument]
    exact fixed_call (by decide) _ _
  · rename_i d hd
    rw [SymbolTable.constructsOf, List.map_append, SymbolTable.unaryConstruct, hd]
    by_cases haccent : d.kind = .display .accent
    · simp only [haccent] at hl
      rw [← hl] at h ⊢
      rw [← hoperand h.2.1]
      simp only [if_pos haccent]
      exact fixed_accent h.2.1 operator d.position
    · simp only [if_neg haccent, List.map_nil, List.nil_append]
      split at hl
      · rw [← hl] at h ⊢
        rw [← hoperand (all_of_argument h.2), ← fixed_argument]
        exact fixed_call (by decide) _ _
      · simp only [SymbolTable.wrapLayout] at hl
        split at hl
        · rw [← hl] at h
          exact h.elim
        · rw [← hl] at h ⊢
          rw [← hoperand h.2]
          exact (fixed_fence _ _ _).trans (fixed_fenceBody _ _)
      · rename_i hkind
        exact absurd hkind haccent
      · rw [← hl] at h ⊢
        rw [← hoperand h.2]
        cases hvalue : d.value with
        | none => exact absurd hvalue h.1
        | some style => exact (fixed_other (by decide) _ _).trans (fixed_child _ _)
      · rw [← hl] at h ⊢
        rw [← hoperand h.2]
        exact (fixed_other (by decide) _ _).trans (fixed_child _ _)
      · rw [← hl] at h ⊢
        rw [← hoperand h.2]
        exact (fixed_other (by decide) _ _).trans (fixed_child _ _)
      · rw [← hl] at h ⊢
        rw [← hoperand (all_of_argument h.2), ← fixed_argument]
        exact fixed_call (by decide) _ _

/-- An operator and its operands in a row. -/
theorem fixed_operatorRow (operator : Operator) (first second : Layout) :
    fixedIn o (SymbolTable.presentRow [t.operatorGlyph operator, first, second]) =
      fixedIn o first ++ fixedIn o second := by
  simp [fixed_presentRow, fixed_operatorGlyph]

theorem fixed_binary (operator : Operator) {first second : Expr}
    (h : Finishable t o (.binary operator first second))
    (hfirst : Finishable t o first →
      fixedIn o (t.layout first) = (t.constructsOf first).map (entry t o))
    (hsecond : Finishable t o second →
      fixedIn o (t.layout second) = (t.constructsOf second).map (entry t o)) :
    fixedIn o (t.layout (.binary operator first second)) =
      (t.constructsOf (.binary operator first second)).map (entry t o) := by
  rw [Finishable, SymbolTable.layout] at h
  rw [SymbolTable.layout]
  -- the row of an operator that makes no construct
  have hrow := fixed_operatorRow (o := o) (t := t) operator (t.layout first) (t.layout second)
  generalize hl : t.binaryLayout operator first (t.layout first) (t.layout second) = l at h ⊢
  unfold SymbolTable.binaryLayout at hl
  split at hl
  · rename_i hkind
    rw [← hl] at h ⊢
    rw [SymbolTable.constructsOf, hkind]
    simp only [List.map_append]
    rw [← hfirst h.2.2, ← hsecond h.2.1]
    exact fixed_above h.2.1 h.2.2
  · rename_i hkind
    rw [← hl] at h ⊢
    rw [SymbolTable.constructsOf, hkind]
    simp only [List.map_append]
    rw [← hfirst h.2.2, ← hsecond h.2.1]
    exact fixed_below h.2.1 h.2.2
  · rename_i hkind
    rw [← hl] at h ⊢
    rw [SymbolTable.constructsOf, hkind]
    simp only [List.map_cons, List.map_append]
    rw [← hfirst h.2.2, ← hsecond h.2.1]
    exact fixed_pair (.root _ _) rfl h.2.1 h.2.2
  · rename_i hkind
    rw [← hl] at h ⊢
    rw [SymbolTable.constructsOf, hkind]
    simp only [List.map_cons, List.map_append]
    rw [← hfirst h.2.1, ← hsecond h.2.2]
    exact fixed_pair (.frac _ _) rfl h.2.1 h.2.2
  · rename_i hkind
    rw [← hl] at h ⊢
    rw [SymbolTable.constructsOf, hkind]
    simp only [List.map_append]
    rw [← hsecond h.2]
    exact (fixed_other (by decide) _ _).trans (fixed_child _ _)
  · rename_i habove hbelow hroot hfrac _
    rw [← hl] at h ⊢
    have hparts := all_of_presentRow h
    rw [hfirst (hparts _ (by simp)), hsecond (hparts _ (by simp)), ← List.map_append] at hrow
    rw [SymbolTable.constructsOf]
    split
    · exact (habove ‹_›).elim
    · exact (hbelow ‹_›).elim
    · exact (hroot ‹_›).elim
    · exact (hfrac ‹_›).elim
    · exact hrow

theorem fixed_infixed (operator : Operator) {first second : Expr}
    (h : Finishable t o (.infixed operator first second))
    (hfirst : Finishable t o first →
      fixedIn o (t.layout first) = (t.constructsOf first).map (entry t o))
    (hsecond : Finishable t o second →
      fixedIn o (t.layout second) = (t.constructsOf second).map (entry t o)) :
    fixedIn o (t.layout (.infixed operator first second)) =
      (t.constructsOf (.infixed operator first second)).map (entry t o) := by
  rw [Finishable, SymbolTable.layout] at h
  rw [SymbolTable.layout]
  generalize hl : t.infixedLayout operator (t.layout first) (t.layout second) = l at h ⊢
  unfold SymbolTable.infixedLayout at hl
  split at hl
  · rename_i hkind
    rw [← hl] at h ⊢
    rw [SymbolTable.constructsOf, hkind]
    simp only [List.map_cons, List.map_append]
    rw [← hfirst h.2.1, ← hsecond h.2.2]
    exact fixed_pair (.frac _ _) rfl h.2.1 h.2.2
  · rename_i hfrac
    rw [← hl] at h ⊢
    have hparts := all_of_presentRow h
    have hrow : fixedIn o (SymbolTable.presentRow
        [t.layout first, t.operatorGlyph operator, t.layout second]) =
        (t.constructsOf first ++ t.constructsOf second).map (entry t o) := by
      rw [List.map_append, ← hfirst (hparts _ (by simp)), ← hsecond (hparts _ (by simp))]
      simp [fixed_presentRow, fixed_operatorGlyph]
    rw [SymbolTable.constructsOf]
    split
    · exact (hfrac ‹_›).elim
    · exact hrow

/-! ### Expressions -/

mutual

/-- The elements with a fixed number of children are the constructs of an expression, in their
order, and the number of children of each is that of its operands which are not blank. -/
theorem fixed_content : ∀ e : Expr, Finishable t o e →
    fixedIn o (t.layout e) = (t.constructsOf e).map (entry t o)
  | .empty, _ => rfl
  | .symbol s, _ => fixed_of_isGlyph (SymbolTable.isGlyph_glyph s)
  | .identifier _, _ => fixed_leaf (by decide) _
  | .number _, _ => fixed_leaf (by decide) _
  | .text _, _ => fixed_leaf (by decide) _
  | .color _ _, _ => fixed_leaf (by decide) _
  | .sequence items, h => fixed_contents items h.2
  | .paren _ e _ _, h =>
    (fixed_fence _ _ _).trans ((fixed_fenceBody _ _).trans (fixed_content e h.2))
  | .group _ e _, h => (fixed_child _ _).trans (fixed_content e h.2)
  | .scripts base sub sup, h => by
    rw [SymbolTable.constructsOf]
    rw [Finishable, SymbolTable.layout] at h
    rw [SymbolTable.layout]
    split at h
    · rename_i hlimits
      rw [if_pos hlimits, if_pos hlimits]
      simp only [List.map_append]
      rw [← fixed_content base h.2.1, ← fixed_content sub h.2.2.1, ← fixed_content sup h.2.2.2]
      exact fixed_limits h.2.1 h.2.2.1 h.2.2.2
    · rename_i hlimits
      rw [if_neg hlimits, if_neg hlimits]
      simp only [List.map_append]
      rw [← fixed_content base h.2.1, ← fixed_content sub h.2.2.1, ← fixed_content sup h.2.2.2]
      refine fixed_scripted ?_ ?_ ?_ h.2.1 h.2.2.1 h.2.2.2
      · exact fun _ _ => ⟨rfl, rfl⟩
      · exact fun _ _ => ⟨rfl, rfl⟩
      · exact fun _ _ _ => ⟨rfl, rfl⟩
  | .unary operator operand, h => fixed_unary operator h (fixed_content operand)
  | .binary operator first second, h =>
    fixed_binary operator h (fixed_content first) (fixed_content second)
  | .infixed operator first second, h =>
    fixed_infixed operator h (fixed_content first) (fixed_content second)
  | .matrix _ rows _, h => by
    have hrows := fixed_rowContents rows h.2
    exact (fixed_fence _ _ _).trans ((fixed_other (by decide) _ _).trans hrows)
  | .foreign _, h => h.elim

theorem fixed_contents : ∀ es : List Expr,
    Layout.AllItems (Layout.Finishes o.fenced) (t.layouts es) →
      fixed o.tagPrefix (forest (contents o (t.layouts es))) =
        (t.itemConstructs es).map (entry t o)
  | [], _ => rfl
  | e :: es, h => by
    rw [SymbolTable.layouts, contents, forest_append, fixed_append, ← body, fixed_body,
      fixed_content e h.1, fixed_contents es h.2, SymbolTable.itemConstructs, List.map_append]

theorem fixed_rowContents : ∀ rows : List (List Expr),
    Layout.AllRows (Layout.Finishes o.fenced) (t.rowLayouts rows) →
      fixed o.tagPrefix (forest (rowContents o (t.rowLayouts rows))) =
        (t.rowConstructs rows).map (entry t o)
  | [], _ => rfl
  | row :: rows, h => by
    have hrow : fixed o.tagPrefix (forest [o.element "mtr" (cellContents o (t.layouts row))]) =
        fixed o.tagPrefix (forest (cellContents o (t.layouts row))) :=
      fixed_other (by decide) [] _
    show fixed _ (forest ([o.element "mtr" _] ++ rowContents o (t.rowLayouts rows))) = _
    rw [forest_append, fixed_append, hrow, fixed_cellContents row h.1, fixed_rowContents rows h.2,
      SymbolTable.rowConstructs, List.map_append]

theorem fixed_cellContents : ∀ es : List Expr,
    Layout.AllItems (Layout.Finishes o.fenced) (t.layouts es) →
      fixed o.tagPrefix (forest (cellContents o (t.layouts es))) =
        (t.itemConstructs es).map (entry t o)
  | [], _ => rfl
  | e :: es, h => by
    have hcell : fixed o.tagPrefix (forest [o.element "mtd" (body o (t.layout e))]) =
        fixedIn o (t.layout e) :=
      (fixed_other (by decide) [] _).trans (fixed_child _ _)
    show fixed _ (forest ([o.element "mtd" (body o (t.layout e))] ++
      cellContents o (t.layouts es))) = _
    rw [forest_append, fixed_append, hcell, fixed_content e h.1, fixed_cellContents es h.2,
      SymbolTable.itemConstructs, List.map_append]

end

end

end MathML

/-! ## The law -/

/-- A fragment that is written without a row of its own is one element, or nothing if and only if
the expression is blank.  Its elements with a fixed number of children are the constructs of the
expression one by one, and each has that number if and only if no operand of its is blank. -/
theorem arity_law (t : SymbolTable) (e : Expr) (o : MathML.Options) {s : String}
    (h : ((Format.mathML o).fragment .avoid (t.layout e)).read = .ok s) :
    (IsName o.tagPrefix →
      Node.read? s = some (Markup.forest (MathML.body o (t.layout e)))) ∧
    Written (t.isBlank o.fenced e) (Markup.forest (MathML.body o (t.layout e))) ∧
    (s = "" ↔ t.isBlank o.fenced e = true) ∧
    List.Forall₂
      (fun element c => element.1 = o.tagPrefix ++ c.name ∧
        MathML.arities.value? c.name = some c.operands.length ∧
        (element.2 = c.operands.length ↔
          ∀ operand ∈ c.operands, t.isBlank o.fenced operand = false))
      (MathML.fixed o.tagPrefix (Markup.forest (MathML.body o (t.layout e))))
      (t.constructsOf e) := by
  have h : (Markup.writeAll (MathML.body o (t.layout e))).read = .ok s := h
  have hsound := Markup.allSound_of_writeAll _ (Draft.of_read h).1
  have hall : MathML.Finishable t o e :=
    MathML.all_finishes _ ((MathML.allSound_child o).mp hsound)
  refine ⟨fun hpre => ?_, MathML.written_body e hall, ?_, ?_⟩
  · exact Markup.read?_of_readAll
      (MathML.allNamed_child hpre (MathML.allNamed_content hpre (t.layout e))) h
  · rw [← (Draft.of_read h).2, Markup.text_writeAll_eq_empty_iff hsound]
    exact (MathML.written_body e hall).eq_nil_iff
  · rw [MathML.fixed_body, MathML.fixed_content e hall, List.forall₂_map_left_iff,
      List.forall₂_same]
    intro c _
    refine ⟨rfl, c.arity, ?_⟩
    simp [MathML.entry, List.countP_eq_length]

/-- A table with a fraction. -/
def SymbolTable.oneFraction : SymbolTable :=
  .ofRegistrations [⟨["frac"], some "/", .display .frac, []⟩]

/-- A fraction whose numerator is between delimiters that are missing, with nothing in it. -/
def Expr.blankFraction : Expr :=
  .infixed (.symbol ⟨some "frac", "/"⟩) (.paren .missing .empty .missing false) (.number "2")

/-- The numerator is blank where delimiters are attributes, so that the fraction has one child. -/
theorem arity_law_blank_numerator :
    ∃ s, ((Format.mathML ⟨"", true⟩).fragment .avoid
        (SymbolTable.oneFraction.layout .blankFraction)).read = .ok s ∧
      Node.read? s = some [.element "mfrac" [] [.element "mn" [] [.char '2']]] ∧
      ((1 : Nat) = 2 ↔ ∀ operand ∈ [Expr.paren .missing .empty .missing false, .number "2"],
        SymbolTable.oneFraction.isBlank true operand = false) := by
  have hwhole : (SymbolTable.oneFraction.layout .blankFraction).Whole := by
    show (Layout.fraction (.fence .none .nothing .none) (.number (some "2"))).Whole
    simp [Layout.Whole, Layout.All, Layout.Present, Mark.Plain]
  have hsound : Markup.AllSound
      (MathML.body ⟨"", true⟩ (SymbolTable.oneFraction.layout .blankFraction)) :=
    (MathML.allSound_child _).mpr (MathML.allSound_content _ _ hwhole)
  have hread := (Markup.finished_writeAll _ hsound).read_eq
  obtain ⟨hnodes, -, -, hfixed⟩ := arity_law .oneFraction .blankFraction ⟨"", true⟩ hread
  refine ⟨_, hread, hnodes (by decide), ?_⟩
  have hconstructs : SymbolTable.oneFraction.constructsOf .blankFraction =
      [.frac (.paren .missing .empty .missing false) (.number "2")] := rfl
  rw [hconstructs] at hfixed
  cases hfixed with
  | cons hfraction _ => exact hfraction.2.2

end MathMarkup
