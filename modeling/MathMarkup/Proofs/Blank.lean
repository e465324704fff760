import MathMarkup.Proofs.ElementTrees
import MathMarkup.Proofs.Finishing

/-!
# Blank expressions

An operand is written as a child of its element.  If it wrote two elements, or none, the others
would move to other places, and in MathML places have a meaning.

An expression that is written as a child is at most one element, and it is nothing if and only if
it is blank (`MathML.written_body`).  `SymbolTable.isBlank` says which expressions these are: those
that are missing or invisible, and those that add nothing to a blank one.
-/

namespace MathMarkup

/-! ## Which expressions are blank -/

namespace SymbolTable

/-- Whether an operator is shown by delimiters around its operand, and these are both invisible. -/
def wrapsBare (t : SymbolTable) (operator : Operator) : Bool :=
  match t.resolveOperator operator with
  | none => false
  | some d =>
    d.kind == .display .wrap && t.markOfValue (d.extra.value? "lparen") == .none &&
      t.markOfValue (d.extra.value? "rparen") == .none

/-- Whether an operator sets its first operand above or below the second. -/
def isStacking (t : SymbolTable) (operator : Operator) : Bool :=
  match (t.resolveOperator operator).map Descriptor.kind with
  | some (.display .above) => true
  | some (.display .below) => true
  | _ => false

/-- Whether an expression writes nothing as the child of an element. -/
def isBlank (t : SymbolTable) (fenced : Bool) : Expr → Bool
  | .empty => true
  | .symbol s => s.id.isNone
  | .group _ body _ => t.isBlank fenced body
  | .scripts base sub sup => sub.isEmpty && sup.isEmpty && t.isBlank fenced base
  | .binary operator first second =>
    t.isStacking operator && first.isEmpty && t.isBlank fenced second
  | .paren left body right _ =>
    fenced && t.mark left == .none && t.mark right == .none && t.isBlank fenced body
  | .unary operator operand => fenced && t.wrapsBare operator && t.isBlank fenced operand
  | _ => false

end SymbolTable

/-! ## One element or nothing -/

/-- Nothing, if this is said of a blank expression, and else one element. -/
def Written : Bool → List Node → Prop
  | true, ns => ns = []
  | false, ns => ∃ name attributes children, ns = [.element name attributes children]

theorem Written.eq_nil_iff {blank : Bool} {ns : List Node} (h : Written blank ns) :
    ns = [] ↔ blank = true := by
  cases blank with
  | true => exact ⟨fun _ => rfl, fun _ => h⟩
  | false =>
    obtain ⟨name, attributes, children, rfl⟩ := h
    simp

theorem Written.length_eq {blank : Bool} {ns : List Node} (h : Written blank ns) :
    ns.length = if blank then 0 else 1 := by
  cases blank with
  | true => rw [show ns = [] from h]; rfl
  | false =>
    obtain ⟨name, attributes, children, rfl⟩ := h
    rfl

namespace MathML

open Markup

/-- An expression that can be written to its end. -/
def Finishable (t : SymbolTable) (o : Options) (e : Expr) : Prop :=
  (t.layout e).All (Layout.Finishes o.fenced)

section

variable {o : Options}

theorem written_leaf (name : String) (s : Option String) :
    Written false (forest [o.leaf name s]) := by
  cases s with
  | none => exact ⟨_, _, _, rfl⟩
  | some s => exact ⟨_, _, _, rfl⟩

theorem written_element (name : String) (attributes : KeyedList String) (children : List Markup) :
    Written false (forest [o.elementWith name attributes children]) :=
  ⟨_, _, _, rfl⟩

/-- A body between delimiters is written as one element, unless they are invisible and would be
attributes. -/
theorem written_fence (left right : Mark) {blank : Bool} {body : List Markup}
    (h : o.fenced = true → Written blank (forest body)) :
    Written (o.fenced && left == .none && right == .none && blank)
      (forest (o.fence left body right)) := by
  unfold Options.fence
  split
  · rename_i hfenced
    split
    · rename_i hnone
      simpa [hfenced, hnone.1, hnone.2] using h hfenced
    · rename_i hnone
      have hvisible : (left == .none && right == .none) = false := by
        simpa using hnone
      rw [hfenced, Bool.true_and, hvisible, Bool.false_and]
      exact written_element _ _ _
  · rename_i hfenced
    rw [Bool.eq_false_iff.mpr hfenced, Bool.false_and, Bool.false_and, Bool.false_and]
    exact written_element _ _ _

/-- A base with scripts is written as one element, and without any as itself. -/
theorem written_scripted (lowerTag upperTag bothTag : String) (lower upper : Layout) {blank : Bool}
    {base : List Markup} (lowerBody upperBody : List Markup) (h : Written blank (forest base)) :
    Written (lower.isNothing && upper.isNothing && blank)
      (forest (o.scripted lowerTag upperTag bothTag lower upper base lowerBody upperBody)) := by
  unfold Options.scripted
  cases lower.isNothing <;> cases upper.isNothing
  · exact written_element _ _ _
  · exact written_element _ _ _
  · exact written_element _ _ _
  · exact h

end

section

variable {t : SymbolTable}

theorem isNothing_of_isGlyph {l : Layout} (h : l.IsGlyph) : l.isNothing = false := by
  cases l with
  | nothing => exact h.elim
  | _ => rfl

/-- Only a missing expression is laid out as nothing. -/
theorem isNothing_layout (e : Expr) : (t.layout e).isNothing = e.isEmpty := by
  cases e with
  | symbol s => exact isNothing_of_isGlyph (SymbolTable.isGlyph_glyph s)
  | scripts base sub sup =>
    unfold SymbolTable.layout
    split <;> rfl
  | unary operator operand =>
    show (t.unaryLayout operator operand (t.layout operand)).isNothing = false
    unfold SymbolTable.unaryLayout
    split
    · rfl
    · split
      · rfl
      · simp only [SymbolTable.wrapLayout]
        split <;> rfl
      all_goals rfl
  | binary operator first second =>
    show (t.binaryLayout operator first (t.layout first) (t.layout second)).isNothing = false
    unfold SymbolTable.binaryLayout
    split <;> rfl
  | infixed operator first second =>
    show (t.infixedLayout operator (t.layout first) (t.layout second)).isNothing = false
    unfold SymbolTable.infixedLayout
    split <;> rfl
  | _ => rfl

theorem written_glyph {o : Options} (s : Symbol) :
    Written s.id.isNone (forest (body o (t.glyph s))) := by
  unfold SymbolTable.glyph
  split
  · rename_i d hd
    obtain ⟨key, hkey, -⟩ := Option.bind_eq_some_iff.mp hd
    rw [hkey]
    split
    · exact written_leaf _ _
    · exact written_leaf _ _
  · split
    · rename_i hid
      rw [hid]
      rfl
    · rename_i hid
      rw [hid]
      exact written_leaf _ _

theorem wrapsBare_of_kind {operator : Operator} {d : Descriptor}
    (hd : t.resolveOperator operator = some d) (hkind : d.kind ≠ .display .wrap) :
    t.wrapsBare operator = false := by
  simp [SymbolTable.wrapsBare, hd, hkind]

theorem wrapsBare_of_wrap {operator : Operator} {d : Descriptor}
    (hd : t.resolveOperator operator = some d) (hkind : d.kind = .display .wrap) :
    t.wrapsBare operator = (t.markOfValue (d.extra.value? "lparen") == .none &&
      t.markOfValue (d.extra.value? "rparen") == .none) := by
  simp [SymbolTable.wrapsBare, hd, hkind]

theorem written_unary {o : Options} (operator : Operator) {operand : Expr}
    (h : Finishable t o (.unary operator operand))
    (hoperand : Finishable t o operand →
      Written (t.isBlank o.fenced operand) (forest (body o (t.layout operand)))) :
    Written (t.isBlank o.fenced (.unary operator operand))
      (forest (body o (t.layout (.unary operator operand)))) := by
  rw [SymbolTable.isBlank]
  rw [Finishable, SymbolTable.layout] at h
  rw [SymbolTable.layout]
  generalize hl : t.unaryLayout operator operand (t.layout operand) = l at h ⊢
  unfold SymbolTable.unaryLayout at hl
  split at hl
  · rename_i hnone
    have hbare : t.wrapsBare operator = false := by simp [SymbolTable.wrapsBare, hnone]
    rw [hbare, Bool.and_false, Bool.false_and, ← hl]
    exact written_element _ _ _
  · rename_i d hd
    -- only an operator that is shown by delimiters can write nothing
    by_cases hwrap : d.kind = .display .wrap
    · rw [wrapsBare_of_wrap hd hwrap]
      simp only [hwrap, SymbolTable.wrapLayout] at hl
      split at hl
      · rw [← hl] at h
        exact h.elim
      · rw [← hl] at h ⊢
        rw [← Bool.and_assoc]
        refine written_fence _ _ fun hfenced => ?_
        rw [Options.fenceBody, if_pos hfenced]
        exact hoperand h.2
    · rw [wrapsBare_of_kind hd hwrap, Bool.and_false, Bool.false_and]
      split at hl
      · rw [← hl]
        exact written_element _ _ _
      · rename_i hkind
        exact absurd hkind hwrap
      · rw [← hl] at h ⊢
        have hglyph : (t.operatorGlyph operator).isNothing = false :=
          isNothing_of_isGlyph (SymbolTable.isGlyph_operatorGlyph operator)
        cases d.position with
        | above =>
          have hwritten := written_scripted (o := o) "munder" "mover" "munderover" .nothing
            (t.operatorGlyph operator) [] (body o (t.operatorGlyph operator)) (hoperand h.2.1)
          rwa [hglyph, Bool.and_false, Bool.false_and] at hwritten
        | below =>
          have hwritten := written_scripted (o := o) "munder" "mover" "munderover"
            (t.operatorGlyph operator) .nothing (body o (t.operatorGlyph operator)) []
            (hoperand h.2.1)
          rwa [hglyph, Bool.false_and, Bool.false_and] at hwritten
      · rw [← hl] at h ⊢
        cases hvalue : d.value with
        | none => exact absurd hvalue h.1
        | some style => exact written_element _ _ _
      · rw [← hl]
        exact written_element _ _ _
      · rw [← hl]
        exact written_element _ _ _
      · rw [← hl]
        exact written_element _ _ _

theorem written_binary {o : Options} (operator : Operator) {first second : Expr}
    (h : Finishable t o (.binary operator first second))
    (hsecond : Finishable t o second →
      Written (t.isBlank o.fenced second) (forest (body o (t.layout second)))) :
    Written (t.isBlank o.fenced (.binary operator first second))
      (forest (body o (t.layout (.binary operator first second)))) := by
  rw [SymbolTable.isBlank, SymbolTable.isStacking]
  rw [Finishable, SymbolTable.layout] at h
  rw [SymbolTable.layout]
  generalize hl : t.binaryLayout operator first (t.layout first) (t.layout second) = l at h ⊢
  have hfirst := isNothing_layout (t := t) first
  unfold SymbolTable.binaryLayout at hl
  split at hl
  · rename_i hkind
    rw [hkind, ← hfirst]
    rw [← hl] at h ⊢
    exact written_scripted _ _ _ .nothing _ _ _ (hsecond h.2.1)
  · rename_i hkind
    rw [hkind, ← hfirst]
    rw [← hl] at h ⊢
    show Written (true && (t.layout _).isNothing && _) _
    rw [Bool.true_and, ← Bool.and_true (t.layout _).isNothing]
    exact written_scripted _ _ _ _ .nothing _ _ (hsecond h.2.1)
  · rename_i hkind
    rw [hkind, ← hl]
    exact written_element _ _ _
  · rename_i hkind
    rw [hkind, ← hl]
    exact written_element _ _ _
  · rename_i hkind
    rw [hkind, ← hl]
    exact written_element _ _ _
  · rename_i habove hbelow _ _ _
    -- every other operator has a row with its sign in it
    split
    · rename_i hkind
      exact (habove hkind).elim
    · rename_i hkind
      exact (hbelow hkind).elim
    · rw [← hl]
      exact written_element _ _ _

/-- An expression that is written as a child is one element, or nothing if it is blank. -/
theorem written_body {o : Options} : ∀ e : Expr, Finishable t o e →
    Written (t.isBlank o.fenced e) (forest (body o (t.layout e)))
  | .empty, _ => rfl
  | .symbol s, _ => written_glyph s
  | .identifier _, _ => written_leaf _ _
  | .number _, _ => written_leaf _ _
  | .text _, _ => written_leaf _ _
  | .color _ _, _ => written_leaf _ _
  | .sequence _, _ => written_element _ _ _
  | .paren left e right _, h => by
    refine written_fence (t.mark left) (t.mark right) fun hfenced => ?_
    rw [Options.fenceBody, if_pos hfenced]
    exact written_body e h.2
  | .group _ e _, h => written_body e h.2
  | .scripts base sub sup, h => by
    rw [SymbolTable.isBlank, ← isNothing_layout (t := t) sub, ← isNothing_layout (t := t) sup]
    rw [Finishable, SymbolTable.layout] at h
    rw [SymbolTable.layout]
    split at h
    · rename_i hlimits
      rw [if_pos hlimits]
      exact written_scripted _ _ _ _ _ _ _ (written_body base h.2.1)
    · rename_i hlimits
      rw [if_neg hlimits]
      exact written_scripted _ _ _ _ _ _ _ (written_body base h.2.1)
  | .unary operator operand, h => written_unary operator h (written_body operand)
  | .binary operator _ second, h => written_binary operator h (written_body second)
  | .infixed operator first second, _ => by
    rw [SymbolTable.layout, SymbolTable.infixedLayout]
    split
    · exact written_element _ _ _
    · exact written_element _ _ _
  | .matrix left rows right, _ => by
    have hwritten := written_fence (o := o) (t.mark left) (t.mark right)
      (fun _ => written_element (o := o) "mtable" [] (rowContents o (t.rowLayouts rows)))
    rwa [Bool.and_false] at hwritten
  | .foreign _, h => h.elim

end

end MathML

end MathMarkup
