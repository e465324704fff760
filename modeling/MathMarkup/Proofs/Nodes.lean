import MathMarkup.Proofs.Shape

/-!
# What the rules give to all nodes

A node of an expression that was read was made by one rule, from tokens and from what was read
before; a group was made from a parenthesis, and so was a matrix.  So a property that is asked of
all nodes of an expression holds of what is read if each way of making a node gives it
(`Grammar.Gives`).  The rules that put nodes together are gone through once, in
`Grammar.Derives.allNodes`.

* `Grammar.Derives.allNodes`: all nodes of what is read have a property that the rules give.
* `all_of_parse`: all nodes of the expression of a source.
-/

namespace MathMarkup

namespace Grammar

open MathMarkup.Expr

/-- The rules give a property to every node that they make, if the tokens have another.  There is
one case for each way of making a node; a case of which the property asks nothing can be left
out. -/
structure Gives (s : Setting) (T : Token → Prop) (P : Expr → Prop) : Prop where
  leaf {t : Token} (ht : T t) (hleaf : t.isLeaf = true) : P (leaf t)
  stray {t : Token} (ht : T t) (hclosing : t.isClosing = true) : P (.symbol t.toSymbol) := by
    intros; trivial
  color (written : String) : P (.color (s.colors.ofText written) written) := by
    intros; trivial
  unary {t : Token} (ht : T t) (hkind : t.kind = .role .unary) (operand : Expr) :
    P (.unary (.symbol t.toSymbol) operand) := by intros; trivial
  binary {t : Token} (ht : T t) (hkind : t.kind = .role .binary) (first second : Expr) :
    P (.binary (.symbol t.toSymbol) first second) := by intros; trivial
  infixed {t : Token} (hfrac : t.isInfixed "frac" = true) (first second : Expr) :
    P (.infixed (.symbol t.toSymbol) first second) := by intros; trivial
  scripts (base sub sup : Expr) : P (.scripts base sub sup) := by intros; trivial
  sequence (items : List Expr) : P (.sequence items) := by intros; trivial
  closed {t d : Token} (ht : T t) (hopens : t.opens = true) (hd : T d) (hcloses : d.closes = true)
    (body : Expr) : P (.paren (.symbol t.toSymbol) body (.symbol d.toSymbol) false) := by
    intros; trivial
  unclosed {t : Token} (ht : T t) (hopens : t.opens = true) (body : Expr) :
    P (.paren (.symbol t.toSymbol) body .missing false) := by intros; trivial
  group {left right : Delimiter} {body : Expr} (h : P (.paren left body right false)) :
    P (.group left body right) := by intros; trivial
  /-- A matrix is made of a parenthesis whose items are shaped. -/
  matrix {left right : Delimiter} {items : List Expr} {rows : List (List Expr)}
    (h : P (.paren left (.sequence items) right false)) (hitems : ∀ e ∈ items, ItemShaped e)
    (hrows : matrixRows? items = some rows) : P (.matrix left rows right) := by intros; trivial

/-- All nodes of what is read have a property. -/
def Judgment.AllNodes (P : Expr → Prop) : Judgment → Prop
  | .simple _ _ e _ => e.All P
  | .intermediate _ _ e _ => e.All P
  | .run _ _ items _ => ∀ e ∈ items, e.All P

section

variable {s : Setting} {T : Token → Prop} {P : Expr → Prop}

theorem Gives.all_leaf (hP : Gives s T P) {t : Token} (ht : T t) (hleaf : t.isLeaf = true) :
    (Grammar.leaf t).All P := by
  have hself := hP.leaf ht hleaf
  revert hself
  unfold Grammar.leaf
  split <;> exact all_single rfl

theorem Gives.all_unwrap (hP : Gives s T P) {e : Expr} (he : e.All P) : e.unwrap.All P := by
  unfold unwrap
  split
  · obtain ⟨hself, hbody⟩ := all_paren.mp he
    exact all_group.mpr ⟨hP.group hself, hbody⟩
  · exact he

theorem Gives.all_convert (hP : Gives s T P) {c : Conversion} {e e' : Expr}
    (h : s.convert c e.unwrap = .ok e') (he : e.All P) : e'.All P := by
  cases c with
  | keep =>
    cases h
    exact hP.all_unwrap he
  | color =>
    cases h
    exact all_single rfl (hP.color _)
  | unknown v => exact nomatch h

/-- A parenthesis around what was read stays what it is, or becomes a matrix. -/
theorem Gives.all_inferMatrix (hP : Gives s T P) {left right : Delimiter} {items : List Expr}
    (hself : ∀ body, P (.paren left body right false)) (hitems : ∀ e ∈ items, ItemShaped e)
    (h : ∀ e ∈ items, e.All P) :
    (Expr.paren left (.ofItems items) right false).inferMatrix.All P := by
  have hbody := (all_ofItems hP.sequence items).mpr h
  rcases inferMatrix_paren left right (.ofItems items) false with
    hsame | ⟨es, rows, hseq, hrows, hmatrix⟩
  · rw [hsame]
    exact all_paren.mpr ⟨hself _, hbody⟩
  · obtain ⟨hshaped, hadmits⟩ := wellShaped_ofItems hitems
    rw [hseq] at hbody hshaped hadmits
    have hes : ∀ e ∈ es, ItemShaped e := fun e he => itemShaped_of_mem_items hshaped hadmits he
    rw [hmatrix]
    exact all_matrix.mpr ⟨hP.matrix (hself _) hes hrows,
      all_of_matrixRows? hP.sequence hrows (all_sequence.mp hbody).2⟩

/-- All nodes of what is read have a property that the rules give. -/
theorem Derives.allNodes {j : Judgment} (h : Derives s j) (hP : Gives s T P)
    (hT : ∀ t ∈ j.tokens, T t) : j.AllNodes P := by
  induction h with
  | atEnd => exact all_empty
  | atClosing => exact all_empty
  | @stray t ts ht => exact all_single rfl (hP.stray (hT t List.mem_cons_self) ht)
  | @leaf nested t ts ht => exact hP.all_leaf (hT t List.mem_cons_self) ht
  | @unary nested t ts e operand rest ht he hc ih =>
    refine all_unary.mpr ⟨hP.unary (hT t List.mem_cons_self) ht operand, hP.all_convert hc ?_⟩
    exact ih (forall_mem_of_suffix hT (List.suffix_cons t ts))
  | @binary nested t ts e f first second mid rest ht he hf hc hd ihe ihf =>
    have hT' := forall_mem_of_suffix hT (List.suffix_cons t ts)
    refine all_binary.mpr ⟨hP.binary (hT t List.mem_cons_self) ht first second, ?_, ?_⟩
    · exact hP.all_convert hc (ihe hT')
    · exact hP.all_convert hd (ihf (forall_mem_of_suffix hT' he.leavesSuffix))
  | @void nested t c ts ht hc =>
    have hd := hT c (List.mem_cons_of_mem _ List.mem_cons_self)
    exact all_paren.mpr ⟨hP.closed (hT t List.mem_cons_self) ht hd hc _, all_empty⟩
  | @paren nested t ts items d rest ht _ hr hd ih =>
    have hT' := forall_mem_of_suffix hT (List.suffix_cons t ts)
    have hright := hT' d (hr.leavesSuffix.subset List.mem_cons_self)
    exact hP.all_inferMatrix (hP.closed (hT t List.mem_cons_self) ht hright hd) hr.wellShaped
      (ih hT')
  | @unclosed nested t ts items ht _ _ ih =>
    refine all_paren.mpr ⟨hP.unclosed (hT t List.mem_cons_self) ht _, ?_⟩
    exact (all_ofItems hP.sequence items).mpr
      (ih (forall_mem_of_suffix hT (List.suffix_cons t ts)))
  | bare _ _ _ ih => exact ih hT
  | dangling _ _ _ ihe _ => exact ihe hT
  | sub he _ _ _ _ ihe ihf =>
    have hf := ihf (forall_mem_of_suffix hT (tail_suffix he.leavesSuffix))
    exact all_scripts.mpr ⟨hP.scripts _ _ _, ⟨ihe hT, hP.all_unwrap hf⟩, all_empty⟩
  | subSup he _ hf _ _ _ ihe ihf ihg =>
    have hT' := forall_mem_of_suffix hT (tail_suffix he.leavesSuffix)
    have hg := ihg (forall_mem_of_suffix hT' (tail_suffix hf.leavesSuffix))
    refine all_scripts.mpr ⟨hP.scripts _ _ _, ⟨ihe hT, ?_⟩, hP.all_unwrap hg⟩
    exact hP.all_unwrap (ihf hT')
  | sup he _ _ _ ihe ihf =>
    have hf := ihf (forall_mem_of_suffix hT (tail_suffix he.leavesSuffix))
    exact all_scripts.mpr ⟨hP.scripts _ _ _, ⟨ihe hT, all_empty⟩, hP.all_unwrap hf⟩
  | done => exact nofun
  | last _ _ _ ih => exact List.forall_mem_singleton.mpr (ih hT)
  | frac he _ ht hf _ _ ihe ihf ihr =>
    have hT' := forall_mem_of_suffix hT (tail_suffix he.leavesSuffix)
    refine List.forall_mem_cons.mpr ⟨all_infixed.mpr ⟨hP.infixed ht _ _, ?_, ?_⟩, ?_⟩
    · exact hP.all_unwrap (ihe hT)
    · exact hP.all_unwrap (ihf hT')
    · exact ihr (forall_mem_of_suffix hT' hf.leavesSuffix)
  | noFrac he _ _ hf _ ihe _ ihr =>
    have hT' := forall_mem_of_suffix hT (tail_suffix he.leavesSuffix)
    exact List.forall_mem_cons.mpr ⟨ihe hT, ihr (forall_mem_of_suffix hT' hf.leavesSuffix)⟩
  | more he _ _ _ _ ihe ihr =>
    exact List.forall_mem_cons.mpr ⟨ihe hT, ihr (forall_mem_of_suffix hT he.leavesSuffix)⟩

end

end Grammar

/-- All nodes of the expression of a source have a property that the rules give to what is read from
its tokens. -/
theorem all_of_parse {symbols : SymbolTable} {colors : ColorTable} {source : String} {e : Expr}
    (h : Expr.parse symbols colors source = .ok e) {T : Token → Prop} {P : Expr → Prop}
    (hP : Grammar.Gives ⟨colors, (symbols.read source).error⟩ T P)
    (hT : ∀ t ∈ (symbols.read source).tokens, T t) : e.All P := by
  obtain ⟨items, rfl, hd⟩ := derives_of_parse h
  exact (Expr.all_ofItems hP.sequence items).mpr (hd.allNodes hP hT)

end MathMarkup
