import MathMarkup.Proofs.Matrix

/-!
# The parts of an expression

`Expr.All` says a property of all nodes of an expression.  There is one lemma for each way of
putting an expression together: nodes with their parts, runs, and the cells of a matrix.

A property that is `Expr.Loose` does not see how a run, a row or an operand is held together.  It
holds of an expression before it was put together exactly if it does afterwards.
-/

namespace MathMarkup

namespace Expr

mutual

/-- All nodes of an expression.  The missing expression is none. -/
def nodes : Expr → List Expr
  | .empty => []
  | .sequence items => .sequence items :: itemNodes items
  | .paren left body right keep => .paren left body right keep :: body.nodes
  | .group left body right => .group left body right :: body.nodes
  | .scripts base sub sup => .scripts base sub sup :: (base.nodes ++ sub.nodes ++ sup.nodes)
  | .unary operator operand => .unary operator operand :: operand.nodes
  | .binary operator first second =>
    .binary operator first second :: (first.nodes ++ second.nodes)
  | .infixed operator first second =>
    .infixed operator first second :: (first.nodes ++ second.nodes)
  | .matrix left rows right => .matrix left rows right :: rowNodes rows
  | e => [e]

/-- All nodes of several expressions. -/
def itemNodes : List Expr → List Expr
  | [] => []
  | e :: es => e.nodes ++ itemNodes es

/-- All nodes of the cells of a matrix. -/
def rowNodes : List (List Expr) → List Expr
  | [] => []
  | row :: rows => itemNodes row ++ rowNodes rows

end

theorem mem_itemNodes {n : Expr} {es : List Expr} : n ∈ itemNodes es ↔ ∃ e ∈ es, n ∈ e.nodes := by
  induction es with
  | nil => simp [itemNodes]
  | cons e es ih =>
    show n ∈ e.nodes ++ itemNodes es ↔ _
    simp only [List.mem_append, ih, List.mem_cons, exists_eq_or_imp]

theorem mem_rowNodes {n : Expr} {rows : List (List Expr)} :
    n ∈ rowNodes rows ↔ ∃ row ∈ rows, ∃ e ∈ row, n ∈ e.nodes := by
  induction rows with
  | nil => simp [rowNodes]
  | cons row rows ih =>
    show n ∈ itemNodes row ++ rowNodes rows ↔ _
    simp only [List.mem_append, ih, mem_itemNodes, List.mem_cons, exists_eq_or_imp]

/-! ## A property of the parts and of the whole -/

/-- Every node of an expression has a property. -/
def All (P : Expr → Prop) (e : Expr) : Prop :=
  ∀ n ∈ e.nodes, P n

section

variable {P : Expr → Prop}

theorem all_empty : All P .empty :=
  fun _ h => nomatch h

theorem all_single {e : Expr} (hnodes : e.nodes = [e]) (h : P e) : All P e := by
  intro n hn
  rw [hnodes, List.mem_singleton] at hn
  exact hn ▸ h

theorem all_sequence {items : List Expr} :
    All P (.sequence items) ↔ P (.sequence items) ∧ ∀ e ∈ items, All P e := by
  show (∀ n ∈ .sequence items :: itemNodes items, P n) ↔ _
  rw [List.forall_mem_cons]
  refine and_congr_right fun _ => ⟨fun h e he n hn => ?_, fun h n hn => ?_⟩
  · exact h n (mem_itemNodes.mpr ⟨e, he, hn⟩)
  · obtain ⟨e, he, hn⟩ := mem_itemNodes.mp hn
    exact h e he n hn

theorem all_paren {left right : Delimiter} {body : Expr} {keep : Bool} :
    All P (.paren left body right keep) ↔ P (.paren left body right keep) ∧ All P body := by
  show (∀ n ∈ .paren left body right keep :: body.nodes, P n) ↔ _
  rw [List.forall_mem_cons]
  rfl

theorem all_group {left right : Delimiter} {body : Expr} :
    All P (.group left body right) ↔ P (.group left body right) ∧ All P body := by
  show (∀ n ∈ .group left body right :: body.nodes, P n) ↔ _
  rw [List.forall_mem_cons]
  rfl

theorem all_scripts {base sub sup : Expr} :
    All P (.scripts base sub sup) ↔
      P (.scripts base sub sup) ∧ (All P base ∧ All P sub) ∧ All P sup := by
  show (∀ n ∈ .scripts base sub sup :: (base.nodes ++ sub.nodes ++ sup.nodes), P n) ↔ _
  rw [List.forall_mem_cons, List.forall_mem_append, List.forall_mem_append]
  rfl

theorem all_unary {operator : Operator} {operand : Expr} :
    All P (.unary operator operand) ↔ P (.unary operator operand) ∧ All P operand := by
  show (∀ n ∈ .unary operator operand :: operand.nodes, P n) ↔ _
  rw [List.forall_mem_cons]
  rfl

theorem all_binary {operator : Operator} {first second : Expr} :
    All P (.binary operator first second) ↔
      P (.binary operator first second) ∧ All P first ∧ All P second := by
  show (∀ n ∈ .binary operator first second :: (first.nodes ++ second.nodes), P n) ↔ _
  rw [List.forall_mem_cons, List.forall_mem_append]
  rfl

theorem all_infixed {operator : Operator} {first second : Expr} :
    All P (.infixed operator first second) ↔
      P (.infixed operator first second) ∧ All P first ∧ All P second := by
  show (∀ n ∈ .infixed operator first second :: (first.nodes ++ second.nodes), P n) ↔ _
  rw [List.forall_mem_cons, List.forall_mem_append]
  rfl

theorem all_matrix {left right : Delimiter} {rows : List (List Expr)} :
    All P (.matrix left rows right) ↔
      P (.matrix left rows right) ∧ ∀ row ∈ rows, ∀ e ∈ row, All P e := by
  show (∀ n ∈ .matrix left rows right :: rowNodes rows, P n) ↔ _
  rw [List.forall_mem_cons]
  refine and_congr_right fun _ => ⟨fun h row hrow e he n hn => ?_, fun h n hn => ?_⟩
  · exact h n (mem_rowNodes.mpr ⟨row, hrow, e, he, hn⟩)
  · obtain ⟨row, hrow, e, he, hn⟩ := mem_rowNodes.mp hn
    exact h row hrow e he n hn

/-- A property that asks nothing of runs holds of the nodes of a run as of those of its items. -/
theorem all_ofItems (hsequence : ∀ items, P (.sequence items)) (es : List Expr) :
    All P (ofItems es) ↔ ∀ e ∈ es, All P e := by
  match es with
  | [] => simp [ofItems, all_empty]
  | [e] => simp [ofItems]
  | e :: f :: es => simp [ofItems, all_sequence, hsequence]

theorem all_items (hsequence : ∀ items, P (.sequence items)) (e : Expr) :
    (∀ i ∈ e.items, All P i) ↔ All P e := by
  cases e with
  | empty => simp [items, all_empty]
  | sequence es => simp [items, all_sequence, hsequence]
  | _ => simp [items]

theorem all_of_mem_cells (hsequence : ∀ items, P (.sequence items)) {body cell : Expr}
    (h : All P body) (hcell : cell ∈ cells body) : All P cell := by
  obtain ⟨chunk, hchunk, rfl⟩ := List.mem_map.mp hcell
  refine (all_ofItems hsequence chunk).mpr fun i hi => ?_
  exact (all_items hsequence body).mpr h i (mem_of_mem_splitCommas hchunk hi).1

/-- The cells of a matrix have the nodes of the items that it was made of, and no others but runs
of these. -/
theorem all_of_matrixRows? (hsequence : ∀ items, P (.sequence items)) {items : List Expr}
    {rows : List (List Expr)} (hrows : matrixRows? items = some rows)
    (h : ∀ e ∈ items, All P e) : ∀ row ∈ rows, ∀ e ∈ row, All P e := by
  obtain ⟨bodies, hkind, rfl, -⟩ := rows_of_matrixRows? hrows
  refine List.forall_mem_map.mpr fun body hbody e he => ?_
  have hrow : ∃ l r keep, .paren (.symbol l) body (.symbol r) keep ∈ items := by
    rcases hkind with hround | hsquare
    · exact exists_paren_of_rows hround hbody
    · exact exists_paren_of_rows hsquare hbody
  obtain ⟨l, r, keep, hmem⟩ := hrow
  exact all_of_mem_cells hsequence (all_paren.mp (h _ hmem)).2 he

end

/-- A property that asks nothing of runs, of matrices and of parentheses with both delimiters, and
makes no difference between a parenthesis and a group. -/
structure Loose (P : Expr → Prop) : Prop where
  sequence (items : List Expr) : P (.sequence items)
  matrix (left right : Delimiter) (rows : List (List Expr)) : P (.matrix left rows right)
  comma : P (.identifier ",")
  paren (left right : Symbol) (body : Expr) (keep : Bool) :
    P (.paren (.symbol left) body (.symbol right) keep)
  group (left right : Delimiter) (body : Expr) :
    P (.group left body right) ↔ P (.paren left body right false)

namespace Loose

variable {P : Expr → Prop}

theorem all_unwrap (h : Loose P) (e : Expr) : All P e.unwrap ↔ All P e := by
  unfold unwrap
  split
  · rw [all_group, all_paren, h.group]
  · rfl

/-- The cells of a row have the nodes of its body but for the commas. -/
theorem all_cells (h : Loose P) (body : Expr) : (∀ e ∈ cells body, All P e) ↔ All P body := by
  have hcomma : All P (.identifier ",") := all_single rfl h.comma
  rw [← all_items h.sequence body, cells, List.forall_mem_map]
  simp only [all_ofItems h.sequence]
  generalize body.items = es
  induction es with
  | nil => simp [splitCommas]
  | cons e es ih =>
    cases he : e.isComma with
    | true =>
      have hhead : All P e := isComma_iff.mp he ▸ hcomma
      simp [splitCommas, he, hhead, ih]
    | false =>
      obtain ⟨first, others, hsplit, hcons⟩ := splitCommas_cons_of_not_isComma he es
      rw [hsplit, List.forall_mem_cons] at ih
      rw [hcons, List.forall_mem_cons, List.forall_mem_cons, List.forall_mem_cons, and_assoc]
      exact and_congr_right fun _ => ih

theorem all_rows (h : Loose P) {left right : String} {items bodies : List Expr}
    (hrows : Rows left right items bodies) :
    (∀ row ∈ bodies.map cells, ∀ e ∈ row, All P e) ↔ ∀ e ∈ items, All P e := by
  have hrow {row body : Expr} (hbody : bodyBetween? left right row = some body) :
      (∀ e ∈ cells body, All P e) ↔ All P row := by
    obtain ⟨l, r, keep, rfl, -, -⟩ := bodyBetween?_eq_some hbody
    rw [h.all_cells, all_paren, and_iff_right (h.paren l r body keep)]
  induction hrows with
  | one hbody => simp [hrow hbody]
  | more hbody _ ih =>
    have hcomma : All P (.identifier ",") := all_single rfl h.comma
    rw [List.map_cons, List.forall_mem_cons, hrow hbody, List.forall_mem_cons,
      List.forall_mem_cons, and_iff_right hcomma]
    exact and_congr_right fun _ => ih

/-- A parenthesis has the nodes of its items, also if it is read as a matrix. -/
theorem all_inferMatrix (h : Loose P) (left right : Symbol) (items : List Expr) (keep : Bool) :
    All P (Expr.paren (.symbol left) (ofItems items) (.symbol right) keep).inferMatrix ↔
      ∀ e ∈ items, All P e := by
  rcases inferMatrix_paren (.symbol left) (.symbol right) (ofItems items) keep with
    hsame | ⟨es, rows, hseq, hrows, hmatrix⟩
  · rw [hsame, all_paren, and_iff_right (h.paren left right _ keep),
      all_ofItems h.sequence]
  · have hes : (∀ e ∈ es, All P e) ↔ ∀ e ∈ items, All P e := by
      rw [← all_ofItems h.sequence items, hseq, all_sequence, and_iff_right (h.sequence es)]
    obtain ⟨bodies, hround | hsquare, rfl, -⟩ := rows_of_matrixRows? hrows
    · rw [hmatrix, all_matrix, and_iff_right (h.matrix _ _ _), h.all_rows hround, hes]
    · rw [hmatrix, all_matrix, and_iff_right (h.matrix _ _ _), h.all_rows hsquare, hes]

end Loose

end Expr

end MathMarkup
