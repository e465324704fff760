import MathMarkup.Proofs.Nodes
import MathMarkup.Proofs.Regrouping

/-!
# Which parentheses are matrices, and what the cells keep

`Expr.Grid` says by the places of the items which runs are read as a matrix: commas stand at the odd
places, and at the even ones parentheses of one kind that have the same number of commas.  The
reader takes the places apart in another way, and `Expr.exists_matrixRows?_iff` says that it finds
the same.

The cells of a row are made of the items between its commas.  One item alone becomes the cell as it
is, so a run that stands alone between commas cannot be told from its items any more.  These runs,
and missing items, are all that is lost (`Expr.intercalate_items_cells_iff`).

* `Grammar.gives_recoverable`: no row of a matrix that was read is lost.
* `matrix_inference_exact`: which parentheses become a matrix, and what is in it.
* `matrix_row_not_recovered`: a run in a cell of its own is lost.
-/

namespace MathMarkup

namespace Expr

/-! ## Grids -/

/-- An odd number of items, three or more, with commas at the odd places and, at the even ones,
parentheses of one kind and with the same number of commas in each. -/
structure Grid (items : List Expr) : Prop where
  odd : items.length % 2 = 1
  three_le : 3 ≤ items.length
  comma (k : Nat) (e : Expr) (h : items[2 * k + 1]? = some e) : e = .identifier ","
  row : ∃ left right n, RowIds left right ∧ ∀ (k : Nat) e, items[2 * k]? = some e →
    ∃ l body r keep, e = .paren (.symbol l) body (.symbol r) keep ∧ l.id = some left ∧
      r.id = some right ∧ body.items.count (.identifier ",") = n

theorem Rows.length_items {left right : String} {items bodies : List Expr}
    (h : Rows left right items bodies) : items.length + 1 = 2 * bodies.length := by
  induction h with
  | one => rfl
  | more _ _ ih =>
    simp only [List.length_cons]
    omega

/-- The bodies of rows are at the even places. -/
theorem Rows.getElem?_even {left right : String} {items bodies : List Expr}
    (h : Rows left right items bodies) {k : Nat} {body : Expr} (hk : bodies[k]? = some body) :
    ∃ l r keep, items[2 * k]? = some (.paren (.symbol l) body (.symbol r) keep) ∧
      l.id = some left ∧ r.id = some right := by
  induction h generalizing k with
  | one hrow =>
    cases k with
    | zero =>
      cases hk
      obtain ⟨l, r, keep, rfl, hl, hr⟩ := bodyBetween?_eq_some hrow
      exact ⟨l, r, keep, rfl, hl, hr⟩
    | succ k => cases hk
  | more hrow _ ih =>
    cases k with
    | zero =>
      cases hk
      obtain ⟨l, r, keep, rfl, hl, hr⟩ := bodyBetween?_eq_some hrow
      exact ⟨l, r, keep, rfl, hl, hr⟩
    | succ k => exact ih hk

theorem Rows.eq_of_getElem?_odd {left right : String} {items bodies : List Expr}
    (h : Rows left right items bodies) {k : Nat} {e : Expr} (hk : items[2 * k + 1]? = some e) :
    e = .identifier "," := by
  induction h generalizing k with
  | one => cases hk
  | more _ _ ih =>
    cases k with
    | zero => exact (Option.some.inj hk).symm
    | succ k => exact ih hk

/-- Items with parentheses at the even places and commas at the odd ones are rows. -/
theorem exists_rows {left right : String} {items : List Expr} (hodd : items.length % 2 = 1)
    (hcomma : ∀ (k : Nat) e, items[2 * k + 1]? = some e → e = .identifier ",")
    (hrow : ∀ (k : Nat) e, items[2 * k]? = some e → ∃ body, bodyBetween? left right e = some body) :
    ∃ bodies, Rows left right items bodies := by
  induction items using evens.induct with
  | case1 => cases hodd
  | case2 row =>
    obtain ⟨body, hbody⟩ := hrow 0 row rfl
    exact ⟨[body], .one hbody⟩
  | case3 row comma items ih =>
    obtain ⟨body, hbody⟩ := hrow 0 row rfl
    obtain rfl := hcomma 0 comma rfl
    rw [List.length_cons, List.length_cons, Nat.add_assoc, Nat.add_mod_right] at hodd
    obtain ⟨bodies, h⟩ := ih hodd (fun k => hcomma (k + 1)) fun k => hrow (k + 1)
    exact ⟨body :: bodies, .more hbody h⟩

/-! ## Cells -/

/-- The commas of a run are where it is split. -/
theorem splitCommas_eq_splitOn (es : List Expr) :
    splitCommas es = es.splitOn (.identifier ",") := by
  unfold List.splitOn
  induction es with
  | nil => rfl
  | cons e es ih =>
    rw [List.splitOnP_cons_eq_if_modifyHead, ← ih]
    cases he : e.isComma with
    | true =>
      rw [splitCommas, he, if_pos rfl, isComma_iff.mp he, if_pos (beq_self_eq_true _)]
    | false =>
      have hne : ¬ (e == .identifier ",") = true := by
        rw [beq_iff_eq, ← isComma_iff, he]
        exact Bool.false_ne_true
      obtain ⟨first, others, hes, hcons⟩ := splitCommas_cons_of_not_isComma he es
      rw [hcons, hes, if_neg hne, List.modifyHead_cons]

/-- There is one cell more than there are commas. -/
theorem length_cells (body : Expr) :
    (cells body).length = body.items.count (.identifier ",") + 1 := by
  rw [cells, List.length_map]
  induction body.items with
  | nil => rfl
  | cons e es ih =>
    cases he : e.isComma with
    | true =>
      rw [splitCommas, he, if_pos rfl, List.length_cons, ih, isComma_iff.mp he,
        List.count_cons_self]
    | false =>
      have hne : e ≠ .identifier "," := by
        rw [ne_eq, ← isComma_iff, he]
        exact Bool.false_ne_true
      obtain ⟨first, others, hes, hcons⟩ := splitCommas_cons_of_not_isComma he es
      rw [hes] at ih
      rw [hcons, List.length_cons, List.count_cons_of_ne hne, ← ih, List.length_cons]

/-! ## What cells keep -/

/-- An expression is neither missing nor a run. -/
def IsSingle (e : Expr) : Prop :=
  e ≠ .empty ∧ ∀ items, e ≠ .sequence items

/-- An item that stands alone between commas is neither missing nor a run. -/
def Separable (es : List Expr) : Prop :=
  ∀ e, [e] ∈ es.splitOn (.identifier ",") → e.IsSingle

theorem items_of_isSingle {e : Expr} (h : e.IsSingle) : e.items = [e] := by
  cases e with
  | empty => exact absurd rfl h.1
  | sequence items => exact absurd rfl (h.2 items)
  | _ => rfl

theorem sizeOf_items_lt {e : Expr} (h : ¬ e.IsSingle) : sizeOf e.items < sizeOf [e] := by
  cases e with
  | empty => simp [items]
  | sequence es =>
    simp only [items, List.cons.sizeOf_spec, List.nil.sizeOf_spec, sequence.sizeOf_spec]
    omega
  | _ => exact absurd (by simp [IsSingle]) h

/-- An item that was put alone into a cell is found there again if it is neither missing nor a run;
several items are always found again. -/
theorem items_ofItems_of_isSingle {chunk : List Expr} (h : ∀ e, chunk = [e] → e.IsSingle) :
    (ofItems chunk).items = chunk := by
  match chunk with
  | [] => rfl
  | [e] => exact items_of_isSingle (h e rfl)
  | e :: f :: es => rfl

theorem sizeOf_items_ofItems_le (chunk : List Expr) :
    sizeOf (ofItems chunk).items ≤ sizeOf chunk := by
  by_cases h : ∀ e, chunk = [e] → e.IsSingle
  · rw [items_ofItems_of_isSingle h]
  · obtain ⟨e, h⟩ := not_forall.mp h
    obtain ⟨rfl, he⟩ := Classical.not_imp.mp h
    exact Nat.le_of_lt (sizeOf_items_lt he)

theorem sizeOf_append (es fs : List Expr) : sizeOf (es ++ fs) + 1 = sizeOf es + sizeOf fs := by
  induction es with
  | nil => simp [Nat.add_comm]
  | cons e es ih =>
    simp only [List.cons_append, List.cons.sizeOf_spec]
    omega

theorem sizeOf_intercalate_cons (sep es fs : List Expr) (more : List (List Expr)) :
    sizeOf (sep.intercalate (es :: fs :: more)) + 2 =
      sizeOf es + sizeOf sep + sizeOf (sep.intercalate (fs :: more)) := by
  have hfirst := sizeOf_append es sep
  have hmore := sizeOf_append (es ++ sep) (sep.intercalate (fs :: more))
  rw [List.intercalate_cons_cons]
  omega

section

variable {f : List Expr → List Expr}

/-- If no piece gets larger, then neither does the whole. -/
theorem sizeOf_intercalate_map_le (hf : ∀ chunk, sizeOf (f chunk) ≤ sizeOf chunk)
    (sep : List Expr) (chunks : List (List Expr)) :
    sizeOf (sep.intercalate (chunks.map f)) ≤ sizeOf (sep.intercalate chunks) := by
  induction chunks with
  | nil => exact Nat.le_refl _
  | cons chunk chunks ih =>
    have hchunk := hf chunk
    cases chunks with
    | nil => simpa using hchunk
    | cons next more =>
      have hmapped := sizeOf_intercalate_cons sep (f chunk) (f next) (more.map f)
      have hbefore := sizeOf_intercalate_cons sep chunk next more
      simp only [List.map_cons] at ih hmapped ⊢
      omega

/-- If moreover one piece gets smaller, then so does the whole. -/
theorem sizeOf_intercalate_map_lt (hf : ∀ chunk, sizeOf (f chunk) ≤ sizeOf chunk)
    (sep : List Expr) {chunks : List (List Expr)} {chunk : List Expr} (hmem : chunk ∈ chunks)
    (hlt : sizeOf (f chunk) < sizeOf chunk) :
    sizeOf (sep.intercalate (chunks.map f)) < sizeOf (sep.intercalate chunks) := by
  induction chunks with
  | nil => cases hmem
  | cons first chunks ih =>
    have hfirst := hf first
    cases chunks with
    | nil =>
      obtain rfl := List.mem_singleton.mp hmem
      simpa using hlt
    | cons next more =>
      have hmapped := sizeOf_intercalate_cons sep (f first) (f next) (more.map f)
      have hbefore := sizeOf_intercalate_cons sep first next more
      have hle := sizeOf_intercalate_map_le hf sep (next :: more)
      simp only [List.map_cons] at ih hle hmapped ⊢
      rcases List.mem_cons.mp hmem with rfl | hmem
      · omega
      · have hlt := ih hmem
        omega

end

/-- The items of the cells with commas between them are the items of the row, unless an item that
is missing or a run stands alone in a cell. -/
theorem intercalate_items_cells_iff (body : Expr) :
    [.identifier ","].intercalate ((cells body).map items) = body.items ↔
      Separable body.items := by
  have hcells : (cells body).map items =
      (body.items.splitOn (.identifier ",")).map fun chunk => (ofItems chunk).items := by
    rw [cells, splitCommas_eq_splitOn, List.map_map]
    rfl
  have hbody : [.identifier ","].intercalate (body.items.splitOn (.identifier ",")) =
      body.items :=
    List.intercalate_splitOn _
  rw [hcells]
  constructor
  · intro hjoin e he
    by_contra hsingle
    -- the cell of the item is smaller than the item, and no other cell is larger than its items
    have hlt := sizeOf_intercalate_map_lt sizeOf_items_ofItems_le [.identifier ","] he
      (sizeOf_items_lt hsingle)
    rw [hjoin, hbody] at hlt
    exact Nat.lt_irrefl _ hlt
  · intro h
    have hsame : ∀ chunk ∈ body.items.splitOn (.identifier ","),
        (ofItems chunk).items = id chunk :=
      fun chunk hchunk => items_ofItems_of_isSingle fun e he => h e (he ▸ hchunk)
    rw [List.map_congr_left hsame, List.map_id, hbody]

/-- Of expressions that were read, no item is missing or a run. -/
theorem separable_of_wellShaped {body : Expr} (hshaped : WellShaped body)
    (hbody : Place.body.Admits body) : Separable body.items := by
  intro e he
  rw [← splitCommas_eq_splitOn] at he
  have hmem := (mem_of_mem_splitCommas he List.mem_cons_self).1
  have hitem := (itemShaped_of_mem_items hshaped hbody hmem).2
  constructor
  · rintro rfl
    exact hitem (by decide)
  · rintro items rfl
    exact hitem (by simp [form, Place.excluded])

theorem separable_of_wellShaped_paren {left right : Delimiter} {body : Expr} {keep : Bool}
    (h : WellShaped (.paren left body right keep)) : Separable body.items := by
  obtain ⟨⟨-, -, hadmits⟩, hbody⟩ := wellShaped_paren.mp h
  exact separable_of_wellShaped hbody hadmits

/-! ## Matrices -/

/-- Two rows or more, all with the same number of commas, are a grid. -/
theorem grid_of_rows {left right : String} {items bodies : List Expr} {n : Nat}
    (hids : RowIds left right) (h : Rows left right items bodies) (htwo : 2 ≤ bodies.length)
    (hsame : ∀ body ∈ bodies, body.items.count (.identifier ",") = n) : Grid items := by
  have hlength := h.length_items
  refine ⟨by omega, by omega, fun k e hk => h.eq_of_getElem?_odd hk, left, right, n, hids, ?_⟩
  intro k e hk
  obtain ⟨hlt, -⟩ := List.getElem?_eq_some_iff.mp hk
  have hbody : bodies[k]? = some bodies[k] := List.getElem?_eq_getElem (by omega)
  obtain ⟨l, r, keep, hrow, hl, hr⟩ := h.getElem?_even hbody
  obtain rfl := Option.some.inj (hk.symm.trans hrow)
  exact ⟨l, _, r, keep, rfl, hl, hr, hsame _ (List.mem_of_getElem? hbody)⟩

/-- The items of a grid are rows with the same number of cells. -/
theorem Grid.exists_rows {items : List Expr} (h : Grid items) :
    ∃ left right bodies n, RowIds left right ∧ Rows left right items bodies ∧
      2 ≤ bodies.length ∧ ∀ body ∈ bodies, (cells body).length = n := by
  obtain ⟨left, right, n, hids, hrow⟩ := h.row
  obtain ⟨bodies, hrows⟩ : ∃ bodies, Rows left right items bodies := by
    refine Expr.exists_rows h.odd h.comma fun k e hk => ?_
    obtain ⟨l, body, r, keep, rfl, hl, hr, -⟩ := hrow k e hk
    exact ⟨body, by rw [bodyBetween?, if_pos ⟨hl, hr⟩]⟩
  have hlength := hrows.length_items
  have hthree := h.three_le
  refine ⟨left, right, bodies, n + 1, hids, hrows, by omega, fun body hbody => ?_⟩
  obtain ⟨k, hk⟩ := List.mem_iff_getElem?.mp hbody
  obtain ⟨l, r, keep, hitem, -, -⟩ := hrows.getElem?_even hk
  obtain ⟨l', body', r', keep', heq, -, -, hcount⟩ := hrow _ _ hitem
  cases heq
  rw [length_cells, hcount]

/-- The reader finds the rows of a matrix in grids and nowhere else. -/
theorem exists_matrixRows?_iff {items : List Expr} :
    (∃ rows, matrixRows? items = some rows) ↔ Grid items := by
  constructor
  · rintro ⟨rows, hrows⟩
    obtain ⟨bodies, hkind, rfl, htwo, n, hsame⟩ := rows_of_matrixRows? hrows
    rw [List.length_map] at htwo
    have hcount : ∀ body ∈ bodies, body.items.count (.identifier ",") = n - 1 := by
      intro body hbody
      rw [← hsame _ (List.mem_map_of_mem hbody), length_cells, Nat.add_sub_cancel]
    rcases hkind with hround | hsquare
    · exact grid_of_rows (.inl ⟨rfl, rfl⟩) hround htwo hcount
    · exact grid_of_rows (.inr ⟨rfl, rfl⟩) hsquare htwo hcount
  · intro h
    obtain ⟨left, right, bodies, n, hids, hrows, htwo, hsame⟩ := h.exists_rows
    rcases hids with ⟨rfl, rfl⟩ | ⟨rfl, rfl⟩
    · exact ⟨_, matrixRows?_of_rows hrows (rowBodies?_of_round hrows) htwo hsame⟩
    · exact ⟨_, matrixRows?_of_rows hrows (rowBodies?_of_square hrows) htwo hsame⟩

/-- Each row of a matrix holds the cells of the parenthesis at its place. -/
theorem row_of_matrixRows? {items : List Expr} {rows : List (List Expr)}
    (h : matrixRows? items = some rows) :
    2 * rows.length = items.length + 1 ∧
      ∀ (k : Nat) row, rows[k]? = some row → ∃ l body r keep,
        items[2 * k]? = some (.paren l body r keep) ∧ row = cells body := by
  obtain ⟨bodies, hkind, rfl, -, -⟩ := rows_of_matrixRows? h
  obtain ⟨left, right, hrows⟩ : ∃ left right, Rows left right items bodies :=
    hkind.elim (fun h => ⟨_, _, h⟩) fun h => ⟨_, _, h⟩
  have hlength := hrows.length_items
  refine ⟨by rw [List.length_map]; omega, fun k row hk => ?_⟩
  rw [List.getElem?_map, Option.map_eq_some_iff] at hk
  obtain ⟨body, hbody, rfl⟩ := hk
  obtain ⟨l, r, keep, hitem, -, -⟩ := hrows.getElem?_even hbody
  exact ⟨_, body, _, keep, hitem, rfl⟩

theorem of_inferMatrix_eq_matrix {left right l r : Delimiter} {body : Expr} {keep : Bool}
    {rows : List (List Expr)}
    (h : (Expr.paren left body right keep).inferMatrix = .matrix l rows r) :
    l = left ∧ r = right ∧ ∃ items, body = .sequence items ∧ matrixRows? items = some rows := by
  rcases inferMatrix_paren left right body keep with hsame | ⟨items, rows', hbody, hrows, hmatrix⟩
  · cases hsame.symm.trans h
  · cases hmatrix.symm.trans h
    exact ⟨rfl, rfl, items, hbody, hrows⟩

/-- What holds of a node if it is a matrix that was read: it was made of a parenthesis, and each row
of this can be put together again from its cells. -/
def Recoverable : Expr → Prop
  | .matrix left rows right => ∃ items,
    (Expr.paren left (.sequence items) right false).inferMatrix = .matrix left rows right ∧
      ∀ (k : Nat) row, rows[k]? = some row → ∃ l body r keep,
        items[2 * k]? = some (.paren l body r keep) ∧ Separable body.items ∧
          [.identifier ","].intercalate (row.map Expr.items) = body.items
  | _ => True

end Expr

theorem Grammar.gives_recoverable (s : Setting) : Gives s (fun _ => True) Expr.Recoverable where
  leaf _ _ := by
    unfold leaf
    split <;> trivial
  matrix := by
    intro left right items rows _ hitems hrows
    refine ⟨items, by simp only [Expr.inferMatrix, hrows], fun k row hk => ?_⟩
    obtain ⟨-, hrow⟩ := Expr.row_of_matrixRows? hrows
    obtain ⟨l, body, r, keep, hitem, rfl⟩ := hrow k row hk
    have hseparable :=
      Expr.separable_of_wellShaped_paren (hitems _ (List.mem_of_getElem? hitem)).1
    exact ⟨l, body, r, keep, hitem, hseparable,
      (Expr.intercalate_items_cells_iff body).mpr hseparable⟩

/-- A parenthesis becomes a matrix if its body is a grid, and else it stays what it is.  The matrix
has the delimiters of the parenthesis and one row for each parenthesis of the grid.  The cells of a
row are the items between the commas of its body; with commas between them, the items of the cells
are those of the body again just if no item that is missing or a run stands alone between commas.
In a body that was read there is no such item: of every matrix in the expression of a source, each
row is given back by its cells. -/
theorem matrix_inference_exact :
    (∀ (left right : Symbol) (body : Expr) (keep : Bool),
      let p := Expr.paren (.symbol left) body (.symbol right) keep
      ((∃ l rows r, p.inferMatrix = .matrix l rows r) ↔
          ∃ items, body = .sequence items ∧ Expr.Grid items) ∧
        ((¬ ∃ items, body = .sequence items ∧ Expr.Grid items) → p.inferMatrix = p) ∧
        ∀ l rows r, p.inferMatrix = .matrix l rows r →
          l = .symbol left ∧ r = .symbol right ∧ ∃ items, body = .sequence items ∧
            2 * rows.length = items.length + 1 ∧
            ∀ (k : Nat) row, rows[k]? = some row → ∃ l' body' r' keep',
              items[2 * k]? = some (.paren l' body' r' keep') ∧
              row = (body'.items.splitOn (.identifier ",")).map Expr.ofItems ∧
              ([.identifier ","].intercalate (row.map Expr.items) = body'.items ↔
                Expr.Separable body'.items) ∧
              (body.WellShaped → Expr.Separable body'.items)) ∧
      ∀ symbols colors source e, Expr.parse symbols colors source = .ok e →
        ∀ l rows r, .matrix l rows r ∈ e.nodes → ∃ items,
          (Expr.paren l (.sequence items) r false).inferMatrix = .matrix l rows r ∧
            ∀ (k : Nat) row, rows[k]? = some row → ∃ l' body' r' keep',
              items[2 * k]? = some (.paren l' body' r' keep') ∧ Expr.Separable body'.items ∧
                [.identifier ","].intercalate (row.map Expr.items) = body'.items := by
  refine ⟨fun left right body keep => ⟨⟨?_, ?_⟩, ?_, ?_⟩, ?_⟩
  · rintro ⟨l, rows, r, hmatrix⟩
    obtain ⟨-, -, items, hbody, hrows⟩ := Expr.of_inferMatrix_eq_matrix hmatrix
    exact ⟨items, hbody, Expr.exists_matrixRows?_iff.mp ⟨rows, hrows⟩⟩
  · rintro ⟨items, rfl, hgrid⟩
    obtain ⟨rows, hrows⟩ := Expr.exists_matrixRows?_iff.mpr hgrid
    exact ⟨.symbol left, rows, .symbol right, by simp only [Expr.inferMatrix, hrows]⟩
  · intro hgrid
    rcases Expr.inferMatrix_paren (.symbol left) (.symbol right) body keep with
      hsame | ⟨items, rows, hbody, hrows, -⟩
    · exact hsame
    · exact absurd ⟨items, hbody, Expr.exists_matrixRows?_iff.mp ⟨rows, hrows⟩⟩ hgrid
  · intro l rows r hmatrix
    obtain ⟨rfl, rfl, items, rfl, hrows⟩ := Expr.of_inferMatrix_eq_matrix hmatrix
    obtain ⟨hlength, hrow⟩ := Expr.row_of_matrixRows? hrows
    refine ⟨rfl, rfl, items, rfl, hlength, fun k row hk => ?_⟩
    obtain ⟨l', body', r', keep', hitem, rfl⟩ := hrow k row hk
    refine ⟨l', body', r', keep', hitem, ?_, Expr.intercalate_items_cells_iff body', ?_⟩
    · rw [Expr.cells, Expr.splitCommas_eq_splitOn]
    · intro hshaped
      exact Expr.separable_of_wellShaped_paren
        ((Expr.wellShaped_sequence.mp hshaped).2 _ (List.mem_of_getElem? hitem))
  · intro symbols colors source e hparse l rows r hmem
    exact all_of_parse hparse (Grammar.gives_recoverable _) (fun _ _ => trivial) _ hmem

/-- Two rows of one cell each. -/
theorem matrix_inference_exact_column :
    let left := Delimiter.symbol Token.leftSquare.toSymbol
    let right := Delimiter.symbol Token.rightSquare.toSymbol
    let e := Expr.matrix left [[.identifier "a"], [.identifier "b"]] right
    Expr.parse .spellings .basic "[ [a], [b] ]" = .ok e ∧
      ∃ items : List Expr, (Expr.paren left (.sequence items) right false).inferMatrix = e ∧
        ∃ l body r keep, items[2 * 1]? = some (.paren l body r keep) ∧
          Expr.Separable body.items ∧ body.items = [.identifier "b"] := by
  intro left right e
  have htokens : (SymbolTable.spellings.read "[ [a], [b] ]").tokens =
      [.leftSquare, .leftSquare, .letter "a", .rightSquare, .letter ",", .leftSquare, .letter "b",
        .rightSquare, .rightSquare] := by
    rw [SymbolTable.read_spellings]
    decide +kernel
  have hrow {name : String} {rest : List Token} :
      Grammar.Derives ⟨.basic, none⟩ (.simple true
        (.leftSquare :: .letter name :: .rightSquare :: rest)
        (.paren left (.identifier name) right false) rest) :=
    .paren rfl rfl (.last (.bare (.leaf rfl) rfl rfl) (Grammar.leaf_ne_empty _)
      (.inr ⟨rfl, rfl⟩)) rfl
  have hmatrix : (Expr.paren left (.ofItems [.paren left (.identifier "a") right false,
      .identifier ",", .paren left (.identifier "b") right false]) right false).inferMatrix = e :=
    rfl
  have hrun : Grammar.Derives ⟨.basic, none⟩
      (.run false (SymbolTable.spellings.read "[ [a], [b] ]").tokens [e] []) := by
    rw [htokens, ← hmatrix]
    refine .last (.bare (.paren rfl rfl ?_ rfl) rfl rfl) nofun (.inl rfl)
    exact .more (.bare hrow rfl rfl) nofun rfl rfl (.more (.bare (.leaf rfl) rfl rfl) nofun rfl rfl
      (.last (.bare hrow rfl rfl) nofun (.inr ⟨rfl, rfl⟩)))
  have hparse := parse_of_derives (SymbolTable.error_read_spellings "[ [a], [b] ]") hrun
  obtain ⟨-, hread⟩ := matrix_inference_exact
  obtain ⟨items, hmatrix, hrows⟩ := hread _ _ _ _ hparse left _ right List.mem_cons_self
  obtain ⟨l, body, r, keep, hitem, hseparable, hjoin⟩ := hrows 1 _ rfl
  exact ⟨hparse, items, hmatrix, l, body, r, keep, hitem, hseparable, hjoin.symm⟩

/-- Joining the cells does not give every row back: a run that stands alone before a comma falls
apart into its items. -/
theorem matrix_row_not_recovered :
    ¬ ∀ (left right : Symbol) (items : List Expr) (keep : Bool) (l r : Delimiter)
        (rows : List (List Expr)),
      (Expr.paren (.symbol left) (.sequence items) (.symbol right) keep).inferMatrix =
          .matrix l rows r →
        ∀ (k : Nat) row l' body' r' keep', rows[k]? = some row →
          items[2 * k]? = some (.paren l' body' r' keep') →
          [.identifier ","].intercalate (row.map Expr.items) = body'.items := by
  intro h
  have hjoin := h ⟨some "lparen", "("⟩ ⟨some "rparen", ")"⟩
    [.paren (.symbol ⟨some "lparen", "("⟩)
        (.sequence [.sequence [.identifier "a", .identifier "b"], .identifier ",", .identifier "c"])
        (.symbol ⟨some "rparen", ")"⟩) false,
      .identifier ",",
      .paren (.symbol ⟨some "lparen", "("⟩)
        (.sequence [.identifier "d", .identifier ",", .identifier "e"])
        (.symbol ⟨some "rparen", ")"⟩) false]
    false _ _ _ rfl 0 _ _ _ _ _ rfl rfl
  exact absurd hjoin (by decide)

end MathMarkup
