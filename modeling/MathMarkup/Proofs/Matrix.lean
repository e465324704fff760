import MathMarkup.Grammar.Matrix

/-!
# What makes a matrix

`Rows left right items bodies` says that the items of a parenthesis are rows with a comma between
any two, and that the rows have the given bodies.  `Expr.matrixRows?` finds the rows of a matrix
exactly where there is such a list of bodies: `rows_of_matrixRows?` goes from the function to the
relation, and `matrixRows?_of_rows` goes back.

The cells of a row are what stands between its commas: no cell has a comma of its own
(`mem_of_mem_splitCommas`), and a row has a cell at least (`splitCommas_ne_nil`).
-/

namespace MathMarkup.Expr

theorem isComma_iff {e : Expr} : e.isComma = true ↔ e = .identifier "," := by
  simp [isComma]

/-! ## Cells -/

theorem splitCommas_ne_nil (es : List Expr) : splitCommas es ≠ [] := by
  cases es with
  | nil => simp [splitCommas]
  | cons e es =>
    unfold splitCommas
    split
    · simp
    · split <;> simp

/-- Before a comma, the first cell is empty; any other item belongs to the first cell. -/
theorem splitCommas_cons_of_not_isComma {e : Expr} (he : e.isComma = false) (es : List Expr) :
    ∃ first others, splitCommas es = first :: others ∧
      splitCommas (e :: es) = (e :: first) :: others := by
  obtain ⟨first, others, h⟩ := List.exists_cons_of_ne_nil (splitCommas_ne_nil es)
  exact ⟨first, others, h, by simp [splitCommas, he, h]⟩

theorem mem_of_mem_splitCommas {es chunk : List Expr} (h : chunk ∈ splitCommas es) {e : Expr}
    (he : e ∈ chunk) : e ∈ es ∧ e.isComma = false := by
  induction es generalizing chunk with
  | nil => simp_all [splitCommas]
  | cons a es ih =>
    cases ha : a.isComma with
    | true =>
      simp only [splitCommas, ha, if_true, List.mem_cons] at h
      rcases h with rfl | h
      · simp at he
      · exact ⟨List.mem_cons_of_mem a (ih h he).1, (ih h he).2⟩
    | false =>
      obtain ⟨first, others, hes, hcons⟩ := splitCommas_cons_of_not_isComma ha es
      rw [hcons, List.mem_cons] at h
      rw [hes] at ih
      rcases h with rfl | h
      · rcases List.mem_cons.mp he with rfl | he
        · exact ⟨List.mem_cons_self, ha⟩
        · have := ih List.mem_cons_self he
          exact ⟨List.mem_cons_of_mem a this.1, this.2⟩
      · have := ih (List.mem_cons_of_mem first h) he
        exact ⟨List.mem_cons_of_mem a this.1, this.2⟩

theorem intercalate_append_cons {α : Type} (sep xs ys : List α) (zs : List (List α)) :
    sep.intercalate ((xs ++ ys) :: zs) = xs ++ sep.intercalate (ys :: zs) := by
  cases zs with
  | nil => rw [List.intercalate_singleton, List.intercalate_singleton]
  | cons z zs =>
    rw [List.intercalate_cons_cons, List.intercalate_cons_cons, List.append_assoc,
      List.append_assoc, List.append_assoc]

/-- Whatever is listed item by item: the lists of the cells with commas between them are the list
of the body. -/
theorem intercalate_map_cells {α : Type} {f : Expr → List α} {comma : α}
    (hcomma : f (.identifier ",") = [comma]) (hitems : ∀ es, f (ofItems es) = es.flatMap f)
    (body : Expr) : [comma].intercalate ((cells body).map f) = body.items.flatMap f := by
  rw [cells]
  induction body.items with
  | nil => simp [splitCommas, hitems]
  | cons e es ih =>
    cases he : e.isComma with
    | true =>
      obtain ⟨first, others, hsplit⟩ := List.exists_cons_of_ne_nil (splitCommas_ne_nil es)
      have hcons : splitCommas (e :: es) = [] :: first :: others := by
        rw [splitCommas, he, if_pos rfl, hsplit]
      rw [hsplit] at ih
      rw [hcons, List.flatMap_cons, isComma_iff.mp he, hcomma, ← ih, List.map_cons, List.map_cons,
        hitems, List.flatMap_nil]
      exact List.intercalate_cons_cons
    | false =>
      obtain ⟨first, others, hsplit, hcons⟩ := splitCommas_cons_of_not_isComma he es
      rw [hsplit, List.map_cons, List.map_cons, hitems] at ih
      rw [hcons, List.flatMap_cons, ← ih, List.map_cons, List.map_cons, hitems, List.flatMap_cons,
        intercalate_append_cons]

/-! ## Rows -/

/-- The items are rows with a comma between any two, each between delimiters with the given ids.
The rows have the given bodies. -/
inductive Rows (left right : String) : List Expr → List Expr → Prop where
  | one {row body} (hrow : bodyBetween? left right row = some body) : Rows left right [row] [body]
  | more {row body items bodies} (hrow : bodyBetween? left right row = some body)
      (h : Rows left right items bodies) :
      Rows left right (row :: .identifier "," :: items) (body :: bodies)

theorem bodyBetween?_eq_some {left right : String} {row body : Expr}
    (h : bodyBetween? left right row = some body) :
    ∃ l r keep, row = .paren (.symbol l) body (.symbol r) keep ∧
      l.id = some left ∧ r.id = some right := by
  unfold bodyBetween? at h
  split at h
  · rename_i l body' r keep
    split at h
    · rename_i hids
      cases h
      exact ⟨l, r, keep, rfl, hids.1, hids.2⟩
    · simp at h
  · simp at h

/-- Each body of a row is the body of a parenthesis among the items. -/
theorem exists_paren_of_rows {left right : String} {items bodies : List Expr}
    (h : Rows left right items bodies) {body : Expr} (hbody : body ∈ bodies) :
    ∃ l r keep, .paren (.symbol l) body (.symbol r) keep ∈ items := by
  induction h with
  | one hrow =>
    obtain ⟨l, r, keep, rfl, -, -⟩ := bodyBetween?_eq_some hrow
    rw [List.mem_singleton] at hbody
    subst hbody
    exact ⟨l, r, keep, List.mem_cons_self⟩
  | more hrow _ ih =>
    rcases List.mem_cons.mp hbody with rfl | hbody
    · obtain ⟨l, r, keep, rfl, -, -⟩ := bodyBetween?_eq_some hrow
      exact ⟨l, r, keep, List.mem_cons_self⟩
    · obtain ⟨l, r, keep, hmem⟩ := ih hbody
      exact ⟨l, r, keep, List.mem_cons_of_mem _ (List.mem_cons_of_mem _ hmem)⟩

theorem mapM_cons_eq_some {α β : Type} {f : α → Option β} {a : α} {as : List α} {bs : List β}
    (h : (a :: as).mapM f = some bs) :
    ∃ b bs', bs = b :: bs' ∧ f a = some b ∧ as.mapM f = some bs' := by
  rw [List.mapM_cons] at h
  obtain ⟨b, hb, h⟩ := Option.bind_eq_some_iff.mp h
  obtain ⟨bs', hbs, h⟩ := Option.bind_eq_some_iff.mp h
  exact ⟨b, bs', (Option.some.inj h).symm, hb, hbs⟩

/-- Items with one row more than commas, where every row has a body, are rows. -/
theorem rows_of_evens_odds {left right : String} {items bodies : List Expr}
    (hlen : (odds items).length < (evens items).length)
    (hcommas : (odds items).all isComma = true)
    (hbodies : (evens items).mapM (bodyBetween? left right) = some bodies) :
    Rows left right items bodies := by
  induction items using evens.induct generalizing bodies with
  | case1 => simp [evens] at hlen
  | case2 row =>
    obtain ⟨body, bodies, rfl, hrow, hnil⟩ := mapM_cons_eq_some hbodies
    cases hnil
    exact .one hrow
  | case3 row comma items ih =>
    simp only [odds, evens, List.length_cons, Nat.add_lt_add_iff_right, List.all_cons,
      Bool.and_eq_true, isComma_iff] at hlen hcommas
    obtain ⟨body, bodies, rfl, hrow, hitems⟩ := mapM_cons_eq_some hbodies
    rw [hcommas.1]
    exact .more hrow (ih hlen hcommas.2 hitems)

/-- Rows have their bodies at the even places and commas at the odd ones. -/
theorem evens_odds_of_rows {left right : String} {items bodies : List Expr}
    (h : Rows left right items bodies) :
    (evens items).mapM (bodyBetween? left right) = some bodies ∧
      (odds items).all isComma = true ∧ (evens items).length = bodies.length ∧
      (odds items).length + 1 = bodies.length := by
  induction h with
  | one hrow => simp [evens, odds, hrow]
  | more hrow _ ih =>
    obtain ⟨hbodies, hcommas, heven, hodd⟩ := ih
    refine ⟨?_, ?_, ?_, ?_⟩
    · simp [evens, List.mapM_cons, hrow, hbodies]
    · simp [odds, isComma, hcommas]
    · simp [evens, heven]
    · simp [odds, hodd]

/-- The rows of a matrix are the cells of bodies between round or square delimiters. -/
theorem rows_of_matrixRows? {items : List Expr} {rows : List (List Expr)}
    (h : matrixRows? items = some rows) :
    ∃ bodies, (Rows "lparen" "rparen" items bodies ∨ Rows "lbracket" "rbracket" items bodies) ∧
      rows = bodies.map cells ∧ 2 ≤ rows.length ∧ ∃ n, ∀ row ∈ rows, row.length = n := by
  unfold matrixRows? at h
  dsimp only at h
  split at h
  · simp at h
  rename_i hshape
  simp only [not_or, Nat.not_le, Decidable.not_not] at hshape
  obtain ⟨hrows, hlen, hcommas⟩ := hshape
  split at h
  · rename_i first others hbodies
    split at h
    · rename_i hsame
      cases h
      obtain ⟨bodies, hbodies, hcells⟩ := Option.map_eq_some_iff.mp hbodies
      have hkind : Rows "lparen" "rparen" items bodies ∨
          Rows "lbracket" "rbracket" items bodies := by
        rcases Option.or_eq_some_iff.mp hbodies with hround | ⟨-, hsquare⟩
        · exact .inl (rows_of_evens_odds hlen hcommas hround)
        · exact .inr (rows_of_evens_odds hlen hcommas hsquare)
      have hlength : (evens items).length = bodies.length := by
        rcases hkind with hround | hsquare
        · exact (evens_odds_of_rows hround).2.2.1
        · exact (evens_odds_of_rows hsquare).2.2.1
      refine ⟨bodies, hkind, hcells.symm, ?_, first.length, ?_⟩
      · rw [← hcells, List.length_map, ← hlength]
        exact hrows
      · simpa using hsame
    · simp at h
  · simp at h

theorem rowBodies?_of_round {items bodies : List Expr} (h : Rows "lparen" "rparen" items bodies) :
    rowBodies? (evens items) = some bodies := by
  rw [rowBodies?, (evens_odds_of_rows h).1, Option.some_or]

theorem rowBodies?_of_square {items bodies : List Expr}
    (h : Rows "lbracket" "rbracket" items bodies) : rowBodies? (evens items) = some bodies := by
  -- the first row is not round
  have hround {row body : Expr} (hrow : bodyBetween? "lbracket" "rbracket" row = some body)
      (rows : List Expr) : (row :: rows).mapM (bodyBetween? "lparen" "rparen") = none := by
    obtain ⟨l, r, keep, rfl, hl, -⟩ := bodyBetween?_eq_some hrow
    simp [List.mapM_cons, bodyBetween?, hl]
  have hbodies := (evens_odds_of_rows h).1
  rw [rowBodies?, hbodies]
  cases h with
  | one hrow => rw [evens, hround hrow, Option.none_or]
  | more hrow => rw [evens, hround hrow, Option.none_or]

/-- Two rows or more, all with the same number of cells, are the rows of a matrix. -/
theorem matrixRows?_of_rows {left right : String} {items bodies : List Expr} {n : Nat}
    (h : Rows left right items bodies) (hbodies : rowBodies? (evens items) = some bodies)
    (htwo : 2 ≤ bodies.length) (hsame : ∀ body ∈ bodies, (cells body).length = n) :
    matrixRows? items = some (bodies.map cells) := by
  obtain ⟨-, hcommas, heven, hodd⟩ := evens_odds_of_rows h
  have hshape : ¬((evens items).length ≤ 1 ∨ (evens items).length ≤ (odds items).length ∨
      ¬(odds items).all isComma = true) := by
    simp only [not_or, Decidable.not_not]
    exact ⟨by omega, by omega, hcommas⟩
  have hpos : 0 < bodies.length := by omega
  obtain ⟨first, others, rfl⟩ := List.exists_cons_of_ne_nil (List.ne_nil_of_length_pos hpos)
  have hfirst := hsame first List.mem_cons_self
  have hothers : (others.map cells).all (fun row => row.length = (cells first).length) = true := by
    simp only [List.all_map, List.all_eq_true, Function.comp_apply, decide_eq_true_eq]
    intro body hbody
    rw [hsame body (List.mem_cons_of_mem first hbody), hfirst]
  unfold matrixRows?
  simp only [if_neg hshape, hbodies, Option.map_some, List.map_cons, hothers, if_true]

/-- A parenthesis stays what it is, or its body is a run of rows. -/
theorem inferMatrix_paren (left right : Delimiter) (body : Expr) (keep : Bool) :
    (Expr.paren left body right keep).inferMatrix = .paren left body right keep ∨
      ∃ items rows, body = .sequence items ∧ matrixRows? items = some rows ∧
        (Expr.paren left body right keep).inferMatrix = .matrix left rows right := by
  cases body with
  | sequence items =>
    cases hrows : matrixRows? items with
    | none => exact .inl (by simp only [inferMatrix, hrows])
    | some rows => exact .inr ⟨items, rows, rfl, hrows, by simp only [inferMatrix, hrows]⟩
  | _ => exact .inl rfl

/-- A parenthesis around round rows of one length is a matrix. -/
theorem inferMatrix_of_rows {items bodies : List Expr} {n : Nat} (left right : Delimiter)
    (keep : Bool) (h : Rows "lparen" "rparen" items bodies) (htwo : 2 ≤ bodies.length)
    (hsame : ∀ body ∈ bodies, (cells body).length = n) :
    (Expr.paren left (ofItems items) right keep).inferMatrix =
      .matrix left (bodies.map cells) right := by
  have hrows := matrixRows?_of_rows h (rowBodies?_of_round h) htwo hsame
  cases h with
  | one => simp at htwo
  | more => simp only [ofItems, inferMatrix, hrows]

end MathMarkup.Expr
