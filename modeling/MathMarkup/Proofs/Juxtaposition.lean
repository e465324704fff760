import MathMarkup.Proofs.Nesting

/-!
# Expressions side by side

Two sources that are written one after the other are read as the items of the first and then the
items of the second, if nothing of the first waits for more: each operator has its operands, each
parenthesis is closed (`Expr.Finished`), and no operator between operands stands where the two meet.

The grammar sees the end of the tokens only where it has taken all of them.

* `Grammar.Derives.extends`: a reading that leaves tokens is the same with more tokens at the end.
* `Grammar.Derives.joins`: a reading that leaves none, and is finished, is the same as well.  The
  first operand of an operator with two is covered by the other statement, so it does not matter
  that a color does not show what it was read from.
* `juxtaposition_concatenates`: the same for sources.
-/

namespace MathMarkup

namespace Expr

/-- A node that does not wait for more: an operator has its operands, and a parenthesis or a group
is closed. -/
def Finished : Expr → Prop
  | .unary _ operand => operand ≠ .empty
  | .binary _ first second => first ≠ .empty ∧ second ≠ .empty
  | .paren _ _ right _ => right ≠ .missing
  | .group _ _ right => right ≠ .missing
  | _ => True

theorem loose_finished : Loose Finished where
  sequence _ := trivial
  matrix _ _ _ := trivial
  comma := trivial
  paren _ _ _ _ := nofun
  group _ _ _ := Iff.rfl

theorem ne_empty_of_unwrap_ne_empty {e : Expr} (h : e.unwrap ≠ .empty) : e ≠ .empty := by
  rintro rfl
  exact h rfl

end Expr

namespace Grammar

open MathMarkup.Expr

/-! ## Readings that leave tokens -/

theorem ne_nil_of_suffix {ts rest : List Token} (h : rest <:+ ts) (hne : rest ≠ []) : ts ≠ [] := by
  rintro rfl
  exact hne (List.eq_nil_of_suffix_nil h)

/-- If tokens are left, the same is read with more tokens after them. -/
def Judgment.Extends (s : Setting) : Judgment → Prop
  | .simple nested ts e rest =>
    rest ≠ [] → ∀ tail, Derives s (.simple nested (ts ++ tail) e (rest ++ tail))
  | .intermediate nested ts e rest =>
    rest ≠ [] → ∀ tail, Derives s (.intermediate nested (ts ++ tail) e (rest ++ tail))
  | .run nested ts items rest =>
    rest ≠ [] → ∀ tail, Derives s (.run nested (ts ++ tail) items (rest ++ tail))

theorem Derives.extends {s : Setting} {j : Judgment} (h : Derives s j) : j.Extends s := by
  induction h with
  | atEnd => exact fun hne => absurd rfl hne
  | atClosing ht => exact fun _ _ => .atClosing ht
  | stray ht => exact fun _ _ => .stray ht
  | leaf ht => exact fun _ _ => .leaf ht
  | unary ht _ hc ih => exact fun hne tail => .unary ht (ih hne tail) hc
  | binary ht _ hf hc hd ihe ihf =>
    intro hne tail
    exact .binary ht (ihe (ne_nil_of_suffix hf.leavesSuffix hne) tail) (ihf hne tail) hc hd
  | void ht hc => exact fun _ _ => .void ht hc
  | paren ht hts hr hd ih =>
    intro _ tail
    have hne := ne_nil_of_suffix hr.leavesSuffix (List.cons_ne_nil _ _)
    exact .paren ht ((ahead_append_of_ne_nil hne tail).trans hts)
      (ih (List.cons_ne_nil _ _) tail) hd
  | unclosed => exact fun hne => absurd rfl hne
  | bare _ hsub hsup ih =>
    intro hne tail
    exact .bare (ih hne tail) ((ahead_append_of_ne_nil hne tail).trans hsub)
      ((ahead_append_of_ne_nil hne tail).trans hsup)
  | dangling _ ht _ ihe ihf =>
    exact fun hne tail => .dangling (ihe (List.cons_ne_nil _ _) tail) ht (ihf hne tail)
  | sub _ ht _ hfne hsup ihe ihf =>
    intro hne tail
    exact .sub (ihe (List.cons_ne_nil _ _) tail) ht (ihf hne tail) hfne
      ((ahead_append_of_ne_nil hne tail).trans hsup)
  | subSup _ ht _ hfne hu _ ihe ihf ihg =>
    intro hne tail
    exact .subSup (ihe (List.cons_ne_nil _ _) tail) ht (ihf (List.cons_ne_nil _ _) tail) hfne hu
      (ihg hne tail)
  | sup _ ht _ hfne ihe ihf =>
    exact fun hne tail => .sup (ihe (List.cons_ne_nil _ _) tail) ht (ihf hne tail) hfne
  | done _ ih => exact fun hne tail => .done (ih hne tail)
  | last _ hene hend ih =>
    intro hne tail
    obtain ⟨hnested, hcloses⟩ := hend.resolve_left hne
    exact .last (ih hne tail) hene
      (.inr ⟨hnested, (ahead_append_of_ne_nil hne tail).trans hcloses⟩)
  | frac _ hene ht _ hfne hr ihe ihf ihr =>
    intro hne tail
    exact .frac (ihe (List.cons_ne_nil _ _) tail) hene ht
      (ihf (ne_nil_of_suffix hr.leavesSuffix hne) tail) hfne (ihr hne tail)
  | noFrac _ hene ht _ hr ihe ihf ihr =>
    intro hne tail
    exact .noFrac (ihe (List.cons_ne_nil _ _) tail) hene ht
      (ihf (ne_nil_of_suffix hr.leavesSuffix hne) tail) (ihr hne tail)
  | more _ hene ht hgo _ ihe ihr =>
    exact fun hne tail => .more (ihe (List.cons_ne_nil _ _) tail) hene ht hgo (ihr hne tail)

/-! ## Readings that leave none -/

/-- The last of the tokens is no operator between operands. -/
def Settled (ts : List Token) : Prop :=
  ∀ t ∈ ts.getLast?, t.kind ≠ .role .infixed

theorem Settled.suffix {ts rest : List Token} (h : Settled ts) (hrest : rest <:+ ts) :
    Settled rest := by
  obtain ⟨front, rfl⟩ := hrest
  intro t ht
  refine h t ?_
  rw [List.getLast?_append, ht]
  rfl

/-- Something comes after an operator between operands. -/
theorem Settled.ne_nil {ts mid : List Token} {t : Token} {id : String} (h : Settled ts)
    (hsuffix : t :: mid <:+ ts) (ht : t.isInfixed id = true) : mid ≠ [] := by
  rintro rfl
  exact h.suffix hsuffix t rfl (Token.kind_of_isInfixed ht)

/-- If no tokens are left, and what is read is finished, the same is read with other tokens after
these; and if a run can be read from them, it comes after the items. -/
def Judgment.Joins (s : Setting) (tail : List Token) : Judgment → Prop
  | .simple nested ts e rest =>
    rest = [] → e ≠ .empty → All Finished e → Derives s (.simple nested (ts ++ tail) e tail)
  | .intermediate nested ts e rest =>
    rest = [] → e ≠ .empty → All Finished e → Derives s (.intermediate nested (ts ++ tail) e tail)
  | .run nested ts items _ =>
    nested = false → (∀ e ∈ items, All Finished e) → ∀ more, Derives s (.run false tail more []) →
      Derives s (.run false (ts ++ tail) (items ++ more) [])

/-- An item, and a run right after it. -/
theorem derives_run_cons {s : Setting} (hs : s.stop = none) {ts tail : List Token} {e : Expr}
    {more : List Expr} (he : Derives s (.intermediate false ts e tail)) (hne : e ≠ .empty)
    (htail : ahead (·.isInfixed "frac") tail = false) (hr : Derives s (.run false tail more [])) :
    Derives s (.run false ts (e :: more) []) := by
  cases tail with
  | nil =>
    obtain ⟨rfl, -⟩ := hr.nil_of_stops hs (.inl rfl)
    exact .last he hne (.inl rfl)
  | cons t tail => exact .more he hne htail (Bool.and_false _) hr

theorem Derives.joins {s : Setting} (hs : s.stop = none) {tail : List Token}
    (htail : ∀ id, ahead (·.isInfixed id) tail = false) {j : Judgment} (h : Derives s j)
    (hts : ∀ t ∈ j.tokens, t.Standard) (hlast : Settled j.tokens) : j.Joins s tail := by
  have unwrapped {e : Expr} (he : All Finished e.unwrap) : All Finished e :=
    (loose_finished.all_unwrap e).mp he
  induction h with
  | atEnd => exact fun _ hne => absurd rfl hne
  | atClosing => exact fun _ hne => absurd rfl hne
  | stray ht =>
    rintro rfl _ _
    exact .stray ht
  | leaf ht =>
    rintro rfl _ _
    exact .leaf ht
  | @unary nested t ts e operand rest ht he hc ih =>
    intro hrest _ hall
    have hkeep := hc
    rw [(hts t List.mem_cons_self).operand] at hkeep
    cases hkeep
    obtain ⟨hoperand, hall⟩ := all_unary.mp hall
    have hsuffix := List.suffix_cons t ts
    exact .unary ht (ih (forall_mem_of_suffix hts hsuffix) (hlast.suffix hsuffix) hrest
      (ne_empty_of_unwrap_ne_empty hoperand) (unwrapped hall)) hc
  | @binary nested t ts e f first second mid rest ht he hf hc hd ihe ihf =>
    intro hrest _ hall
    have hkeep := hd
    rw [(hts t List.mem_cons_self).secondOperand] at hkeep
    cases hkeep
    obtain ⟨⟨-, hsecond⟩, -, hall⟩ := all_binary.mp hall
    have hfne := ne_empty_of_unwrap_ne_empty hsecond
    have hsuffix : mid <:+ t :: ts := he.leavesSuffix.trans (List.suffix_cons t ts)
    -- the first operand does not reach the end, or there would be no second
    have hmid : mid ≠ [] := List.ne_nil_of_length_pos (Nat.zero_lt_of_lt (hf.progress hfne))
    exact .binary ht (he.extends hmid tail) (ihf (forall_mem_of_suffix hts hsuffix)
      (hlast.suffix hsuffix) hrest hfne (unwrapped hall)) hc hd
  | void ht hc =>
    rintro rfl _ _
    exact .void ht hc
  | @paren nested t ts items d rest ht hclosed hr hd =>
    rintro rfl _ _
    have hne := ne_nil_of_suffix hr.leavesSuffix (List.cons_ne_nil _ _)
    exact .paren ht ((ahead_append_of_ne_nil hne tail).trans hclosed)
      (hr.extends (List.cons_ne_nil _ _) tail) hd
  | unclosed => exact fun _ _ hall => absurd rfl (all_paren.mp hall).1
  | bare he hsub hsup ih =>
    intro hrest hne hall
    exact .bare (ih hts hlast hrest hne hall) (htail "sub") (htail "sup")
  | @dangling nested ts e t mid rest he ht hf =>
    rintro rfl _ _
    obtain ⟨hmid, -⟩ := hf.emptyAtStop rfl
    rcases ht with ht | ht <;> exact absurd hmid.symm (hlast.ne_nil he.leavesSuffix ht)
  | @sub nested ts e t mid f rest he ht hf hfne hsup _ ihf =>
    intro hrest _ hall
    obtain ⟨-, ⟨-, hall⟩, -⟩ := all_scripts.mp hall
    have hmid : mid <:+ ts := tail_suffix he.leavesSuffix
    exact .sub (he.extends (List.cons_ne_nil _ _) tail) ht (ihf (forall_mem_of_suffix hts hmid)
      (hlast.suffix hmid) hrest hfne (unwrapped hall)) hfne (htail "sup")
  | @subSup nested ts e t mid f u mid' g rest he ht hf hfne hu hg _ _ ihg =>
    intro hrest _ hall
    subst hrest
    obtain ⟨-, -, hall⟩ := all_scripts.mp hall
    have hsuffix : u :: mid' <:+ ts := hf.leavesSuffix.trans (tail_suffix he.leavesSuffix)
    have hgne : g ≠ .empty := by
      rintro rfl
      exact hlast.ne_nil hsuffix hu (hg.emptyAtStop rfl).1.symm
    exact .subSup (he.extends (List.cons_ne_nil _ _) tail) ht
      (hf.extends (List.cons_ne_nil _ _) tail) hfne hu
      (ihg (forall_mem_of_suffix hts (tail_suffix hsuffix)) (hlast.suffix (tail_suffix hsuffix)) rfl
        hgne (unwrapped hall))
  | @sup nested ts e t mid f rest he ht hf hfne _ ihf =>
    intro hrest _ hall
    obtain ⟨-, -, hall⟩ := all_scripts.mp hall
    have hmid : mid <:+ ts := tail_suffix he.leavesSuffix
    exact .sup (he.extends (List.cons_ne_nil _ _) tail) ht (ihf (forall_mem_of_suffix hts hmid)
      (hlast.suffix hmid) hrest hfne (unwrapped hall)) hfne
  | done he =>
    rintro rfl _ more hmore
    obtain ⟨rfl, hnil | ⟨hnested, -⟩⟩ := he.emptyAtStop rfl
    · subst hnil
      exact hmore
    · cases hnested
  | last he hne hend ih =>
    rintro rfl hall more hmore
    have hrest := hend.resolve_right fun h => Bool.noConfusion h.1
    exact derives_run_cons hs (ih hts hlast hrest hne (hall _ List.mem_cons_self)) hne
      (htail "frac") hmore
  | @frac nested ts e t mid f mid' items rest he hne ht hf hfne hr _ ihf ihr =>
    rintro rfl hall more hmore
    obtain ⟨hitem, hitems⟩ := List.forall_mem_cons.mp hall
    obtain ⟨-, -, hsecond⟩ := all_infixed.mp hitem
    have hmid : mid <:+ ts := tail_suffix he.leavesSuffix
    have he' := he.extends (List.cons_ne_nil _ _) tail
    by_cases hnil : mid' = []
    · subst hnil
      obtain ⟨rfl, -⟩ := hr.nil_of_stops hs (.inl rfl)
      exact .frac he' hne ht (ihf (forall_mem_of_suffix hts hmid) (hlast.suffix hmid) rfl hfne
        (unwrapped hsecond)) hfne hmore
    · have hmid' : mid' <:+ ts := hf.leavesSuffix.trans hmid
      exact .frac he' hne ht (hf.extends hnil tail) hfne
        (ihr (forall_mem_of_suffix hts hmid') (hlast.suffix hmid') rfl hitems more hmore)
  | @noFrac nested ts e t mid mid' items rest he hne ht hf =>
    rintro rfl _ _ _
    obtain ⟨-, hnil | ⟨hnested, -⟩⟩ := hf.emptyAtStop rfl
    · exact absurd hnil (hlast.ne_nil he.leavesSuffix ht)
    · cases hnested
  | @more nested ts e t mid items rest he hne ht hgo hr _ ihr =>
    rintro rfl hall more hmore
    have hsuffix := he.leavesSuffix
    exact .more (he.extends (List.cons_ne_nil _ _) tail) hne ht hgo
      (ihr (forall_mem_of_suffix hts hsuffix) (hlast.suffix hsuffix) rfl
        (List.forall_mem_cons.mp hall).2 more hmore)

end Grammar

/-! ## Sources -/

open Grammar

/-- With the built-in spellings, take two sources that keep their tokens when they are written one
after the other.  If nothing in the expression of the first waits for more, the first does not end
in an operator between operands, and the second does not start with one, then the items of the
whole are the items of the first and the items of the second. -/
theorem juxtaposition_concatenates (colors : ColorTable) (a b : String) :
    ∃ e f g, Expr.parse .spellings colors a = .ok e ∧ Expr.parse .spellings colors b = .ok f ∧
      Expr.parse .spellings colors (a ++ " " ++ b) = .ok g ∧
      ((SymbolTable.spellings.read (a ++ " " ++ b)).tokens =
          (SymbolTable.spellings.read a).tokens ++ (SymbolTable.spellings.read b).tokens →
        e.All Expr.Finished →
        (∀ t ∈ (SymbolTable.spellings.read a).tokens.getLast?, t.kind ≠ .role .infixed) →
        (∀ t ∈ (SymbolTable.spellings.read b).tokens.head?, t.kind ≠ .role .infixed) →
        g.items = e.items ++ f.items) := by
  have derives (source : String) := exists_derives_of_convertible colors
    (SymbolTable.error_read_spellings source)
    fun t ht => (Token.standard_read source t ht).convertible
  obtain ⟨items, ha, hda⟩ := derives a
  obtain ⟨more, hb, hdb⟩ := derives b
  obtain ⟨all, hab, -⟩ := derives (a ++ " " ++ b)
  refine ⟨_, _, _, ha, hb, hab, fun htokens hfinished hlast hfirst => ?_⟩
  have htail (id : String) :
      ahead (·.isInfixed id) (SymbolTable.spellings.read b).tokens = false := by
    cases hread : (SymbolTable.spellings.read b).tokens with
    | nil => rfl
    | cons t ts =>
      rw [hread] at hfirst
      exact Bool.eq_false_iff.mpr fun ht => hfirst t rfl (Token.kind_of_isInfixed ht)
  have hjoined := hda.joins rfl htail (Token.standard_read a) hlast rfl
    ((Expr.all_ofItems Expr.loose_finished.sequence items).mp hfinished) more hdb
  have hall : Expr.ofItems all = .ofItems (items ++ more) := by
    rw [← htokens] at hjoined
    exact Except.ok.inj
      (hab.symm.trans (parse_of_derives (SymbolTable.error_read_spellings _) hjoined))
  have items_eq {ts : List Token} {es : List Expr}
      (hd : Derives ⟨colors, none⟩ (.run false ts es [])) : (Expr.ofItems es).items = es :=
    Expr.items_ofItems fun e he => (hd.wellShaped e he).2
  rw [hall, items_eq hjoined, items_eq hda, items_eq hdb]

/-- A bar that closes, and after it a delimiter that closes nothing. -/
theorem juxtaposition_concatenates_stray :
    ∃ g, Expr.parse .spellings .basic ("sqrt x |y|" ++ " " ++ ")_2") = .ok g ∧
      g.items =
        [.unary (.symbol ⟨some "sqrt", "sqrt"⟩) (.identifier "x"),
          .paren (.symbol ⟨some "vbar", "|"⟩) (.identifier "y") (.symbol ⟨some "vbar", "|"⟩) false,
          .scripts (.symbol ⟨some "rparen", ")"⟩) (.number "2") .empty] := by
  let bar : Token := ⟨.role .fence, some "vbar", "|", []⟩
  let x : Token := ⟨.identifier, some "x", "x", []⟩
  let y : Token := ⟨.identifier, some "y", "y", []⟩
  let root : Token := ⟨.role .unary, some "sqrt", "sqrt", []⟩
  let two : Token := ⟨.number, some "2", "2", []⟩
  have htokens : (SymbolTable.spellings.read "sqrt x |y|").tokens = [root, x, bar, y, bar] := by
    rw [SymbolTable.read_spellings]
    decide +kernel
  have htokens' : (SymbolTable.spellings.read ")_2").tokens = [.rightRound, .sub, two] := by
    rw [SymbolTable.read_spellings]
    decide +kernel
  have hd : Derives ⟨.basic, none⟩ (.run false (SymbolTable.spellings.read "sqrt x |y|").tokens
      [.unary (.symbol root.toSymbol) (.identifier "x"),
        .paren (.symbol bar.toSymbol) (.identifier "y") (.symbol bar.toSymbol) false] []) := by
    have hbody : Derives ⟨.basic, none⟩ (.run true [y, bar] [.identifier "y"] [bar]) :=
      .last (.bare (.leaf rfl) rfl rfl) nofun (.inr ⟨rfl, rfl⟩)
    rw [htokens]
    exact .more (.bare (.unary rfl (.leaf rfl) rfl) rfl rfl) nofun rfl rfl
      (.last (.bare (.paren rfl rfl hbody rfl) rfl rfl) nofun (.inl rfl))
  have hd' : Derives ⟨.basic, none⟩ (.run false (SymbolTable.spellings.read ")_2").tokens
      [.scripts (.symbol Token.rightRound.toSymbol) (.number "2") .empty] []) := by
    rw [htokens']
    exact .last (.sub (.stray rfl) rfl (.leaf rfl) nofun rfl) nofun (.inl rfl)
  obtain ⟨e, f, g, he, hf, hg, hitems⟩ :=
    juxtaposition_concatenates .basic "sqrt x |y|" ")_2"
  obtain rfl := Except.ok.inj
    ((parse_of_derives (SymbolTable.error_read_spellings _) hd).symm.trans he)
  obtain rfl := Except.ok.inj
    ((parse_of_derives (SymbolTable.error_read_spellings _) hd').symm.trans hf)
  refine ⟨g, hg, hitems ?_ ?_ ?_ ?_⟩
  · rw [htokens, htokens', SymbolTable.read_spellings]
    decide +kernel
  · simp [Expr.All, Expr.ofItems, Expr.nodes, Expr.itemNodes, Expr.Finished]
  · rw [htokens]
    decide
  · rw [htokens']
    decide

end MathMarkup
