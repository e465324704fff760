import MathMarkup.Proofs.Lexing

/-!
# When a source has no expression

Reading a source fails for one of two reasons, and both are in the table.  An entry that is met has
no role in the grammar, so its spelling cannot be read; or an operator asks for a conversion of an
operand that does not exist.  No form of the source itself makes reading fail.

The rules of the grammar do not mention errors, so there are two things to show of a run that comes
to its end:

* it has taken every token, and so has converted the operands of every operator
  (`Grammar.Derives.converts`);
* it has looked beyond the last token, where the error of a spelling waits
  (`Grammar.atEnd_of_run`).

`parse_fails_iff` puts these together with the totality of the rules.
-/

namespace MathMarkup

/-! ## Conversions -/

/-- A conversion that metadata can ask for: none at all, nothing, or one of the two choices that
there are for an operand. -/
def Value.IsConversion (asked : Option Value) : Prop :=
  asked = none ∨ asked = some .null ∨ asked = some (.choice .keepOperand) ∨
    asked = some (.choice .colorOperand)

theorem Conversion.ofValue_ne_unknown_iff {asked : Option Value} :
    (∀ v, Conversion.ofValue asked ≠ .unknown v) ↔ Value.IsConversion asked := by
  constructor
  · intro h
    unfold Conversion.ofValue at h
    split at h
    · exact .inl rfl
    · exact .inr (.inl rfl)
    · exact .inr (.inr (.inl rfl))
    · exact .inr (.inr (.inr rfl))
    · exact absurd rfl (h _)
  · rintro (rfl | rfl | rfl | rfl) v <;> exact nofun

/-- A text is not the choice that it spells. -/
example : ¬ Value.IsConversion (some (.text "none")) := by
  simp [Value.IsConversion]

/-- An operator that asks for a conversion that does not exist. -/
def Token.Misdirected (t : Token) : Prop :=
  t.kind = .role .unary ∧ ¬ Value.IsConversion (t.extra.value? "convert_operand") ∨
    t.kind = .role .binary ∧ (¬ Value.IsConversion (t.extra.value? "convert_operand1") ∨
      ¬ Value.IsConversion (t.extra.value? "convert_operand2"))

theorem Token.convertible_iff_not_misdirected {t : Token} : t.Convertible ↔ ¬ t.Misdirected := by
  simp only [Convertible, Misdirected, operand, firstOperand, secondOperand, conversion,
    Conversion.ofValue_ne_unknown_iff, not_or, not_and, not_not]

namespace Grammar

theorem conversion_ne_unknown {s : Setting} {c : Conversion} {e e' : Expr}
    (h : s.convert c e = .ok e') (v : Value) : c ≠ .unknown v := by
  rintro rfl
  exact nomatch h

/-! ## Every token is taken -/

/-- Tokens are taken up to the rest, and each can be converted. -/
def Takes (ts rest : List Token) : Prop :=
  ∃ taken, ts = taken ++ rest ∧ ∀ t ∈ taken, t.Convertible

theorem Takes.refl (ts : List Token) : Takes ts ts :=
  ⟨[], rfl, nofun⟩

theorem Takes.trans {ts mid rest : List Token} (h : Takes ts mid) (h' : Takes mid rest) :
    Takes ts rest := by
  obtain ⟨taken, rfl, htaken⟩ := h
  obtain ⟨taken', rfl, htaken'⟩ := h'
  refine ⟨taken ++ taken', (List.append_assoc _ _ _).symm, ?_⟩
  exact List.forall_mem_append.mpr ⟨htaken, htaken'⟩

theorem Takes.cons {t : Token} {ts rest : List Token} (ht : t.Convertible) (h : Takes ts rest) :
    Takes (t :: ts) rest := by
  obtain ⟨taken, rfl, htaken⟩ := h
  exact ⟨t :: taken, rfl, List.forall_mem_cons.mpr ⟨ht, htaken⟩⟩

/-- A token that is no operator before its operands asks for no conversion. -/
theorem convertible_of_kind {t : Token} (hunary : t.kind ≠ .role .unary)
    (hbinary : t.kind ≠ .role .binary) : t.Convertible :=
  ⟨fun h => absurd h hunary, fun h => absurd h hbinary⟩

theorem convertible_of_opens {t : Token} (h : t.opens = true) : t.Convertible := by
  simp only [Token.opens, Bool.or_eq_true, beq_iff_eq] at h
  rcases h with h | h <;> exact convertible_of_kind (by simp [h]) (by simp [h])

theorem convertible_of_closes {t : Token} (h : t.closes = true) : t.Convertible := by
  simp only [Token.closes, Bool.or_eq_true, beq_iff_eq] at h
  rcases h with h | h <;> exact convertible_of_kind (by simp [h]) (by simp [h])

theorem convertible_of_isInfixed {t : Token} {id : String} (h : t.isInfixed id = true) :
    t.Convertible := by
  have hkind := Token.kind_of_isInfixed h
  exact convertible_of_kind (by simp [hkind]) (by simp [hkind])

theorem convertible_of_isLeaf {t : Token} (h : t.isLeaf = true) : t.Convertible := by
  refine convertible_of_kind ?_ ?_ <;> intro hkind <;> simp [Token.isLeaf, hkind] at h

/-- Every token that is taken can be converted. -/
def Judgment.Converts : Judgment → Prop
  | .simple _ ts _ rest => Takes ts rest
  | .intermediate _ ts _ rest => Takes ts rest
  | .run _ ts _ rest => Takes ts rest

theorem Derives.converts {s : Setting} {j : Judgment} (h : Derives s j) : j.Converts := by
  induction h with
  | atEnd => exact .refl _
  | atClosing => exact .refl _
  | stray ht => exact .cons (convertible_of_closes (Token.closes_of_isClosing ht)) (.refl _)
  | leaf ht => exact .cons (convertible_of_isLeaf ht) (.refl _)
  | unary ht _ hc ih =>
    refine .cons ⟨fun _ => conversion_ne_unknown hc, fun hbinary => ?_⟩ ih
    rw [ht] at hbinary
    exact nomatch hbinary
  | binary ht _ _ hc hd ihe ihf =>
    refine .cons ⟨fun hunary => ?_, fun _ => ?_⟩ (ihe.trans ihf)
    · rw [ht] at hunary
      exact nomatch hunary
    · exact ⟨conversion_ne_unknown hc, conversion_ne_unknown hd⟩
  | void ht hc => exact .cons (convertible_of_opens ht) (.cons (convertible_of_closes hc) (.refl _))
  | paren ht _ _ hd ih =>
    exact .cons (convertible_of_opens ht) (ih.trans (.cons (convertible_of_closes hd) (.refl _)))
  | unclosed ht _ _ ih => exact .cons (convertible_of_opens ht) ih
  | bare _ _ _ ih => exact ih
  | dangling _ ht _ ihe ihf =>
    exact ihe.trans (.cons (ht.elim convertible_of_isInfixed convertible_of_isInfixed) ihf)
  | sub _ ht _ _ _ ihe ihf => exact ihe.trans (.cons (convertible_of_isInfixed ht) ihf)
  | subSup _ ht _ _ hu _ ihe ihf ihg =>
    exact ihe.trans (.cons (convertible_of_isInfixed ht)
      (ihf.trans (.cons (convertible_of_isInfixed hu) ihg)))
  | sup _ ht _ _ ihe ihf => exact ihe.trans (.cons (convertible_of_isInfixed ht) ihf)
  | done _ ih => exact ih
  | last _ _ _ ih => exact ih
  | frac _ _ ht _ _ _ ihe ihf ihr =>
    exact ihe.trans (.cons (convertible_of_isInfixed ht) (ihf.trans ihr))
  | noFrac _ _ ht _ _ ihe ihf ihr =>
    exact ihe.trans (.cons (convertible_of_isInfixed ht) (ihf.trans ihr))
  | more _ _ _ _ _ ihe ihr => exact ihe.trans ihr

/-! ## The end of the tokens is met -/

theorem atEnd_of_simple_nil {s : Setting} {nested : Bool} {st : Step []}
    (h : simple s nested [] = .ok st) : s.atEnd = .ok () := by
  unfold simple at h
  obtain ⟨_, hend, -⟩ := bind_eq_ok h
  exact hend

theorem atEnd_of_intermediate_nil {s : Setting} {nested : Bool} {st : Step []}
    (h : intermediate s nested [] = .ok st) : s.atEnd = .ok () := by
  unfold intermediate at h
  obtain ⟨e, he, -⟩ := bind_eq_ok h
  exact atEnd_of_simple_nil he

/-- A run over all tokens looks beyond the last of them. -/
theorem atEnd_of_run {s : Setting} {nested : Bool} {ts : List Token} {r : Run ts}
    (h : run s nested ts = .ok r) (hrest : r.rest = []) : s.atEnd = .ok () := by
  induction hlen : ts.length using Nat.strong_induction_on generalizing ts with
  | _ n ih =>
    subst hlen
    unfold run at h
    obtain ⟨⟨e, left, hle, hlt⟩, he, h⟩ := bind_eq_ok h
    dsimp only at h
    split at h
    · -- nothing was read, so the tokens had ended before
      rename_i hempty
      cases h
      have hd := (intermediateSound (simpleSound_runSound s (ts.length + 1)).1) nested ts _
        (Nat.lt_succ_self _) he
      have hleft : left = ts := (hd.emptyAtStop hempty).1
      have hts : ts = [] := hleft.symm.trans hrest
      subst hts
      exact atEnd_of_intermediate_nil he
    · rename_i hne
      have hshorter := hlt hne
      cases left with
      | nil =>
        obtain ⟨_, hend, -⟩ := bind_eq_ok h
        exact hend
      | cons t rest =>
        rw [List.length_cons] at hshorter
        dsimp only at h
        split at h
        · obtain ⟨f, hf, h⟩ := bind_eq_ok h
          obtain ⟨r', hr, h⟩ := bind_eq_ok h
          cases h
          have hfle := f.le
          exact ih _ (by omega) hr hrest rfl
        · split at h
          · cases h
            exact nomatch hrest
          · obtain ⟨r', hr, h⟩ := bind_eq_ok h
            cases h
            exact ih _ (by rw [List.length_cons]; omega) hr hrest rfl

end Grammar

/-! ## Tables without misdirected operators -/

/-- A table whose operators ask only for conversions that exist. -/
def SymbolTable.Converts (symbols : SymbolTable) : Prop :=
  ∀ key d, symbols.lookup key = some d →
    (d.kind = .grammar .unary → Value.IsConversion (d.extra.value? "convert_operand")) ∧
      (d.kind = .grammar .binary → Value.IsConversion (d.extra.value? "convert_operand1") ∧
        Value.IsConversion (d.extra.value? "convert_operand2"))

theorem SymbolTable.Converts.convertible {symbols : SymbolTable} (h : symbols.Converts) {t : Token}
    (ht : t.Listed symbols) : t.Convertible := by
  cases ht with
  | @spelling text d role hd hrole =>
    obtain ⟨hunary, hbinary⟩ := h text d hd
    refine ⟨fun hkind => ?_, fun hkind => ?_⟩
    · cases hkind
      exact Conversion.ofValue_ne_unknown_iff.mpr (hunary hrole)
    · cases hkind
      obtain ⟨hfirst, hsecond⟩ := hbinary hrole
      exact ⟨Conversion.ofValue_ne_unknown_iff.mpr hfirst,
        Conversion.ofValue_ne_unknown_iff.mpr hsecond⟩
  | _ => exact Grammar.convertible_of_kind nofun nofun

theorem SymbolTable.converts_spellings : spellings.Converts := by
  intro key d hd
  refine ⟨fun hkind => ?_, fun hkind => ?_⟩
  · obtain ⟨hunary, -⟩ := (Token.Listed.spelling hd hkind).standard.convertible
    exact Conversion.ofValue_ne_unknown_iff.mp (hunary rfl)
  · obtain ⟨-, hbinary⟩ := (Token.Listed.spelling hd hkind).standard.convertible
    obtain ⟨hfirst, hsecond⟩ := hbinary rfl
    exact ⟨Conversion.ofValue_ne_unknown_iff.mp hfirst,
      Conversion.ofValue_ne_unknown_iff.mp hsecond⟩

/-! ## Sources without an expression -/

open Grammar

/-- A source that has an expression can be read to its end. -/
theorem error_read_of_parse {symbols : SymbolTable} {colors : ColorTable} {source : String}
    {e : Expr} (h : Expr.parse symbols colors source = .ok e) :
    (symbols.read source).error = none := by
  obtain ⟨r, hr, -⟩ := bind_eq_ok h
  have hend := atEnd_of_run hr (derives_of_run hr).rest_eq_nil
  unfold Setting.atEnd at hend
  split at hend
  · assumption
  · cases hend

/-- A source that has an expression has no operator that asks for a conversion that does not
exist. -/
theorem not_misdirected_of_parse {symbols : SymbolTable} {colors : ColorTable} {source : String}
    {e : Expr} (h : Expr.parse symbols colors source = .ok e) :
    ∀ t ∈ (symbols.read source).tokens, ¬ t.Misdirected := by
  obtain ⟨items, -, hd⟩ := derives_of_parse h
  obtain ⟨taken, htaken, hconvertible⟩ := hd.converts
  rw [List.append_nil] at htaken
  rw [htaken]
  exact fun t ht => Token.convertible_iff_not_misdirected.mp (hconvertible t ht)

/-- With any tables, reading a source fails exactly if a spelling cannot be read or an operator
asks for a conversion that does not exist.  A spelling that cannot be read is a key of the table
that has no role.  With the built-in tables, every source has an expression. -/
theorem parse_fails_iff :
    (∀ symbols colors source,
      ((∃ e, Expr.parse symbols colors source = .error e) ↔
        (symbols.read source).error ≠ none ∨
          ∃ t ∈ (symbols.read source).tokens, t.Misdirected) ∧
      ∀ spelling, (symbols.read source).error = some (.noRole spelling) →
        ∃ d display, symbols.lookup spelling = some d ∧ d.kind = .display display) ∧
    ∀ source, ∃ e, Expr.parse .spellings .basic source = .ok e := by
  refine ⟨fun symbols colors source => ⟨⟨?_, ?_⟩, ?_⟩, fun source => ?_⟩
  · rintro ⟨e, he⟩
    by_contra hgood
    simp only [not_or, not_exists, not_and, not_not] at hgood
    obtain ⟨items, hparse, -⟩ := exists_derives_of_convertible colors hgood.1
      fun t ht => Token.convertible_iff_not_misdirected.mpr (hgood.2 t ht)
    rw [hparse] at he
    exact nomatch he
  · intro hbad
    cases hparse : Expr.parse symbols colors source with
    | error e => exact ⟨e, rfl⟩
    | ok e =>
      rcases hbad with herror | ⟨t, ht, hmisdirected⟩
      · exact absurd (error_read_of_parse hparse) herror
      · exact absurd hmisdirected (not_misdirected_of_parse hparse t ht)
  · exact fun spelling => Token.exists_display_of_readAll
  · obtain ⟨items, hparse, -⟩ := exists_derives_spellings source
    exact ⟨_, hparse⟩

end MathMarkup
