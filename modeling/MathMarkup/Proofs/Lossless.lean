import MathMarkup.Proofs.Lexing

/-!
# Nothing of a source is lost

A source is its tokens with blanks before, between and after them.  `Token.Spread` says so together
with the form that each token has where it stands: a number is a numeral, an identifier is its own
content, and a literal text has its content between its delimiters.  A literal text that is not
closed takes all that is left, so it is the last token and no blank follows it; the form of a token
is therefore said in view of the source that comes after it (`Token.Formed`).

* `Token.formed_readAt`: one token has its form.
* `lossless_lexing`: a source is spread over its tokens, of which there are no more than it has
  characters.
-/

namespace MathMarkup

namespace Token

open Text

/-! ## Numerals -/

/-- Digits, and at least one of them. -/
def IsDigits (cs : List Char) : Prop :=
  cs ≠ [] ∧ ∀ c ∈ cs, isDigit c = true

/-- Perhaps a minus sign, digits, and perhaps a point with digits after it. -/
def IsNumeral (cs : List Char) : Prop :=
  ∃ sign whole fraction, cs = sign ++ whole ++ fraction ∧ (sign = [] ∨ sign = ['-']) ∧
    IsDigits whole ∧ (fraction = [] ∨ ∃ digits, IsDigits digits ∧ fraction = '.' :: digits)

theorem isDigits_takeWhile {cs : List Char} (h : (cs.takeWhile isDigit).isEmpty = false) :
    IsDigits (cs.takeWhile isDigit) := by
  refine ⟨fun hnil => ?_, fun c hc => List.mem_takeWhile_imp hc⟩
  rw [hnil] at h
  exact nomatch h

theorem splitFraction_form (cs : List Char) :
    (splitFraction cs).1 = [] ∨
      ∃ digits, IsDigits digits ∧ (splitFraction cs).1 = '.' :: digits := by
  unfold splitFraction
  split
  · rename_i after
    split
    · exact .inl rfl
    · rename_i hne
      exact .inr ⟨_, isDigits_takeWhile (Bool.eq_false_iff.mpr hne), rfl⟩
  · exact .inl rfl

theorem splitUnsigned?_form {cs digits rest : List Char}
    (h : splitUnsigned? cs = some (digits, rest)) :
    ∃ whole fraction, digits = whole ++ fraction ∧ IsDigits whole ∧
      (fraction = [] ∨ ∃ ds, IsDigits ds ∧ fraction = '.' :: ds) := by
  unfold splitUnsigned? at h
  split at h
  · exact nomatch h
  · rename_i hne
    cases h
    exact ⟨_, _, rfl, isDigits_takeWhile (Bool.eq_false_iff.mpr hne), splitFraction_form _⟩

/-- What is split off as a number is a numeral. -/
theorem isNumeral_of_splitNumber? {cs digits rest : List Char}
    (h : splitNumber? cs = some (digits, rest)) : IsNumeral digits := by
  unfold splitNumber? at h
  split at h
  · obtain ⟨⟨ds, r⟩, hsplit, heq⟩ := Option.map_eq_some_iff.mp h
    cases heq
    obtain ⟨whole, fraction, rfl, hwhole, hfraction⟩ := splitUnsigned?_form hsplit
    exact ⟨['-'], whole, fraction, rfl, .inr rfl, hwhole, hfraction⟩
  · obtain ⟨whole, fraction, rfl, hwhole, hfraction⟩ := splitUnsigned?_form h
    exact ⟨[], whole, fraction, rfl, .inl rfl, hwhole, hfraction⟩

/-! ## The form of a token -/

/-- What opens a literal text, and the character that closes it. -/
def literalForms : List (String × Char) :=
  [("\"", '"'), ("text(", ')')]

/-- The form of a token that has the given source after it. -/
def Formed (t : Token) (rest : List Char) : Prop :=
  t.text ≠ "" ∧
    match t.kind with
    | .role _ => True
    | .identifier => t.value = some t.text
    | .number => t.value = some t.text ∧ IsNumeral t.text.toList
    | .text =>
      ∃ form ∈ literalForms, ∃ content, t.value = some content ∧ form.2 ∉ content.toList ∧
        (t.text = form.1 ++ content ++ String.singleton form.2 ∨
          t.text = form.1 ++ content ∧ rest = [])

/-- A source is blanks and tokens in turn, and each token has its form. -/
inductive Spread : List Char → List Token → Prop where
  | done {cs} (hcs : ∀ c ∈ cs, isBlank c = true) : Spread cs []
  | next {gap rest t ts} (hgap : ∀ c ∈ gap, isBlank c = true) (ht : t.Formed rest)
      (h : Spread rest ts) : Spread (gap ++ (t.text.toList ++ rest)) (t :: ts)

/-- A literal text has its content between its delimiters, or before the end of the source. -/
theorem readLiteral_form {form : String × Char} {body rest : List Char} {t : Token}
    (h : readLiteral form.1.toList form.2 body = (t, rest)) :
    t.kind = .text ∧ ∃ content, t.value = some content ∧ form.2 ∉ content.toList ∧
      (t.text = form.1 ++ content ++ String.singleton form.2 ∨
        t.text = form.1 ++ content ∧ rest = []) := by
  have habsent : form.2 ∉ body.takeWhile (· ≠ form.2) := by
    intro hmem
    have hne := List.mem_takeWhile_imp hmem
    simp at hne
  unfold readLiteral at h
  split at h
  · cases h
    refine ⟨rfl, _, rfl, by rwa [String.toList_ofList], .inr ⟨?_, rfl⟩⟩
    rw [← String.toList_inj]
    simp
  · cases h
    refine ⟨rfl, _, rfl, by rwa [String.toList_ofList], .inl ?_⟩
    rw [← String.toList_inj]
    simp

/-- A spelling or a single unit is no number and no literal text. -/
theorem readSymbol_form {symbols : SymbolTable} {window : Nat} {c : Char} {after rest : List Char}
    {t : Token} (h : readSymbol symbols window c after = .ok (t, rest)) :
    (∃ role, t.kind = .role role) ∨ t.kind = .identifier ∧ t.value = some t.text := by
  unfold readSymbol at h
  dsimp only at h
  split at h
  · split at h
    · rename_i role _
      cases h
      exact .inl ⟨role, rfl⟩
    · exact nomatch h
  · cases h
    exact .inr ⟨rfl, rfl⟩

/-- A token that is read has its form. -/
theorem formed_readAt {symbols : SymbolTable} {window : Nat} {c : Char} {after rest : List Char}
    {t : Token} (h : readAt symbols window c after = .ok (t, rest)) : t.Formed rest := by
  have hne : t.text ≠ "" := by
    intro htext
    have hlength := congrArg List.length (readAt_spec h).2
    have hle := length_readAt_le h
    rw [htext, List.length_append, List.length_cons] at hlength
    have hnil : "".toList.length = 0 := rfl
    omega
  refine ⟨hne, ?_⟩
  unfold readAt at h
  split at h
  · have h := Except.ok.inj h
    obtain ⟨hkind, hform⟩ := @readLiteral_form ("\"", '"') after rest t h
    rw [hkind]
    exact ⟨_, List.mem_cons_self, hform⟩
  split at h
  · have h := Except.ok.inj h
    obtain ⟨hkind, hform⟩ := @readLiteral_form ("text(", ')') (after.drop 4) rest t h
    rw [hkind]
    exact ⟨_, List.mem_cons_of_mem _ List.mem_cons_self, hform⟩
  split at h
  · rename_i digits rest' hnumber
    cases h
    refine ⟨rfl, ?_⟩
    rw [String.toList_ofList]
    exact isNumeral_of_splitNumber? hnumber
  · rcases readSymbol_form h with ⟨role, hkind⟩ | ⟨hkind, hvalue⟩
    · rw [hkind]
      trivial
    · rw [hkind]
      exact hvalue

/-! ## The whole source -/

theorem next_formed {symbols : SymbolTable} {window : Nat} {cs rest : List Char} {t : Token}
    (h : next symbols window cs = .ok (some (t, rest))) : t.Formed rest := by
  unfold next at h
  split at h
  · cases h
  · rename_i c after _
    cases hread : readAt symbols window c after with
    | error e =>
      rw [hread] at h
      cases h
    | ok p =>
      rw [hread] at h
      cases h
      exact formed_readAt hread

theorem spread_readAll {symbols : SymbolTable} {window : Nat} {cs : List Char}
    (herror : (readAll symbols window cs).error = none) :
    Spread cs (readAll symbols window cs).tokens := by
  fun_induction readAll symbols window cs with
  | case1 cs e h => exact absurd herror (Option.some_ne_none e)
  | case2 cs h => exact .done (all_isBlank_of_next h)
  | case3 cs t rest h _ reading ih =>
    rw [(next_spec h).2]
    exact .next (fun c hc => List.mem_takeWhile_imp hc) (next_formed h) (ih herror)

/-- No token is empty, so there are no more of them than there are characters. -/
theorem Spread.length_le {cs : List Char} {ts : List Token} (h : Spread cs ts) :
    ts.length ≤ cs.length := by
  induction h with
  | done => exact Nat.zero_le _
  | @next gap rest t ts _ ht _ ih =>
    have hpos : 0 < t.text.toList.length := by
      refine List.length_pos_iff.mpr fun hnil => ht.1 ?_
      rw [← String.toList_inj, hnil]
      rfl
    simp only [List.length_cons, List.length_append]
    omega

theorem Spread.exists_formed {cs : List Char} {ts : List Token} (h : Spread cs ts) :
    ∀ t ∈ ts, ∃ rest, t.Formed rest := by
  induction h with
  | done => exact nofun
  | next _ ht _ ih => exact List.forall_mem_cons.mpr ⟨⟨_, ht⟩, ih⟩

end Token

/-- With a table of roles, every source is read to its end.  It is its tokens with blanks before,
between and after them, and it has as many characters as tokens at least. -/
theorem lossless_lexing {symbols : SymbolTable} (hroles : symbols.HasRoles) (source : String) :
    (symbols.read source).error = none ∧
      (symbols.read source).tokens.length ≤ source.length ∧
      Token.Spread source.toList (symbols.read source).tokens := by
  have herror : (symbols.read source).error = none := Token.error_readAll hroles
  have hspread : Token.Spread source.toList (symbols.read source).tokens :=
    Token.spread_readAll herror
  refine ⟨herror, ?_, hspread⟩
  rw [← String.length_toList]
  exact hspread.length_le

/-- A minus sign before a space, a numeral, and a literal text that is not closed. -/
theorem lossless_lexing_unclosed :
    SymbolTable.spellings.HasRoles ∧
      (SymbolTable.spellings.read "x - -2.5 text(\"a ").error = none ∧
      (SymbolTable.spellings.read "x - -2.5 text(\"a ").tokens.length ≤
        "x - -2.5 text(\"a ".length ∧
      Token.Spread "x - -2.5 text(\"a ".toList
        (SymbolTable.spellings.read "x - -2.5 text(\"a ").tokens :=
  ⟨SymbolTable.hasRoles_spellings, lossless_lexing SymbolTable.hasRoles_spellings _⟩

end MathMarkup
