import Mathlib.Data.List.TakeWhile
import MathMarkup.Proofs.AsciiChars
import MathMarkup.Proofs.Completeness
import MathMarkup.Symbol.Spelling

/-!
# What the reader of tokens gives

Two facts hold with any table.  A token that is read has the form that its kind asks for
(`Token.Listed`): a spelling has the role, the id and the metadata of its entry, and anything else
its own content.  And nothing of a source is lost: without the blanks between them, the texts of the
tokens are the source (`Token.Laid`).

With the built-in table there is more to say, because a spelling decides what its token is
(`Token.Standard`): a symbol of an expression has one token it can stand for, `Symbol.token`, and
the scripts and the brackets of rows have one spelling each.

* `Token.listed_read`, `Token.laid_read`: the facts for any table.
* `SymbolTable.error_read_spellings`: with the built-in table, reading never ends in an error.
* `Token.standard_read`: with the built-in table, every token is standard.
-/

namespace MathMarkup

/-- A table whose entries all have a role in the grammar. -/
def SymbolTable.HasRoles (t : SymbolTable) : Prop :=
  ∀ key d, t.lookup key = some d → ∃ role, d.kind = .grammar role

namespace Token

open Text

/-! ## One token -/

/-- The forms of the tokens that can be read with a table. -/
inductive Listed (symbols : SymbolTable) : Token → Prop where
  | spelling {text d role} (hd : symbols.lookup text = some d) (hrole : d.kind = .grammar role) :
      Listed symbols ⟨.role role, d.value, text, d.extra⟩
  /-- A literal text has its content between two delimiters. -/
  | literal {opening content closing : List Char} :
      Listed symbols
        ⟨.text, some (String.ofList content), String.ofList (opening ++ content ++ closing), []⟩
  | number {digits} : Listed symbols ⟨.number, some digits, digits, []⟩
  | identifier {name} : Listed symbols ⟨.identifier, some name, name, []⟩

theorem readLiteral_spec {opening body rest : List Char} {close : Char} {t : Token}
    (symbols : SymbolTable) (h : readLiteral opening close body = (t, rest)) :
    t.Listed symbols ∧ t.text.toList ++ rest = opening ++ body := by
  have hbody := List.takeWhile_append_dropWhile (p := (· ≠ close)) (l := body)
  unfold readLiteral at h
  split at h
  · rename_i hnil
    rw [hnil, List.append_nil] at hbody
    cases h
    refine ⟨?_, ?_⟩
    · rw [← List.append_nil (opening ++ _)]
      exact .literal
    · rw [String.toList_ofList, List.append_nil, hbody]
  · rename_i c rest' hcons
    cases h
    refine ⟨.literal, ?_⟩
    have hc : c = close := by
      have hne : body.dropWhile (· ≠ close) ≠ [] := by rw [hcons]; exact List.cons_ne_nil _ _
      have hhead := List.head_dropWhile_not (· ≠ close) hne
      simp only [hcons, List.head_cons] at hhead
      exact not_not.mp (of_decide_eq_false hhead)
    rw [hcons, hc] at hbody
    rw [String.toList_ofList, List.append_assoc, List.append_assoc, List.singleton_append, hbody]

theorem splitUnit?_append {cs unit rest : List Char} (h : splitUnit? cs = some (unit, rest)) :
    unit ≠ [] ∧ unit ++ rest = cs := by
  unfold splitUnit? at h
  split at h
  · cases h
  · split at h
    · split at h <;> cases h <;> exact ⟨by simp, rfl⟩
    · split at h
      · cases h
      · cases h
        exact ⟨by simp, rfl⟩

/-- Scan units stand at the front one after another, and none is empty. -/
theorem units_spec (n : Nat) (cs : List Char) :
    (∀ unit ∈ units n cs, unit ≠ []) ∧ (units n cs).flatten <+: cs := by
  induction n generalizing cs with
  | zero => exact ⟨nofun, List.nil_prefix⟩
  | succ n ih =>
    unfold units
    split
    · exact ⟨nofun, List.nil_prefix⟩
    · rename_i unit rest hsplit
      obtain ⟨hne, rfl⟩ := splitUnit?_append hsplit
      obtain ⟨hunits, hflat⟩ := ih rest
      refine ⟨List.forall_mem_cons.mpr ⟨hne, hunits⟩, ?_⟩
      rw [List.flatten_cons]
      exact (List.prefix_append_right_inj unit).mpr hflat

/-- A match is a key of the table, made of at least one unit. -/
theorem longestMatch?_spec {symbols : SymbolTable} {us : List (List Char)} {n : Nat}
    {spelling : List Char} {d : Descriptor} (h : longestMatch? symbols us n = some (spelling, d)) :
    symbols.lookup (String.ofList spelling) = some d ∧
      ∃ k, 1 ≤ k ∧ spelling = (us.take k).flatten := by
  induction n with
  | zero => exact nomatch h
  | succ n ih =>
    unfold longestMatch? at h
    dsimp only at h
    split at h
    · rename_i hd
      cases h
      exact ⟨hd, n + 1, Nat.le_add_left 1 n, rfl⟩
    · exact ih h

/-- A piece at the front with a character in it, and what comes after it. -/
theorem append_drop_of_isPrefix {piece after : List Char} {c : Char} (hne : piece ≠ [])
    (h : piece <+: c :: after) : piece ++ after.drop (piece.length - 1) = c :: after := by
  obtain ⟨first, others, rfl⟩ := List.exists_cons_of_ne_nil hne
  obtain ⟨rest, hrest⟩ := h
  rw [List.cons_append, List.cons.injEq] at hrest
  obtain ⟨rfl, rfl⟩ := hrest
  simp

theorem readSymbol_spec {symbols : SymbolTable} {window : Nat} {c : Char} {after rest : List Char}
    {t : Token} (h : readSymbol symbols window c after = .ok (t, rest)) :
    t.Listed symbols ∧ t.text.toList ++ rest = c :: after := by
  obtain ⟨hne, hflat⟩ := units_spec window (c :: after)
  unfold readSymbol at h
  dsimp only at h
  split at h
  · rename_i spelling d hmatch
    obtain ⟨hd, k, hk, rfl⟩ := longestMatch?_spec hmatch
    split at h
    · rename_i role hrole
      cases h
      refine ⟨.spelling hd hrole, ?_⟩
      rw [String.toList_ofList]
      refine append_drop_of_isPrefix ?_ ?_
      · -- the window is not empty here, or there would be no match
        cases hus : units window (c :: after) with
        | nil =>
          rw [hus] at hmatch
          exact nomatch hmatch
        | cons unit us =>
          obtain ⟨k, rfl⟩ := Nat.exists_eq_add_of_le' hk
          rw [hus] at hne
          simp [hne unit List.mem_cons_self]
      · refine List.IsPrefix.trans ?_ hflat
        conv => rhs; rw [← List.take_append_drop k (units window (c :: after))]
        rw [List.flatten_append]
        exact List.prefix_append _ _
    · exact nomatch h
  · cases h
    refine ⟨.identifier, ?_⟩
    rw [String.toList_ofList]
    cases hus : units window (c :: after) with
    | nil => simp
    | cons unit us =>
      rw [hus] at hne hflat
      refine append_drop_of_isPrefix (hne unit List.mem_cons_self) ?_
      rw [List.flatten_cons] at hflat
      exact (List.prefix_append unit us.flatten).trans hflat

theorem readAt_spec {symbols : SymbolTable} {window : Nat} {c : Char} {after rest : List Char}
    {t : Token} (h : readAt symbols window c after = .ok (t, rest)) :
    t.Listed symbols ∧ t.text.toList ++ rest = c :: after := by
  unfold readAt at h
  split at h
  · rename_i hquote
    subst hquote
    exact readLiteral_spec symbols (Except.ok.inj h)
  split at h
  · rename_i hprefix
    obtain ⟨body, hbody⟩ := List.isPrefixOf_iff_prefix.mp hprefix
    obtain ⟨hlisted, htext⟩ := readLiteral_spec symbols (Except.ok.inj h)
    refine ⟨hlisted, ?_⟩
    rw [htext, ← hbody]
    have hafter : after = "ext(".toList ++ body := (List.cons.inj hbody).2.symm
    rw [hafter]
    rfl
  split at h
  · rename_i digits rest' hnumber
    cases h
    refine ⟨.number, ?_⟩
    rw [String.toList_ofList]
    exact (append_of_splitNumber? hnumber).2
  · exact readSymbol_spec h

/-! ## All tokens -/

/-- The texts of the tokens and blanks between them make up the source. -/
inductive Laid : List Char → List Token → Prop where
  | done {cs} (hcs : ∀ c ∈ cs, isBlank c = true) : Laid cs []
  | next {gap rest t ts} (hgap : ∀ c ∈ gap, isBlank c = true) (h : Laid rest ts) :
      Laid (gap ++ (t.text.toList ++ rest)) (t :: ts)

theorem next_spec {symbols : SymbolTable} {window : Nat} {cs rest : List Char} {t : Token}
    (h : next symbols window cs = .ok (some (t, rest))) :
    t.Listed symbols ∧ cs = cs.takeWhile isBlank ++ (t.text.toList ++ rest) := by
  unfold next at h
  split at h
  · cases h
  · rename_i c after hcs
    cases hread : readAt symbols window c after with
    | error e =>
      rw [hread] at h
      cases h
    | ok p =>
      rw [hread] at h
      cases h
      obtain ⟨hlisted, htext⟩ := readAt_spec hread
      refine ⟨hlisted, ?_⟩
      rw [htext, ← hcs, List.takeWhile_append_dropWhile]

theorem all_isBlank_of_next {symbols : SymbolTable} {window : Nat} {cs : List Char}
    (h : next symbols window cs = .ok none) : ∀ c ∈ cs, isBlank c = true := by
  unfold next at h
  split at h
  · rename_i hnil
    exact List.dropWhile_eq_nil_iff.mp hnil
  · rename_i c after _
    cases hread : readAt symbols window c after <;> rw [hread] at h <;> cases h

theorem listed_readAll (symbols : SymbolTable) (window : Nat) (cs : List Char) :
    ∀ t ∈ (readAll symbols window cs).tokens, t.Listed symbols := by
  fun_induction readAll symbols window cs with
  | case1 cs e h => exact nofun
  | case2 cs h => exact nofun
  | case3 cs t rest h _ reading ih => exact List.forall_mem_cons.mpr ⟨(next_spec h).1, ih⟩

theorem laid_readAll {symbols : SymbolTable} {window : Nat} {cs : List Char}
    (herror : (readAll symbols window cs).error = none) :
    Laid cs (readAll symbols window cs).tokens := by
  fun_induction readAll symbols window cs with
  | case1 cs e h => exact nomatch herror
  | case2 cs h => exact .done (all_isBlank_of_next h)
  | case3 cs t rest h _ reading ih =>
    rw [(next_spec h).2]
    exact .next (fun c hc => List.mem_takeWhile_imp hc) (ih herror)

theorem listed_read (symbols : SymbolTable) (source : String) :
    ∀ t ∈ (symbols.read source).tokens, t.Listed symbols :=
  listed_readAll symbols symbols.window source.toList

theorem laid_read {symbols : SymbolTable} {source : String}
    (herror : (symbols.read source).error = none) :
    Laid source.toList (symbols.read source).tokens :=
  laid_readAll herror

/-- Reading ends in an error only at a key of the table that has no role. -/
theorem exists_display_of_readAt {symbols : SymbolTable} {window : Nat} {c : Char}
    {after : List Char} {spelling : String}
    (h : readAt symbols window c after = .error (.noRole spelling)) :
    ∃ d display, symbols.lookup spelling = some d ∧ d.kind = .display display := by
  unfold readAt at h
  split at h
  · exact nomatch h
  split at h
  · exact nomatch h
  split at h
  · exact nomatch h
  unfold readSymbol at h
  dsimp only at h
  split at h
  · rename_i spelling d hmatch
    split at h
    · exact nomatch h
    · rename_i display hdisplay
      cases h
      exact ⟨d, display, (longestMatch?_spec hmatch).1, hdisplay⟩
  · exact nomatch h

theorem exists_display_of_readAll {symbols : SymbolTable} {window : Nat} {cs : List Char}
    {spelling : String} (h : (readAll symbols window cs).error = some (.noRole spelling)) :
    ∃ d display, symbols.lookup spelling = some d ∧ d.kind = .display display := by
  fun_induction readAll symbols window cs with
  | case1 cs e hnext =>
    cases h
    unfold next at hnext
    split at hnext
    · cases hnext
    · rename_i c after _
      cases hread : readAt symbols window c after with
      | error e =>
        rw [hread] at hnext
        cases hnext
        exact exists_display_of_readAt hread
      | ok p =>
        rw [hread] at hnext
        cases hnext
  | case2 cs hnext => cases h
  | case3 cs t rest hnext _ reading ih => exact ih h

/-- With a table of roles, reading never ends in an error. -/
theorem error_readAll {symbols : SymbolTable} {window : Nat} {cs : List Char}
    (hroles : ∀ key d, symbols.lookup key = some d → ∃ role, d.kind = .grammar role) :
    (readAll symbols window cs).error = none := by
  cases herror : (readAll symbols window cs).error with
  | none => rfl
  | some e =>
    obtain ⟨spelling⟩ := e
    obtain ⟨d, display, hd, hdisplay⟩ := exists_display_of_readAll herror
    obtain ⟨role, hrole⟩ := hroles spelling d hd
    rw [hdisplay] at hrole
    exact nomatch hrole

end Token

/-! ## The built-in table -/

/-- The token that a symbol of an expression stands for: the spelling says what it is. -/
def Symbol.token (s : Symbol) : Token :=
  match SymbolTable.spellings.lookup s.text with
  | some ⟨_, .grammar role, _, extra⟩ => ⟨.role role, s.id, s.text, extra⟩
  | _ => ⟨.role .symbol, s.id, s.text, []⟩

namespace Token

def sub : Token := ⟨.role .infixed, some "sub", "_", []⟩

def sup : Token := ⟨.role .infixed, some "sup", "^", []⟩

def leftRound : Token := ⟨.role .opening, some "lparen", "(", []⟩

def rightRound : Token := ⟨.role .closing, some "rparen", ")", []⟩

def leftSquare : Token := ⟨.role .opening, some "lbracket", "[", []⟩

def rightSquare : Token := ⟨.role .closing, some "rbracket", "]", []⟩

/-- A character that is no spelling. -/
def letter (name : String) : Token := ⟨.identifier, some name, name, []⟩

/-- The tokens that the grammar knows by their ids.  Each has one spelling. -/
def known : List Token :=
  [sub, sup, leftRound, rightRound, leftSquare, rightSquare]

/-- A spelling that has the id of a known token is that token, and no operand but the first of two
is ever converted. -/
def Regular (t : Token) : Prop :=
  (∀ u ∈ known, t.value = u.value → t = u) ∧
    t.operand = .keep ∧ t.secondOperand = .keep ∧
      (t.firstOperand = .keep ∨ t.firstOperand = .color)

instance (t : Token) : Decidable t.Regular :=
  inferInstanceAs (Decidable (_ ∧ _))

/-- The token of an entry, if the entry has a role. -/
def ofEntry? (p : String × Descriptor) : Option Token :=
  match p.2.kind with
  | .grammar role => some ⟨.role role, p.2.value, p.1, p.2.extra⟩
  | .display _ => none

theorem regular_spellings :
    ∀ p ∈ SymbolTable.spellings.entries, ∃ t ∈ ofEntry? p, t.Regular := by
  decide +kernel

theorem exists_regular_of_lookup {text : String} {d : Descriptor}
    (h : SymbolTable.spellings.lookup text = some d) :
    ∃ role, d.kind = .grammar role ∧ Regular ⟨.role role, d.value, text, d.extra⟩ := by
  obtain ⟨t, ht, hregular⟩ := regular_spellings (text, d) (KeyedList.mem_of_value? h)
  unfold ofEntry? at ht
  split at ht
  · rename_i role hrole
    cases ht
    exact ⟨role, hrole, hregular⟩
  · exact nomatch ht

/-- The tokens that can be read with the built-in table, as far as the grammar asks. -/
structure Standard (t : Token) : Prop where
  /-- A spelling decides what its token is. -/
  token_toSymbol {role : Role} (hrole : t.kind = .role role) : t.toSymbol.token = t
  /-- An id of a known token has one spelling. -/
  known {role : Role} (hrole : t.kind = .role role) : ∀ u ∈ known, t.value = u.value → t = u
  number (hkind : t.kind = .number) : t = ⟨.number, some t.content, t.content, []⟩
  identifier (hkind : t.kind = .identifier) : t = ⟨.identifier, some t.content, t.content, []⟩
  text (hkind : t.kind = .text) : t.value = some t.content
  operand : t.operand = .keep
  secondOperand : t.secondOperand = .keep
  firstOperand : t.firstOperand = .keep ∨ t.firstOperand = .color

theorem Listed.standard {t : Token} (h : t.Listed .spellings) : t.Standard := by
  cases h with
  | @spelling text d role hd hrole =>
    obtain ⟨role', hrole', hknown, hop, hsecond, hfirst⟩ := exists_regular_of_lookup hd
    obtain rfl : role = role' := Kind.grammar.inj (hrole.symm.trans hrole')
    refine ⟨fun _ => ?_, fun _ => hknown, nofun, nofun, nofun, hop, hsecond, hfirst⟩
    obtain ⟨value, kind, key, extra⟩ := d
    obtain rfl : kind = .grammar role := hrole
    simp only [toSymbol, Symbol.token, hd]
  | literal => exact ⟨nofun, nofun, nofun, nofun, fun _ => rfl, rfl, rfl, .inl rfl⟩
  | number => exact ⟨nofun, nofun, fun _ => rfl, nofun, nofun, rfl, rfl, .inl rfl⟩
  | identifier => exact ⟨nofun, nofun, nofun, fun _ => rfl, nofun, rfl, rfl, .inl rfl⟩

theorem listed_of_entry {text : String} {d : Descriptor} {t : Token}
    (hd : SymbolTable.spellings.lookup text = some d) (ht : ofEntry? (text, d) = some t) :
    t.Listed .spellings := by
  unfold ofEntry? at ht
  split at ht
  · rename_i role hrole
    cases ht
    exact .spelling hd hrole
  · exact nomatch ht

theorem listed_known {t : Token} (ht : t ∈ known) : t.Listed .spellings := by
  have hentries : ∀ t ∈ known, ∃ d ∈ SymbolTable.spellings.lookup t.text,
      ofEntry? (t.text, d) = some t := by
    decide +kernel
  obtain ⟨d, hd, hentry⟩ := hentries t ht
  exact listed_of_entry hd hentry

theorem Standard.convertible {t : Token} (h : t.Standard) : t.Convertible := by
  refine ⟨fun _ v => ?_, fun _ => ⟨fun v => ?_, fun v => ?_⟩⟩
  · rw [h.operand]
    exact nofun
  · rcases h.firstOperand with hfirst | hfirst <;> rw [hfirst] <;> exact nofun
  · rw [h.secondOperand]
    exact nofun

theorem exists_role_of_opens {t : Token} (ht : t.opens = true) : ∃ role, t.kind = .role role := by
  simp only [opens, Bool.or_eq_true, beq_iff_eq] at ht
  rcases ht with ht | ht
  · exact ⟨_, ht⟩
  · exact ⟨_, ht⟩

theorem exists_role_of_closes {t : Token} (ht : t.closes = true) : ∃ role, t.kind = .role role := by
  simp only [closes, Bool.or_eq_true, beq_iff_eq] at ht
  rcases ht with ht | ht
  · exact ⟨_, ht⟩
  · exact ⟨_, ht⟩

theorem Standard.token_toSymbol_of_opens {t : Token} (h : t.Standard) (ht : t.opens = true) :
    t.toSymbol.token = t := by
  obtain ⟨role, hrole⟩ := exists_role_of_opens ht
  exact h.token_toSymbol hrole

theorem Standard.token_toSymbol_of_closes {t : Token} (h : t.Standard) (ht : t.closes = true) :
    t.toSymbol.token = t := by
  obtain ⟨role, hrole⟩ := exists_role_of_closes ht
  exact h.token_toSymbol hrole

theorem Standard.token_toSymbol_of_isInfixed {t : Token} (h : t.Standard) {id : String}
    (ht : t.isInfixed id = true) : t.toSymbol.token = t := by
  simp only [isInfixed, Bool.and_eq_true, beq_iff_eq] at ht
  exact h.token_toSymbol ht.1

theorem token_toSymbol_known {t : Token} (ht : t ∈ known) : t.toSymbol.token = t := by
  have hrole : ∀ t ∈ known, t.opens || t.closes || t.kind == .role .infixed := by decide
  have hstandard := (listed_known ht).standard
  have hkind := hrole t ht
  rw [Bool.or_eq_true, Bool.or_eq_true] at hkind
  rcases hkind with (hopens | hcloses) | hinfixed
  · exact hstandard.token_toSymbol_of_opens hopens
  · exact hstandard.token_toSymbol_of_closes hcloses
  · exact hstandard.token_toSymbol (eq_of_beq hinfixed)

theorem Standard.eq_of_isInfixed {t u : Token} (h : t.Standard) (hu : u ∈ Token.known) {id : String}
    (hid : u.value = some id) (ht : t.isInfixed id = true) : t = u := by
  simp only [isInfixed, Bool.and_eq_true, beq_iff_eq] at ht
  exact h.known ht.1 u hu (ht.2.trans hid.symm)

theorem standard_read (source : String) :
    ∀ t ∈ (SymbolTable.spellings.read source).tokens, t.Standard :=
  fun t ht => (listed_read _ source t ht).standard

end Token

namespace SymbolTable

theorem hasRoles_spellings : spellings.HasRoles := by
  intro key d hd
  obtain ⟨role, hrole, -⟩ := Token.exists_regular_of_lookup hd
  exact ⟨role, hrole⟩

theorem error_read_spellings (source : String) : (spellings.read source).error = none :=
  Token.error_readAll hasRoles_spellings

/-- The longest spellings of the built-in table. -/
theorem window_spellings : spellings.window = 10 := by
  have hlength : String.length = fun s => (Text.asciiChars s).length := by
    funext s
    rw [Text.asciiChars_eq, String.length_toList]
  rw [window, longest, hlength]
  decide +kernel

theorem read_spellings (source : String) :
    spellings.read source = Token.readAll spellings 10 source.toList := by
  rw [read, window_spellings]

end SymbolTable

/-- With the built-in table, every source is an expression. -/
theorem exists_derives_spellings (source : String) :
    ∃ items, Expr.parse .spellings .basic source = .ok (.ofItems items) ∧
      Grammar.Derives ⟨.basic, none⟩
        (.run false (SymbolTable.spellings.read source).tokens items []) :=
  exists_derives_of_convertible .basic (SymbolTable.error_read_spellings source)
    fun t ht => (Token.standard_read source t ht).convertible

end MathMarkup
