import MathMarkup.Proofs.MarkupReader
import MathMarkup.Proofs.Respacing
import MathMarkup.Proofs.Shape

/-!
# Names of colors

The name of a color is read like any other operand: it falls apart into spellings, numbers and
single characters, and operators among these take what comes after them as their operands.  The
text of the operand is put together from its leaves again, and it is the name.

* `Token.InWord` says what a name can fall apart into, and `Token.exists_tokens_word` that it does.
  No token goes beyond the end of the name, because no spelling that starts like a name holds a
  closing delimiter.
* `Token.next_spelling`: a spelling is read where the next character does not continue it.
* `Grammar.exists_derives_word`: from the tokens of a name a run is read that has their text.
* `color_name_survives`: a name between parentheses is the text of the color, and which color it is
  depends on the name and on the table of colors only.
-/

namespace MathMarkup

/-! ## Characters -/

/-- Whether a character can stand in the name of a color. -/
def Text.isColorChar (c : Char) : Bool :=
  c.isAlphanum || c == '#'

theorem Text.isBlank_eq_false_of_isColorChar {c : Char} (h : isColorChar c = true) :
    isBlank c = false := by
  have hascii : c.toNat < 128 := by
    rcases Bool.or_eq_true_iff.mp h with halnum | hsign
    · exact Nat.lt_succ_of_le (toNat_le_of_isAlphanum halnum)
    · rw [eq_of_beq hsign]
      decide
  have hall : ∀ n < 128, isColorChar (Char.ofNat n) = true → isBlank (Char.ofNat n) = false := by
    decide +kernel
  have hc := hall c.toNat hascii
  rw [Char.ofNat_toNat] at hc
  exact hc h

namespace Token

open Text

/-! ## The tokens of a name -/

/-- What the tokens of a name can be: leaves, and operators before their operands. -/
def wordKinds : List TokenKind :=
  [.number, .identifier, .role .symbol, .role .unary, .role .binary]

/-- A token that a name can fall apart into. -/
structure InWord (t : Token) : Prop where
  standard : t.Standard
  kind : t.kind ∈ wordKinds

theorem InWord.isInfixed_eq_false {t : Token} (h : t.InWord) (id : String) :
    t.isInfixed id = false := by
  refine Bool.eq_false_iff.mpr fun ht => ?_
  have hkind := h.kind
  rw [kind_of_isInfixed ht] at hkind
  exact absurd hkind (by decide)

theorem InWord.closes_eq_false {t : Token} (h : t.InWord) : t.closes = false := by
  have hkinds : ∀ kind ∈ wordKinds, (kind == .role .closing || kind == .role .fence) = false := by
    decide
  exact hkinds t.kind h.kind

theorem InWord.leaf_or_operator {t : Token} (h : t.InWord) :
    t.isLeaf = true ∨ t.kind = .role .unary ∨ t.kind = .role .binary := by
  obtain ⟨kind, value, text, extra⟩ := t
  have hkind := h.kind
  simp only [wordKinds, List.mem_cons, List.not_mem_nil, or_false] at hkind
  rcases hkind with rfl | rfl | rfl | rfl | rfl
  · exact .inl rfl
  · exact .inl rfl
  · exact .inl rfl
  · exact .inr (.inl rfl)
  · exact .inr (.inr rfl)

/-- The texts of tokens, one after the other. -/
def texts (ts : List Token) : List Char :=
  ts.flatMap (·.text.toList)

@[simp] theorem texts_nil : texts [] = [] := rfl

@[simp] theorem texts_cons (t : Token) (ts : List Token) :
    texts (t :: ts) = t.text.toList ++ texts ts :=
  List.flatMap_cons

/-- A spelling that starts like a name stands in a name, and no closing delimiter is in it. -/
theorem inWord_spellings : ∀ p ∈ SymbolTable.spellings.entries,
    p.1.toList.head?.any isColorChar = true →
      ')' ∉ p.1.toList ∧ p.2.kind ∈ [.grammar .symbol, .grammar .unary, Kind.grammar .binary] := by
  simp only [← asciiChars_eq]
  decide +kernel

theorem not_mem_of_isNumeral {cs : List Char} (h : IsNumeral cs) : ')' ∉ cs := by
  obtain ⟨sign, whole, fraction, rfl, hsign, hwhole, hfraction⟩ := h
  have digits {ds : List Char} (hds : IsDigits ds) : ')' ∉ ds :=
    fun hmem => absurd (hds.2 _ hmem) (by decide)
  rw [List.mem_append, List.mem_append]
  rintro ((hmem | hmem) | hmem)
  · rcases hsign with rfl | rfl
    · cases hmem
    · exact absurd hmem (by decide)
  · exact digits hwhole hmem
  · rcases hfraction with rfl | ⟨ds, hds, rfl⟩
    · cases hmem
    · exact digits hds (List.mem_of_ne_of_mem (by decide) hmem)

/-- A symbol that is read at the start of a name stands in the name. -/
theorem inWord_of_readSymbol {c : Char} {after left : List Char} {t : Token}
    (hc : isColorChar c = true) (hdigit : isDigit c = false)
    (h : readSymbol .spellings SymbolTable.spellings.window c after = .ok (t, left)) :
    t.InWord ∧ ')' ∉ t.text.toList := by
  have hlisted := (readSymbol_spec h).1
  have hsingle : ¬ (isBlank c = true ∨ isDigit c = true) := by
    simp [isBlank_eq_false_of_isColorChar hc, hdigit]
  have hslash : c ≠ '\\' := by
    rintro rfl
    exact absurd hc (by decide)
  obtain ⟨us, hus⟩ := exists_scans after
  obtain ⟨t', left', hread, ⟨k, d, role, hlongest, hrole, rfl⟩ | ⟨-, rfl⟩⟩ :=
    readSymbol_longest SymbolTable.hasRoles_spellings
      (.single hsingle (fun hc => absurd hc hslash) hus)
  · rw [h] at hread
    cases hread
    obtain ⟨k, rfl⟩ := Nat.exists_eq_add_of_le' hlongest.pos
    obtain ⟨hclosing, hkind⟩ :=
      inWord_spellings _ (KeyedList.mem_of_value? hlongest.key) (by simpa using hc)
    refine ⟨⟨hlisted.standard, ?_⟩, hclosing⟩
    simp only [hrole] at hkind
    simpa [wordKinds] using hkind
  · rw [h] at hread
    cases hread
    refine ⟨⟨hlisted.standard, by simp [wordKinds]⟩, ?_⟩
    rw [String.toList_ofList, List.mem_singleton]
    rintro rfl
    exact absurd hc (by decide)

/-- A token that is read at the start of a name stands in the name. -/
theorem inWord_of_readAt {c : Char} {word rest left : List Char} {t : Token}
    (hword : ∀ x ∈ c :: word, isColorChar x = true)
    (h : readAt .spellings SymbolTable.spellings.window c (word ++ ')' :: rest) = .ok (t, left)) :
    t.InWord ∧ ')' ∉ t.text.toList := by
  have hc := hword c List.mem_cons_self
  have hstandard := (readAt_spec h).1.standard
  unfold readAt at h
  split at h
  · rename_i hquote
    rw [hquote] at hc
    exact absurd hc (by decide)
  split at h
  · rename_i hliteral
    rw [List.isPrefixOf_iff_prefix, ← List.cons_append] at hliteral
    have hopening := isPrefix_of_not_mem_head (by simp) hliteral
    exact absurd (hword '(' (hopening.subset (by decide))) (by decide)
  split at h
  · rename_i digits left' hnumber
    cases h
    refine ⟨⟨hstandard, by simp [wordKinds]⟩, ?_⟩
    rw [String.toList_ofList]
    exact not_mem_of_isNumeral (isNumeral_of_splitNumber? hnumber)
  · rename_i hnumber
    exact inWord_of_readSymbol hc (splitNumber?_eq_none_iff.mp hnumber).1 h

theorem next_cons {symbols : SymbolTable} {window : Nat} {c : Char} {after left : List Char}
    {t : Token} (hc : isBlank c = false) (h : readAt symbols window c after = .ok (t, left)) :
    next symbols window (c :: after) = .ok (some (t, left)) := by
  unfold next
  rw [List.dropWhile_cons_of_neg (by simp [hc])]
  dsimp only
  rw [h]
  rfl

/-- The token at the start of a name ends with the name or before. -/
theorem exists_next_word {c : Char} {word : List Char}
    (hword : ∀ x ∈ c :: word, isColorChar x = true) (rest : List Char) :
    ∃ t left, next .spellings SymbolTable.spellings.window (c :: word ++ ')' :: rest) =
        .ok (some (t, left ++ ')' :: rest)) ∧
      t.InWord ∧ t.text.toList ++ left = c :: word := by
  have hblank := isBlank_eq_false_of_isColorChar (hword c List.mem_cons_self)
  cases hread : readAt .spellings SymbolTable.spellings.window c (word ++ ')' :: rest) with
  | error e =>
    obtain ⟨spelling⟩ := e
    obtain ⟨d, display, hd, hdisplay⟩ := exists_display_of_readAt hread
    obtain ⟨role, hrole⟩ := SymbolTable.hasRoles_spellings spelling d hd
    rw [hdisplay] at hrole
    cases hrole
  | ok p =>
    obtain ⟨t, after⟩ := p
    obtain ⟨hinWord, hclosing⟩ := inWord_of_readAt hword hread
    have htext := (readAt_spec hread).2
    rw [← List.cons_append] at htext
    have hstart : t.text.toList <+: c :: word :=
      isPrefix_of_not_mem_head (by simpa using hclosing) ⟨after, htext⟩
    obtain ⟨left, hleft⟩ := hstart
    rw [← hleft, List.append_assoc, List.append_cancel_left_eq] at htext
    exact ⟨t, left, htext ▸ next_cons hblank hread, hinWord, hleft⟩

/-- A name falls apart into tokens that have its text. -/
theorem exists_tokens_word (word : List Char) (hword : ∀ c ∈ word, isColorChar c = true)
    (rest : List Char) :
    ∃ ts, (readAll .spellings SymbolTable.spellings.window (word ++ ')' :: rest)).tokens =
        ts ++ (readAll .spellings SymbolTable.spellings.window (')' :: rest)).tokens ∧
      (∀ t ∈ ts, t.InWord) ∧ texts ts = word := by
  match word with
  | [] => exact ⟨[], rfl, nofun, rfl⟩
  | c :: word =>
    obtain ⟨t, left, hnext, ht, hleft⟩ := exists_next_word hword rest
    have hshorter : left.length < (c :: word).length := by
      have hlt := length_next_lt hnext
      simp only [List.length_append] at hlt
      omega
    obtain ⟨ts, htokens, hts, htexts⟩ := exists_tokens_word left
      (fun x hx => hword x (hleft ▸ List.mem_append_right _ hx)) rest
    refine ⟨t :: ts, ?_, List.forall_mem_cons.mpr ⟨ht, hts⟩, ?_⟩
    · rw [tokens_readAll_of_next hnext, htokens, List.cons_append]
    · rw [texts_cons, htexts, hleft]
termination_by word.length
decreasing_by exact hshorter

/-! ## Spellings around a name -/

/-- Whether a character is a scan unit wherever it stands. -/
def isPlain (c : Char) : Bool :=
  !isBlank c && !isDigit c && c != '\\'

theorem isPlain_iff {c : Char} :
    isPlain c = true ↔ isBlank c = false ∧ isDigit c = false ∧ c ≠ '\\' := by
  simp [isPlain, and_assoc]

theorem Scans.append_singles {rest : List Char} {us : List (List Char)} (h : Scans rest us)
    {key : List Char} (hkey : key.all isPlain = true) :
    Scans (key ++ rest) (key.map ([·]) ++ us) := by
  induction key with
  | nil => exact h
  | cons c key ih =>
    rw [List.all_cons, Bool.and_eq_true, isPlain_iff] at hkey
    obtain ⟨⟨hblank, hdigit, hslash⟩, hkey⟩ := hkey
    exact .single (by simp [hblank, hdigit]) (fun hc => absurd hc hslash) (ih hkey)

theorem flatten_take_append_singles (key : List Char) (us : List (List Char)) (n : Nat) :
    ((key.map ([·]) ++ us).take (key.length + n)).flatten = key ++ (us.take n).flatten := by
  have hlength : key.length = (key.map ([·])).length := (List.length_map _).symm
  rw [hlength, List.take_length_add_append, List.flatten_append, ← List.flatMap_def,
    List.flatMap_singleton']

/-- The first units of a text are not empty, and their first character is that of the text. -/
theorem Scans.exists_head {cs : List Char} {us : List (List Char)} (h : Scans cs us) {n : Nat}
    (hn : n < us.length) :
    ∃ c more, c ∈ cs.head? ∧ (us.take (n + 1)).flatten = c :: more := by
  cases h with
  | stop => exact absurd hn (Nat.not_lt_zero n)
  | pair => exact ⟨_, _, rfl, rfl⟩
  | single => exact ⟨_, _, rfl, rfl⟩

/-- A token of the table. -/
def IsEntry (symbols : SymbolTable) (t : Token) : Prop :=
  ∃ d ∈ symbols.lookup t.text, ofEntry? (t.text, d) = some t

instance (symbols : SymbolTable) (t : Token) : Decidable (IsEntry symbols t) :=
  inferInstanceAs (Decidable (∃ d ∈ symbols.lookup t.text, ofEntry? (t.text, d) = some t))

/-- A spelling of plain characters is read where no key goes on with the next character. -/
theorem next_spelling {symbols : SymbolTable} (hroles : symbols.HasRoles) {t : Token} {c : Char}
    {key rest : List Char} (ht : IsEntry symbols t) (htext : t.text.toList = c :: key)
    (hkey : (c :: key).all isPlain = true)
    (hat : AtSymbol c (key ++ rest))
    (hnext : ∀ a ∈ rest.head?, ∀ p ∈ symbols.entries, ¬ c :: key ++ [a] <+: p.1.toList) :
    next symbols symbols.window (t.text.toList ++ rest) = .ok (some (t, rest)) := by
  obtain ⟨d, hd, hentry⟩ := ht
  obtain ⟨role, hrole⟩ := hroles t.text d hd
  unfold ofEntry? at hentry
  simp only [hrole, Option.some.injEq] at hentry
  rw [← String.ofList_toList (s := t.text), htext] at hd hentry
  obtain ⟨us, hus⟩ := exists_scans rest
  have hscans := hus.append_singles hkey
  rw [List.cons_append] at hscans
  have htake := flatten_take_append_singles (c :: key) us 0
  rw [Nat.add_zero, List.take_zero, List.flatten_nil, List.append_nil] at htake
  have hlongest : Longest symbols ((c :: key).map ([·]) ++ us) (c :: key).length d := by
    refine ⟨Nat.le_add_left 1 _, by simp, htake.symm ▸ hd, fun j hj hle => ?_⟩
    -- a longer run starts with the spelling and the next character
    obtain ⟨n, rfl⟩ : ∃ n, j = (c :: key).length + (n + 1) := ⟨j - (c :: key).length - 1, by omega⟩
    rw [List.length_append, List.length_map] at hle
    have hn : n < us.length := by omega
    obtain ⟨a, more, ha, hmore⟩ := hus.exists_head hn
    rw [flatten_take_append_singles, hmore]
    cases hlookup : symbols.lookup (String.ofList (c :: key ++ a :: more)) with
    | none => rfl
    | some e =>
      refine absurd ?_ (hnext a ha _ (KeyedList.mem_of_value? hlookup))
      rw [String.toList_ofList]
      exact ⟨more, by simp⟩
  have hsource : (((c :: key).map ([·]) ++ us).take (c :: key).length).flatten ++ rest =
      c :: (key ++ rest) := by
    rw [htake, List.cons_append]
  have hread := hlongest.readSymbol_eq hroles hscans hrole hsource
  rw [htake, hentry, ← hat.readAt_eq] at hread
  rw [htext]
  rw [List.all_cons, Bool.and_eq_true, isPlain_iff] at hkey
  exact next_cons hkey.1.1 hread

/-- The operator that takes the text of its first operand for a color. -/
def color : Token :=
  ⟨.role .binary, some "color", "color", [("convert_operand1", .choice .colorOperand)]⟩

theorem isEntry_before_name : ∀ t ∈ [color, leftRound], IsEntry .spellings t := by
  decide +kernel

theorem atSymbol_of_ne {c : Char} (hquote : c ≠ '"') (htext : c ≠ 't') (hminus : c ≠ '-')
    (hdigit : isDigit c = false) (after : List Char) : AtSymbol c after := by
  refine ⟨hquote, ?_, hdigit, fun hc => absurd hc hminus⟩
  rintro ⟨more, hmore⟩
  exact htext (List.cons.inj hmore).1.symm

theorem next_color (rest : List Char) :
    next .spellings SymbolTable.spellings.window (color.text.toList ++ '(' :: rest) =
      .ok (some (color, '(' :: rest)) := by
  have hkeys : ∀ p ∈ SymbolTable.spellings.entries, ¬ "color(".toList <+: p.1.toList := by
    simp only [← asciiChars_eq]
    decide +kernel
  have htext : color.text.toList = 'c' :: "olor".toList := rfl
  refine next_spelling SymbolTable.hasRoles_spellings (isEntry_before_name _ (by simp)) htext
    (by decide) (atSymbol_of_ne (by decide) (by decide) (by decide) (by decide) _) ?_
  rintro _ ⟨⟩
  exact hkeys

theorem next_leftRound {word : List Char} (hword : ∀ c ∈ word, isColorChar c = true)
    (rest : List Char) :
    next .spellings SymbolTable.spellings.window ('(' :: (word ++ ')' :: rest)) =
      .ok (some (leftRound, word ++ ')' :: rest)) := by
  have hkeys : ∀ p ∈ SymbolTable.spellings.entries, p.1.toList.head? = some '(' →
      p.1.toList[1]?.all (fun a => !isColorChar a && a != ')') = true := by
    simp only [← asciiChars_eq]
    decide +kernel
  have htext : leftRound.text.toList = '(' :: [] := rfl
  show next _ _ (leftRound.text.toList ++ (word ++ ')' :: rest)) = _
  refine next_spelling SymbolTable.hasRoles_spellings (isEntry_before_name _ (by simp)) htext
    (by decide) (atSymbol_of_ne (by decide) (by decide) (by decide) (by decide) _) ?_
  rintro a ha p hp ⟨more, hmore⟩
  have hkey := hkeys p hp (by rw [← hmore]; rfl)
  rw [← hmore] at hkey
  obtain ⟨hcolor, hne⟩ : isColorChar a = false ∧ a ≠ ')' := by simpa using hkey
  cases word with
  | nil => exact hne (Option.some.inj ha).symm
  | cons c word =>
    have hc := hword c List.mem_cons_self
    rw [Option.some.inj ha, hcolor] at hc
    cases hc

/-- The tokens of a source that colors a letter. -/
theorem exists_tokens_color {w : String} (hw : ∀ c ∈ w.toList, isColorChar c = true) :
    ∃ ts, (SymbolTable.spellings.read ("color(" ++ w ++ ")x")).tokens =
        color :: leftRound :: (ts ++ [rightRound, ⟨.identifier, some "x", "x", []⟩]) ∧
      (∀ t ∈ ts, t.InWord) ∧ texts ts = w.toList := by
  obtain ⟨ts, htokens, hts, htexts⟩ := exists_tokens_word w.toList hw ['x']
  have hend : (readAll .spellings SymbolTable.spellings.window [')', 'x']).tokens =
      [rightRound, ⟨.identifier, some "x", "x", []⟩] := by
    rw [SymbolTable.window_spellings]
    decide +kernel
  have hsource : ("color(" ++ w ++ ")x").toList =
      color.text.toList ++ '(' :: (w.toList ++ ')' :: ['x']) := by
    rw [String.toList_append, String.toList_append, List.append_assoc]
    rfl
  refine ⟨ts, ?_, hts, htexts⟩
  rw [SymbolTable.read, hsource, tokens_readAll_of_next (next_color _),
    tokens_readAll_of_next (next_leftRound hw ['x']), htokens, hend]

end Token

/-! ## The text of a name -/

namespace Expr

theorem unwrap_of_form_ne {e : Expr} (h : e.form ≠ .paren) : e.unwrap = e := by
  unfold unwrap
  split
  · exact absurd rfl h
  · rfl

theorem colorText_ofItems (es : List Expr) : (ofItems es).colorText = itemsColorText es := by
  match es with
  | [] => simp [ofItems, colorText, itemsColorText]
  | [e] => simp [ofItems, itemsColorText]
  | e :: f :: es => simp [ofItems, colorText]

/-- A parenthesis around neither parentheses nor a run is no matrix. -/
theorem inferMatrix_of_form_notMem {items : List Expr}
    (h : ∀ e ∈ items, e.form ∉ [.sequence, Form.paren]) (left right : Delimiter) (keep : Bool) :
    (Expr.paren left (ofItems items) right keep).inferMatrix =
      .paren left (ofItems items) right keep := by
  rcases inferMatrix_paren left right (ofItems items) keep with hsame | ⟨es, rows, hes, hrows, -⟩
  · exact hsame
  · -- the run that holds the rows is the whole of the items
    have hitems : es = items := by
      match items with
      | [] => cases hes
      | [e] =>
        have he := h e List.mem_cons_self
        rw [show e = .sequence es from hes] at he
        exact absurd he (by simp [form])
      | e :: f :: items => exact (Expr.sequence.inj hes).symm
    obtain ⟨bodies, hkind, rfl, htwo, -⟩ := rows_of_matrixRows? hrows
    rw [List.length_map] at htwo
    obtain ⟨body, others, rfl⟩ :=
      List.exists_cons_of_ne_nil (List.ne_nil_of_length_pos (Nat.lt_of_lt_of_le Nat.two_pos htwo))
    obtain ⟨l, r, k, hmem⟩ : ∃ l r k, Expr.paren (.symbol l) body (.symbol r) k ∈ es :=
      hkind.elim (exists_paren_of_rows · List.mem_cons_self)
        (exists_paren_of_rows · List.mem_cons_self)
    exact absurd (h _ (hitems ▸ hmem)) (by simp [form])

end Expr

namespace Grammar

open Token

theorem form_leaf (t : Token) : (leaf t).form = .other := by
  unfold leaf
  split <;> rfl

theorem colorText_leaf {t : Token} (h : t.InWord) : (leaf t).colorText = t.text := by
  unfold leaf
  split
  · rename_i hkind
    exact (congrArg Token.text (h.standard.number hkind)).symm
  · rename_i hkind
    have hword := h.kind
    rw [hkind] at hword
    exact absurd hword (by decide)
  · rename_i hkind
    exact (congrArg Token.text (h.standard.identifier hkind)).symm
  · rfl

theorem colorText_of_convert {s : Setting} {c : Conversion} {e e' : Expr}
    (h : s.convert c e = .ok e') : e'.colorText = e.colorText := by
  unfold Setting.convert at h
  split at h
  · cases h
    rfl
  · cases h
    rfl
  · cases h

/-- An expression has the text of the tokens that are gone, and it is neither a parenthesis nor a
run. -/
structure Gathers (ts : List Token) (e : Expr) (left : List Token) : Prop where
  suffix : left <:+ ts
  form : e.form ∉ [.sequence, Form.paren]
  text : e.colorText.toList ++ texts left = texts ts

theorem Gathers.text_convert {s : Setting} {ts left : List Token} {e e' : Expr} {c : Conversion}
    (h : Gathers ts e left) (hc : s.convert c e.unwrap = .ok e') :
    e'.colorText.toList ++ texts left = texts ts := by
  have hparen : e.form ≠ .paren := fun hform => h.form (by simp [hform])
  rw [colorText_of_convert hc, Expr.unwrap_of_form_ne hparen, h.text]

/-- A simple expression that is read from the tokens of a name. -/
theorem exists_gathers (s : Setting) {stop : List Token} (hstop : ahead Token.isClosing stop = true)
    (ts : List Token) (hts : ∀ t ∈ ts, t.InWord) :
    ∃ e left, Derives s (.simple true (ts ++ stop) e (left ++ stop)) ∧ Gathers ts e left := by
  match ts with
  | [] =>
    cases stop with
    | nil => cases hstop
    | cons c rest => exact ⟨.empty, [], .atClosing hstop, List.suffix_refl _, by decide, rfl⟩
  | t :: ts =>
    rw [List.forall_mem_cons] at hts
    obtain ⟨ht, hts⟩ := hts
    rcases ht.leaf_or_operator with hleaf | hunary | hbinary
    · refine ⟨leaf t, ts, .leaf hleaf, List.suffix_cons t ts, ?_, ?_⟩
      · rw [form_leaf]
        decide
      · rw [colorText_leaf ht, texts_cons]
    · obtain ⟨e, left, he, hgathers⟩ := exists_gathers s hstop ts hts
      obtain ⟨operand, hoperand⟩ := exists_convert s (ht.standard.convertible.1 hunary) e.unwrap
      refine ⟨_, left, .unary hunary he hoperand, hgathers.suffix.trans (List.suffix_cons t ts),
        by simp [Expr.form], ?_⟩
      show (t.text ++ operand.colorText).toList ++ texts left = _
      rw [String.toList_append, List.append_assoc, hgathers.text_convert hoperand, texts_cons]
    · obtain ⟨hfirst, hsecond⟩ := ht.standard.convertible.2 hbinary
      obtain ⟨e, mid, he, hgathers⟩ := exists_gathers s hstop ts hts
      have hle := hgathers.suffix.length_le
      obtain ⟨f, left, hf, hgathers'⟩ := exists_gathers s hstop mid
        (forall_mem_of_suffix hts hgathers.suffix)
      obtain ⟨first, hfirst⟩ := exists_convert s hfirst e.unwrap
      obtain ⟨second, hsecond⟩ := exists_convert s hsecond f.unwrap
      refine ⟨_, left, .binary hbinary he hf hfirst hsecond,
        (hgathers'.suffix.trans hgathers.suffix).trans (List.suffix_cons t ts), by simp [Expr.form],
        ?_⟩
      show (t.text ++ first.colorText ++ second.colorText).toList ++ texts left = _
      rw [String.toList_append, String.toList_append, List.append_assoc, List.append_assoc,
        hgathers'.text_convert hsecond, hgathers.text_convert hfirst, texts_cons]
termination_by ts.length

/-- From the tokens of a name, a run is read that has their text. -/
theorem exists_derives_word (s : Setting) {c : Token} (hc : c.isClosing = true) (rest : List Token)
    (ts : List Token) (hts : ∀ t ∈ ts, t.InWord) :
    ∃ items, Derives s (.run true (ts ++ c :: rest) items (c :: rest)) ∧
      (∀ e ∈ items, e.form ∉ [.sequence, Form.paren]) ∧
      (Expr.itemsColorText items).toList = texts ts := by
  have hcloses := closes_of_isClosing hc
  match ts with
  | [] =>
    have hscript := isInfixed_eq_false_of_closes hcloses
    exact ⟨[], .done (.bare (.atClosing hc) (hscript "sub") (hscript "sup")), nofun, rfl⟩
  | t :: ts =>
    have hstop : ahead Token.isClosing (c :: rest) = true := hc
    obtain ⟨e, left, he, hgathers⟩ := exists_gathers s hstop (t :: ts) hts
    have hne : e ≠ .empty := by
      intro hempty
      obtain ⟨-, hnil | ⟨-, hclosing⟩⟩ := he.emptyAtStop hempty
      · cases hnil
      · have ht := (hts t List.mem_cons_self).closes_eq_false
        rw [closes_of_isClosing hclosing] at ht
        cases ht
    have hshorter : left.length < (t :: ts).length := by
      have hlt := he.progress hne
      rw [List.length_append, List.length_append] at hlt
      omega
    have hleft := forall_mem_of_suffix hts hgathers.suffix
    have hscript (id : String) : ahead (·.isInfixed id) (left ++ c :: rest) = false := by
      cases left with
      | nil => exact isInfixed_eq_false_of_closes hcloses id
      | cons u left => exact (hleft u List.mem_cons_self).isInfixed_eq_false id
    have hbare := Derives.bare he (hscript "sub") (hscript "sup")
    have htext := hgathers.text
    cases left with
    | nil =>
      refine ⟨[e], .last hbare hne (.inr ⟨rfl, hcloses⟩), by simpa using hgathers.form, ?_⟩
      rw [← htext]
      simp [Expr.itemsColorText]
    | cons u left =>
      obtain ⟨items, hr, hform, hitems⟩ := exists_derives_word s hc rest (u :: left) hleft
      have hu := hleft u List.mem_cons_self
      refine ⟨e :: items, .more hbare hne (hu.isInfixed_eq_false "frac") ?_ hr,
        List.forall_mem_cons.mpr ⟨hgathers.form, hform⟩, ?_⟩
      · rw [hu.closes_eq_false, Bool.false_and]
      · rw [Expr.itemsColorText, String.toList_append, hitems, htext]
termination_by ts.length
decreasing_by exact hshorter

/-- A name between parentheses is read as a parenthesis around its text. -/
theorem exists_derives_parenthesized_word (s : Setting) (nested : Bool) (rest : List Token)
    {ts : List Token} (hts : ∀ t ∈ ts, t.InWord) :
    ∃ body, Derives s (.simple nested (leftRound :: (ts ++ rightRound :: rest))
        (.paren (.symbol leftRound.toSymbol) body (.symbol rightRound.toSymbol) false) rest) ∧
      body.colorText.toList = texts ts := by
  cases ts with
  | nil => exact ⟨.empty, .void rfl rfl, rfl⟩
  | cons t ts =>
    have hclosing : rightRound.isClosing = true := rfl
    obtain ⟨items, hr, hform, htext⟩ := exists_derives_word s hclosing rest (t :: ts) hts
    refine ⟨.ofItems items, ?_, by rw [Expr.colorText_ofItems, htext]⟩
    rw [← Expr.inferMatrix_of_form_notMem hform]
    exact .paren rfl (hts t List.mem_cons_self).closes_eq_false hr rfl

/-- The operator reads the text of a name as a color. -/
theorem derives_color (colors : ColorTable) {ts : List Token} (hts : ∀ t ∈ ts, t.InWord)
    {w : String} (hw : texts ts = w.toList) :
    Derives ⟨colors, none⟩ (.run false
      (color :: leftRound :: (ts ++ [rightRound, ⟨.identifier, some "x", "x", []⟩]))
      [.binary (.symbol ⟨some "color", "color"⟩) (.color (colors.ofText w) w) (.identifier "x")]
      []) := by
  obtain ⟨body, hparen, hbody⟩ := exists_derives_parenthesized_word ⟨colors, none⟩ false
    [⟨.identifier, some "x", "x", []⟩] hts
  have hname : body.colorText = w := String.toList_inj.mp (hbody.trans hw)
  have hleaf : Derives ⟨colors, none⟩ (.simple false [⟨.identifier, some "x", "x", []⟩]
      (.identifier "x") []) := .leaf rfl
  refine .last (.bare (.binary rfl hparen hleaf ?_ rfl) rfl rfl) nofun (.inl rfl)
  show Setting.convert _ .color (.group _ body _) = _
  simp only [Setting.convert, Expr.colorText, hname]

end Grammar

/-- A name between parentheses is the text of the color, however it falls apart into tokens.  Which
color it is depends on the name and on the table of colors only. -/
theorem color_name_survives (colors : ColorTable) {w : String}
    (hw : ∀ c ∈ w.toList, Text.isColorChar c = true) :
    Expr.parse .spellings colors ("color(" ++ w ++ ")x") =
      .ok (.binary (.symbol ⟨some "color", "color"⟩) (.color (colors.ofText w) w)
        (.identifier "x")) := by
  obtain ⟨ts, htokens, hts, htexts⟩ := Token.exists_tokens_color hw
  have hderives := Grammar.derives_color colors hts htexts
  rw [← htokens] at hderives
  exact parse_of_derives (SymbolTable.error_read_spellings _) hderives

/-- Spellings of operators, a number, and the operator for colors itself within a name of the
table. -/
theorem color_name_survives_operators :
    (∀ c ∈ "fracbb#12colorsin".toList, Text.isColorChar c = true) ∧
      Expr.parse .spellings ⟨[("fracbb#12colorsin", ⟨1, 2, 3⟩)]⟩ "color(fracbb#12colorsin)x" =
        .ok (.binary (.symbol ⟨some "color", "color"⟩) (.color ⟨1, 2, 3⟩ "fracbb#12colorsin")
          (.identifier "x")) := by
  have hw : ∀ c ∈ "fracbb#12colorsin".toList, Text.isColorChar c = true :=
    List.all_eq_true.mp (by decide)
  have hcolor : ColorTable.ofText ⟨[("fracbb#12colorsin", ⟨1, 2, 3⟩)]⟩ "fracbb#12colorsin" =
      ⟨1, 2, 3⟩ := by
    decide +kernel
  have hsource : "color(" ++ "fracbb#12colorsin" ++ ")x" = "color(fracbb#12colorsin)x" := by
    decide
  have hparse := color_name_survives ⟨[("fracbb#12colorsin", ⟨1, 2, 3⟩)]⟩ hw
  rw [hcolor, hsource] at hparse
  exact ⟨hw, hparse⟩

end MathMarkup
