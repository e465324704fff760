import MathMarkup.Proofs.Lossless
import MathMarkup.Proofs.LongestMatch

/-!
# Other blanks between the same tokens

A token is chosen in view of what comes after it: a number takes the digits that follow, and a
spelling is the longest that fits.  If blanks come after the token instead, there is less to choose
from, and the token that was chosen before is chosen again.  `Token.Unaffected` says when this holds
of a text and of what is written after it.  A backslash is the exception, because it makes one unit
with a blank.

* `Token.readLiteral_again`, `Token.splitNumber?_of_isNumeral`, `Token.readSymbol_again`: the three
  ways to read a token give the same token again.
* `respacing_invariance`: the texts of the tokens of a source, written with any blanks between them,
  are read as the same tokens.
-/

namespace MathMarkup

namespace Token

open Text

/-- The texts of tokens in order, with blanks between any two. -/
inductive Respaced : List Token → List Char → Prop where
  | nil : Respaced [] []
  | last {t} : Respaced [t] t.text.toList
  | next {t u ts cs} (gap : List Char) (hne : gap ≠ []) (hgap : ∀ c ∈ gap, isBlank c = true)
      (h : Respaced (u :: ts) cs) : Respaced (t :: u :: ts) (t.text.toList ++ (gap ++ cs))

/-! ## What can come after a text -/

/-- A blank comes next, if anything does. -/
def AtGap (cs : List Char) : Prop :=
  ∀ c ∈ cs.head?, isBlank c = true

/-- What comes after a text does not change how the text is read: there is nothing, or a blank that
no backslash stands before. -/
def Unaffected (text rest : List Char) : Prop :=
  AtGap rest ∧ (rest ≠ [] → text.getLast? ≠ some '\\')

theorem unaffected_nil (text : List Char) : Unaffected text [] :=
  ⟨nofun, fun h => absurd rfl h⟩

theorem Unaffected.of_append (us : List Char) {vs rest : List Char}
    (h : Unaffected (us ++ vs) rest) : Unaffected vs rest := by
  refine ⟨h.1, fun hne hlast => h.2 hne ?_⟩
  rw [List.getLast?_append, hlast]
  rfl

/-- A piece that the next character is not in ends with the text or before. -/
theorem isPrefix_of_not_mem_head {piece text rest : List Char}
    (hrest : ∀ c ∈ rest.head?, c ∉ piece) (h : piece <+: text ++ rest) : piece <+: text := by
  rcases List.prefix_or_prefix_of_prefix h (List.prefix_append text rest) with hstart | ⟨more, rfl⟩
  · exact hstart
  · cases more with
    | nil => exact (List.append_nil text).symm ▸ List.prefix_refl text
    | cons c more =>
      obtain ⟨after, rfl⟩ := (List.prefix_append_right_inj text).mp h
      exact absurd (List.mem_append_right text List.mem_cons_self) (hrest c rfl)

/-- Where a run of characters is followed by one of another kind, the run ends there. -/
theorem takeWhile_dropWhile_append {p : Char → Bool} {run : List Char}
    (hrun : ∀ c ∈ run, p c = true) (rest : List Char) (hrest : ∀ c ∈ rest.head?, p c = false) :
    (run ++ rest).takeWhile p = run ∧ (run ++ rest).dropWhile p = rest := by
  rw [List.takeWhile_append_of_pos hrun, List.dropWhile_append_of_pos hrun]
  cases rest with
  | nil => simp
  | cons c rest => simp [hrest c rfl]

/-! ## Literal texts -/

theorem isPrefix_text_readLiteral (opening : List Char) (close : Char) (body : List Char) :
    opening <+: (readLiteral opening close body).1.text.toList := by
  unfold readLiteral
  split <;> simp

/-- A literal text is read again.  If it took all that was left, nothing may come after it. -/
theorem readLiteral_again {opening body rest body' rest' : List Char} {close : Char} {t : Token}
    (h : readLiteral opening close body = (t, rest)) (hrest : rest = [] → rest' = [])
    (hbody : opening ++ body' = t.text.toList ++ rest') :
    readLiteral opening close body' = (t, rest') := by
  have hcontent : ∀ c ∈ body.takeWhile (· ≠ close), decide (c ≠ close) = true :=
    fun c hc => List.mem_takeWhile_imp (p := (· ≠ close)) hc
  unfold readLiteral at h
  split at h
  · cases h
    obtain rfl := hrest rfl
    obtain ⟨htake, hdrop⟩ := takeWhile_dropWhile_append hcontent [] (by simp)
    rw [String.toList_ofList, List.append_assoc, List.append_cancel_left_eq] at hbody
    unfold readLiteral
    rw [hbody, htake, hdrop]
  · rename_i c after hcons
    cases h
    obtain ⟨htake, hdrop⟩ := takeWhile_dropWhile_append hcontent (close :: rest') (by simp)
    rw [String.toList_ofList, List.append_assoc, List.append_assoc, List.append_cancel_left_eq,
      List.singleton_append] at hbody
    unfold readLiteral
    rw [hbody, htake, hdrop]

/-! ## Numbers -/

theorem isDigit_of_atGap {rest : List Char} (h : AtGap rest) :
    ∀ c ∈ rest.head?, isDigit c = false := by
  intro c hc
  cases hdigit : isDigit c with
  | false => rfl
  | true =>
    have hblank := h c hc
    rw [isBlank_eq_false_of_isDigit hdigit] at hblank
    cases hblank

theorem isEmpty_eq_false_of_isDigits {cs : List Char} (h : IsDigits cs) : cs.isEmpty = false := by
  rw [List.isEmpty_eq_false_iff]
  exact h.1

/-- A fraction before a gap is split off again. -/
theorem splitFraction_of_atGap {fraction rest : List Char} (hrest : AtGap rest)
    (h : fraction = [] ∨ ∃ digits, IsDigits digits ∧ fraction = '.' :: digits) :
    splitFraction (fraction ++ rest) = (fraction, rest) := by
  rcases h with rfl | ⟨digits, hdigits, rfl⟩
  · unfold splitFraction
    split
    · rename_i after heq
      have hblank := hrest '.' (by rw [← List.nil_append rest, heq]; rfl)
      cases hblank
    · rfl
  · obtain ⟨htake, hdrop⟩ := takeWhile_dropWhile_append hdigits.2 rest (isDigit_of_atGap hrest)
    rw [List.cons_append, splitFraction, htake, hdrop, isEmpty_eq_false_of_isDigits hdigits]
    rfl

/-- A number before a gap is split off again. -/
theorem splitNumber?_of_isNumeral {digits rest : List Char} (h : IsNumeral digits)
    (hrest : AtGap rest) : splitNumber? (digits ++ rest) = some (digits, rest) := by
  obtain ⟨sign, whole, fraction, rfl, hsign, hwhole, hfraction⟩ := h
  have hnext : ∀ c ∈ (fraction ++ rest).head?, isDigit c = false := by
    rcases hfraction with rfl | ⟨ds, -, rfl⟩
    · exact isDigit_of_atGap hrest
    · rintro _ ⟨⟩
      rfl
  have hunsigned :
      splitUnsigned? (whole ++ (fraction ++ rest)) = some (whole ++ fraction, rest) := by
    obtain ⟨htake, hdrop⟩ := takeWhile_dropWhile_append hwhole.2 _ hnext
    rw [splitUnsigned?, htake, hdrop, isEmpty_eq_false_of_isDigits hwhole,
      splitFraction_of_atGap hrest hfraction]
    rfl
  rw [List.append_assoc, List.append_assoc]
  rcases hsign with rfl | rfl
  · rw [List.nil_append, List.nil_append]
    unfold splitNumber?
    split
    · rename_i after heq
      obtain ⟨d, ds, rfl⟩ := List.exists_cons_of_ne_nil hwhole.1
      rw [List.cons_append, List.cons.injEq] at heq
      have hdigit := hwhole.2 d List.mem_cons_self
      rw [heq.1] at hdigit
      cases hdigit
    · exact hunsigned
  · rw [List.singleton_append, splitNumber?, hunsigned]
    rfl

/-! ## Spellings -/

theorem Scans.flatten_isPrefix {cs : List Char} {us : List (List Char)} (h : Scans cs us) :
    us.flatten <+: cs := by
  rw [← units_of_scans h (Nat.le_refl _)]
  exact (units_spec _ cs).2

/-- The first of the units are the units of their own text, if it is followed by a gap. -/
theorem Scans.take {cs rest : List Char} {us : List (List Char)} (h : Scans cs us) (k : Nat)
    (hrest : Unaffected (us.take k).flatten rest) :
    Scans ((us.take k).flatten ++ rest) (us.take k) := by
  induction h generalizing k with
  | stop =>
    rw [List.take_nil]
    exact .stop fun c hc => .inl (hrest.1 c hc)
  | @pair d cs us hd h ih =>
    cases k with
    | zero => exact .stop fun c hc => .inl (hrest.1 c hc)
    | succ k => exact .pair hd (ih k (hrest.of_append ['\\', d]))
  | @single c cs us hc hcs h ih =>
    cases k with
    | zero => exact .stop fun c hc => .inl (hrest.1 c hc)
    | succ k =>
      refine .single hc (fun hslash d hd => ?_) (ih k (hrest.of_append [c]))
      change d ∈ ((us.take k).flatten ++ rest).head? at hd
      cases hmore : (us.take k).flatten with
      | nil =>
        -- the text is the backslash alone, so nothing comes after it
        rw [List.take_succ_cons, List.flatten_cons, hmore, hslash] at hrest
        rw [hmore, List.nil_append] at hd
        refine absurd rfl (hrest.2 ?_)
        rintro rfl
        cases hd
      | cons d' more =>
        -- what comes after the backslash came after it before
        have hstart : d' :: more <+: cs := by
          refine List.IsPrefix.trans ?_ h.flatten_isPrefix
          conv => rhs; rw [← List.take_append_drop k us]
          rw [List.flatten_append, hmore]
          exact List.prefix_append _ _
        obtain ⟨after, rfl⟩ := hstart
        rw [hmore] at hd
        exact hcs hslash d hd

theorem Longest.unique {symbols : SymbolTable} {us : List (List Char)} {j k : Nat}
    {d e : Descriptor} (h : Longest symbols us j d) (h' : Longest symbols us k e) :
    j = k ∧ d = e := by
  have hle : j ≤ k := by
    refine Nat.not_lt.mp fun hlt => ?_
    have hnone := h'.greatest j hlt h.le
    rw [h.key] at hnone
    cases hnone
  have hge : k ≤ j := by
    refine Nat.not_lt.mp fun hlt => ?_
    have hnone := h.greatest k hlt h'.le
    rw [h'.key] at hnone
    cases hnone
  obtain rfl := Nat.le_antisymm hle hge
  exact ⟨rfl, Option.some.inj (h.key.symm.trans h'.key)⟩

section

variable {symbols : SymbolTable} {c : Char} {after rest : List Char} {us : List (List Char)}

/-- Where a run of units is the longest key, it is read. -/
theorem Longest.readSymbol_eq (hroles : symbols.HasRoles) {k : Nat} {d : Descriptor} {role : Role}
    (hus : Scans (c :: after) us) (h : Longest symbols us k d) (hrole : d.kind = .grammar role)
    (hrest : (us.take k).flatten ++ rest = c :: after) :
    readSymbol symbols symbols.window c after =
      .ok (⟨.role role, d.value, String.ofList (us.take k).flatten, d.extra⟩, rest) := by
  have hne : us ≠ [] := List.ne_nil_of_length_pos (Nat.lt_of_lt_of_le h.pos h.le)
  obtain ⟨unit, others, rfl⟩ := List.exists_cons_of_ne_nil hne
  obtain ⟨t, rest', hread, ⟨j, e, role', hlongest, hrole', rfl⟩ | ⟨hnone, -⟩⟩ :=
    readSymbol_longest hroles hus
  · obtain ⟨rfl, rfl⟩ := h.unique hlongest
    obtain rfl : role = role' := Kind.grammar.inj (hrole.symm.trans hrole')
    have htext := (readSymbol_spec hread).2
    rw [String.toList_ofList, ← hrest, List.append_cancel_left_eq] at htext
    rw [hread, htext]
  · have hkey := hnone k h.pos h.le
    rw [h.key] at hkey
    cases hkey

/-- Where no run of units is a key, the first unit is read. -/
theorem readSymbol_eq_of_forall_none (hroles : symbols.HasRoles) {unit : List Char}
    (hus : Scans (c :: after) (unit :: us))
    (hnone : ∀ k, 1 ≤ k → k ≤ (unit :: us).length →
      symbols.lookup (String.ofList ((unit :: us).take k).flatten) = none)
    (hrest : unit ++ rest = c :: after) :
    readSymbol symbols symbols.window c after =
      .ok (⟨.identifier, some (String.ofList unit), String.ofList unit, []⟩, rest) := by
  obtain ⟨t, rest', hread, ⟨j, e, role', hlongest, -, -⟩ | ⟨-, rfl⟩⟩ :=
    readSymbol_longest hroles hus
  · have hkey := hnone j hlongest.pos hlongest.le
    rw [hlongest.key] at hkey
    cases hkey
  · have htext := (readSymbol_spec hread).2
    rw [String.toList_ofList, ← hrest, List.append_cancel_left_eq] at htext
    rw [hread, htext]

/-- A spelling or a single unit is read again. -/
theorem readSymbol_again (hroles : symbols.HasRoles) {t : Token} {after' rest' : List Char}
    (hc : ¬ (isBlank c = true ∨ isDigit c = true))
    (h : readSymbol symbols symbols.window c after = .ok (t, rest))
    (hrest : Unaffected t.text.toList rest') (htext : t.text.toList ++ rest' = c :: after') :
    readSymbol symbols symbols.window c after' = .ok (t, rest') := by
  obtain ⟨us, hus⟩ := exists_scans (c :: after)
  obtain ⟨unit, others, rfl⟩ : ∃ unit others, us = unit :: others := by
    refine List.exists_cons_of_ne_nil ?_
    rintro rfl
    cases hus with
    | stop hstop => exact hc (hstop c rfl)
  obtain ⟨t', left, hread, ⟨k, d, role, hlongest, hrole, rfl⟩ | ⟨hnone, rfl⟩⟩ :=
    readSymbol_longest hroles hus
  · rw [h] at hread
    cases hread
    rw [String.toList_ofList] at hrest htext
    have hscans := hus.take k hrest
    have hlength : ((unit :: others).take k).length = k := by
      rw [List.length_take, Nat.min_eq_left hlongest.le]
    have hself : ((unit :: others).take k).take k = (unit :: others).take k := by
      rw [List.take_take, Nat.min_self]
    have hlongest' : Longest symbols ((unit :: others).take k) k d := by
      refine ⟨hlongest.pos, Nat.le_of_eq hlength.symm, ?_, fun j hkj hj => ?_⟩
      · rw [hself]
        exact hlongest.key
      · omega
    rw [htext] at hscans
    have hread := hlongest'.readSymbol_eq hroles hscans hrole (by rw [hself]; exact htext)
    rw [hself] at hread
    exact hread
  · rw [h] at hread
    cases hread
    rw [String.toList_ofList] at hrest htext
    have hscans := hus.take 1 (by simpa using hrest)
    simp only [List.take_succ_cons, List.take_zero, List.flatten_singleton] at hscans
    rw [htext] at hscans
    refine readSymbol_eq_of_forall_none hroles hscans (fun k hk hle => ?_) htext
    obtain rfl : k = 1 := Nat.le_antisymm hle hk
    simpa using hnone 1 (Nat.le_refl 1) (by simp)

end

/-! ## Tokens -/

/-- A token is read again before a gap.  If nothing was left after it, nothing may be left now: a
literal text that is not closed would go on. -/
theorem readAt_again {symbols : SymbolTable} (hroles : symbols.HasRoles) {c : Char}
    {after rest after' rest' : List Char} {t : Token} (hc : isBlank c = false)
    (h : readAt symbols symbols.window c after = .ok (t, rest))
    (hgap : Unaffected t.text.toList rest') (hrest : rest = [] → rest' = [])
    (htext : t.text.toList ++ rest' = c :: after') :
    readAt symbols symbols.window c after' = .ok (t, rest') := by
  have htext₀ := (readAt_spec h).2
  -- no piece without blanks starts here that did not start here before
  have hpiece {piece : List Char} (hblank : piece.any isBlank = false)
      (hstart : piece <+: c :: after') : piece <+: c :: after := by
    rw [← htext] at hstart
    rw [← htext₀]
    refine (isPrefix_of_not_mem_head (fun x hx hmem => ?_) hstart).trans (List.prefix_append _ _)
    exact List.any_eq_false.mp hblank x hmem (hgap.1 x hx)
  unfold readAt at h
  split at h
  · rename_i hquote
    subst hquote
    unfold readAt
    rw [if_pos rfl, readLiteral_again (Except.ok.inj h) hrest htext.symm]
  rename_i hquote
  split at h
  · have h := Except.ok.inj h
    have hopening := isPrefix_text_readLiteral "text(".toList ')' (after.drop 4)
    rw [h] at hopening
    have hliteral : "text(".toList <+: c :: after' :=
      htext ▸ hopening.trans (List.prefix_append _ rest')
    obtain ⟨body, hbody⟩ := hliteral
    obtain ⟨rfl, rfl⟩ : c = 't' ∧ after' = "ext(".toList ++ body :=
      ⟨(List.cons.inj hbody).1.symm, (List.cons.inj hbody).2.symm⟩
    unfold readAt
    rw [if_neg hquote, if_pos (List.isPrefixOf_iff_prefix.mpr ⟨body, hbody⟩)]
    exact congrArg Except.ok (readLiteral_again h hrest (hbody.trans htext.symm))
  rename_i hliteral
  have hliteral' : ¬ "text(".toList.isPrefixOf (c :: after') = true := by
    rw [List.isPrefixOf_iff_prefix] at hliteral ⊢
    exact fun hstart => hliteral (hpiece (by decide) hstart)
  split at h
  · rename_i digits rest₀ hnumber
    cases h
    rw [String.toList_ofList] at htext
    have hnumber' := splitNumber?_of_isNumeral (isNumeral_of_splitNumber? hnumber) hgap.1
    rw [htext] at hnumber'
    unfold readAt
    rw [if_neg hquote, if_neg hliteral', hnumber']
  · rename_i hnumber
    obtain ⟨hdigit, hminus⟩ := splitNumber?_eq_none_iff.mp hnumber
    have hnumber' : splitNumber? (c :: after') = none := by
      refine splitNumber?_eq_none_iff.mpr ⟨hdigit, fun hsign d hd => ?_⟩
      obtain ⟨more, rfl⟩ := List.head?_eq_some_iff.mp hd
      cases hd' : isDigit d with
      | false => rfl
      | true =>
        -- the digit would have come after the sign before
        have hblank : [c, d].any isBlank = false := by
          simp [hc, isBlank_eq_false_of_isDigit hd']
        obtain ⟨more', hmore⟩ := hpiece hblank ⟨more, rfl⟩
        have hafter := hminus hsign d (by rw [← (List.cons.inj hmore).2]; rfl)
        rw [hd'] at hafter
        cases hafter
    unfold readAt
    rw [if_neg hquote, if_neg hliteral', hnumber']
    exact readSymbol_again hroles (by simp [hc, hdigit]) h hgap htext

theorem next_again {symbols : SymbolTable} (hroles : symbols.HasRoles) {cs rest rest' : List Char}
    {t : Token} (h : next symbols symbols.window cs = .ok (some (t, rest)))
    (hgap : Unaffected t.text.toList rest') (hrest : rest = [] → rest' = []) :
    next symbols symbols.window (t.text.toList ++ rest') = .ok (some (t, rest')) := by
  have hne : t.text.toList ≠ [] := by
    intro hnil
    refine (next_formed h).1 ?_
    rw [← String.toList_inj, hnil]
    rfl
  obtain ⟨c, text, hcons⟩ := List.exists_cons_of_ne_nil hne
  unfold next at h
  split at h
  · cases h
  · rename_i c₀ after hcs
    have hc₀ : isBlank c₀ = false := by
      have hhead := List.head_dropWhile_not isBlank (l := cs)
        (by rw [hcs]; exact List.cons_ne_nil c₀ after)
      simpa only [hcs, List.head_cons] using hhead
    cases hread : readAt symbols symbols.window c₀ after with
    | error e =>
      rw [hread] at h
      cases h
    | ok p =>
      rw [hread] at h
      cases h
      have htext := (readAt_spec hread).2
      rw [hcons] at htext
      obtain ⟨rfl, -⟩ := List.cons.inj htext
      have htext' : t.text.toList ++ rest' = c :: (text ++ rest') := by rw [hcons]; rfl
      have hread' := readAt_again hroles hc₀ hread hgap hrest htext'
      unfold next
      rw [htext', List.dropWhile_cons_of_neg (by simp [hc₀])]
      dsimp only
      rw [hread']
      rfl

/-! ## Sources -/

/-- Blanks before a source make no difference. -/
theorem readAll_gap (symbols : SymbolTable) (window : Nat) {gap : List Char}
    (hgap : ∀ c ∈ gap, isBlank c = true) (cs : List Char) :
    readAll symbols window (gap ++ cs) = readAll symbols window cs := by
  have hnext : next symbols window (gap ++ cs) = next symbols window cs := by
    unfold next
    rw [List.dropWhile_append_of_pos hgap]
  rw [readAll_eq, readAll_eq symbols window cs, hnext]

theorem readAll_nil (symbols : SymbolTable) (window : Nat) :
    readAll symbols window [] = ⟨[], none⟩ := by
  rw [readAll_eq]
  rfl

theorem tokens_readAll_of_next {symbols : SymbolTable} {window : Nat} {cs rest : List Char}
    {t : Token} (h : next symbols window cs = .ok (some (t, rest))) :
    (readAll symbols window cs).tokens = t :: (readAll symbols window rest).tokens := by
  rw [readAll_eq, h]

theorem exists_next_of_tokens_eq {symbols : SymbolTable} {window : Nat} {cs : List Char} {t : Token}
    {ts : List Token} (h : (readAll symbols window cs).tokens = t :: ts) :
    ∃ rest, next symbols window cs = .ok (some (t, rest)) ∧
      (readAll symbols window rest).tokens = ts := by
  rw [readAll_eq] at h
  split at h
  · cases h
  · cases h
  · rename_i u rest hnext
    cases h
    exact ⟨rest, hnext, rfl⟩

/-- The texts of the tokens of a source, with blanks between them, are read as these tokens. -/
theorem tokens_readAll_respaced {symbols : SymbolTable} (hroles : symbols.HasRoles)
    {ts : List Token} {cs' : List Char} (h : Respaced ts cs') {cs : List Char}
    (hcs : (readAll symbols symbols.window cs).tokens = ts)
    (hslash : ∀ t ∈ ts.dropLast, t.text.toList.getLast? ≠ some '\\') :
    (readAll symbols symbols.window cs').tokens = ts := by
  induction h generalizing cs with
  | nil => rw [readAll_nil]
  | @last t =>
    obtain ⟨rest, hnext, -⟩ := exists_next_of_tokens_eq hcs
    have hagain := next_again hroles hnext (unaffected_nil _) fun _ => rfl
    rw [List.append_nil] at hagain
    rw [tokens_readAll_of_next hagain, readAll_nil]
  | @next t u ts cs' gap hne hgap _ ih =>
    obtain ⟨rest, hnext, hrest⟩ := exists_next_of_tokens_eq hcs
    have hleft : rest ≠ [] := by
      -- there is another token
      rintro rfl
      rw [readAll_nil] at hrest
      cases hrest
    obtain ⟨blank, blanks, rfl⟩ := List.exists_cons_of_ne_nil hne
    have hafter : Unaffected t.text.toList (blank :: blanks ++ cs') := by
      refine ⟨?_, fun _ => hslash t List.mem_cons_self⟩
      rintro _ ⟨⟩
      exact hgap blank List.mem_cons_self
    have hagain := next_again hroles hnext hafter fun hnil => absurd hnil hleft
    rw [tokens_readAll_of_next hagain, readAll_gap symbols _ hgap,
      ih hrest fun v hv => hslash v (List.mem_cons_of_mem t hv)]

end Token

/-- With a table of roles, take the tokens of a source, of which none but the last ends in a
backslash.  Their texts in order, with any blanks between them, are a source of the same tokens and
of the same expression. -/
theorem respacing_invariance {symbols : SymbolTable} (hroles : symbols.HasRoles)
    {source source' : String}
    (hslash : ∀ t ∈ (symbols.read source).tokens.dropLast, t.text.toList.getLast? ≠ some '\\')
    (h : Token.Respaced (symbols.read source).tokens source'.toList) :
    symbols.read source' = symbols.read source ∧
      ∀ colors, Expr.parse symbols colors source' = Expr.parse symbols colors source := by
  have htokens : (symbols.read source').tokens = (symbols.read source).tokens :=
    Token.tokens_readAll_respaced hroles h rfl hslash
  have herror (s : String) : (symbols.read s).error = none := Token.error_readAll hroles
  have hread : symbols.read source' = symbols.read source := by
    show Token.Reading.mk (symbols.read source').tokens (symbols.read source').error =
      ⟨(symbols.read source).tokens, (symbols.read source).error⟩
    rw [htokens, herror, herror]
  refine ⟨hread, fun colors => ?_⟩
  unfold Expr.parse
  rw [hread]

/-- A number that a point follows, a spelling within a longer one, a text that holds a blank, and a
backslash at the end. -/
theorem respacing_invariance_mixed :
    SymbolTable.spellings.HasRoles ∧
      (∀ t ∈ (SymbolTable.spellings.read "sinh2.x|-> \"a b\"\\").tokens.dropLast,
        t.text.toList.getLast? ≠ some '\\') ∧
      Token.Respaced (SymbolTable.spellings.read "sinh2.x|-> \"a b\"\\").tokens
        "sinh 2 \t. x |->\n\"a b\" \\".toList ∧
      SymbolTable.spellings.read "sinh 2 \t. x |->\n\"a b\" \\" =
        SymbolTable.spellings.read "sinh2.x|-> \"a b\"\\" ∧
      ∀ colors, Expr.parse .spellings colors "sinh 2 \t. x |->\n\"a b\" \\" =
        Expr.parse .spellings colors "sinh2.x|-> \"a b\"\\" := by
  have htokens : (SymbolTable.spellings.read "sinh2.x|-> \"a b\"\\").tokens =
      [⟨.role .unary, some "sinh", "sinh", []⟩, ⟨.number, some "2", "2", []⟩,
        ⟨.identifier, some ".", ".", []⟩, ⟨.identifier, some "x", "x", []⟩,
        ⟨.role .symbol, some "mapsto", "|->", []⟩, ⟨.text, some "a b", "\"a b\"", []⟩,
        ⟨.identifier, some "\\", "\\", []⟩] := by
    rw [SymbolTable.read_spellings]
    decide +kernel
  have hslash : ∀ t ∈ (SymbolTable.spellings.read "sinh2.x|-> \"a b\"\\").tokens.dropLast,
      t.text.toList.getLast? ≠ some '\\' := by
    rw [htokens]
    decide
  have hrespaced : Token.Respaced (SymbolTable.spellings.read "sinh2.x|-> \"a b\"\\").tokens
      "sinh 2 \t. x |->\n\"a b\" \\".toList := by
    rw [htokens]
    have hgap {gap : List Char} (h : gap.all Text.isBlank = true) :
        ∀ c ∈ gap, Text.isBlank c = true :=
      List.all_eq_true.mp h
    exact .next [' '] nofun (hgap rfl) <| .next [' ', '\t'] nofun (hgap rfl) <|
      .next [' '] nofun (hgap rfl) <| .next [' '] nofun (hgap rfl) <|
      .next ['\n'] nofun (hgap rfl) <| .next [' '] nofun (hgap rfl) .last
  exact ⟨SymbolTable.hasRoles_spellings, hslash, hrespaced,
    respacing_invariance SymbolTable.hasRoles_spellings hslash hrespaced⟩

end MathMarkup
