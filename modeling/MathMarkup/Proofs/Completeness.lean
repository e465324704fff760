import MathMarkup.Proofs.Derivation

/-!
# The rules decide what is read

The reader gives what a derivation says, as long as no error waits where the tokens end, and every
list of tokens has a derivation, as long as each operator asks for conversions that exist.

* `Derives.result`: from a derivation to the reader.  There is one lemma for each rule that needs
  more than a few steps.
* `exists_derives_run`: every list of tokens has a run.  The induction is on the number of tokens,
  in the order in which the reader calls itself: simple expressions, intermediate ones, runs.
* `derives_of_parse`, `parse_of_derives`: the same for the expression of a source.
-/

namespace MathMarkup

/-- Every conversion that an operator asks for exists. -/
def Token.Convertible (t : Token) : Prop :=
  (t.kind = .role .unary → ∀ v, t.operand ≠ .unknown v) ∧
    (t.kind = .role .binary →
      (∀ v, t.firstOperand ≠ .unknown v) ∧ ∀ v, t.secondOperand ≠ .unknown v)

namespace Grammar

/-! ## From a derivation to the reader -/

/-- The reader gives what the judgment says. -/
def Judgment.Result (s : Setting) : Judgment → Prop
  | .simple nested ts e rest =>
    ∃ st, Grammar.simple s nested ts = .ok st ∧ st.expr = e ∧ st.rest = rest
  | .intermediate nested ts e rest =>
    ∃ st, Grammar.intermediate s nested ts = .ok st ∧ st.expr = e ∧ st.rest = rest
  | .run nested ts items rest =>
    ∃ r, Grammar.run s nested ts = .ok r ∧ r.items = items ∧ r.rest = rest

theorem Setting.atEnd_of_stop {s : Setting} (hs : s.stop = none) : s.atEnd = .ok () := by
  simp [Setting.atEnd, hs]

/-- An opening delimiter is read as a parenthesis. -/
theorem simple_of_opens (s : Setting) (nested : Bool) {t : Token} (ht : t.opens = true)
    (ts : List Token) : simple s nested (t :: ts) = paren s t ts := by
  simp only [Token.opens, Bool.or_eq_true, beq_iff_eq] at ht
  unfold simple
  rcases ht with ht | ht <;> simp [ht]

section

variable {s : Setting} {nested : Bool}

theorem void_result {t c : Token} {ts : List Token} (ht : t.opens = true) (hc : c.closes = true) :
    (Judgment.simple nested (t :: c :: ts)
      (.paren (.symbol t.toSymbol) .empty (.symbol c.toSymbol) false) ts).Result s := by
  simp only [Judgment.Result, simple_of_opens s nested ht]
  unfold paren
  simp only [hc, if_true]
  exact ⟨_, rfl, rfl, rfl⟩

theorem paren_result {t d : Token} {ts rest : List Token} {items : List Expr}
    (ht : t.opens = true) (hts : ahead Token.closes ts = false)
    (hr : (Judgment.run true ts items (d :: rest)).Result s) (hd : d.closes = true) :
    (Judgment.simple nested (t :: ts)
      (Expr.paren (.symbol t.toSymbol) (.ofItems items) (.symbol d.toSymbol) false).inferMatrix
      rest).Result s := by
  obtain ⟨⟨items, left, hle⟩, hr, rfl, rfl⟩ := hr
  cases ts with
  | nil => simp at hle
  | cons c ts =>
    rw [ahead_cons] at hts
    simp only [Judgment.Result, simple_of_opens s nested ht]
    unfold paren
    simp only [hts, hr, hd, bind, Except.bind, if_true]
    exact ⟨_, rfl, rfl, rfl⟩

theorem unclosed_result (hend : s.atEnd = .ok ()) {t : Token} {ts : List Token}
    {items : List Expr} (ht : t.opens = true) (hts : ahead Token.closes ts = false)
    (hd : Derives s (.run true ts items [])) (hr : (Judgment.run true ts items []).Result s) :
    (Judgment.simple nested (t :: ts)
      (.paren (.symbol t.toSymbol) (.ofItems items) .missing false) []).Result s := by
  simp only [Judgment.Result, simple_of_opens s nested ht]
  unfold paren
  cases ts with
  | nil =>
    cases items with
    | nil =>
      simp only [hend, bind, Except.bind]
      exact ⟨_, rfl, rfl, rfl⟩
    | cons e es => exact absurd (hd.progress (by simp)) (Nat.lt_irrefl _)
  | cons c ts =>
    obtain ⟨⟨items, left, hle⟩, hr, rfl, rfl⟩ := hr
    rw [ahead_cons] at hts
    simp only [hts, hr, hend, bind, Except.bind]
    exact ⟨_, rfl, rfl, rfl⟩

theorem leaf_result {t : Token} {ts : List Token} (ht : t.isLeaf = true) :
    (Judgment.simple nested (t :: ts) (leaf t) ts).Result s := by
  simp only [Judgment.Result]
  unfold simple
  cases hk : t.kind with
  | role r =>
    cases r with
    | symbol => exact ⟨_, rfl, rfl, rfl⟩
    | infixed => exact ⟨_, rfl, rfl, rfl⟩
    | _ => simp [Token.isLeaf, hk] at ht
  | text => exact ⟨_, rfl, rfl, rfl⟩
  | number => exact ⟨_, rfl, rfl, rfl⟩
  | identifier => exact ⟨_, rfl, rfl, rfl⟩

theorem bare_result (hend : s.atEnd = .ok ()) {ts rest : List Token} {e : Expr}
    (he : (Judgment.simple nested ts e rest).Result s)
    (hsub : ahead (·.isInfixed "sub") rest = false)
    (hsup : ahead (·.isInfixed "sup") rest = false) :
    (Judgment.intermediate nested ts e rest).Result s := by
  obtain ⟨⟨e, left, hle, hlt⟩, he, rfl, rfl⟩ := he
  simp only [Judgment.Result]
  unfold intermediate
  cases left with
  | nil =>
    simp only [he, hend, bind, Except.bind]
    exact ⟨_, rfl, rfl, rfl⟩
  | cons t rest =>
    rw [ahead_cons] at hsub hsup
    simp only [he, hsub, hsup, bind, Except.bind]
    exact ⟨_, rfl, rfl, rfl⟩

theorem dangling_result {ts mid rest : List Token} {e : Expr} {t : Token}
    (he : (Judgment.simple nested ts e (t :: mid)).Result s)
    (ht : t.isInfixed "sub" = true ∨ t.isInfixed "sup" = true)
    (hf : (Judgment.simple nested mid .empty rest).Result s) :
    (Judgment.intermediate nested ts e rest).Result s := by
  obtain ⟨⟨e, left, hle, hlt⟩, he, rfl, rfl⟩ := he
  obtain ⟨⟨f, left, hfle, hflt⟩, hf, rfl, rfl⟩ := hf
  simp only [Judgment.Result]
  unfold intermediate
  cases hsub : t.isInfixed "sub" with
  | true =>
    simp only [he, hf, hsub, bind, Except.bind]
    exact ⟨_, rfl, rfl, rfl⟩
  | false =>
    have hsup : t.isInfixed "sup" = true := by simpa [hsub] using ht
    simp only [he, hf, hsub, hsup, bind, Except.bind]
    exact ⟨_, rfl, rfl, rfl⟩

theorem sub_result (hend : s.atEnd = .ok ()) {ts mid rest : List Token} {e f : Expr} {t : Token}
    (he : (Judgment.simple nested ts e (t :: mid)).Result s) (ht : t.isInfixed "sub" = true)
    (hf : (Judgment.simple nested mid f rest).Result s) (hne : f ≠ .empty)
    (hsup : ahead (·.isInfixed "sup") rest = false) :
    (Judgment.intermediate nested ts (.scripts e f.unwrap .empty) rest).Result s := by
  obtain ⟨⟨e, left, hle, hlt⟩, he, rfl, rfl⟩ := he
  obtain ⟨⟨f, left, hfle, hflt⟩, hf, rfl, rfl⟩ := hf
  simp only [Judgment.Result]
  unfold intermediate
  cases left with
  | nil =>
    simp only [he, hf, ht, Expr.isEmpty_eq_false hne, hend, bind, Except.bind]
    exact ⟨_, rfl, rfl, rfl⟩
  | cons u after =>
    rw [ahead_cons] at hsup
    simp only [he, hf, ht, Expr.isEmpty_eq_false hne, hsup, bind, Except.bind]
    exact ⟨_, rfl, rfl, rfl⟩

theorem subSup_result {ts mid after rest : List Token} {e f g : Expr} {t u : Token}
    (he : (Judgment.simple nested ts e (t :: mid)).Result s) (ht : t.isInfixed "sub" = true)
    (hf : (Judgment.simple nested mid f (u :: after)).Result s) (hne : f ≠ .empty)
    (hu : u.isInfixed "sup" = true) (hg : (Judgment.simple nested after g rest).Result s) :
    (Judgment.intermediate nested ts (.scripts e f.unwrap g.unwrap) rest).Result s := by
  obtain ⟨⟨e, left, hle, hlt⟩, he, rfl, rfl⟩ := he
  obtain ⟨⟨f, left, hfle, hflt⟩, hf, rfl, rfl⟩ := hf
  obtain ⟨⟨g, left, hgle, hglt⟩, hg, rfl, rfl⟩ := hg
  simp only [Judgment.Result]
  unfold intermediate
  simp only [he, hf, hg, ht, hu, Expr.isEmpty_eq_false hne, bind, Except.bind]
  exact ⟨_, rfl, rfl, rfl⟩

theorem sup_result {ts mid rest : List Token} {e f : Expr} {t : Token}
    (he : (Judgment.simple nested ts e (t :: mid)).Result s) (ht : t.isInfixed "sup" = true)
    (hf : (Judgment.simple nested mid f rest).Result s) (hne : f ≠ .empty) :
    (Judgment.intermediate nested ts (.scripts e .empty f.unwrap) rest).Result s := by
  obtain ⟨⟨e, left, hle, hlt⟩, he, rfl, rfl⟩ := he
  obtain ⟨⟨f, left, hfle, hflt⟩, hf, rfl, rfl⟩ := hf
  have hsub : t.isInfixed "sub" = false := Token.isInfixed_eq_false_of_isInfixed ht (by decide)
  simp only [Judgment.Result]
  unfold intermediate
  simp only [he, hf, ht, hsub, Expr.isEmpty_eq_false hne, bind, Except.bind]
  exact ⟨_, rfl, rfl, rfl⟩

theorem done_result {ts rest : List Token}
    (he : (Judgment.intermediate nested ts .empty rest).Result s) :
    (Judgment.run nested ts [] rest).Result s := by
  obtain ⟨⟨e, left, hle, hlt⟩, he, rfl, rfl⟩ := he
  simp only [Judgment.Result]
  unfold run
  simp only [he, bind, Except.bind, dif_pos]
  exact ⟨_, rfl, rfl, rfl⟩

theorem last_result (hend : s.atEnd = .ok ()) {ts rest : List Token} {e : Expr}
    (he : (Judgment.intermediate nested ts e rest).Result s) (hne : e ≠ .empty)
    (hstop : rest = [] ∨ nested = true ∧ ahead Token.closes rest = true) :
    (Judgment.run nested ts [e] rest).Result s := by
  obtain ⟨⟨e, left, hle, hlt⟩, he, rfl, rfl⟩ := he
  simp only [Judgment.Result]
  unfold run
  cases left with
  | nil =>
    simp only [he, hend, bind, Except.bind, dif_neg hne]
    exact ⟨_, rfl, rfl, rfl⟩
  | cons t rest =>
    obtain ⟨rfl, hcloses⟩ : nested = true ∧ t.closes = true := by simpa using hstop
    have hfrac := Token.isInfixed_eq_false_of_closes hcloses "frac"
    simp only [he, hfrac, hcloses, bind, Except.bind, dif_neg hne]
    exact ⟨_, rfl, rfl, rfl⟩

theorem frac_result {ts mid after rest : List Token} {e f : Expr} {t : Token} {items : List Expr}
    (he : (Judgment.intermediate nested ts e (t :: mid)).Result s) (hne : e ≠ .empty)
    (ht : t.isInfixed "frac" = true) (hf : (Judgment.intermediate nested mid f after).Result s)
    (hr : (Judgment.run nested after items rest).Result s) :
    (Judgment.run nested ts
      ((if f.isEmpty then e else .infixed (.symbol t.toSymbol) e.unwrap f.unwrap) :: items)
      rest).Result s := by
  obtain ⟨⟨e, left, hle, hlt⟩, he, rfl, rfl⟩ := he
  obtain ⟨⟨f, left, hfle, hflt⟩, hf, rfl, rfl⟩ := hf
  obtain ⟨⟨items, left, hrle⟩, hr, rfl, rfl⟩ := hr
  simp only [Judgment.Result]
  unfold run
  simp only [he, hf, hr, ht, bind, Except.bind, dif_neg hne]
  exact ⟨_, rfl, rfl, rfl⟩

theorem more_result {ts mid rest : List Token} {e : Expr} {t : Token} {items : List Expr}
    (he : (Judgment.intermediate nested ts e (t :: mid)).Result s) (hne : e ≠ .empty)
    (ht : t.isInfixed "frac" = false) (hgo : (t.closes && nested) = false)
    (hr : (Judgment.run nested (t :: mid) items rest).Result s) :
    (Judgment.run nested ts (e :: items) rest).Result s := by
  obtain ⟨⟨e, left, hle, hlt⟩, he, rfl, rfl⟩ := he
  obtain ⟨⟨items, left, hrle⟩, hr, rfl, rfl⟩ := hr
  simp only [Judgment.Result]
  unfold run
  simp only [he, hr, ht, hgo, bind, Except.bind, dif_neg hne]
  exact ⟨_, rfl, rfl, rfl⟩

end

/-- Where the tokens end without an error, the reader gives what a derivation says. -/
theorem Derives.result {s : Setting} (hs : s.stop = none) {j : Judgment} (h : Derives s j) :
    j.Result s := by
  have hend := Setting.atEnd_of_stop hs
  induction h with
  | atEnd =>
    simp only [Judgment.Result]
    unfold Grammar.simple
    simp only [hend, bind, Except.bind]
    exact ⟨_, rfl, rfl, rfl⟩
  | atClosing ht =>
    simp only [Token.isClosing, beq_iff_eq] at ht
    simp only [Judgment.Result]
    unfold Grammar.simple
    simp only [ht]
    exact ⟨_, rfl, rfl, rfl⟩
  | stray ht =>
    simp only [Token.isClosing, beq_iff_eq] at ht
    simp only [Judgment.Result]
    unfold Grammar.simple
    simp only [ht]
    exact ⟨_, rfl, rfl, rfl⟩
  | leaf ht => exact leaf_result ht
  | unary ht _ hc ih =>
    obtain ⟨⟨e, left, hle, hlt⟩, ih, rfl, rfl⟩ := ih
    simp only [Judgment.Result]
    unfold Grammar.simple
    simp only [ht, ih, hc, bind, Except.bind]
    exact ⟨_, rfl, rfl, rfl⟩
  | binary ht _ _ hc hd ihe ihf =>
    obtain ⟨⟨e, left, hle, hlt⟩, ihe, rfl, rfl⟩ := ihe
    obtain ⟨⟨f, left', hle', hlt'⟩, ihf, rfl, rfl⟩ := ihf
    simp only [Judgment.Result]
    unfold Grammar.simple
    simp only [ht, ihe, ihf, hc, hd, bind, Except.bind]
    exact ⟨_, rfl, rfl, rfl⟩
  | void ht hc => exact void_result ht hc
  | paren ht hts _ hd ih => exact paren_result ht hts ih hd
  | unclosed ht hts hr ih => exact unclosed_result hend ht hts hr ih
  | bare _ hsub hsup ih => exact bare_result hend ih hsub hsup
  | dangling _ ht _ ihe ihf => exact dangling_result ihe ht ihf
  | sub _ ht _ hne hsup ihe ihf => exact sub_result hend ihe ht ihf hne hsup
  | subSup _ ht _ hne hu _ ihe ihf ihg => exact subSup_result ihe ht ihf hne hu ihg
  | sup _ ht _ hne ihe ihf => exact sup_result ihe ht ihf hne
  | done _ ih => exact done_result ih
  | last _ hne hstop ih => exact last_result hend ih hne hstop
  | frac _ hne ht _ hfne _ ihe ihf ihr =>
    simpa [Expr.isEmpty_eq_false hfne] using frac_result ihe hne ht ihf ihr
  | noFrac _ hne ht _ _ ihe ihf ihr => exact frac_result ihe hne ht ihf ihr
  | more _ hne ht hgo _ ihe ihr => exact more_result ihe hne ht hgo ihr

/-! ## Every list of tokens can be read -/

theorem exists_convert (s : Setting) {c : Conversion} (hc : ∀ v, c ≠ .unknown v) (e : Expr) :
    ∃ e', s.convert c e = .ok e' := by
  cases c with
  | keep => exact ⟨e, rfl⟩
  | color => exact ⟨_, rfl⟩
  | unknown v => exact absurd rfl (hc v)

/-- Simple expressions can be read from fewer than `n` tokens. -/
def SimpleTotal (s : Setting) (n : Nat) : Prop :=
  ∀ (nested : Bool) (ts : List Token), ts.length < n → (∀ t ∈ ts, t.Convertible) →
    ∃ e rest, Derives s (.simple nested ts e rest)

/-- Intermediate expressions can be read from fewer than `n` tokens. -/
def IntermediateTotal (s : Setting) (n : Nat) : Prop :=
  ∀ (nested : Bool) (ts : List Token), ts.length < n → (∀ t ∈ ts, t.Convertible) →
    ∃ e rest, Derives s (.intermediate nested ts e rest)

/-- Runs can be read from fewer than `n` tokens. -/
def RunTotal (s : Setting) (n : Nat) : Prop :=
  ∀ (nested : Bool) (ts : List Token), ts.length < n → (∀ t ∈ ts, t.Convertible) →
    ∃ items rest, Derives s (.run nested ts items rest)

theorem exists_derives_paren {s : Setting} {n : Nat} (hrun : RunTotal s n) (nested : Bool)
    {t : Token} {ts : List Token} (hlen : ts.length < n) (hts : ∀ t ∈ ts, t.Convertible)
    (ht : t.opens = true) : ∃ e rest, Derives s (.simple nested (t :: ts) e rest) := by
  cases hc : ahead Token.closes ts with
  | true =>
    cases ts with
    | nil => simp at hc
    | cons c ts => exact ⟨_, _, .void ht hc⟩
  | false =>
    obtain ⟨items, rest, hr⟩ := hrun true ts hlen hts
    cases rest with
    | nil => exact ⟨_, _, .unclosed ht hc hr⟩
    | cons d rest =>
      rcases hr.runStops with hnil | ⟨-, hd⟩
      · simp at hnil
      · exact ⟨_, _, .paren ht hc hr hd⟩

theorem simpleTotal_succ {s : Setting} {n : Nat} (hsimple : SimpleTotal s n)
    (hrun : RunTotal s n) : SimpleTotal s (n + 1) := by
  intro nested ts hlen hts
  cases ts with
  | nil => exact ⟨_, _, .atEnd⟩
  | cons t rest =>
    have hrest : rest.length < n := by
      rw [List.length_cons] at hlen
      omega
    have hmem : ∀ u ∈ rest, u.Convertible := fun u hu => hts u (List.mem_cons_of_mem t hu)
    have hconv : t.Convertible := hts t List.mem_cons_self
    by_cases hopens : t.opens = true
    · exact exists_derives_paren hrun nested hrest hmem hopens
    by_cases hclosing : t.isClosing = true
    · cases nested with
      | true => exact ⟨_, _, .atClosing hclosing⟩
      | false => exact ⟨_, _, .stray hclosing⟩
    by_cases hunary : t.kind = .role .unary
    · obtain ⟨e, left, he⟩ := hsimple nested rest hrest hmem
      obtain ⟨operand, hc⟩ := exists_convert s (hconv.1 hunary) e.unwrap
      exact ⟨_, _, .unary hunary he hc⟩
    by_cases hbinary : t.kind = .role .binary
    · obtain ⟨e, mid, he⟩ := hsimple nested rest hrest hmem
      have hmid : mid <:+ rest := he.leavesSuffix
      have hle := hmid.length_le
      obtain ⟨f, left, hf⟩ := hsimple nested mid (by omega) (fun u hu => hmem u (hmid.subset hu))
      obtain ⟨first, hc⟩ := exists_convert s (hconv.2 hbinary).1 e.unwrap
      obtain ⟨second, hd⟩ := exists_convert s (hconv.2 hbinary).2 f.unwrap
      exact ⟨_, _, .binary hbinary he hf hc hd⟩
    · refine ⟨_, _, .leaf ?_⟩
      simp only [Token.opens, Token.isClosing, Bool.or_eq_true, beq_iff_eq] at hopens hclosing
      unfold Token.isLeaf
      cases hk : t.kind with
      | role r => cases r <;> simp_all
      | _ => rfl

theorem intermediateTotal {s : Setting} {n : Nat} (hsimple : SimpleTotal s n) :
    IntermediateTotal s n := by
  intro nested ts hlen hts
  obtain ⟨e, left, he⟩ := hsimple nested ts hlen hts
  have next {t : Token} {mid us : List Token} (hus : t :: mid <:+ us) (hle : us <:+ ts) :
      ∃ f rest, Derives s (.simple nested mid f rest) := by
    have hmid : mid <:+ ts := (tail_suffix hus).trans hle
    have hmidle := hmid.length_le
    exact hsimple nested mid (by omega) (fun u hu => hts u (hmid.subset hu))
  cases left with
  | nil => exact ⟨_, _, .bare he rfl rfl⟩
  | cons t mid =>
    by_cases hscript : t.isInfixed "sub" = true ∨ t.isInfixed "sup" = true
    · obtain ⟨f, rest, hf⟩ := next he.leavesSuffix (List.suffix_refl ts)
      by_cases hempty : f = .empty
      · subst hempty
        exact ⟨_, _, .dangling he hscript hf⟩
      rcases hscript with hsub | hsup
      · cases hu : ahead (·.isInfixed "sup") rest with
        | false => exact ⟨_, _, .sub he hsub hf hempty hu⟩
        | true =>
          cases rest with
          | nil => simp at hu
          | cons u after =>
            have hle : mid <:+ ts := tail_suffix he.leavesSuffix
            obtain ⟨g, rest, hg⟩ := next hf.leavesSuffix hle
            exact ⟨_, _, .subSup he hsub hf hempty hu hg⟩
      · exact ⟨_, _, .sup he hsup hf hempty⟩
    · rw [not_or, Bool.not_eq_true, Bool.not_eq_true] at hscript
      exact ⟨_, _, .bare he hscript.1 hscript.2⟩

theorem runTotal_succ {s : Setting} {n : Nat} (hint : IntermediateTotal s (n + 1))
    (hrun : RunTotal s n) : RunTotal s (n + 1) := by
  intro nested ts hlen hts
  obtain ⟨e, left, he⟩ := hint nested ts hlen hts
  by_cases hempty : e = .empty
  · subst hempty
    exact ⟨_, _, .done he⟩
  have hlt : left.length < ts.length := he.progress hempty
  have hleft : left <:+ ts := he.leavesSuffix
  have hmem : ∀ u ∈ left, u.Convertible := fun u hu => hts u (hleft.subset hu)
  cases left with
  | nil => exact ⟨_, _, .last he hempty (.inl rfl)⟩
  | cons t mid =>
    rw [List.length_cons] at hlt
    cases hfrac : t.isInfixed "frac" with
    | true =>
      have hmid : ∀ u ∈ mid, u.Convertible := fun u hu => hmem u (List.mem_cons_of_mem t hu)
      obtain ⟨f, after, hf⟩ := hint nested mid (by omega) hmid
      have hafter : after <:+ mid := hf.leavesSuffix
      have hle := hafter.length_le
      obtain ⟨items, rest, hr⟩ := hrun nested after (by omega)
        (fun u hu => hmid u (hafter.subset hu))
      by_cases hfempty : f = .empty
      · subst hfempty
        exact ⟨_, _, .noFrac he hempty hfrac hf hr⟩
      · exact ⟨_, _, .frac he hempty hfrac hf hfempty hr⟩
    | false =>
      cases hgo : t.closes && nested with
      | true =>
        rw [Bool.and_eq_true] at hgo
        exact ⟨_, _, .last he hempty (.inr ⟨hgo.2, hgo.1⟩)⟩
      | false =>
        obtain ⟨items, rest, hr⟩ := hrun nested (t :: mid) (by simp only [List.length_cons]; omega)
          hmem
        exact ⟨_, _, .more he hempty hfrac hgo hr⟩

theorem simpleTotal_runTotal (s : Setting) (n : Nat) : SimpleTotal s n ∧ RunTotal s n := by
  induction n with
  | zero =>
    constructor
    · intro nested ts hlen
      omega
    · intro nested ts hlen
      omega
  | succ n ih =>
    have hsimple := simpleTotal_succ ih.1 ih.2
    exact ⟨hsimple, runTotal_succ (intermediateTotal hsimple) ih.2⟩

/-- Every list of tokens whose conversions exist has a run. -/
theorem exists_derives_run (s : Setting) (nested : Bool) {ts : List Token}
    (hts : ∀ t ∈ ts, t.Convertible) : ∃ items rest, Derives s (.run nested ts items rest) :=
  (simpleTotal_runTotal s (ts.length + 1)).2 nested ts (by omega) hts

end Grammar

/-! ## The expression of a source -/

open Grammar

/-- An expression that is read from a source comes from a run over all its tokens. -/
theorem derives_of_parse {symbols : SymbolTable} {colors : ColorTable} {source : String} {e : Expr}
    (h : Expr.parse symbols colors source = .ok e) :
    ∃ items, e = .ofItems items ∧
      Derives ⟨colors, (symbols.read source).error⟩
        (.run false (symbols.read source).tokens items []) := by
  obtain ⟨r, hr, h⟩ := bind_eq_ok h
  have hd := derives_of_run hr
  rw [hd.rest_eq_nil] at hd
  cases h
  exact ⟨r.items, rfl, hd⟩

theorem parse_of_derives {symbols : SymbolTable} {colors : ColorTable} {source : String}
    {items : List Expr} (herror : (symbols.read source).error = none)
    (h : Derives ⟨colors, none⟩ (.run false (symbols.read source).tokens items [])) :
    Expr.parse symbols colors source = .ok (.ofItems items) := by
  obtain ⟨r, hr, rfl, -⟩ := h.result rfl
  unfold Expr.parse Expr.ofReading
  rw [herror, hr]
  rfl

/-- A source that can be read, and whose operators ask for conversions that exist, is an
expression. -/
theorem exists_derives_of_convertible {symbols : SymbolTable} (colors : ColorTable)
    {source : String} (herror : (symbols.read source).error = none)
    (hts : ∀ t ∈ (symbols.read source).tokens, t.Convertible) :
    ∃ items, Expr.parse symbols colors source = .ok (.ofItems items) ∧
      Derives ⟨colors, none⟩ (.run false (symbols.read source).tokens items []) := by
  obtain ⟨items, rest, hr⟩ := exists_derives_run ⟨colors, none⟩ false hts
  cases hr.rest_eq_nil
  exact ⟨items, parse_of_derives herror hr, hr⟩

end MathMarkup
