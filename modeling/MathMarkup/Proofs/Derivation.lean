import MathMarkup.Grammar.Parse
import MathMarkup.Proofs.Matrix

/-!
# Derivations of the grammar

`Derives` says by rules what the grammar reads from a list of tokens: a simple expression, an
intermediate one, or a run of these, each with the tokens that are left.  There is one rule for
each way in which a step of the reader can end.  A property of what is read is shown rule by rule,
and the reader is not opened again.

The lemmas do two things:

* they say where a reading stops (`Derives.emptyAtStop`, `Derives.runStops`), that it leaves the
  last of the tokens (`Derives.leavesSuffix`) and that it takes a token if it reads something
  (`Derives.progress`);
* they show that the reader follows the rules (`derives_of_run`).

`MathMarkup.Proofs.Completeness` has the other direction: the rules decide what the reader gives,
and every list of tokens can be read.
-/

namespace MathMarkup

namespace Token

/-- Whether a token only closes a parenthesis. -/
def isClosing (t : Token) : Bool :=
  t.kind == .role .closing

/-- Whether a token stands for a leaf: it is no delimiter and no operator before its operands. -/
def isLeaf (t : Token) : Bool :=
  match t.kind with
  | .role .symbol => true
  | .role .infixed => true
  | .role _ => false
  | _ => true

theorem closes_of_isClosing {t : Token} (h : t.isClosing = true) : t.closes = true := by
  simp only [isClosing, closes, beq_iff_eq] at h ⊢
  simp [h]

theorem isInfixed_eq_false_of_closes {t : Token} (h : t.closes = true) (id : String) :
    t.isInfixed id = false := by
  simp only [closes, isInfixed, Bool.or_eq_true, beq_iff_eq] at h ⊢
  rcases h with h | h <;> simp [h]

theorem kind_of_isInfixed {t : Token} {id : String} (h : t.isInfixed id = true) :
    t.kind = .role .infixed := by
  simp only [isInfixed, Bool.and_eq_true, beq_iff_eq] at h
  exact h.1

theorem isClosing_eq_false_of_isInfixed {t : Token} {id : String} (h : t.isInfixed id = true) :
    t.isClosing = false := by
  simp only [isInfixed, isClosing, Bool.and_eq_true, beq_iff_eq] at h ⊢
  simp [h.1]

theorem isInfixed_eq_false_of_isInfixed {t : Token} {id id' : String}
    (h : t.isInfixed id = true) (hne : id ≠ id') : t.isInfixed id' = false := by
  simp only [isInfixed, Bool.and_eq_true, beq_iff_eq] at h
  simp [isInfixed, h.2, hne]

end Token

namespace Expr

theorem isEmpty_iff {e : Expr} : e.isEmpty = true ↔ e = .empty := by
  cases e <;> simp [isEmpty]

theorem isEmpty_eq_false {e : Expr} (h : e ≠ .empty) : e.isEmpty = false :=
  Bool.eq_false_iff.mpr (mt isEmpty_iff.mp h)

theorem unwrap_ne_empty {e : Expr} (h : e ≠ .empty) : e.unwrap ≠ .empty := by
  unfold unwrap
  split
  · exact nofun
  · exact h

theorem inferMatrix_paren_ne_empty (left right : Delimiter) (body : Expr) (keep : Bool) :
    (Expr.paren left body right keep).inferMatrix ≠ .empty := by
  rcases inferMatrix_paren left right body keep with h | ⟨_, _, _, _, h⟩ <;> rw [h] <;> exact nofun

end Expr

namespace Grammar

/-- Whether the next token has a property. -/
def ahead (p : Token → Bool) : List Token → Bool
  | [] => false
  | t :: _ => p t

@[simp] theorem ahead_nil (p : Token → Bool) : ahead p [] = false := rfl

@[simp] theorem ahead_cons (p : Token → Bool) (t : Token) (ts : List Token) :
    ahead p (t :: ts) = p t := rfl

theorem ahead_closes_of_isClosing {ts : List Token} (h : ahead Token.isClosing ts = true) :
    ahead Token.closes ts = true := by
  cases ts with
  | nil => exact nomatch h
  | cons t ts => exact Token.closes_of_isClosing h

/-- What is read: from the first list of tokens, up to the second. -/
inductive Judgment where
  | simple (nested : Bool) (ts : List Token) (e : Expr) (rest : List Token)
  | intermediate (nested : Bool) (ts : List Token) (e : Expr) (rest : List Token)
  | run (nested : Bool) (ts : List Token) (items : List Expr) (rest : List Token)

/-- The rules of the grammar. -/
inductive Derives (s : Setting) : Judgment → Prop where
  /-- Nothing is read where the tokens have ended. -/
  | atEnd {nested} : Derives s (.simple nested [] .empty [])
  /-- Inside a parenthesis, nothing is read at a closing delimiter. -/
  | atClosing {t ts} (ht : t.isClosing = true) :
      Derives s (.simple true (t :: ts) .empty (t :: ts))
  /-- Outside of parentheses, a closing delimiter is a symbol. -/
  | stray {t ts} (ht : t.isClosing = true) :
      Derives s (.simple false (t :: ts) (.symbol t.toSymbol) ts)
  | leaf {nested t ts} (ht : t.isLeaf = true) : Derives s (.simple nested (t :: ts) (leaf t) ts)
  | unary {nested t ts e operand rest} (ht : t.kind = .role .unary)
      (he : Derives s (.simple nested ts e rest))
      (hc : s.convert t.operand e.unwrap = .ok operand) :
      Derives s (.simple nested (t :: ts) (.unary (.symbol t.toSymbol) operand) rest)
  | binary {nested t ts e f first second mid rest} (ht : t.kind = .role .binary)
      (he : Derives s (.simple nested ts e mid)) (hf : Derives s (.simple nested mid f rest))
      (hc : s.convert t.firstOperand e.unwrap = .ok first)
      (hd : s.convert t.secondOperand f.unwrap = .ok second) :
      Derives s (.simple nested (t :: ts) (.binary (.symbol t.toSymbol) first second) rest)
  /-- A parenthesis that is closed at once has no body. -/
  | void {nested t c ts} (ht : t.opens = true) (hc : c.closes = true) :
      Derives s (.simple nested (t :: c :: ts)
        (.paren (.symbol t.toSymbol) .empty (.symbol c.toSymbol) false) ts)
  | paren {nested t ts items d rest} (ht : t.opens = true)
      (hts : ahead Token.closes ts = false)
      (hr : Derives s (.run true ts items (d :: rest))) (hd : d.closes = true) :
      Derives s (.simple nested (t :: ts)
        (Expr.paren (.symbol t.toSymbol) (.ofItems items) (.symbol d.toSymbol) false).inferMatrix
        rest)
  | unclosed {nested t ts items} (ht : t.opens = true)
      (hts : ahead Token.closes ts = false) (hr : Derives s (.run true ts items [])) :
      Derives s (.simple nested (t :: ts)
        (.paren (.symbol t.toSymbol) (.ofItems items) .missing false) [])
  | bare {nested ts e rest} (he : Derives s (.simple nested ts e rest))
      (hsub : ahead (·.isInfixed "sub") rest = false)
      (hsup : ahead (·.isInfixed "sup") rest = false) :
      Derives s (.intermediate nested ts e rest)
  /-- A script operator without a script is dropped. -/
  | dangling {nested ts e t mid rest} (he : Derives s (.simple nested ts e (t :: mid)))
      (ht : t.isInfixed "sub" = true ∨ t.isInfixed "sup" = true)
      (hf : Derives s (.simple nested mid .empty rest)) :
      Derives s (.intermediate nested ts e rest)
  | sub {nested ts e t mid f rest} (he : Derives s (.simple nested ts e (t :: mid)))
      (ht : t.isInfixed "sub" = true) (hf : Derives s (.simple nested mid f rest))
      (hne : f ≠ .empty) (hsup : ahead (·.isInfixed "sup") rest = false) :
      Derives s (.intermediate nested ts (.scripts e f.unwrap .empty) rest)
  /-- The upper script may be missing here; its operator is then dropped. -/
  | subSup {nested ts e t mid f u mid' g rest}
      (he : Derives s (.simple nested ts e (t :: mid))) (ht : t.isInfixed "sub" = true)
      (hf : Derives s (.simple nested mid f (u :: mid'))) (hne : f ≠ .empty)
      (hu : u.isInfixed "sup" = true) (hg : Derives s (.simple nested mid' g rest)) :
      Derives s (.intermediate nested ts (.scripts e f.unwrap g.unwrap) rest)
  | sup {nested ts e t mid f rest} (he : Derives s (.simple nested ts e (t :: mid)))
      (ht : t.isInfixed "sup" = true) (hf : Derives s (.simple nested mid f rest))
      (hne : f ≠ .empty) :
      Derives s (.intermediate nested ts (.scripts e .empty f.unwrap) rest)
  | done {nested ts rest} (he : Derives s (.intermediate nested ts .empty rest)) :
      Derives s (.run nested ts [] rest)
  | last {nested ts e rest} (he : Derives s (.intermediate nested ts e rest))
      (hne : e ≠ .empty) (hend : rest = [] ∨ nested = true ∧ ahead Token.closes rest = true) :
      Derives s (.run nested ts [e] rest)
  | frac {nested ts e t mid f mid' items rest}
      (he : Derives s (.intermediate nested ts e (t :: mid))) (hne : e ≠ .empty)
      (ht : t.isInfixed "frac" = true) (hf : Derives s (.intermediate nested mid f mid'))
      (hfne : f ≠ .empty) (hr : Derives s (.run nested mid' items rest)) :
      Derives s (.run nested ts (.infixed (.symbol t.toSymbol) e.unwrap f.unwrap :: items) rest)
  /-- A fraction bar without a denominator is dropped. -/
  | noFrac {nested ts e t mid mid' items rest}
      (he : Derives s (.intermediate nested ts e (t :: mid))) (hne : e ≠ .empty)
      (ht : t.isInfixed "frac" = true) (hf : Derives s (.intermediate nested mid .empty mid'))
      (hr : Derives s (.run nested mid' items rest)) :
      Derives s (.run nested ts (e :: items) rest)
  | more {nested ts e t mid items rest}
      (he : Derives s (.intermediate nested ts e (t :: mid))) (hne : e ≠ .empty)
      (ht : t.isInfixed "frac" = false) (hgo : (t.closes && nested) = false)
      (hr : Derives s (.run nested (t :: mid) items rest)) :
      Derives s (.run nested ts (e :: items) rest)

/-! ## Where a reading stops -/

/-- Nothing can be read: the tokens have ended, or a closing delimiter stands in its parenthesis. -/
def Stops (nested : Bool) (ts : List Token) : Prop :=
  ts = [] ∨ nested = true ∧ ahead Token.isClosing ts = true

theorem leaf_ne_empty (t : Token) : leaf t ≠ .empty := by
  unfold leaf
  split <;> simp

/-- Where nothing is read, no token is taken. -/
def Judgment.EmptyAtStop : Judgment → Prop
  | .simple nested ts e rest => e = .empty → rest = ts ∧ Stops nested ts
  | .intermediate nested ts e rest => e = .empty → rest = ts ∧ Stops nested ts
  | .run _ _ _ _ => True

theorem Derives.emptyAtStop {s : Setting} {j : Judgment} (h : Derives s j) : j.EmptyAtStop := by
  induction h with
  | atEnd => exact fun _ => ⟨rfl, .inl rfl⟩
  | atClosing ht => exact fun _ => ⟨rfl, .inr ⟨rfl, ht⟩⟩
  | stray => exact fun he => nomatch he
  | leaf => exact fun he => absurd he (leaf_ne_empty _)
  | unary => exact fun he => nomatch he
  | binary => exact fun he => nomatch he
  | void => exact fun he => nomatch he
  | paren => exact fun he => absurd he (Expr.inferMatrix_paren_ne_empty _ _ _ _)
  | unclosed => exact fun he => nomatch he
  | bare _ _ _ ih => exact ih
  | @dangling nested ts e t mid rest hd ht _ ihe _ =>
    -- a script operator is no place to stop, so there is something before it
    intro he
    have hstop : t :: mid = ts ∧ Stops nested ts := ihe he
    obtain ⟨rfl, hnil | ⟨-, hclosing⟩⟩ := hstop
    · simp at hnil
    · rcases ht with ht | ht <;>
        simp [Token.isClosing_eq_false_of_isInfixed ht] at hclosing
  | sub => exact fun he => nomatch he
  | subSup => exact fun he => nomatch he
  | sup => exact fun he => nomatch he
  | _ => trivial

/-- What stands before an operator between operands is not missing. -/
theorem Derives.ne_empty_of_isInfixed {s : Setting} {nested : Bool} {ts mid : List Token} {e : Expr}
    {t : Token} {id : String} (h : Derives s (.simple nested ts e (t :: mid)))
    (ht : t.isInfixed id = true) : e ≠ .empty := by
  intro he
  obtain ⟨rfl, hnil | ⟨-, hclosing⟩⟩ := h.emptyAtStop he
  · exact nomatch hnil
  · rw [ahead_cons, Token.isClosing_eq_false_of_isInfixed ht] at hclosing
    exact nomatch hclosing

/-- A run ends with the tokens or, inside a parenthesis, before a delimiter that closes it. -/
def Judgment.RunStops : Judgment → Prop
  | .run nested _ _ rest => rest = [] ∨ nested = true ∧ ahead Token.closes rest = true
  | _ => True

theorem Derives.runStops {s : Setting} {j : Judgment} (h : Derives s j) : j.RunStops := by
  induction h with
  | @done nested ts rest he _ =>
    obtain ⟨rfl, hnil | ⟨hnested, hclosing⟩⟩ := he.emptyAtStop rfl
    · exact .inl hnil
    · exact .inr ⟨hnested, ahead_closes_of_isClosing hclosing⟩
  | last _ _ hend => exact hend
  | frac _ _ _ _ _ _ _ _ ih => exact ih
  | noFrac _ _ _ _ _ _ _ ih => exact ih
  | more _ _ _ _ _ _ ih => exact ih
  | _ => trivial

/-- Outside of parentheses, a run ends with the tokens. -/
theorem Derives.rest_eq_nil {s : Setting} {ts rest : List Token} {items : List Expr}
    (h : Derives s (.run false ts items rest)) : rest = [] := by
  simpa [Judgment.RunStops] using h.runStops

theorem tail_suffix {t : Token} {ts us : List Token} (h : t :: ts <:+ us) : ts <:+ us :=
  (List.suffix_cons t ts).trans h

theorem forall_mem_of_suffix {p : Token → Prop} {ts rest : List Token} (h : ∀ t ∈ ts, p t)
    (hrest : rest <:+ ts) : ∀ t ∈ rest, p t :=
  fun t ht => h t (hrest.subset ht)

/-- The tokens of a judgment, before and after what is read. -/
def Judgment.tokens : Judgment → List Token
  | .simple _ ts _ _ => ts
  | .intermediate _ ts _ _ => ts
  | .run _ ts _ _ => ts

/-- The tokens that are left are the last of those that were there. -/
def Judgment.LeavesSuffix : Judgment → Prop
  | .simple _ ts _ rest => rest <:+ ts
  | .intermediate _ ts _ rest => rest <:+ ts
  | .run _ ts _ rest => rest <:+ ts

theorem Derives.leavesSuffix {s : Setting} {j : Judgment} (h : Derives s j) : j.LeavesSuffix := by
  induction h with
  | atEnd => exact List.suffix_refl _
  | atClosing => exact List.suffix_refl _
  | stray => exact List.suffix_cons _ _
  | leaf => exact List.suffix_cons _ _
  | unary _ _ _ ih => exact ih.trans (List.suffix_cons _ _)
  | binary _ _ _ _ _ ihe ihf => exact (ihf.trans ihe).trans (List.suffix_cons _ _)
  | void => exact tail_suffix (List.suffix_cons _ _)
  | paren _ _ _ _ ih => exact (tail_suffix ih).trans (List.suffix_cons _ _)
  | unclosed _ _ _ ih => exact ih.trans (List.suffix_cons _ _)
  | bare _ _ _ ih => exact ih
  | dangling _ _ _ ihe ihf => exact ihf.trans (tail_suffix ihe)
  | sub _ _ _ _ _ ihe ihf => exact ihf.trans (tail_suffix ihe)
  | subSup _ _ _ _ _ _ ihe ihf ihg => exact ihg.trans ((tail_suffix ihf).trans (tail_suffix ihe))
  | sup _ _ _ _ ihe ihf => exact ihf.trans (tail_suffix ihe)
  | done _ ih => exact ih
  | last _ _ _ ih => exact ih
  | frac _ _ _ _ _ _ ihe ihf ihr => exact ihr.trans (ihf.trans (tail_suffix ihe))
  | noFrac _ _ _ _ _ ihe ihf ihr => exact ihr.trans (ihf.trans (tail_suffix ihe))
  | more _ _ _ _ _ ihe ihr => exact ihr.trans ihe

/-- Reading something takes a token. -/
def Judgment.Progress : Judgment → Prop
  | .simple _ ts e rest => e ≠ .empty → rest.length < ts.length
  | .intermediate _ ts e rest => e ≠ .empty → rest.length < ts.length
  | .run _ ts items rest => items ≠ [] → rest.length < ts.length

theorem Derives.progress {s : Setting} {j : Judgment} (h : Derives s j) : j.Progress := by
  have taken {t : Token} {mid rest ts : List Token} (he : t :: mid <:+ ts) (hr : rest <:+ mid) :
      rest.length < ts.length := by
    have hmid := he.length_le
    have hrest := hr.length_le
    rw [List.length_cons] at hmid
    omega
  induction h with
  | atEnd => exact fun h => absurd rfl h
  | atClosing => exact fun h => absurd rfl h
  | stray => exact fun _ => Nat.lt_succ_self _
  | leaf => exact fun _ => Nat.lt_succ_self _
  | unary _ he _ _ => exact fun _ => taken (List.suffix_refl _) he.leavesSuffix
  | binary _ he hf _ _ _ _ =>
    exact fun _ => taken (List.suffix_refl _) (hf.leavesSuffix.trans he.leavesSuffix)
  | void => exact fun _ => taken (List.suffix_refl _) (List.suffix_cons _ _)
  | paren _ _ hr _ _ =>
    exact fun _ => taken (List.suffix_refl _) ((List.suffix_cons _ _).trans hr.leavesSuffix)
  | unclosed _ _ hr _ => exact fun _ => taken (List.suffix_refl _) hr.leavesSuffix
  | bare _ _ _ ih => exact ih
  | dangling he _ hf _ _ => exact fun _ => taken he.leavesSuffix hf.leavesSuffix
  | sub he _ hf _ _ _ _ => exact fun _ => taken he.leavesSuffix hf.leavesSuffix
  | subSup he _ hf _ _ hg _ _ _ =>
    exact fun _ => taken he.leavesSuffix
      (hg.leavesSuffix.trans ((List.suffix_cons _ _).trans hf.leavesSuffix))
  | sup he _ hf _ _ _ => exact fun _ => taken he.leavesSuffix hf.leavesSuffix
  | done => exact fun h => absurd rfl h
  | last _ hne _ ih => exact fun _ => ih hne
  | frac he _ _ hf _ hr _ _ _ =>
    exact fun _ => taken he.leavesSuffix (hr.leavesSuffix.trans hf.leavesSuffix)
  | noFrac he _ _ hf hr _ _ _ =>
    exact fun _ => taken he.leavesSuffix (hr.leavesSuffix.trans hf.leavesSuffix)
  | more he hne _ _ hr ihe _ =>
    intro _
    have hmid := ihe hne
    have hrest := hr.leavesSuffix.length_le
    omega

/-! ## The reader follows the rules -/

theorem bind_eq_ok {α β ε : Type} {x : Except ε α} {f : α → Except ε β} {b : β}
    (h : x >>= f = .ok b) : ∃ a, x = .ok a ∧ f a = .ok b := by
  cases x with
  | error e => exact absurd h (by simp [bind, Except.bind])
  | ok a => exact ⟨a, rfl, h⟩

/-- Simple expressions are read by the rules from fewer than `n` tokens. -/
def SimpleSound (s : Setting) (n : Nat) : Prop :=
  ∀ (nested : Bool) (ts : List Token) (st : Step ts), ts.length < n →
    simple s nested ts = .ok st → Derives s (.simple nested ts st.expr st.rest)

/-- Intermediate expressions are read by the rules from fewer than `n` tokens. -/
def IntermediateSound (s : Setting) (n : Nat) : Prop :=
  ∀ (nested : Bool) (ts : List Token) (st : Step ts), ts.length < n →
    intermediate s nested ts = .ok st → Derives s (.intermediate nested ts st.expr st.rest)

/-- Runs are read by the rules from fewer than `n` tokens. -/
def RunSound (s : Setting) (n : Nat) : Prop :=
  ∀ (nested : Bool) (ts : List Token) (r : Run ts), ts.length < n →
    run s nested ts = .ok r → Derives s (.run nested ts r.items r.rest)

theorem derives_of_paren {s : Setting} {n : Nat} (hrun : RunSound s n) (nested : Bool)
    {t : Token} {ts : List Token} {st : Step (t :: ts)} (hlen : ts.length < n)
    (ht : t.opens = true) (h : paren s t ts = .ok st) :
    Derives s (.simple nested (t :: ts) st.expr st.rest) := by
  cases ts with
  | nil =>
    unfold paren at h
    obtain ⟨-, -, h⟩ := bind_eq_ok h
    cases h
    exact .unclosed ht rfl (.done (.bare .atEnd rfl rfl))
  | cons c rest =>
    unfold paren at h
    dsimp only at h
    split at h
    · rename_i hc
      cases h
      exact .void ht hc
    · rename_i hc
      rw [Bool.not_eq_true] at hc
      obtain ⟨⟨items, left, hle⟩, hr, h⟩ := bind_eq_ok h
      have hd := hrun true (c :: rest) ⟨items, left, hle⟩ hlen hr
      cases left with
      | nil =>
        obtain ⟨-, -, h⟩ := bind_eq_ok h
        cases h
        exact .unclosed ht hc hd
      | cons d after =>
        -- the reader has a case for a run that stops before another token, but no run does
        have hcloses : d.closes = true := by
          rcases hd.runStops with hnil | ⟨-, hcloses⟩
          · simp at hnil
          · exact hcloses
        simp only [hcloses, if_true] at h
        cases h
        exact .paren ht hc hd hcloses

theorem simpleSound_succ {s : Setting} {n : Nat} (hsimple : SimpleSound s n)
    (hrun : RunSound s n) : SimpleSound s (n + 1) := by
  intro nested ts st hlen h
  cases ts with
  | nil =>
    unfold simple at h
    obtain ⟨-, -, h⟩ := bind_eq_ok h
    cases h
    exact .atEnd
  | cons t rest =>
    have hrest : rest.length < n := by simpa using hlen
    unfold simple at h
    dsimp only at h
    split at h
    · rename_i hk
      exact derives_of_paren hrun nested hrest (by simp [Token.opens, hk]) h
    · rename_i hk
      exact derives_of_paren hrun nested hrest (by simp [Token.opens, hk]) h
    · rename_i hk
      have hclosing : t.isClosing = true := by simp [Token.isClosing, hk]
      cases nested with
      | true =>
        cases h
        exact .atClosing hclosing
      | false =>
        cases h
        exact .stray hclosing
    · rename_i hk
      obtain ⟨e, he, h⟩ := bind_eq_ok h
      obtain ⟨operand, hc, h⟩ := bind_eq_ok h
      cases h
      exact .unary hk (hsimple nested rest e hrest he) hc
    · rename_i hk
      obtain ⟨e, he, h⟩ := bind_eq_ok h
      obtain ⟨f, hf, h⟩ := bind_eq_ok h
      obtain ⟨first, hc, h⟩ := bind_eq_ok h
      obtain ⟨second, hd, h⟩ := bind_eq_ok h
      cases h
      have hmid : e.rest.length < n := by
        have hle := e.le
        omega
      exact .binary hk (hsimple nested rest e hrest he) (hsimple nested e.rest f hmid hf) hc hd
    · rename_i hopening hfence hclosing hunary hbinary
      cases h
      refine .leaf ?_
      unfold Token.isLeaf
      split
      · rfl
      · rfl
      · rename_i role hsymbol hinfixed hk
        cases role <;> simp_all
      · rfl

theorem intermediateSound {s : Setting} {n : Nat} (hsimple : SimpleSound s n) :
    IntermediateSound s n := by
  intro nested ts st hlen h
  unfold intermediate at h
  obtain ⟨⟨e, left, hle, hlt⟩, he, h⟩ := bind_eq_ok h
  have hd := hsimple nested ts ⟨e, left, hle, hlt⟩ hlen he
  cases left with
  | nil =>
    obtain ⟨-, -, h⟩ := bind_eq_ok h
    cases h
    exact .bare hd rfl rfl
  | cons t rest =>
    have hrest : rest.length < n := by
      rw [List.length_cons] at hle
      omega
    dsimp only at h
    split at h
    · rename_i ht
      obtain ⟨⟨f, left, hfle, hflt⟩, hf, h⟩ := bind_eq_ok h
      have hdf := hsimple nested rest ⟨f, left, hfle, hflt⟩ hrest hf
      dsimp only at h
      split at h
      · rename_i hempty
        cases h
        rw [Expr.isEmpty_iff] at hempty
        subst hempty
        exact .dangling hd (.inl ht) hdf
      · rename_i hne
        rw [Expr.isEmpty_iff] at hne
        cases left with
        | nil =>
          obtain ⟨-, -, h⟩ := bind_eq_ok h
          cases h
          exact .sub hd ht hdf hne rfl
        | cons u after =>
          dsimp only at h
          split at h
          · rename_i hu
            obtain ⟨g, hg, h⟩ := bind_eq_ok h
            cases h
            have hafter : after.length < n := by
              rw [List.length_cons] at hfle
              omega
            exact .subSup hd ht hdf hne hu (hsimple nested after g hafter hg)
          · rename_i hu
            cases h
            exact .sub hd ht hdf hne (Bool.eq_false_iff.mpr hu)
    · rename_i hsub
      split at h
      · rename_i ht
        obtain ⟨f, hf, h⟩ := bind_eq_ok h
        have hdf := hsimple nested rest f hrest hf
        split at h
        · rename_i hempty
          cases h
          rw [Expr.isEmpty_iff] at hempty
          rw [hempty] at hdf
          exact .dangling hd (.inr ht) hdf
        · rename_i hne
          rw [Expr.isEmpty_iff] at hne
          cases h
          exact .sup hd ht hdf hne
      · rename_i hsup
        cases h
        exact .bare hd (by simpa using hsub) (by simpa using hsup)

theorem runSound_succ {s : Setting} {n : Nat} (hint : IntermediateSound s (n + 1))
    (hrun : RunSound s n) : RunSound s (n + 1) := by
  intro nested ts r hlen h
  unfold run at h
  obtain ⟨⟨e, left, hle, hlt⟩, he, h⟩ := bind_eq_ok h
  have hd := hint nested ts ⟨e, left, hle, hlt⟩ hlen he
  dsimp only at h
  split at h
  · rename_i hempty
    cases h
    subst hempty
    exact .done hd
  · rename_i hne
    cases left with
    | nil =>
      obtain ⟨-, -, h⟩ := bind_eq_ok h
      cases h
      exact .last hd hne (.inl rfl)
    | cons t rest =>
      have hrest : rest.length + 1 < n := by
        have hshorter := hlt hne
        rw [List.length_cons] at hshorter
        omega
      dsimp only at h
      split at h
      · rename_i ht
        obtain ⟨f, hf, h⟩ := bind_eq_ok h
        obtain ⟨r', hr, h⟩ := bind_eq_ok h
        have hdf := hint nested rest f (by omega) hf
        have hdr := hrun nested f.rest r' (by have := f.le; omega) hr
        cases h
        dsimp only
        split
        · rename_i hempty
          rw [Expr.isEmpty_iff] at hempty
          rw [hempty] at hdf
          exact .noFrac hd hne ht hdf hdr
        · rename_i hfne
          rw [Expr.isEmpty_iff] at hfne
          exact .frac hd hne ht hdf hfne hdr
      · rename_i ht
        rw [Bool.not_eq_true] at ht
        split at h
        · rename_i hstop
          rw [Bool.and_eq_true] at hstop
          cases h
          exact .last hd hne (.inr ⟨hstop.2, hstop.1⟩)
        · rename_i hgo
          rw [Bool.not_eq_true] at hgo
          obtain ⟨r', hr, h⟩ := bind_eq_ok h
          cases h
          exact .more hd hne ht hgo (hrun nested (t :: rest) r' hrest hr)

theorem simpleSound_runSound (s : Setting) (n : Nat) : SimpleSound s n ∧ RunSound s n := by
  induction n with
  | zero =>
    constructor
    · intro nested ts st hlen
      omega
    · intro nested ts r hlen
      omega
  | succ n ih =>
    have hsimple := simpleSound_succ ih.1 ih.2
    exact ⟨hsimple, runSound_succ (intermediateSound hsimple) ih.2⟩

/-- A run that is read has a derivation. -/
theorem derives_of_run {s : Setting} {nested : Bool} {ts : List Token} {r : Run ts}
    (h : run s nested ts = .ok r) : Derives s (.run nested ts r.items r.rest) :=
  (simpleSound_runSound s (ts.length + 1)).2 nested ts r (by omega) h

end Grammar

end MathMarkup
