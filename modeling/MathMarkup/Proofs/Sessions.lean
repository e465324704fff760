import MathMarkup.Proofs.Failure
import MathMarkup.Proofs.Pushback

/-!
# Reading from a cursor reads by the grammar

What is read from a cursor is what the grammar reads from the list of all tokens, errors included,
and every token that is put back was read by the call before.  The two readers are followed step by
step from the same place: the session has made disciplined calls, and the list holds the tokens that
are still to be read (`Session.At`).

* `Session.Agrees.bind`, `Session.At.agrees_next_cons`, `Session.At.agrees_next_nil`: one step.
* `Session.simpleAgrees_runAgrees`: the readers of the grammar.
* `Session.parse_spec`: a whole source.
* `Session.exists_tape_of_parse`: the calls that read a source run through all its tokens.
* `calls_answered_by_tape`: this, with the answers to its calls.
-/

namespace MathMarkup

namespace Session

open Grammar (Setting)

/-- The calls of a session are disciplined, and they lead to its cursor. -/
structure Kept (c₀ : Cursor) (s : Session) : Prop where
  reaches : c₀.Reaches s.calls s.cursor
  disciplined : Cursor.Disciplined s.calls

theorem kept_start (c₀ : Cursor) : Kept c₀ ⟨c₀, []⟩ :=
  ⟨.start, .start⟩

/-- A session has made disciplined calls, and has still to read the given tokens. -/
structure At (c₀ : Cursor) (stop : Option ReadError) (s : Session) (ts : List Token) : Prop where
  kept : Kept c₀ s
  yields : s.cursor.Yields ts stop

variable {c₀ : Cursor} {stop : Option ReadError} {s : Session} {t : Token} {ts : List Token}

/-! ## Calls -/

/-- An answer of the cursor is an answer in the session, and can be put back. -/
theorem Kept.next {answer : Option Token} {c : Cursor} (h : Kept c₀ s)
    (hnext : s.cursor.next = .ok (answer, c)) :
    ∃ (s' : Session) (hle : s'.size + answer.toList.length ≤ s.size),
      s.next = .ok ⟨answer, s', hle⟩ ∧ s'.cursor = c ∧ s'.calls = .next answer :: s.calls ∧
        Kept c₀ s' ∧ Kept c₀ (Answer.back ⟨answer, s', hle⟩) := by
  have hread : Kept c₀ ⟨c, .next answer :: s.calls⟩ :=
    ⟨.next h.reaches hnext, .next answer h.disciplined⟩
  refine ⟨⟨c, .next answer :: s.calls⟩, Cursor.size_next hnext, ?_, rfl, rfl, hread,
    .putBack answer hread.reaches, .putBack hread.disciplined⟩
  unfold Session.next
  split
  · rename_i herror
    rw [hnext] at herror
    cases herror
  · rename_i hok
    rw [hnext] at hok
    cases hok
    rfl

theorem At.next_cons (h : At c₀ stop s (t :: ts)) :
    ∃ (s' : Session) (hle : s'.size + 1 ≤ s.size), s.next = .ok ⟨some t, s', hle⟩ ∧
      s'.calls = .next (some t) :: s.calls ∧ At c₀ stop s' ts ∧
        At c₀ stop (Answer.back ⟨some t, s', hle⟩) (t :: ts) := by
  rcases h.yields.next_cases with ⟨u, ts', c, hts, hnext, hc⟩ | ⟨_, hts, -⟩ | ⟨_, hts, -⟩
  · obtain ⟨rfl, rfl⟩ := List.cons.inj hts
    obtain ⟨s', hle, hanswer, rfl, hcalls, hsession, hback⟩ := h.kept.next hnext
    exact ⟨s', hle, hanswer, hcalls, ⟨hsession, hc⟩, hback,
      hc.putBack (Cursor.held_of_next hnext) (some t)⟩
  · cases hts
  · cases hts

theorem At.next_nil (h : At c₀ none s []) :
    ∃ (s' : Session) (hle : s'.size ≤ s.size), s.next = .ok ⟨none, s', hle⟩ ∧
      s'.calls = .next none :: s.calls ∧ At c₀ none s' [] ∧
        At c₀ none (Answer.back ⟨none, s', hle⟩) [] := by
  rcases h.yields.next_cases with ⟨_, _, _, hts, -⟩ | ⟨c, -, -, hnext, hc⟩ | ⟨_, -, hstop, -⟩
  · cases hts
  · obtain ⟨s', hle, hanswer, rfl, hcalls, hsession, hback⟩ := h.kept.next hnext
    exact ⟨s', hle, hanswer, hcalls, ⟨hsession, hc⟩, hback, hc⟩
  · cases hstop

theorem At.next_stop {e : ReadError} (h : At c₀ (some e) s []) :
    s.next = .error ⟨.read e, s⟩ := by
  rcases h.yields.next_cases with ⟨_, _, _, hts, -⟩ | ⟨_, -, hstop, -⟩ | ⟨e', -, hstop, hnext⟩
  · cases hts
  · cases hstop
  · cases hstop
    unfold next
    split
    · rename_i herror
      rw [hnext] at herror
      cases herror
      rfl
    · rename_i hok
      rw [hnext] at hok
      cases hok

/-! ## Two readers -/

/-- What comes of a session is what comes of a list of tokens: results that fit together, or the
same error after disciplined calls. -/
def Agrees (c₀ : Cursor) {α β : Type} (post : α → β → Prop) :
    Except Halt α → Except ParseError β → Prop
  | .ok a, .ok b => post a b
  | .error h, .error e => h.error = e ∧ Kept c₀ h.session
  | _, _ => False

section

variable {α β α' β' : Type} {post : α → β → Prop} {post' : α' → β' → Prop}

theorem Agrees.bind {x : Except Halt α} {y : Except ParseError β} {f : α → Except Halt α'}
    {g : β → Except ParseError β'} (h : Agrees c₀ post x y)
    (hf : ∀ a b, post a b → Agrees c₀ post' (f a) (g b)) : Agrees c₀ post' (x >>= f) (y >>= g) := by
  cases x with
  | error halt =>
    cases y with
    | error e => exact h
    | ok b => exact h.elim
  | ok a =>
    cases y with
    | error e => exact h.elim
    | ok b => exact hf a b h

theorem Agrees.exists_ok {x : Except Halt α} {b : β} (h : Agrees c₀ post x (.ok b)) :
    ∃ a, x = .ok a ∧ post a b := by
  cases x with
  | error halt => exact h.elim
  | ok a => exact ⟨a, rfl, h⟩

/-- Where there is a token, it is read. -/
theorem At.agrees_next_cons (h : At c₀ stop s (t :: ts)) {f : Answer s → Except Halt α}
    {y : Except ParseError β}
    (hf : ∀ (s' : Session) (hle : s'.size + 1 ≤ s.size), At c₀ stop s' ts →
      At c₀ stop (Answer.back ⟨some t, s', hle⟩) (t :: ts) →
        Agrees c₀ post (f ⟨some t, s', hle⟩) y) : Agrees c₀ post (s.next >>= f) y := by
  obtain ⟨s', hle, hnext, -, hsession, hback⟩ := h.next_cons
  rw [hnext]
  exact hf s' hle hsession hback

/-- Where the tokens have ended, the end is read, or the error that stands there. -/
theorem At.agrees_next_nil {setting : Setting} (h : At c₀ setting.stop s [])
    {f : Answer s → Except Halt α} {g : Unit → Except ParseError β}
    (hf : ∀ (s' : Session) (hle : s'.size ≤ s.size), setting.stop = none →
      At c₀ setting.stop s' [] → At c₀ setting.stop (Answer.back ⟨none, s', hle⟩) [] →
        Agrees c₀ post (f ⟨none, s', hle⟩) (g ())) :
    Agrees c₀ post (s.next >>= f) (setting.atEnd >>= g) := by
  obtain ⟨colors, stop⟩ := setting
  cases stop with
  | none =>
    obtain ⟨s', hle, hnext, -, hsession, hback⟩ := h.next_nil
    rw [hnext]
    exact hf s' hle rfl hsession hback
  | some e =>
    rw [h.next_stop]
    exact ⟨rfl, h.kept⟩

end

theorem agrees_convert (setting : Setting) (c : Conversion) (e : Expr) (h : Kept c₀ s) :
    Agrees c₀ Eq (s.convert setting.colors c e) (setting.convert c e) := by
  cases c with
  | keep => rfl
  | color => rfl
  | unknown asked => exact ⟨rfl, h⟩

/-! ## The readers of the grammar -/

/-- The same expression was read, and the session has still to read the tokens that are left. -/
def Step.Fits (c₀ : Cursor) (stop : Option ReadError) {s : Session} {ts : List Token} (e : Step s)
    (e' : Grammar.Step ts) : Prop :=
  e.expr = e'.expr ∧ At c₀ stop e.session e'.rest

/-- The same expressions were read, and the session has still to read the tokens that are left. -/
def Run.Fits (c₀ : Cursor) (stop : Option ReadError) {s : Session} {ts : List Token} (r : Run s)
    (r' : Grammar.Run ts) : Prop :=
  r.items = r'.items ∧ At c₀ stop r.session r'.rest

/-- Simple expressions are read from a cursor as from fewer than `n` tokens. -/
def SimpleAgrees (c₀ : Cursor) (setting : Setting) (n : Nat) : Prop :=
  ∀ (nested : Bool) (s : Session) (ts : List Token), ts.length < n → At c₀ setting.stop s ts →
    Agrees c₀ (Step.Fits c₀ setting.stop) (simple setting.colors nested s)
      (Grammar.simple setting nested ts)

/-- Intermediate expressions are read from a cursor as from fewer than `n` tokens. -/
def IntermediateAgrees (c₀ : Cursor) (setting : Setting) (n : Nat) : Prop :=
  ∀ (nested : Bool) (s : Session) (ts : List Token), ts.length < n → At c₀ setting.stop s ts →
    Agrees c₀ (Step.Fits c₀ setting.stop) (intermediate setting.colors nested s)
      (Grammar.intermediate setting nested ts)

/-- Runs are read from a cursor as from fewer than `n` tokens. -/
def RunAgrees (c₀ : Cursor) (setting : Setting) (n : Nat) : Prop :=
  ∀ (nested : Bool) (s : Session) (ts : List Token), ts.length < n → At c₀ setting.stop s ts →
    Agrees c₀ (Run.Fits c₀ setting.stop) (run setting.colors nested s)
      (Grammar.run setting nested ts)

variable {setting : Setting} {n : Nat}

/-- Nothing is read where the tokens have ended. -/
theorem run_nil (hstop : setting.stop = none) (nested : Bool) :
    Grammar.run setting nested [] = .ok ⟨[], [], Nat.le_refl _⟩ := by
  have hend := Grammar.Setting.atEnd_of_stop hstop
  unfold Grammar.run Grammar.intermediate Grammar.simple
  rw [hend]
  rfl

theorem agrees_paren (hrun : RunAgrees c₀ setting n) {t : Token} {ts : List Token}
    (hlen : ts.length < n) {before s : Session} (hs : s.size < before.size)
    (h : At c₀ setting.stop s ts) :
    Agrees c₀ (Step.Fits c₀ setting.stop) (paren setting.colors t s hs)
      (Grammar.paren setting t ts) := by
  unfold paren Grammar.paren
  cases ts with
  | nil =>
    -- the list has ended, and the session reads an empty run before it comes to the end again
    refine h.agrees_next_nil fun s₁ _ hstop _ hback => ?_
    have hempty := hrun true _ [] hlen hback
    rw [run_nil hstop] at hempty
    obtain ⟨⟨items, s₂, _⟩, hr, hitems, hat⟩ := hempty.exists_ok
    dsimp only at hitems hat
    rw [hstop] at hat ⊢
    obtain ⟨s₃, _, hnext, -, -, hback⟩ := hat.next_nil
    simp only [Option.filter_none, hr, bind, Except.bind, hnext, hitems]
    exact ⟨rfl, hback⟩
  | cons c rest =>
    refine h.agrees_next_cons fun s₁ _ hsession hback => ?_
    dsimp only
    by_cases hc : c.closes = true
    · rw [if_pos hc, Option.filter_some_pos hc]
      exact ⟨rfl, hsession⟩
    · rw [if_neg hc, Option.filter_some_neg (Bool.not_eq_true _ ▸ hc)]
      refine (hrun true _ (c :: rest) hlen hback).bind fun r r' hfits => ?_
      obtain ⟨items, s₂, hle⟩ := r
      obtain ⟨items', left, hle'⟩ := r'
      obtain ⟨rfl, hat⟩ := hfits
      dsimp only at hat ⊢
      cases left with
      | nil =>
        exact hat.agrees_next_nil fun _ _ _ _ hback => ⟨rfl, hback⟩
      | cons d after =>
        refine hat.agrees_next_cons fun s₃ _ hsession hback => ?_
        dsimp only
        by_cases hd : d.closes = true
        · rw [if_pos hd, Option.filter_some_pos hd]
          exact ⟨rfl, hsession⟩
        · rw [if_neg hd, Option.filter_some_neg (Bool.not_eq_true _ ▸ hd)]
          exact ⟨rfl, hback⟩

theorem simpleAgrees_succ (hsimple : SimpleAgrees c₀ setting n) (hrun : RunAgrees c₀ setting n) :
    SimpleAgrees c₀ setting (n + 1) := by
  intro nested s ts hlen h
  unfold simple Grammar.simple
  cases ts with
  | nil =>
    exact h.agrees_next_nil fun _ _ _ hsession _ => ⟨rfl, hsession⟩
  | cons t rest =>
    have hrest : rest.length < n := Nat.lt_of_succ_lt_succ hlen
    refine h.agrees_next_cons fun s' _ hsession hback => ?_
    dsimp only
    cases t.kind with
    | role role =>
      cases role with
      | opening => exact agrees_paren hrun hrest _ hsession
      | fence => exact agrees_paren hrun hrest _ hsession
      | closing =>
        cases nested with
        | true => exact ⟨rfl, hback⟩
        | false => exact ⟨rfl, hsession⟩
      | unary =>
        refine (hsimple nested s' rest hrest hsession).bind fun e e' ⟨hexpr, hat⟩ => ?_
        rw [hexpr]
        refine (agrees_convert setting _ _ hat.kept).bind fun operand _ heq => ?_
        subst heq
        exact ⟨rfl, hat⟩
      | binary =>
        refine (hsimple nested s' rest hrest hsession).bind fun e e' ⟨hexpr, hat⟩ => ?_
        have hmid : e'.rest.length < n := Nat.lt_of_le_of_lt e'.le hrest
        refine (hsimple nested e.session e'.rest hmid hat).bind fun f f' ⟨hexpr', hat'⟩ => ?_
        rw [hexpr, hexpr']
        refine (agrees_convert setting _ _ hat'.kept).bind fun first _ heq => ?_
        refine (agrees_convert setting _ _ hat'.kept).bind fun second _ heq' => ?_
        subst heq heq'
        exact ⟨rfl, hat'⟩
      | infixed => exact ⟨rfl, hsession⟩
      | symbol => exact ⟨rfl, hsession⟩
    | text => exact ⟨rfl, hsession⟩
    | number => exact ⟨rfl, hsession⟩
    | identifier => exact ⟨rfl, hsession⟩

theorem intermediateAgrees (hsimple : SimpleAgrees c₀ setting n) :
    IntermediateAgrees c₀ setting n := by
  intro nested s ts hlen h
  unfold intermediate Grammar.intermediate
  refine (hsimple nested s ts hlen h).bind fun e e' hfits => ?_
  obtain ⟨expr, s₁, hle, hlt⟩ := e
  obtain ⟨expr', left, hle', hlt'⟩ := e'
  obtain ⟨rfl, hat⟩ := hfits
  dsimp only at hat ⊢
  cases left with
  | nil =>
    exact hat.agrees_next_nil fun _ _ _ _ hback => ⟨rfl, hback⟩
  | cons t rest =>
    have hrest : rest.length < n := Nat.lt_of_succ_lt (Nat.lt_of_le_of_lt hle' hlen)
    refine hat.agrees_next_cons fun s₂ _ hsession hback => ?_
    dsimp only
    by_cases hsub : t.isInfixed "sub" = true
    · rw [if_pos hsub, if_pos hsub]
      refine (hsimple nested s₂ rest hrest hsession).bind fun sub sub' hfits => ?_
      obtain ⟨subExpr, s₃, hle₃, hlt₃⟩ := sub
      obtain ⟨subExpr', left, hle₃', hlt₃'⟩ := sub'
      obtain ⟨rfl, hat⟩ := hfits
      dsimp only at hat ⊢
      by_cases hempty : subExpr.isEmpty = true
      · rw [if_pos hempty, if_pos hempty]
        exact ⟨rfl, hat⟩
      · rw [if_neg hempty, if_neg hempty]
        cases left with
        | nil =>
          exact hat.agrees_next_nil fun _ _ _ _ hback => ⟨rfl, hback⟩
        | cons u after =>
          have hafter : after.length < n := Nat.lt_of_succ_lt (Nat.lt_of_le_of_lt hle₃' hrest)
          refine hat.agrees_next_cons fun s₄ _ hsession hback => ?_
          dsimp only [Option.any_some]
          by_cases hsup : u.isInfixed "sup" = true
          · rw [if_pos hsup, if_pos hsup]
            refine (hsimple nested s₄ after hafter hsession).bind fun sup sup' hfits => ?_
            obtain ⟨hexpr, hat⟩ := hfits
            rw [hexpr]
            exact ⟨rfl, hat⟩
          · rw [if_neg hsup, if_neg hsup]
            exact ⟨rfl, hback⟩
    · rw [if_neg hsub, if_neg hsub]
      by_cases hsup : t.isInfixed "sup" = true
      · rw [if_pos hsup, if_pos hsup]
        refine (hsimple nested s₂ rest hrest hsession).bind fun sup sup' hfits => ?_
        obtain ⟨hexpr, hat⟩ := hfits
        rw [hexpr]
        by_cases hempty : sup'.expr.isEmpty = true
        · rw [if_pos hempty, if_pos hempty]
          exact ⟨rfl, hat⟩
        · rw [if_neg hempty, if_neg hempty]
          exact ⟨rfl, hat⟩
      · rw [if_neg hsup, if_neg hsup]
        exact ⟨rfl, hback⟩

theorem runAgrees_succ (hint : IntermediateAgrees c₀ setting (n + 1))
    (hrun : RunAgrees c₀ setting n) : RunAgrees c₀ setting (n + 1) := by
  intro nested s ts hlen h
  unfold run Grammar.run
  refine (hint nested s ts hlen h).bind fun e e' hfits => ?_
  obtain ⟨expr, s₁, hle, hlt⟩ := e
  obtain ⟨expr', left, hle', hlt'⟩ := e'
  obtain ⟨rfl, hat⟩ := hfits
  dsimp only at hat ⊢
  by_cases hempty : expr = .empty
  · rw [dif_pos hempty, dif_pos hempty]
    exact ⟨rfl, hat⟩
  · rw [dif_neg hempty, dif_neg hempty]
    have hshorter := hlt' hempty
    cases left with
    | nil =>
      exact hat.agrees_next_nil fun _ _ _ hsession _ => ⟨rfl, hsession⟩
    | cons t rest =>
      have hleft : (t :: rest).length < n := Nat.lt_of_lt_of_le hshorter (Nat.le_of_lt_succ hlen)
      refine hat.agrees_next_cons fun s₂ _ hsession hback => ?_
      dsimp only
      by_cases hfrac : t.isInfixed "frac" = true
      · rw [if_pos hfrac, if_pos hfrac]
        have hrest : rest.length < n + 1 := Nat.lt_succ_of_lt (Nat.lt_of_succ_lt hleft)
        refine (hint nested s₂ rest hrest hsession).bind fun f f' ⟨hexpr, hat⟩ => ?_
        have hmid : f'.rest.length < n := Nat.lt_of_le_of_lt f'.le (Nat.lt_of_succ_lt hleft)
        refine (hrun nested f.session f'.rest hmid hat).bind fun r r' ⟨hitems, hat⟩ => ?_
        rw [hexpr, hitems]
        exact ⟨rfl, hat⟩
      · rw [if_neg hfrac, if_neg hfrac]
        by_cases hstop : (t.closes && nested) = true
        · rw [if_pos hstop, if_pos hstop]
          exact ⟨rfl, hback⟩
        · rw [if_neg hstop, if_neg hstop]
          refine (hrun nested _ (t :: rest) hleft hback).bind fun r r' ⟨hitems, hat⟩ => ?_
          rw [hitems]
          exact ⟨rfl, hat⟩

theorem simpleAgrees_runAgrees (c₀ : Cursor) (setting : Setting) (n : Nat) :
    SimpleAgrees c₀ setting n ∧ RunAgrees c₀ setting n := by
  induction n with
  | zero => exact ⟨fun _ _ _ hlen => absurd hlen (Nat.not_lt_zero _),
      fun _ _ _ hlen => absurd hlen (Nat.not_lt_zero _)⟩
  | succ n ih =>
    obtain ⟨hsimple, hrun⟩ := ih
    have hsimple' := simpleAgrees_succ hsimple hrun
    exact ⟨hsimple', runAgrees_succ (intermediateAgrees hsimple') hrun⟩

/-- A simple expression is read from a cursor as from the tokens that are still to be read. -/
theorem agrees_simple (setting : Setting) (nested : Bool) {ts : List Token}
    (h : At c₀ setting.stop s ts) :
    Agrees c₀ (Step.Fits c₀ setting.stop) (simple setting.colors nested s)
      (Grammar.simple setting nested ts) :=
  (simpleAgrees_runAgrees c₀ setting (ts.length + 1)).1 nested s ts (Nat.lt_succ_self _) h

/-- An intermediate expression is read from a cursor as from the tokens that are still to be
read. -/
theorem agrees_intermediate (setting : Setting) (nested : Bool) {ts : List Token}
    (h : At c₀ setting.stop s ts) :
    Agrees c₀ (Step.Fits c₀ setting.stop) (intermediate setting.colors nested s)
      (Grammar.intermediate setting nested ts) :=
  intermediateAgrees (simpleAgrees_runAgrees c₀ setting (ts.length + 1)).1 nested s ts
    (Nat.lt_succ_self _) h

/-- A run is read from a cursor as from the tokens that are still to be read. -/
theorem agrees_run (setting : Setting) (nested : Bool) {ts : List Token}
    (h : At c₀ setting.stop s ts) :
    Agrees c₀ (Run.Fits c₀ setting.stop) (run setting.colors nested s)
      (Grammar.run setting nested ts) :=
  (simpleAgrees_runAgrees c₀ setting (ts.length + 1)).2 nested s ts (Nat.lt_succ_self _) h

/-- What is read from a cursor is the expression of the source, or its error.  The calls are
disciplined, and the cursor answers them.  After an expression, no token is still to be read. -/
theorem parse_spec (symbols : SymbolTable) (colors : ColorTable) (source : String) :
    (parse symbols colors source).2 = Expr.parse symbols colors source ∧
      Kept (Cursor.start symbols source) (parse symbols colors source).1 ∧
      ∀ e, (parse symbols colors source).2 = .ok e →
        At (Cursor.start symbols source) none (parse symbols colors source).1 [] := by
  have hstart : At (Cursor.start symbols source) (symbols.read source).error
      ⟨Cursor.start symbols source, []⟩ (symbols.read source).tokens :=
    ⟨kept_start _, Cursor.yields_start symbols source⟩
  have hrun := agrees_run ⟨colors, (symbols.read source).error⟩ false hstart
  have hread : ∀ e, Expr.parse symbols colors source = .ok e →
      (symbols.read source).error = none := fun _ => error_read_of_parse
  unfold parse
  unfold Expr.parse Expr.ofReading at hread ⊢
  dsimp only at hrun
  cases hsession : run colors false ⟨Cursor.start symbols source, []⟩ with
  | error halt =>
    cases htokens : Grammar.run ⟨colors, (symbols.read source).error⟩ false
        (symbols.read source).tokens with
    | error e =>
      rw [hsession, htokens] at hrun
      exact ⟨congrArg Except.error hrun.1, hrun.2, nofun⟩
    | ok r =>
      rw [hsession, htokens] at hrun
      exact hrun.elim
  | ok r =>
    cases htokens : Grammar.run ⟨colors, (symbols.read source).error⟩ false
        (symbols.read source).tokens with
    | error e =>
      rw [hsession, htokens] at hrun
      exact hrun.elim
    | ok r' =>
      rw [hsession, htokens] at hrun
      obtain ⟨hitems, hat⟩ := hrun
      rw [(Grammar.derives_of_run htokens).rest_eq_nil] at hat
      rw [htokens] at hread
      rw [hread _ rfl] at hat
      exact ⟨congrArg (fun items => Except.ok (Expr.ofItems items)) hitems, hat.kept,
        fun _ _ => hat⟩

/-- The calls after an expression are answered by the list of all tokens, and run through it. -/
theorem exists_tape_of_parse {symbols : SymbolTable} {colors : ColorTable} {source : String}
    {e : Expr} (h : (parse symbols colors source).2 = .ok e) :
    ∃ i, Tape.Reaches (symbols.read source).tokens (parse symbols colors source).1.calls i ∧
      (symbols.read source).tokens.length ≤ i := by
  obtain ⟨hresult, hkept, hend⟩ := parse_spec symbols colors source
  have hstart := Cursor.yields_start symbols source
  rw [error_read_of_parse (hresult.symm.trans h)] at hstart
  obtain ⟨i, htape, hrest⟩ := hkept.reaches.exists_tape hkept.disciplined hstart
  have hdrop := hrest.tokens.symm.trans (hend e h).yields.tokens
  exact ⟨i, htape, List.drop_eq_nil_iff.mp hdrop⟩

end Session

open Cursor

/-- With a table of roles, disciplined calls have the same answers from a cursor and from the list
of all tokens.  With any tables, reading a source from a cursor gives what the grammar gives, and
its calls are disciplined: each of them is answered, and nothing is put back while another token is
held.  If there is an expression, the answers run through all tokens of the source. -/
theorem calls_answered_by_tape :
    (∀ symbols : SymbolTable, symbols.HasRoles → ∀ (source : String) (calls : List Call),
      Disciplined calls →
        ((∃ c, (start symbols source).Reaches calls c) ↔
          ∃ i, Tape.Reaches (symbols.read source).tokens calls i)) ∧
      ∀ (symbols : SymbolTable) (colors : ColorTable) (source : String),
        (Session.parse symbols colors source).2 = Expr.parse symbols colors source ∧
          Disciplined (Session.parse symbols colors source).1.calls ∧
          (start symbols source).Reaches (Session.parse symbols colors source).1.calls
            (Session.parse symbols colors source).1.cursor ∧
          (∀ (after : List Call) (t : Option Token) (before : List Call),
            (Session.parse symbols colors source).1.calls = after ++ .putBack t :: before →
              ∃ c, (start symbols source).Reaches before c ∧ c.held = none) ∧
          ∀ e, Expr.parse symbols colors source = .ok e →
            ∃ i, Tape.Reaches (symbols.read source).tokens
                (Session.parse symbols colors source).1.calls i ∧
              (symbols.read source).tokens.length ≤ i := by
  refine ⟨fun symbols hroles source calls hcalls => ?_, fun symbols colors source => ?_⟩
  · have hstart := yields_start symbols source
    rw [show (symbols.read source).error = none from Token.error_readAll hroles] at hstart
    exact answers_iff hcalls hstart
  · obtain ⟨hresult, hkept, -⟩ := Session.parse_spec symbols colors source
    exact ⟨hresult, hkept.disciplined, hkept.reaches,
      fun _ _ _ hsplit => hkept.reaches.exists_free hkept.disciplined hsplit,
      fun _ he => Session.exists_tape_of_parse (hresult.trans he)⟩

/-- A letter is read as an identifier. -/
theorem Session.simple_letter (colors : ColorTable) (nested : Bool) {s s' : Session} {name : String}
    {hle : s'.size + 1 ≤ s.size} (h : s.next = .ok ⟨some (.letter name), s', hle⟩) :
    simple colors nested s = .ok (.took (.identifier name) s' hle) := by
  rw [simple, h]
  rfl

/-- The calls that read `a_b^(c`, the last one first.  Both scripts are looked for; the token after
the parenthesis is put back and read again, and so is the end, where the parenthesis is not
closed. -/
def Session.scriptCalls : List Call :=
  [.next none, .putBack none, .next none, .next none, .putBack none, .next none,
    .next (some (.letter "c")), .putBack (some (.letter "c")), .next (some (.letter "c")),
    .next (some .leftRound), .next (some .sup), .next (some (.letter "b")), .next (some .sub),
    .next (some (.letter "a"))]

theorem Session.calls_scripts :
    (Session.parse .spellings .basic "a_b^(c").1.calls = scriptCalls := by
  have htokens : (SymbolTable.spellings.read "a_b^(c").tokens =
      [.letter "a", .sub, .letter "b", .sup, .leftRound, .letter "c"] := by
    rw [SymbolTable.read_spellings]
    decide +kernel
  have hyields := yields_start .spellings "a_b^(c"
  rw [htokens, SymbolTable.error_read_spellings] at hyields
  have hat : At (start .spellings "a_b^(c") none _ _ := ⟨kept_start _, hyields⟩
  obtain ⟨s₁, hle₁, h₁, hcalls₁, hat, -⟩ := hat.next_cons
  obtain ⟨s₂, hle₂, h₂, hcalls₂, hat, -⟩ := hat.next_cons
  obtain ⟨s₃, hle₃, h₃, hcalls₃, hat, -⟩ := hat.next_cons
  obtain ⟨s₄, hle₄, h₄, hcalls₄, hat, -⟩ := hat.next_cons
  obtain ⟨s₅, hle₅, h₅, hcalls₅, hat, -⟩ := hat.next_cons
  obtain ⟨s₆, hle₆, h₆, hcalls₆, -, hat⟩ := hat.next_cons
  obtain ⟨s₇, hle₇, h₇, hcalls₇, hat, -⟩ := hat.next_cons
  obtain ⟨s₈, hle₈, h₈, hcalls₈, -, hat⟩ := hat.next_nil
  obtain ⟨s₉, hle₉, h₉, hcalls₉, hat, -⟩ := hat.next_nil
  obtain ⟨s₁₀, hle₁₀, h₁₀, hcalls₁₀, -, hat⟩ := hat.next_nil
  obtain ⟨s₁₁, hle₁₁, h₁₁, hcalls₁₁, -⟩ := hat.next_nil
  have ha := simple_letter .basic false h₁
  have hb := simple_letter .basic false h₃
  have hc := simple_letter .basic true h₇
  have hrun : ∃ r, run .basic true (Answer.back ⟨some (.letter "c"), s₆, hle₆⟩) = .ok r ∧
      r.session = s₉ := by
    rw [run, intermediate, hc]
    simp only [bind, Except.bind, Step.took, h₈]
    simp only [pure, Except.pure, Step.andThen, h₉]
    exact ⟨_, rfl, rfl⟩
  obtain ⟨⟨items, s₉', hle⟩, hrun, (rfl : s₉' = s₉)⟩ := hrun
  have hsup : ∃ e, simple .basic false s₄ = .ok e ∧ e.session = Answer.back ⟨none, s₁₀, hle₁₀⟩ ∧
      e.expr.isEmpty = false := by
    have hc : (some (Token.letter "c")).filter Token.closes = none := rfl
    rw [simple, h₅]
    simp only [bind, Except.bind, Token.leftRound, paren, h₆, hc, hrun, h₁₀]
    exact ⟨_, rfl, rfl, rfl⟩
  obtain ⟨⟨sup, _, hle, hlt⟩, hsup, rfl, hsome⟩ := hsup
  have hint : ∃ e, intermediate .basic false ⟨start .spellings "a_b^(c", []⟩ = .ok e ∧
      e.session = Answer.back ⟨none, s₁₀, hle₁₀⟩ ∧ e.expr ≠ .empty := by
    rw [intermediate, ha]
    simp only [bind, Except.bind, Step.took, h₂]
    rw [if_pos (by decide), hb]
    simp only [Step.took, Expr.isEmpty, h₄]
    rw [if_neg (by decide), if_pos (by decide), hsup]
    exact ⟨_, rfl, rfl, by simp⟩
  obtain ⟨⟨scripts, _, hle, hlt⟩, hint, rfl, hsome⟩ := hint
  have hparse : (parse .spellings .basic "a_b^(c").1 = s₁₁ := by
    rw [parse, run, hint]
    simp only [bind, Except.bind, hsome, h₁₁]
    rfl
  simp only [hparse, hcalls₁₁, Answer.back, hcalls₁₀, hcalls₉, hcalls₈, hcalls₇, hcalls₆, hcalls₅,
    hcalls₄, hcalls₃, hcalls₂, hcalls₁, scriptCalls]

/-- The calls are answered by the list of the six tokens, and run through it. -/
theorem calls_answered_by_tape_scripts :
    SymbolTable.spellings.HasRoles ∧
      (Session.parse .spellings .basic "a_b^(c").1.calls = Session.scriptCalls ∧
      Disciplined Session.scriptCalls ∧
      (∃ c, (start .spellings "a_b^(c").Reaches Session.scriptCalls c) ∧
      (∃ i, Tape.Reaches (SymbolTable.spellings.read "a_b^(c").tokens Session.scriptCalls i) ∧
      ∃ e, Expr.parse .spellings .basic "a_b^(c" = .ok e ∧
        ∃ i, Tape.Reaches (SymbolTable.spellings.read "a_b^(c").tokens Session.scriptCalls i ∧
          (SymbolTable.spellings.read "a_b^(c").tokens.length ≤ i := by
  obtain ⟨htape, hparse⟩ := calls_answered_by_tape
  obtain ⟨-, hcalls, hreaches, -, hend⟩ := hparse .spellings .basic "a_b^(c"
  have hroles := SymbolTable.hasRoles_spellings
  obtain ⟨items, he, -⟩ := exists_derives_spellings "a_b^(c"
  rw [Session.calls_scripts] at hcalls hreaches hend
  exact ⟨hroles, Session.calls_scripts, hcalls, ⟨_, hreaches⟩,
    (htape .spellings hroles "a_b^(c" _ hcalls).mp ⟨_, hreaches⟩, _, he, hend _ he⟩

end MathMarkup
