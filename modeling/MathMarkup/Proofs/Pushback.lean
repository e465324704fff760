import MathMarkup.Grammar.Session
import MathMarkup.Proofs.Respacing

/-!
# Tokens that are put back

A cursor reads a token from the source when it is asked for one, and keeps at most one token that
was put back.  If only what was read by the call before is put back, one place for such a token is
enough: the cursor then gives what one gets by walking to and fro on the list of all tokens.

* `Cursor.Disciplined` says of calls that each token is put back right after it was read.
* `Cursor.Reaches` says which calls a cursor answers, and `Tape.Reaches` says it of a list of
  tokens.
* `Cursor.Yields.next_cases` and `Cursor.Yields.putBack`: one call, by what is still to be read.
* `Cursor.answers_iff`: disciplined calls have the same answers from both.
* `Cursor.Reaches.exists_free`: disciplined calls put nothing back where something is held.
-/

namespace MathMarkup

/-! ## Calls -/

namespace Cursor

/-- Calls after a start, the last one first, and the cursor that they lead to. -/
inductive Reaches (c₀ : Cursor) : List Call → Cursor → Prop
  | start : Reaches c₀ [] c₀
  | next {calls : List Call} {c c' : Cursor} {t : Option Token} (h : Reaches c₀ calls c)
      (hnext : c.next = .ok (t, c')) : Reaches c₀ (.next t :: calls) c'
  | putBack {calls : List Call} {c : Cursor} (t : Option Token) (h : Reaches c₀ calls c) :
      Reaches c₀ (.putBack t :: calls) (c.putBack t)

/-- What is put back was read by the call before.  The last call comes first. -/
inductive Disciplined : List Call → Prop
  | start : Disciplined []
  | next {calls : List Call} (t : Option Token) (h : Disciplined calls) :
      Disciplined (.next t :: calls)
  | putBack {calls : List Call} {t : Option Token} (h : Disciplined (.next t :: calls)) :
      Disciplined (.putBack t :: .next t :: calls)

end Cursor

/-- Calls on a list of tokens, the last one first, and the place in the list that they lead to.
Beyond the list there is nothing but its end.  A token is put back by a step back, and the end
without a step. -/
inductive Tape.Reaches (ts : List Token) : List Cursor.Call → Nat → Prop
  | start : Reaches ts [] 0
  | next {calls : List Cursor.Call} {i : Nat} (h : Reaches ts calls i) :
      Reaches ts (.next ts[i]? :: calls) (i + 1)
  | putBack {calls : List Cursor.Call} {i : Nat} (t : Option Token) (h : Reaches ts calls i) :
      Reaches ts (.putBack t :: calls) (i - t.toList.length)

namespace Cursor

/-! ## What is still to be read -/

/-- The tokens that a cursor has still to give, and the error that ends them. -/
structure Yields (c : Cursor) (ts : List Token) (stop : Option ReadError) : Prop where
  tokens : c.held.toList ++ (Token.readAll c.symbols c.symbols.window c.rest).tokens = ts
  stop : (Token.readAll c.symbols c.symbols.window c.rest).error = stop

theorem yields_start (symbols : SymbolTable) (source : String) :
    (start symbols source).Yields (symbols.read source).tokens (symbols.read source).error :=
  ⟨rfl, rfl⟩

variable {c c' : Cursor} {ts : List Token} {stop : Option ReadError}

/-- Nothing is held when a token was read. -/
theorem held_of_next {t : Option Token} (h : c.next = .ok (t, c')) : c'.held = none := by
  unfold next at h
  split at h
  · cases h
    rfl
  · rename_i hheld
    split at h
    · cases h
    · cases h
      exact hheld
    · cases h
      exact hheld

/-- What is put back where nothing is held comes before what was still to be read. -/
theorem Yields.putBack (h : c.Yields ts stop) (hheld : c.held = none) (t : Option Token) :
    (c.putBack t).Yields (t.toList ++ ts) stop := by
  cases t with
  | none => exact h
  | some t =>
    refine ⟨?_, h.stop⟩
    have htokens := h.tokens
    rw [hheld] at htokens
    exact congrArg (t :: ·) htokens

/-- The next token is read if there is one, else the end or the error that stands there. -/
theorem Yields.next_cases (h : c.Yields ts stop) :
    (∃ t ts' c', ts = t :: ts' ∧ c.next = .ok (some t, c') ∧ c'.Yields ts' stop) ∨
      (∃ c', ts = [] ∧ stop = none ∧ c.next = .ok (none, c') ∧ c'.Yields [] none) ∨
      ∃ e, ts = [] ∧ stop = some e ∧ c.next = .error e := by
  obtain ⟨symbols, rest, held⟩ := c
  obtain ⟨rfl, rfl⟩ := h
  cases held with
  | some t => exact .inl ⟨t, _, ⟨symbols, rest, none⟩, rfl, rfl, rfl, rfl⟩
  | none =>
    dsimp only [Option.toList_none, List.nil_append]
    rw [Token.readAll_eq]
    cases hnext : Token.next symbols symbols.window rest with
    | error e => exact .inr (.inr ⟨e, rfl, rfl, by simp only [next, hnext]⟩)
    | ok answer =>
      cases answer with
      | none =>
        have hend := Token.readAll_nil symbols symbols.window
        exact .inr (.inl ⟨⟨symbols, [], none⟩, rfl, rfl, by simp only [next, hnext],
          congrArg Token.Reading.tokens hend, congrArg Token.Reading.error hend⟩)
      | some p =>
        obtain ⟨t, rest'⟩ := p
        exact .inl ⟨t, _, ⟨symbols, rest', none⟩, rfl, by simp only [next, hnext], rfl, rfl⟩

/-! ## A cursor and a list of tokens -/

/-- A cursor that has no error before it reads its tokens one by one, and then the end. -/
theorem Yields.exists_next {i : Nat} (h : c.Yields (ts.drop i) none) :
    ∃ c', c.next = .ok (ts[i]?, c') ∧ c'.Yields (ts.drop (i + 1)) none := by
  rw [← List.head?_drop, ← List.tail_drop]
  rcases h.next_cases with ⟨t, ts', c', hts, hnext, hc'⟩ | ⟨c', hts, -, hnext, hc'⟩ | ⟨e, -, he, -⟩
  · rw [hts]
    exact ⟨c', hnext, hc'⟩
  · rw [hts]
    exact ⟨c', hnext, hc'⟩
  · cases he

/-- What was read, and is put back, is what is read next again. -/
theorem Yields.putBack_next {calls : List Call} {t : Option Token} {i : Nat}
    (h : c.Yields (ts.drop i) none) (hheld : c.held = none)
    (htape : Tape.Reaches ts (.next t :: calls) i) :
    (c.putBack t).Yields (ts.drop (i - t.toList.length)) none := by
  cases htape with
  | @next _ i =>
    have hback := h.putBack hheld ts[i]?
    cases ht : ts[i]? with
    | none => exact h
    | some t =>
      obtain ⟨hi, rfl⟩ := List.getElem?_eq_some_iff.mp ht
      rw [ht] at hback
      rw [Option.toList_some, List.length_singleton, Nat.add_sub_cancel,
        List.drop_eq_getElem_cons hi]
      exact hback

variable {c₀ : Cursor} {calls : List Call}

theorem held_of_reaches_next {t : Option Token} (h : c₀.Reaches (.next t :: calls) c) :
    c.held = none := by
  cases h with
  | next _ hnext => exact held_of_next hnext

/-- After disciplined calls on a cursor, the same calls lead to a place in the list, and what comes
after it is still to be read. -/
theorem Reaches.exists_tape (h : c₀.Reaches calls c) (hcalls : Disciplined calls)
    (hstart : c₀.Yields ts none) : ∃ i, Tape.Reaches ts calls i ∧ c.Yields (ts.drop i) none := by
  induction hcalls generalizing c with
  | start =>
    cases h
    exact ⟨0, .start, hstart⟩
  | next t _ ih =>
    cases h with
    | next hbefore hnext =>
      obtain ⟨i, htape, hc⟩ := ih hbefore
      obtain ⟨c', hnext', hc'⟩ := hc.exists_next
      rw [hnext] at hnext'
      cases hnext'
      exact ⟨i + 1, .next htape, hc'⟩
  | @putBack _ t _ ih =>
    cases h with
    | putBack _ hread =>
      obtain ⟨i, htape, hc⟩ := ih hread
      exact ⟨_, .putBack t htape, hc.putBack_next (held_of_reaches_next hread) htape⟩

/-- Disciplined calls on a list of tokens can be made on a cursor. -/
theorem exists_reaches_of_tape {i : Nat} (h : Tape.Reaches ts calls i) (hcalls : Disciplined calls)
    (hstart : c₀.Yields ts none) : ∃ c, c₀.Reaches calls c ∧ c.Yields (ts.drop i) none := by
  induction hcalls generalizing i with
  | start =>
    cases h
    exact ⟨c₀, .start, hstart⟩
  | next t _ ih =>
    cases h with
    | next hbefore =>
      obtain ⟨c, hreaches, hc⟩ := ih hbefore
      obtain ⟨c', hnext, hc'⟩ := hc.exists_next
      exact ⟨c', .next hreaches hnext, hc'⟩
  | @putBack _ t _ ih =>
    cases h with
    | putBack _ hread =>
      obtain ⟨c, hreaches, hc⟩ := ih hread
      exact ⟨_, .putBack t hreaches, hc.putBack_next (held_of_reaches_next hreaches) hread⟩

/-- Disciplined calls have the same answers from a cursor and from the list of its tokens. -/
theorem answers_iff (hcalls : Disciplined calls) (hstart : c₀.Yields ts none) :
    (∃ c, c₀.Reaches calls c) ↔ ∃ i, Tape.Reaches ts calls i := by
  constructor
  · rintro ⟨c, h⟩
    obtain ⟨i, htape, -⟩ := h.exists_tape hcalls hstart
    exact ⟨i, htape⟩
  · rintro ⟨i, h⟩
    obtain ⟨c, hreaches, -⟩ := exists_reaches_of_tape h hcalls hstart
    exact ⟨c, hreaches⟩

/-! ## No token is lost -/

variable {before after : List Call} {t : Option Token}

/-- What is put back was read by the call before. -/
theorem Disciplined.exists_next (h : Disciplined (after ++ .putBack t :: before)) :
    ∃ earlier, before = .next t :: earlier := by
  generalize hcalls : after ++ .putBack t :: before = calls at h
  induction h generalizing after with
  | start => exact absurd hcalls (by simp)
  | next u _ ih =>
    cases after with
    | nil => cases hcalls
    | cons call after =>
      obtain ⟨-, rfl⟩ := List.cons.inj hcalls
      exact ih rfl
  | putBack _ ih =>
    cases after with
    | nil =>
      cases hcalls
      exact ⟨_, rfl⟩
    | cons call after =>
      obtain ⟨-, htail⟩ := List.cons.inj hcalls
      exact ih htail

theorem Reaches.exists_before (h : c₀.Reaches (after ++ before) c) :
    ∃ c', c₀.Reaches before c' := by
  induction after generalizing c with
  | nil => exact ⟨c, h⟩
  | cons call after ih =>
    cases h with
    | next h _ => exact ih h
    | putBack _ h => exact ih h

/-- Disciplined calls put nothing back where something is held. -/
theorem Reaches.exists_free (h : c₀.Reaches calls c) (hcalls : Disciplined calls)
    (hsplit : calls = after ++ .putBack t :: before) :
    ∃ c', c₀.Reaches before c' ∧ c'.held = none := by
  subst hsplit
  obtain ⟨earlier, rfl⟩ := hcalls.exists_next
  rw [← List.singleton_append, ← List.append_assoc] at h
  obtain ⟨c', hc'⟩ := h.exists_before
  exact ⟨c', hc', held_of_reaches_next hc'⟩

end Cursor

end MathMarkup
