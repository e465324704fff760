import MathMarkup.Proofs.Failure
import MathMarkup.Proofs.Regrouping
import MathMarkup.Proofs.Sessions

/-!
# Reading comes to an end

Reading a source ends because it never stands still.  An expression takes a token, and where nothing
is read there is a reason for it: the source has ended, or what comes next closes the parenthesis
around.  A token that is read, put back and read again takes nothing from the source, so what gets
less is not the source that is left but the list of unread tokens, in which a token that was put
back is still counted.

On this list the grammar calls itself with fewer and fewer tokens, and its rules say how far it
gets.  A session is therefore followed to its unread tokens, and what is known there is carried
back.

* `Cursor.unread` is the list, and `Session.Kept.at_unread` finds it in the tokens of the source.
* `Session.Advances` says what a reading does to it, and `Session.StandsBefore` where one stops.
* `Session.simple_advances`, `Session.intermediate_advances` and `Session.run_advances` are about
  the three readers, and `reading_advances` puts them together for a source.
-/

namespace MathMarkup

/-- Items that are not missing are nothing only if there are none. -/
theorem Expr.ofItems_eq_empty_iff {es : List Expr} (h : ∀ e ∈ es, ItemShaped e) :
    ofItems es = .empty ↔ es = [] := by
  refine ⟨fun hempty => ?_, fun hnil => hnil ▸ rfl⟩
  match es with
  | [] => rfl
  | [e] =>
    obtain ⟨-, hadmits⟩ := h e List.mem_cons_self
    rw [show e = .empty from hempty] at hadmits
    exact absurd hadmits (by decide)
  | e :: f :: es => exact nomatch hempty

namespace Cursor

/-- The tokens that are still to be read: the one that was put back, and those of the source that
is left. -/
def unread (c : Cursor) : List Token :=
  c.held.toList ++ (Token.readAll c.symbols c.symbols.window c.rest).tokens

theorem Yields.unread_eq {c : Cursor} {ts : List Token} {stop : Option ReadError}
    (h : c.Yields ts stop) : c.unread = ts :=
  h.tokens

/-- The first of disciplined calls are disciplined. -/
theorem Disciplined.of_suffix {calls before : List Call} (h : Disciplined calls)
    (hbefore : before <:+ calls) : Disciplined before := by
  induction h with
  | start =>
    rw [List.suffix_nil.mp hbefore]
    exact .start
  | next t h ih =>
    rcases List.suffix_cons_iff.mp hbefore with rfl | hbefore
    · exact .next t h
    · exact ih hbefore
  | putBack h ih =>
    rcases List.suffix_cons_iff.mp hbefore with rfl | hbefore
    · exact .putBack h
    · exact ih hbefore

end Cursor

namespace Session

open Grammar (Stops ahead)

/-- The tokens that are still to be read. -/
def unread (s : Session) : List Token :=
  s.cursor.unread

/-- A session that is gone through when a source is read: the first of the calls that are made then
lead to its cursor. -/
def Passed (symbols : SymbolTable) (colors : ColorTable) (source : String) (s : Session) : Prop :=
  s.calls <:+ (parse symbols colors source).1.calls ∧
    (Cursor.start symbols source).Reaches s.calls s.cursor

/-- The session stands before the end of the source or, inside a parenthesis, before a token with
a property. -/
def StandsBefore (s : Session) (nested : Bool) (p : Token → Bool) : Prop :=
  ∃ a : Answer s, s.next = .ok a ∧ ∀ t, a.token = some t → nested = true ∧ p t = true

/-- Between two sessions an expression was read, or nothing for a reason. -/
structure Advances (s : Session) (nested : Bool) (e : Expr) (s' : Session) : Prop where
  /-- An expression takes a token. -/
  shorter : e ≠ .empty → s'.unread.length < s.unread.length
  /-- Where there is none, no token is taken, and the end or a closing delimiter is next. -/
  unmoved : e = .empty → s'.unread = s.unread ∧ s'.StandsBefore nested Token.isClosing

/-! ## Sessions and their unread tokens -/

variable {c₀ : Cursor} {s s' : Session} {nested : Bool} {ts rest : List Token}

theorem Passed.kept {symbols : SymbolTable} {colors : ColorTable} {source : String}
    (h : s.Passed symbols colors source) : Kept (Cursor.start symbols source) s :=
  ⟨h.2, (parse_spec symbols colors source).2.1.disciplined.of_suffix h.1⟩

theorem At.unread_eq (h : At c₀ none s ts) : s.unread = ts :=
  h.yields.unread_eq

/-- After disciplined calls, the unread tokens are the last of the source. -/
theorem Kept.at_unread {symbols : SymbolTable} (hroles : symbols.HasRoles) {source : String}
    (h : Kept (Cursor.start symbols source) s) :
    At (Cursor.start symbols source) none s s.unread ∧
      s.unread <:+ (symbols.read source).tokens := by
  have hstart := Cursor.yields_start symbols source
  rw [show (symbols.read source).error = none from Token.error_readAll hroles] at hstart
  obtain ⟨i, -, hyields⟩ := h.reaches.exists_tape h.disciplined hstart
  have hunread : s.unread = (symbols.read source).tokens.drop i := hyields.unread_eq
  rw [hunread]
  exact ⟨⟨h, hyields⟩, List.drop_suffix i _⟩

theorem At.standsBefore {p : Token → Bool} (h : At c₀ none s ts)
    (hstop : ts = [] ∨ nested = true ∧ ahead p ts = true) : s.StandsBefore nested p := by
  cases ts with
  | nil =>
    obtain ⟨s', hle, hnext, -⟩ := h.next_nil
    exact ⟨_, hnext, nofun⟩
  | cons t ts =>
    obtain ⟨s', hle, hnext, -⟩ := h.next_cons
    refine ⟨_, hnext, ?_⟩
    rintro _ ⟨⟩
    exact hstop.resolve_left (List.cons_ne_nil t ts)

/-- A session advances as far as the list of its tokens. -/
theorem At.advances {e : Expr} (h : At c₀ none s ts) (h' : At c₀ none s' rest)
    (hprogress : e ≠ .empty → rest.length < ts.length)
    (hstop : e = .empty → rest = ts ∧ Stops nested ts) : s.Advances nested e s' := by
  refine ⟨fun hne => ?_, fun hempty => ?_⟩
  · rw [h.unread_eq, h'.unread_eq]
    exact hprogress hne
  · obtain ⟨rfl, hstops⟩ := hstop hempty
    exact ⟨h'.unread_eq.trans h.unread_eq.symm, h'.standsBefore hstops⟩

/-! ## The readers of the grammar -/

/-- A step that is taken in a session as on its tokens advances as far as they do. -/
theorem At.exists_step {x : Except Halt (Step s)} {e' : Grammar.Step ts} (h : At c₀ none s ts)
    (hagrees : Agrees c₀ (Step.Fits c₀ none) x (.ok e'))
    (hprogress : e'.expr ≠ .empty → e'.rest.length < ts.length)
    (hstop : e'.expr = .empty → e'.rest = ts ∧ Stops nested ts) :
    ∃ e, x = .ok e ∧ e.Fits c₀ none e' ∧ s.Advances nested e.expr e.session := by
  obtain ⟨e, hsession, hexpr, hat⟩ := hagrees.exists_ok
  refine ⟨e, hsession, ⟨hexpr, hat⟩, ?_⟩
  rw [hexpr]
  exact h.advances hat hprogress hstop

/-- A simple expression is read, as from the unread tokens. -/
theorem simple_advances (h : At c₀ none s ts) (hts : ∀ t ∈ ts, t.Convertible)
    (colors : ColorTable) (nested : Bool) :
    ∃ (e : Step s) (e' : Grammar.Step ts), simple colors nested s = .ok e ∧
      Grammar.simple ⟨colors, none⟩ nested ts = .ok e' ∧ e.Fits c₀ none e' ∧
        s.Advances nested e.expr e.session := by
  obtain ⟨htotal, -⟩ := Grammar.simpleTotal_runTotal ⟨colors, none⟩ (ts.length + 1)
  obtain ⟨expr, rest, hd⟩ := htotal nested ts (Nat.lt_succ_self _) hts
  obtain ⟨e', hread, rfl, rfl⟩ := hd.result rfl
  have hagrees := agrees_simple ⟨colors, none⟩ nested h
  rw [hread] at hagrees
  obtain ⟨e, hsession, hfits, hadvances⟩ := h.exists_step hagrees hd.progress hd.emptyAtStop
  exact ⟨e, e', hsession, hread, hfits, hadvances⟩

/-- A simple expression with its scripts is read, as from the unread tokens. -/
theorem intermediate_advances (h : At c₀ none s ts) (hts : ∀ t ∈ ts, t.Convertible)
    (colors : ColorTable) (nested : Bool) :
    ∃ (e : Step s) (e' : Grammar.Step ts), intermediate colors nested s = .ok e ∧
      Grammar.intermediate ⟨colors, none⟩ nested ts = .ok e' ∧ e.Fits c₀ none e' ∧
        s.Advances nested e.expr e.session := by
  obtain ⟨htotal, -⟩ := Grammar.simpleTotal_runTotal ⟨colors, none⟩ (ts.length + 1)
  obtain ⟨expr, rest, hd⟩ := Grammar.intermediateTotal htotal nested ts (Nat.lt_succ_self _) hts
  obtain ⟨e', hread, rfl, rfl⟩ := hd.result rfl
  have hagrees := agrees_intermediate ⟨colors, none⟩ nested h
  rw [hread] at hagrees
  obtain ⟨e, hsession, hfits, hadvances⟩ := h.exists_step hagrees hd.progress hd.emptyAtStop
  exact ⟨e, e', hsession, hread, hfits, hadvances⟩

/-- A run is read, as from the unread tokens, up to the end of the source or of its parenthesis. -/
theorem run_advances (h : At c₀ none s ts) (hts : ∀ t ∈ ts, t.Convertible)
    (colors : ColorTable) (nested : Bool) :
    ∃ (r : Run s) (r' : Grammar.Run ts), run colors nested s = .ok r ∧
      Grammar.run ⟨colors, none⟩ nested ts = .ok r' ∧ r.Fits c₀ none r' ∧
        s.Advances nested (.ofItems r.items) r.session ∧
          r.session.StandsBefore nested Token.closes := by
  obtain ⟨items, rest, hd⟩ := Grammar.exists_derives_run ⟨colors, none⟩ nested hts
  obtain ⟨r', hread, rfl, rfl⟩ := hd.result rfl
  have hagrees := agrees_run ⟨colors, none⟩ nested h
  rw [hread] at hagrees
  obtain ⟨r, hsession, hitems, hat⟩ := hagrees.exists_ok
  refine ⟨r, r', hsession, hread, ⟨hitems, hat⟩, ?_, hat.standsBefore hd.runStops⟩
  rw [hitems]
  have hnil := Expr.ofItems_eq_empty_iff hd.wellShaped
  refine h.advances hat (fun hne => hd.progress (mt hnil.mpr hne)) fun hempty => ?_
  rw [hnil.mp hempty] at hd
  exact hd.stops_of_nil

end Session

open Session

/-- Take a table of roles whose operators ask for conversions that exist, and a session that has put
back only what it had just read, as every session has that reading a source goes through.  Inside a
parenthesis or not, all readers of the grammar give a result there: the one that the grammar gives
from the unread tokens, where it calls itself with fewer of them.  An expression takes a token.
Where there is none, nothing is taken, and the source ends or, inside a parenthesis, a closing
delimiter is next.  A run ends with the source or, inside a parenthesis, before what closes it. -/
theorem reading_advances {symbols : SymbolTable} (hroles : symbols.HasRoles)
    (hconverts : symbols.Converts) (colors : ColorTable) (source : String) :
    (∀ s : Session, s.Passed symbols colors source → Kept (Cursor.start symbols source) s) ∧
      ∀ s : Session, Kept (Cursor.start symbols source) s → ∀ nested : Bool,
        (∃ (e : Step s) (e' : Grammar.Step s.unread),
          Session.simple colors nested s = .ok e ∧
            Grammar.simple ⟨colors, none⟩ nested s.unread = .ok e' ∧
            e.Fits (Cursor.start symbols source) none e' ∧
            s.Advances nested e.expr e.session) ∧
        (∃ (e : Step s) (e' : Grammar.Step s.unread),
          Session.intermediate colors nested s = .ok e ∧
            Grammar.intermediate ⟨colors, none⟩ nested s.unread = .ok e' ∧
            e.Fits (Cursor.start symbols source) none e' ∧
            s.Advances nested e.expr e.session) ∧
        ∃ (r : Run s) (r' : Grammar.Run s.unread),
          Session.run colors nested s = .ok r ∧
            Grammar.run ⟨colors, none⟩ nested s.unread = .ok r' ∧
            r.Fits (Cursor.start symbols source) none r' ∧
            s.Advances nested (.ofItems r.items) r.session ∧
            r.session.StandsBefore nested Token.closes := by
  refine ⟨fun s h => h.kept, fun s h nested => ?_⟩
  obtain ⟨hat, hsuffix⟩ := h.at_unread hroles
  have hts : ∀ t ∈ s.unread, t.Convertible := fun t ht =>
    hconverts.convertible (Token.listed_read symbols source t (hsuffix.subset ht))
  exact ⟨simple_advances hat hts colors nested, intermediate_advances hat hts colors nested,
    run_advances hat hts colors nested⟩

/-- Inside the parenthesis, where its first token was read and put back. -/
theorem reading_advances_put_back :
    SymbolTable.spellings.HasRoles ∧ SymbolTable.spellings.Converts ∧
      ∃ s : Session, Kept (Cursor.start .spellings "(a)_") s ∧
        s.cursor.held = some ⟨.identifier, some "a", "a", []⟩ ∧ s.unread.length = 3 ∧
        ∃ r : Run s, Session.run .basic true s = .ok r ∧
          s.Advances true (.ofItems r.items) r.session ∧
          r.session.StandsBefore true Token.closes := by
  have hroles := SymbolTable.hasRoles_spellings
  have hconverts := SymbolTable.converts_spellings
  have htokens : (SymbolTable.spellings.read "(a)_").tokens =
      [.leftRound, ⟨.identifier, some "a", "a", []⟩, .rightRound, .sub] := by
    rw [SymbolTable.read_spellings]
    decide +kernel
  obtain ⟨hpassed, hadvances⟩ := reading_advances hroles hconverts .basic "(a)_"
  have hstart : Kept (Cursor.start .spellings "(a)_") ⟨Cursor.start .spellings "(a)_", []⟩ :=
    hpassed _ ⟨List.nil_suffix, .start⟩
  have hyields := Cursor.yields_start .spellings "(a)_"
  rw [htokens, SymbolTable.error_read_spellings] at hyields
  have hat : At (Cursor.start .spellings "(a)_") none _ _ := ⟨hstart, hyields⟩
  obtain ⟨s₁, _, -, -, hat₁, -⟩ := hat.next_cons
  obtain ⟨s₂, _, -, -, -, hback⟩ := hat₁.next_cons
  obtain ⟨-, -, r, -, hrun, -, -, hrest⟩ := hadvances _ hback.kept true
  have hlength := congrArg List.length hback.unread_eq
  exact ⟨hroles, hconverts, _, hback.kept, rfl, hlength, r, hrun, hrest⟩

end MathMarkup
