import MathMarkup.Proofs.LatexLexemes

/-!
# Arguments of LaTeX commands

LaTeX ends an optional argument at the first closing bracket that no brace encloses.  Opening
brackets do not count, nor do the delimiters after `\left` and `\right`.  An argument in braces ends
at the brace that closes it.

* `Latex.depthAfter` follows the depth of braces, and `Latex.Balanced` says that all are closed.
  Lexemes that nest are balanced (`Latex.Nested.balanced`).
* `Latex.Unbraced` says that a lexeme is among others outside braces.  In lexemes that are put
  together it comes from one of the parts (`Latex.unbraced_append`), and from none in braces
  (`Latex.not_unbraced_braced`).
* `Latex.upTo` reads up to the first such lexeme (`Latex.upTo_eq_some_iff`), and `Latex.root?` reads
  a root with its index.  The index is read back exactly if no closing bracket is unbraced in it
  (`Latex.root?_eq_some_iff`).
-/

namespace MathMarkup.Latex

/-! ## Depth of braces -/

/-- The depth of braces after a lexeme, unless it closes a brace that is not open. -/
def Lexeme.depth? (l : Lexeme) (n : Nat) : Option Nat :=
  if l = .char '\x7b' then some (n + 1)
  else if l = .char '\x7d' then if n = 0 then none else some (n - 1)
  else some n

/-- The depth of braces after lexemes, unless one closes a brace that is not open. -/
def depthAfter (n : Nat) (ls : List Lexeme) : Option Nat :=
  ls.foldlM (fun n l => l.depth? n) n

/-- Every brace is closed. -/
def Balanced (ls : List Lexeme) : Prop :=
  depthAfter 0 ls = some 0

instance (ls : List Lexeme) : Decidable (Balanced ls) :=
  inferInstanceAs (Decidable (_ = _))

@[simp] theorem depthAfter_nil (n : Nat) : depthAfter n [] = some n := rfl

@[simp] theorem depthAfter_cons (n : Nat) (l : Lexeme) (ls : List Lexeme) :
    depthAfter n (l :: ls) = (l.depth? n).bind fun m => depthAfter m ls := rfl

theorem depthAfter_append (n : Nat) (a b : List Lexeme) :
    depthAfter n (a ++ b) = (depthAfter n a).bind fun m => depthAfter m b :=
  List.foldlM_append

theorem depth?_add {l : Lexeme} {n m : Nat} (h : l.depth? n = some m) (k : Nat) :
    l.depth? (n + k) = some (m + k) := by
  unfold Lexeme.depth? at h ⊢
  grind

/-- Braces that are open outside stay open. -/
theorem depthAfter_add {n m : Nat} {ls : List Lexeme} (h : depthAfter n ls = some m) (k : Nat) :
    depthAfter (n + k) ls = some (m + k) := by
  induction ls generalizing n with
  | nil =>
    cases h
    rfl
  | cons l ls ih =>
    obtain ⟨mid, hmid, hrest⟩ := Option.bind_eq_some_iff.mp h
    rw [depthAfter_cons, depth?_add hmid]
    exact ih hrest

theorem Balanced.append {a b : List Lexeme} (ha : Balanced a) (hb : Balanced b) :
    Balanced (a ++ b) := by
  unfold Balanced
  rw [depthAfter_append, ha]
  exact hb

/-- The depth of braces counts the braces among the open brackets. -/
theorem depth?_of_turn {l : Lexeme} {opened opened' : List Bracket}
    (h : l.turn opened = some opened') :
    l.depth? (opened.count .brace) = some (opened'.count .brace) := by
  have hopens {b : Bracket} (hb : l.opens? = some b) (n : Nat) :
      l.depth? n = some (n + if b == .brace then 1 else 0) := by
    unfold Lexeme.opens? at hb
    split at hb <;> cases hb <;> rfl
  have hcloses {b : Bracket} (hb : l.closes? = some b) (n : Nat) :
      l.depth? (n + if b == .brace then 1 else 0) = some n := by
    unfold Lexeme.closes? at hb
    split at hb <;> cases hb <;> rfl
  unfold Lexeme.turn at h
  split at h
  · rename_i b hb
    cases h
    rw [hopens hb, List.count_cons]
  · rename_i b _ hb
    split at h
    · rename_i hhead
      cases h
      obtain ⟨tail, rfl⟩ := List.head?_eq_some_iff.mp hhead
      rw [List.count_cons, hcloses hb, List.tail_cons]
    · exact nomatch h
  · rename_i hopen hclose
    cases h
    rw [Lexeme.depth?, if_neg, if_neg]
    · rintro rfl
      exact nomatch hclose
    · rintro rfl
      exact nomatch hopen

theorem depthAfter_of_openAfter {opened opened' : List Bracket} {ls : List Lexeme}
    (h : openAfter opened ls = some opened') :
    depthAfter (opened.count .brace) ls = some (opened'.count .brace) := by
  induction ls generalizing opened with
  | nil =>
    cases h
    rfl
  | cons l ls ih =>
    rw [openAfter] at h
    split at h
    · obtain ⟨mid, hmid, hrest⟩ := Option.bind_eq_some_iff.mp h
      rw [depthAfter_cons, depth?_of_turn hmid]
      exact ih hrest
    · cases h

theorem Nested.balanced {ls : List Lexeme} (h : Nested ls) : Balanced ls :=
  depthAfter_of_openAfter h

/-! ## Lexemes outside braces -/

/-- A lexeme is among others, outside braces. -/
def Unbraced (l : Lexeme) (ls : List Lexeme) : Prop :=
  ∃ before after, ls = before ++ l :: after ∧ Balanced before

section

variable {l : Lexeme} {a b : List Lexeme}

theorem Unbraced.mem (h : Unbraced l a) : l ∈ a := by
  obtain ⟨before, after, rfl, -⟩ := h
  exact List.mem_append_right before List.mem_cons_self

theorem unbraced_append (ha : Balanced a) : Unbraced l (a ++ b) ↔ Unbraced l a ∨ Unbraced l b := by
  constructor
  · rintro ⟨before, after, heq, hbefore⟩
    rcases List.append_eq_append_iff.mp heq with ⟨mid, rfl, hb⟩ | ⟨mid, rfl, hmid⟩
    · refine .inr ⟨mid, after, hb, ?_⟩
      rwa [Balanced, depthAfter_append, ha] at hbefore
    · cases mid with
      | nil => exact .inr ⟨[], after, hmid.symm, rfl⟩
      | cons l' mid =>
        cases hmid
        exact .inl ⟨before, mid, rfl, hbefore⟩
  · rintro (⟨before, after, rfl, hbefore⟩ | ⟨before, after, rfl, hbefore⟩)
    · exact ⟨before, after ++ b, List.append_assoc before (l :: after) b, hbefore⟩
    · exact ⟨a ++ before, after, (List.append_assoc a before (l :: after)).symm,
        ha.append hbefore⟩

theorem not_unbraced_braced (hl : l.depth? 0 = some 0) (ha : Balanced a) :
    ¬ Unbraced l (.char '\x7b' :: (a ++ [.char '\x7d'])) := by
  rintro ⟨before, after, heq, hbefore⟩
  cases before with
  | nil =>
    cases heq
    exact nomatch hl
  | cons _ before =>
    obtain ⟨rfl, htail⟩ := List.cons.inj heq
    rcases List.append_eq_append_iff.mp htail with ⟨mid, rfl, hmid⟩ | ⟨mid, rfl, -⟩
    · cases mid with
      | nil =>
        cases hmid
        exact nomatch hl
      | cons _ mid => exact absurd (List.cons.inj hmid).2 (by simp)
    · -- the brace is still open before the lexeme
      obtain ⟨depth, hdepth, -⟩ :=
        Option.bind_eq_some_iff.mp ((depthAfter_append 0 before mid).symm.trans ha)
      have hopen : depthAfter 1 before = some 0 := hbefore
      cases hopen.symm.trans (Nat.zero_add 1 ▸ depthAfter_add hdepth 1)

end

/-! ## Reading arguments -/

/-- The lexemes before the first of a kind outside braces, and those after it.  The braces that are
open at the start are counted. -/
def upTo (stop : Lexeme) : Nat → List Lexeme → Option (List Lexeme × List Lexeme)
  | _, [] => none
  | n, l :: ls =>
    if n = 0 ∧ l = stop then some ([], ls)
    else (l.depth? n).bind fun m => (upTo stop m ls).map fun p => (l :: p.1, p.2)

/-- Lexemes that close all braces and have none of a kind outside braces. -/
def Leading (stop : Lexeme) (n : Nat) (ls : List Lexeme) : Prop :=
  depthAfter n ls = some 0 ∧
    ∀ before after, ls = before ++ stop :: after → depthAfter n before ≠ some 0

theorem leading_zero {stop : Lexeme} {ls : List Lexeme} :
    Leading stop 0 ls ↔ Balanced ls ∧ ¬ Unbraced stop ls :=
  and_congr_right' (by simp [Unbraced, Balanced])

theorem leading_cons {stop l : Lexeme} {n : Nat} {ls : List Lexeme} :
    Leading stop n (l :: ls) ↔
      ¬ (n = 0 ∧ l = stop) ∧ ∃ m, l.depth? n = some m ∧ Leading stop m ls := by
  constructor
  · rintro ⟨hdepth, hnone⟩
    rw [depthAfter_cons, Option.bind_eq_some_iff] at hdepth
    obtain ⟨m, hm, hdepth⟩ := hdepth
    refine ⟨?_, m, hm, hdepth, fun before after heq hbefore => ?_⟩
    · rintro ⟨rfl, rfl⟩
      exact hnone [] ls rfl rfl
    · refine hnone (l :: before) after (congrArg (l :: ·) heq) ?_
      rw [depthAfter_cons, hm]
      exact hbefore
  · rintro ⟨hstop, m, hm, hdepth, hnone⟩
    refine ⟨by rw [depthAfter_cons, hm]; exact hdepth, fun before after heq hbefore => ?_⟩
    cases before with
    | nil =>
      cases heq
      exact hstop ⟨Option.some.inj hbefore, rfl⟩
    | cons l' before =>
      cases heq
      rw [depthAfter_cons, hm] at hbefore
      exact hnone before after rfl hbefore

theorem upTo_of_leading {stop : Lexeme} {n : Nat} {ls : List Lexeme} (h : Leading stop n ls)
    (rest : List Lexeme) : upTo stop n (ls ++ stop :: rest) = some (ls, rest) := by
  induction ls generalizing n with
  | nil =>
    cases h.1
    simp [upTo]
  | cons l ls ih =>
    obtain ⟨hstop, m, hm, hls⟩ := leading_cons.mp h
    rw [List.cons_append, upTo, if_neg hstop, hm, Option.bind_some, ih hls]
    rfl

theorem leading_of_upTo {stop : Lexeme} {n : Nat} {ls argument rest : List Lexeme}
    (h : upTo stop n ls = some (argument, rest)) :
    ls = argument ++ stop :: rest ∧ Leading stop n argument := by
  induction ls generalizing n argument with
  | nil => exact nomatch h
  | cons l ls ih =>
    unfold upTo at h
    split at h
    · rename_i hstop
      obtain ⟨rfl, rfl⟩ := hstop
      cases h
      exact ⟨rfl, rfl, by simp⟩
    · rename_i hstop
      obtain ⟨m, hm, h⟩ := Option.bind_eq_some_iff.mp h
      obtain ⟨⟨argument, rest⟩, hread, h⟩ := Option.map_eq_some_iff.mp h
      cases h
      obtain ⟨rfl, hargument⟩ := ih hread
      exact ⟨rfl, leading_cons.mpr ⟨hstop, m, hm, hargument⟩⟩

/-- What is read are the lexemes before the first of a kind outside braces. -/
theorem upTo_eq_some_iff {stop : Lexeme} {ls argument rest : List Lexeme} :
    upTo stop 0 ls = some (argument, rest) ↔
      ls = argument ++ stop :: rest ∧ Balanced argument ∧ ¬ Unbraced stop argument := by
  rw [← leading_zero]
  constructor
  · exact leading_of_upTo
  · rintro ⟨rfl, h⟩
    exact upTo_of_leading h rest

/-- What LaTeX takes for an argument, and what comes after it: what braces enclose, or else one
lexeme.  Blanks before it do not count. -/
def argument? : List Lexeme → Option (List Lexeme × List Lexeme)
  | [] => none
  | .char ' ' :: ls => argument? ls
  | .char '\x7b' :: ls => upTo (.char '\x7d') 0 ls
  | .char '\x7d' :: _ => none
  | l :: ls => some ([l], ls)

/-- What LaTeX reads as a root with an index: the index, the radicand and what comes after them. -/
def root? : List Lexeme → Option (List Lexeme × List Lexeme × List Lexeme)
  | .word "sqrt" :: .char '[' :: ls =>
    (upTo (.char ']') 0 ls).bind fun p => (argument? p.2).map fun q => (p.1, q)
  | _ => none

/-- A brace that closes nothing is not among balanced lexemes. -/
theorem not_unbraced_of_balanced {a : List Lexeme} (ha : Balanced a) :
    ¬ Unbraced (.char '\x7d') a := by
  rintro ⟨before, after, rfl, hbefore⟩
  rw [Balanced, depthAfter_append, hbefore] at ha
  exact nomatch ha

/-- A root is read as it was put together exactly if no closing bracket of its index is outside
braces. -/
theorem root?_eq_some_iff {i b : List Lexeme} (hi : Balanced i) (hb : Balanced b)
    (rest : List Lexeme) :
    root? (.word "sqrt" :: .char '[' ::
        (i ++ .char ']' :: .char '\x7b' :: (b ++ .char '\x7d' :: rest))) = some (i, b, rest) ↔
      ¬ Unbraced (.char ']') i := by
  constructor
  · intro h
    obtain ⟨⟨i, ls⟩, hindex, h⟩ := Option.bind_eq_some_iff.mp h
    obtain ⟨⟨b, rest⟩, -, h⟩ := Option.map_eq_some_iff.mp h
    cases h
    exact (upTo_eq_some_iff.mp hindex).2.2
  · intro h
    have hindex := upTo_eq_some_iff.mpr
      ⟨show _ = i ++ .char ']' :: (.char '\x7b' :: (b ++ .char '\x7d' :: rest)) from rfl, hi, h⟩
    have hradicand : argument? (.char '\x7b' :: (b ++ .char '\x7d' :: rest)) = some (b, rest) :=
      upTo_eq_some_iff.mpr ⟨rfl, hb, not_unbraced_of_balanced hb⟩
    rw [root?, hindex, Option.bind_some, hradicand]
    rfl

example : root? (lex .basic "\\sqrt[\x7b]\x7d]\x7bx\x7d") =
    some (lex .basic "\x7b]\x7d", lex .basic "x", []) := by
  decide

end MathMarkup.Latex
