import MathMarkup.Text.Blank
import MathMarkup.Token.Basic

/-!
# Reading tokens

Source is read from the left.  After blanks, a token is the first of these that fits: a text
between double quotes, a text in the form `text(…)`, a number, a spelling of the table, or a
single character.  Spellings are matched in scan units and the longest match wins; a backslash
before a blank or a digit makes one unit with it.

* `Token.next` reads one token.  `Token.length_next_lt` says that it takes at least one character.
* `Token.readAll` reads all of them.
-/

namespace MathMarkup

/-- Why source cannot be read. -/
inductive ReadError where
  /-- The entry of this spelling has no role in the grammar. -/
  | noRole (spelling : String)
  deriving DecidableEq

namespace Token

open Text

/-! ## Literal texts -/

/-- Reads a literal text up to the closing character, or to the end if there is none. -/
def readLiteral (opening : List Char) (close : Char) (body : List Char) : Token × List Char :=
  let content := body.takeWhile (· ≠ close)
  match body.dropWhile (· ≠ close) with
  | [] => (⟨.text, some (String.ofList content), String.ofList (opening ++ content), []⟩, [])
  | _ :: rest =>
    (⟨.text, some (String.ofList content), String.ofList (opening ++ content ++ [close]), []⟩, rest)

/-- What is left after a literal text is no longer than its body. -/
theorem length_readLiteral_le (opening : List Char) (close : Char) (body : List Char) :
    (readLiteral opening close body).2.length ≤ body.length := by
  have h := (List.dropWhile_sublist (l := body) (· ≠ close)).length_le
  unfold readLiteral
  split
  · simp
  · rename_i rest hrest
    rw [hrest] at h
    simp only [List.length_cons] at h
    simp only
    omega

/-! ## Numbers -/

/-- Splits a fraction off: a point and at least one digit. -/
def splitFraction (cs : List Char) : List Char × List Char :=
  match cs with
  | '.' :: after =>
    if (after.takeWhile isDigit).isEmpty then ([], cs)
    else ('.' :: after.takeWhile isDigit, after.dropWhile isDigit)
  | _ => ([], cs)

/-- Splits a number without a sign off: digits and perhaps a fraction. -/
def splitUnsigned? (cs : List Char) : Option (List Char × List Char) :=
  if (cs.takeWhile isDigit).isEmpty then none
  else
    let (fraction, rest) := splitFraction (cs.dropWhile isDigit)
    some (cs.takeWhile isDigit ++ fraction, rest)

/-- Splits a number off: perhaps a minus sign, digits and perhaps a fraction. -/
def splitNumber? (cs : List Char) : Option (List Char × List Char) :=
  match cs with
  | '-' :: after => (splitUnsigned? after).map fun (digits, rest) => ('-' :: digits, rest)
  | _ => splitUnsigned? cs

/-- Splitting a fraction off loses nothing. -/
theorem splitFraction_append (cs : List Char) :
    (splitFraction cs).1 ++ (splitFraction cs).2 = cs := by
  unfold splitFraction
  split
  · split <;> simp
  · rfl

/-- Splitting a number without a sign off loses nothing, and the number has a digit. -/
theorem append_of_splitUnsigned? {cs digits rest : List Char}
    (h : splitUnsigned? cs = some (digits, rest)) : digits ≠ [] ∧ digits ++ rest = cs := by
  unfold splitUnsigned? at h
  split at h
  · simp at h
  · rename_i hne
    simp only [Option.some.injEq, Prod.mk.injEq] at h
    obtain ⟨rfl, rfl⟩ := h
    refine ⟨?_, ?_⟩
    · intro hnil
      simp only [List.append_eq_nil_iff] at hnil
      simp [hnil.1] at hne
    · rw [List.append_assoc, splitFraction_append, List.takeWhile_append_dropWhile]

/-- Splitting a number off loses nothing, and the number is not empty. -/
theorem append_of_splitNumber? {cs digits rest : List Char}
    (h : splitNumber? cs = some (digits, rest)) : digits ≠ [] ∧ digits ++ rest = cs := by
  unfold splitNumber? at h
  split at h
  · simp only [Option.map_eq_some_iff, Prod.mk.injEq, Prod.exists] at h
    obtain ⟨ds, r, hs, rfl, rfl⟩ := h
    simp [(append_of_splitUnsigned? hs).2]
  · exact append_of_splitUnsigned? h

/-! ## Spellings -/

/-- Splits a scan unit off: a backslash with the blank or digit after it, or one character that is
neither a blank nor a digit. -/
def splitUnit? : List Char → Option (List Char × List Char)
  | [] => none
  | c :: rest =>
    match c, rest with
    | '\\', d :: after =>
      if isBlank d || isDigit d then some (['\\', d], after) else some (['\\'], rest)
    | _, _ => if isBlank c || isDigit c then none else some ([c], rest)

/-- The scan units at the front, up to the given number. -/
def units : Nat → List Char → List (List Char)
  | 0, _ => []
  | n + 1, cs =>
    match splitUnit? cs with
    | none => []
    | some (u, rest) => u :: units n rest

/-- The longest of the first `n` runs of units from the front that is a key of the table. -/
def longestMatch? (symbols : SymbolTable) (us : List (List Char)) :
    Nat → Option (List Char × Descriptor)
  | 0 => none
  | n + 1 =>
    let candidate := (us.take (n + 1)).flatten
    match symbols.lookup (String.ofList candidate) with
    | some d => some (candidate, d)
    | none => longestMatch? symbols us n

/-- Reads a spelling of the table, or else a single unit.  Where no unit starts, a single
character is read. -/
def readSymbol (symbols : SymbolTable) (window : Nat) (c : Char) (after : List Char) :
    Except ReadError (Token × List Char) :=
  let us := units window (c :: after)
  match longestMatch? symbols us us.length with
  | some (spelling, d) =>
    match d.kind with
    | .grammar role =>
      .ok (⟨.role role, d.value, String.ofList spelling, d.extra⟩,
        after.drop (spelling.length - 1))
    | .display _ => .error (.noRole (String.ofList spelling))
  | none =>
    let unit := us.headD [c]
    .ok (⟨.identifier, some (String.ofList unit), String.ofList unit, []⟩,
      after.drop (unit.length - 1))

/-! ## Tokens -/

/-- Reads the token that starts with the given character. -/
def readAt (symbols : SymbolTable) (window : Nat) (c : Char) (after : List Char) :
    Except ReadError (Token × List Char) :=
  if c = '"' then .ok (readLiteral ['"'] '"' after)
  else if "text(".toList.isPrefixOf (c :: after) then
    .ok (readLiteral "text(".toList ')' (after.drop 4))
  else
    match splitNumber? (c :: after) with
    | some (digits, rest) =>
      .ok (⟨.number, some (String.ofList digits), String.ofList digits, []⟩, rest)
    | none => readSymbol symbols window c after

/-- Reads the next token after blanks. -/
def next (symbols : SymbolTable) (window : Nat) (cs : List Char) :
    Except ReadError (Option (Token × List Char)) :=
  match cs.dropWhile isBlank with
  | [] => .ok none
  | c :: after => (readAt symbols window c after).map some

/-- What is left after the token at a character is no longer than what comes after it. -/
theorem length_readAt_le {symbols : SymbolTable} {window : Nat} {c : Char} {after rest : List Char}
    {t : Token} (h : readAt symbols window c after = .ok (t, rest)) :
    rest.length ≤ after.length := by
  unfold readAt at h
  split at h
  · simp only [Except.ok.injEq] at h
    have := length_readLiteral_le ['"'] '"' after
    rw [h] at this
    exact this
  split at h
  · simp only [Except.ok.injEq] at h
    have := length_readLiteral_le "text(".toList ')' (after.drop 4)
    rw [h] at this
    simp only [List.length_drop] at this
    omega
  split at h
  · rename_i digits r hs
    simp only [Except.ok.injEq, Prod.mk.injEq] at h
    obtain ⟨-, rfl⟩ := h
    obtain ⟨hne, happ⟩ := append_of_splitNumber? hs
    have hlen := congrArg List.length happ
    simp only [List.length_append, List.length_cons] at hlen
    have := List.length_pos_iff.mpr hne
    omega
  · unfold readSymbol at h
    dsimp only at h
    split at h
    · split at h
      · simp only [Except.ok.injEq, Prod.mk.injEq] at h
        obtain ⟨-, rfl⟩ := h
        simp
      · simp at h
    · simp only [Except.ok.injEq, Prod.mk.injEq] at h
      obtain ⟨-, rfl⟩ := h
      simp

/-- Reading a token takes at least one character. -/
theorem length_next_lt {symbols : SymbolTable} {window : Nat} {cs rest : List Char} {t : Token}
    (h : next symbols window cs = .ok (some (t, rest))) : rest.length < cs.length := by
  have hd := (List.dropWhile_sublist (l := cs) isBlank).length_le
  unfold next at h
  split at h
  · simp at h
  · rename_i c after hcs
    rw [hcs] at hd
    simp only [List.length_cons] at hd
    cases hr : readAt symbols window c after with
    | error e => simp [hr, Except.map] at h
    | ok p =>
      obtain ⟨t', rest'⟩ := p
      simp only [hr, Except.map, Except.ok.injEq, Option.some.injEq, Prod.mk.injEq] at h
      obtain ⟨-, rfl⟩ := h
      have := length_readAt_le hr
      omega

/-- All that was read from a source: its tokens, and the error that came after them, if one did. -/
structure Reading where
  tokens : List Token
  error : Option ReadError

/-- Reads all tokens. -/
def readAll (symbols : SymbolTable) (window : Nat) (cs : List Char) : Reading :=
  match h : next symbols window cs with
  | .error e => ⟨[], some e⟩
  | .ok none => ⟨[], none⟩
  | .ok (some (t, rest)) =>
    have := length_next_lt h
    let reading := readAll symbols window rest
    { reading with tokens := t :: reading.tokens }
termination_by cs.length

end Token

/-- The number of units in which a spelling of the table is looked for. -/
def SymbolTable.window (symbols : SymbolTable) : Nat :=
  max symbols.longest 1

/-- Reads the tokens of a source. -/
def SymbolTable.read (symbols : SymbolTable) (source : String) : Token.Reading :=
  Token.readAll symbols symbols.window source.toList

end MathMarkup
