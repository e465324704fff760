import Mathlib.Data.List.MinMax
import Mathlib.Order.Nat
import MathMarkup.Proofs.Lexing

/-!
# The longest match

A spelling is looked for in a window of scan units, and the window is as wide as the longest key
of the table is long.  Every unit has a character at least, so no key has more units than fit, and
the width is of no consequence: a wider window finds the same (`Token.readSymbol_window`).

Two things follow.

* `maximal_munch`: the token is the longest run of units that is a key, of all the units that there
  are, or else the first of the units.  `Token.Scans` gives these units by rules.
* `table_locality`: reading a source asks a table for spellings that occur in the source and for no
  others, so tables that agree on these give the same tokens, whatever their longest keys are.
-/

namespace MathMarkup

/-! ## Keys that are too long -/

theorem SymbolTable.length_le_longest {t : SymbolTable} {key : String} (h : key ∈ t.keys) :
    key.length ≤ t.longest :=
  List.le_max_of_le (List.mem_map_of_mem (f := String.length) h) le_rfl

theorem SymbolTable.lookup_eq_none_of_longest_lt {t : SymbolTable} {key : String}
    (h : t.longest < key.length) : t.lookup key = none := by
  cases hd : t.lookup key with
  | none => rfl
  | some d =>
    have hmem : key ∈ t.keys := List.mem_map.mpr ⟨(key, d), KeyedList.mem_of_value? hd, rfl⟩
    have := length_le_longest hmem
    omega

namespace Token

open Text

/-! ## The window -/

/-- A narrower window has the first of the units of a wider one. -/
theorem units_eq_take {m n : Nat} (h : m ≤ n) (cs : List Char) :
    units m cs = (units n cs).take m := by
  induction m generalizing n cs with
  | zero => rfl
  | succ m ih =>
    obtain ⟨n, rfl⟩ := Nat.exists_eq_add_of_le' (Nat.le_trans (Nat.le_add_left 1 m) h)
    unfold units
    split
    · rfl
    · rename_i unit rest _
      rw [List.take_succ_cons, ← ih (Nat.le_of_succ_le_succ h)]

theorem length_le_length_flatten {us : List (List Char)} (h : ∀ u ∈ us, u ≠ []) :
    us.length ≤ us.flatten.length := by
  induction us with
  | nil => exact Nat.le_refl _
  | cons u us ih =>
    rw [List.forall_mem_cons] at h
    have hpos := List.length_pos_iff.mpr h.1
    have := ih h.2
    rw [List.flatten_cons, List.length_cons, List.length_append]
    omega

/-- A run of more units than the longest key has characters is no key. -/
theorem lookup_take_eq_none {symbols : SymbolTable} {us : List (List Char)} {k : Nat}
    (hus : ∀ u ∈ us, u ≠ []) (hlong : symbols.longest < k) (hk : k ≤ us.length) :
    symbols.lookup (String.ofList (us.take k).flatten) = none := by
  refine SymbolTable.lookup_eq_none_of_longest_lt ?_
  have hlength : (us.take k).length ≤ (us.take k).flatten.length :=
    length_le_length_flatten fun u hu => hus u (List.mem_of_mem_take hu)
  rw [List.length_take, Nat.min_eq_left hk] at hlength
  rw [String.length_ofList]
  omega

/-- Runs that are no keys can be left out from the end. -/
theorem longestMatch?_eq_of_le {symbols : SymbolTable} {us : List (List Char)} {m n : Nat}
    (hmn : m ≤ n)
    (hnone : ∀ k, m < k → k ≤ n → symbols.lookup (String.ofList (us.take k).flatten) = none) :
    longestMatch? symbols us n = longestMatch? symbols us m := by
  induction n with
  | zero =>
    rw [Nat.le_zero.mp hmn]
  | succ n ih =>
    rcases Nat.lt_or_ge m (n + 1) with hlt | hge
    · rw [← ih (Nat.le_of_lt_succ hlt) fun k hmk hkn => hnone k hmk (Nat.le_succ_of_le hkn)]
      rw [longestMatch?]
      simp only [hnone (n + 1) hlt (Nat.le_refl _)]
    · rw [Nat.le_antisymm hmn hge]

/-- Units beyond the runs that are tried make no difference. -/
theorem longestMatch?_take (symbols : SymbolTable) (us : List (List Char)) {m n : Nat} (h : n ≤ m) :
    longestMatch? symbols (us.take m) n = longestMatch? symbols us n := by
  induction n with
  | zero => rfl
  | succ n ih =>
    unfold longestMatch?
    rw [List.take_take, Nat.min_eq_left h, ih (Nat.le_of_succ_le h)]

/-- A window that is wider than the longest key finds the same match. -/
theorem longestMatch?_units {symbols : SymbolTable} {n : Nat} (h : symbols.window ≤ n)
    (cs : List Char) :
    longestMatch? symbols (units symbols.window cs) (units symbols.window cs).length =
      longestMatch? symbols (units n cs) (units n cs).length := by
  have hus := (units_spec n cs).1
  generalize hall : units n cs = us at hus
  rw [units_eq_take h, hall, List.length_take, longestMatch?_take _ _ (Nat.min_le_left _ _)]
  refine (longestMatch?_eq_of_le (Nat.min_le_right _ _) fun k hk hle => ?_).symm
  have hlongest : symbols.longest ≤ symbols.window := Nat.le_max_left _ _
  exact lookup_take_eq_none hus (by omega) hle

/-- The width of the window is of no consequence, if only no key is longer. -/
theorem readSymbol_window {symbols : SymbolTable} {n : Nat} (h : symbols.window ≤ n) (c : Char)
    (after : List Char) :
    readSymbol symbols symbols.window c after = readSymbol symbols n c after := by
  have hmatch := longestMatch?_units h (c :: after)
  have hhead :
      (units symbols.window (c :: after)).headD [c] = (units n (c :: after)).headD [c] := by
    have hpos : 0 < symbols.window := Nat.lt_of_lt_of_le Nat.one_pos (Nat.le_max_right _ _)
    obtain ⟨w, hw⟩ := Nat.exists_eq_add_of_le' hpos
    rw [units_eq_take h, hw]
    cases units n (c :: after) <;> rfl
  unfold readSymbol
  dsimp only
  rw [hmatch, hhead]

/-! ## Scan units by rules -/

/-- The scan units at the front of a text, up to the first place where none starts: a backslash
with the blank or digit after it, or else one character that is neither a blank nor a digit. -/
inductive Scans : List Char → List (List Char) → Prop where
  | stop {cs} (hcs : ∀ c ∈ cs.head?, isBlank c = true ∨ isDigit c = true) : Scans cs []
  | pair {d cs us} (hd : isBlank d = true ∨ isDigit d = true) (h : Scans cs us) :
      Scans ('\\' :: d :: cs) (['\\', d] :: us)
  | single {c cs us} (hc : ¬ (isBlank c = true ∨ isDigit c = true))
      (hcs : c = '\\' → ∀ d ∈ cs.head?, ¬ (isBlank d = true ∨ isDigit d = true))
      (h : Scans cs us) : Scans (c :: cs) ([c] :: us)

theorem splitUnit?_of_stop {cs : List Char}
    (h : ∀ c ∈ cs.head?, isBlank c = true ∨ isDigit c = true) : splitUnit? cs = none := by
  cases cs with
  | nil => rfl
  | cons c cs =>
    have hc := h c rfl
    have hne : c ≠ '\\' := by
      rintro rfl
      exact absurd hc (by decide)
    unfold splitUnit?
    dsimp only
    split
    · exact absurd rfl hne
    · rw [if_pos (by simpa using hc)]

theorem splitUnit?_of_pair {d : Char} {cs : List Char} (h : isBlank d = true ∨ isDigit d = true) :
    splitUnit? ('\\' :: d :: cs) = some (['\\', d], cs) := by
  show (if (isBlank d || isDigit d) = true then some (['\\', d], cs) else _) = _
  rw [if_pos (by simpa using h)]

theorem splitUnit?_of_single {c : Char} {cs : List Char}
    (hc : ¬ (isBlank c = true ∨ isDigit c = true))
    (hcs : c = '\\' → ∀ d ∈ cs.head?, ¬ (isBlank d = true ∨ isDigit d = true)) :
    splitUnit? (c :: cs) = some ([c], cs) := by
  unfold splitUnit?
  dsimp only
  split
  · rw [if_neg (by simpa using hcs rfl _ rfl)]
  · rw [if_neg (by simpa using hc)]

/-- The rules give the units of every window that is wide enough. -/
theorem units_of_scans {cs : List Char} {us : List (List Char)} (h : Scans cs us) {n : Nat}
    (hn : us.length ≤ n) : units n cs = us := by
  induction h generalizing n with
  | stop hcs =>
    cases n with
    | zero => rfl
    | succ n => rw [units, splitUnit?_of_stop hcs]
  | pair hd _ ih =>
    obtain ⟨n, rfl⟩ := Nat.exists_eq_add_of_le' (Nat.le_trans (Nat.le_add_left 1 _) hn)
    rw [units, splitUnit?_of_pair hd]
    simp only [ih (Nat.le_of_succ_le_succ hn)]
  | single hc hcs _ ih =>
    obtain ⟨n, rfl⟩ := Nat.exists_eq_add_of_le' (Nat.le_trans (Nat.le_add_left 1 _) hn)
    rw [units, splitUnit?_of_single hc hcs]
    simp only [ih (Nat.le_of_succ_le_succ hn)]

theorem Scans.unique {cs : List Char} {us us' : List (List Char)} (h : Scans cs us)
    (h' : Scans cs us') : us' = us :=
  (units_of_scans h' (Nat.le_max_right us.length us'.length)).symm.trans
    (units_of_scans h (Nat.le_max_left us.length us'.length))

/-- Every text has scan units at its front, though there may be none. -/
theorem exists_scans (cs : List Char) : ∃ us, Scans cs us := by
  -- a unit can take two characters, so the recursion is on the length
  match cs with
  | [] => exact ⟨[], .stop nofun⟩
  | c :: cs =>
    by_cases hc : isBlank c = true ∨ isDigit c = true
    · exact ⟨[], .stop fun d hd => Option.some.inj hd ▸ hc⟩
    by_cases hpair : c = '\\' ∧ ∃ d ∈ cs.head?, isBlank d = true ∨ isDigit d = true
    · obtain ⟨rfl, d, hhead, hd⟩ := hpair
      obtain ⟨rest, rfl⟩ := List.head?_eq_some_iff.mp hhead
      obtain ⟨us, hus⟩ := exists_scans rest
      exact ⟨_, .pair hd hus⟩
    · obtain ⟨us, hus⟩ := exists_scans cs
      exact ⟨_, .single hc (fun hslash d hhead hd => hpair ⟨hslash, d, hhead, hd⟩) hus⟩
termination_by cs.length

/-! ## Where symbols are read -/

/-- No literal text and no number starts at a character. -/
structure AtSymbol (c : Char) (after : List Char) : Prop where
  quote : c ≠ '"'
  text : ¬ "text(".toList <+: c :: after
  digit : isDigit c = false
  minus : c = '-' → ∀ d ∈ after.head?, isDigit d = false

theorem splitUnsigned?_eq_none_iff {cs : List Char} :
    splitUnsigned? cs = none ↔ ∀ c ∈ cs.head?, isDigit c = false := by
  have hempty : (cs.takeWhile isDigit).isEmpty = true ↔ ∀ c ∈ cs.head?, isDigit c = false := by
    cases cs with
    | nil => simp
    | cons c cs =>
      rw [List.takeWhile_cons]
      cases hc : isDigit c <;> simp [hc]
  rw [← hempty]
  unfold splitUnsigned?
  split
  · rename_i hnil
    exact iff_of_true rfl hnil
  · rename_i hne
    exact iff_of_false nofun hne

/-- A number starts with a digit, or with a minus sign and a digit. -/
theorem splitNumber?_eq_none_iff {c : Char} {after : List Char} :
    splitNumber? (c :: after) = none ↔
      isDigit c = false ∧ (c = '-' → ∀ d ∈ after.head?, isDigit d = false) := by
  unfold splitNumber?
  split
  · rename_i after' heq
    cases heq
    rw [Option.map_eq_none_iff, splitUnsigned?_eq_none_iff]
    exact ⟨fun h => ⟨by decide, fun _ => h⟩, fun h => h.2 rfl⟩
  · rename_i hminus
    have hne : c ≠ '-' := by
      rintro rfl
      exact hminus after rfl
    rw [splitUnsigned?_eq_none_iff]
    exact ⟨fun h => ⟨h c rfl, fun hc => absurd hc hne⟩, fun h d hd => Option.some.inj hd ▸ h.1⟩

/-- These are the places where the reader comes to look for a symbol. -/
theorem atSymbol_iff {c : Char} {after : List Char} :
    AtSymbol c after ↔
      c ≠ '"' ∧ ¬ "text(".toList <+: c :: after ∧ splitNumber? (c :: after) = none := by
  rw [splitNumber?_eq_none_iff]
  exact ⟨fun h => ⟨h.quote, h.text, h.digit, h.minus⟩, fun h => ⟨h.1, h.2.1, h.2.2.1, h.2.2.2⟩⟩

theorem AtSymbol.readAt_eq {c : Char} {after : List Char} (h : AtSymbol c after)
    (symbols : SymbolTable) (window : Nat) :
    readAt symbols window c after = readSymbol symbols window c after := by
  obtain ⟨hquote, htext, hnumber⟩ := atSymbol_iff.mp h
  unfold readAt
  rw [if_neg hquote, if_neg (by simpa using htext), hnumber]

/-- The greatest number of units that make a key, and what the table says of that key. -/
structure Longest (symbols : SymbolTable) (us : List (List Char)) (k : Nat) (d : Descriptor) :
    Prop where
  pos : 1 ≤ k
  le : k ≤ us.length
  key : symbols.lookup (String.ofList (us.take k).flatten) = some d
  greatest (j : Nat) (hkj : k < j) (hj : j ≤ us.length) :
    symbols.lookup (String.ofList (us.take j).flatten) = none

/-- The match that is found is the longest, and if none is found then no run is a key. -/
theorem longest_of_longestMatch? (symbols : SymbolTable) (us : List (List Char)) :
    match longestMatch? symbols us us.length with
    | some (spelling, d) => ∃ k, Longest symbols us k d ∧ spelling = (us.take k).flatten
    | none => ∀ k, 1 ≤ k → k ≤ us.length →
        symbols.lookup (String.ofList (us.take k).flatten) = none := by
  -- the runs that were tried before are no keys
  suffices h : ∀ n ≤ us.length,
      (∀ j, n < j → j ≤ us.length →
        symbols.lookup (String.ofList (us.take j).flatten) = none) →
      match longestMatch? symbols us n with
      | some (spelling, d) => ∃ k, Longest symbols us k d ∧ spelling = (us.take k).flatten
      | none => ∀ k, 1 ≤ k → k ≤ us.length →
          symbols.lookup (String.ofList (us.take k).flatten) = none from
    h us.length (Nat.le_refl _) fun j hj hle => absurd hj (Nat.not_lt.mpr hle)
  intro n hn htried
  induction n with
  | zero => exact fun k hk hle => htried k hk hle
  | succ n ih =>
    rw [longestMatch?]
    cases hd : symbols.lookup (String.ofList (us.take (n + 1)).flatten) with
    | some d => exact ⟨n + 1, ⟨Nat.le_add_left 1 n, hn, hd, htried⟩, rfl⟩
    | none =>
      refine ih (Nat.le_of_succ_le hn) fun j hj hle => ?_
      rcases Nat.lt_or_ge (n + 1) j with hlt | hge
      · exact htried j hlt hle
      · have hj' : j = n + 1 := by omega
        exact hj' ▸ hd

/-- What is read where a symbol is: the longest key, or the first unit. -/
theorem readSymbol_longest {symbols : SymbolTable} (hroles : symbols.HasRoles) {c : Char}
    {after : List Char} {u : List Char} {us : List (List Char)}
    (hus : Scans (c :: after) (u :: us)) :
    ∃ t rest, readSymbol symbols symbols.window c after = .ok (t, rest) ∧
      ((∃ k d role, Longest symbols (u :: us) k d ∧ d.kind = .grammar role ∧
          t = ⟨.role role, d.value, String.ofList ((u :: us).take k).flatten, d.extra⟩) ∨
        (∀ k, 1 ≤ k → k ≤ (u :: us).length →
            symbols.lookup (String.ofList ((u :: us).take k).flatten) = none) ∧
          t = ⟨.identifier, some (String.ofList u), String.ofList u, []⟩) := by
  have hmatch := longest_of_longestMatch? symbols (u :: us)
  rw [readSymbol_window (Nat.le_max_left symbols.window (u :: us).length)]
  unfold readSymbol
  rw [units_of_scans hus (Nat.le_max_right _ _)]
  dsimp only
  split
  · rename_i spelling d hfound
    simp only [hfound] at hmatch
    obtain ⟨k, hlongest, rfl⟩ := hmatch
    obtain ⟨role, hrole⟩ := hroles _ d hlongest.key
    rw [hrole]
    exact ⟨_, _, rfl, .inl ⟨k, d, role, hlongest, hrole, rfl⟩⟩
  · rename_i hnone
    simp only [hnone] at hmatch
    exact ⟨_, _, rfl, .inr ⟨hmatch, rfl⟩⟩

end Token

/-! ## Tables that agree -/

/-- What reading uses of an entry. -/
def Descriptor.content (d : Descriptor) : Option String × Kind × Metadata :=
  (d.value, d.kind, d.extra)

/-- Two tables say the same of every spelling that occurs in a text. -/
def SymbolTable.AgreesOn (t u : SymbolTable) (cs : List Char) : Prop :=
  ∀ key : String, key ≠ "" → key.toList <:+: cs →
    (t.lookup key).map Descriptor.content = (u.lookup key).map Descriptor.content

/-- An entry under a key that does not occur makes no difference. -/
theorem SymbolTable.agreesOn_set (t : SymbolTable) {key : String} {cs : List Char}
    (hkey : ¬ key.toList <:+: cs) (value : Option String) (kind : Kind) (extra : Metadata) :
    (t.set key value kind extra).AgreesOn t cs := by
  intro k _ hk
  have hne : k ≠ key := by
    rintro rfl
    exact hkey hk
  rw [lookup, set, KeyedList.value?_set, if_neg hne]
  rfl

namespace Token

open Text

section

variable {t u : SymbolTable} {source : List Char}

/-- Tables that agree find the same match. -/
theorem longestMatch?_agree (h : t.AgreesOn u source) {us : List (List Char)}
    (hus : ∀ unit ∈ us, unit ≠ []) (hsource : us.flatten <:+: source) {n : Nat}
    (hn : n ≤ us.length) :
    (longestMatch? t us n).map (Prod.map id Descriptor.content) =
      (longestMatch? u us n).map (Prod.map id Descriptor.content) := by
  induction n with
  | zero => rfl
  | succ n ih =>
    have hrun : (us.take (n + 1)).flatten <:+: source := by
      refine List.IsInfix.trans ?_ hsource
      conv => rhs; rw [← List.take_append_drop (n + 1) us]
      rw [List.flatten_append]
      exact (List.prefix_append _ _).isInfix
    have hne : String.ofList (us.take (n + 1)).flatten ≠ "" := by
      intro hempty
      have hlength : (us.take (n + 1)).length ≤ (us.take (n + 1)).flatten.length :=
        length_le_length_flatten fun unit hunit => hus unit (List.mem_of_mem_take hunit)
      have hzero := congrArg String.length hempty
      rw [String.length_ofList, String.length_empty] at hzero
      rw [List.length_take] at hlength
      omega
    have hlookup := h _ hne (by rwa [String.toList_ofList])
    unfold longestMatch?
    dsimp only
    cases ht : t.lookup (String.ofList (us.take (n + 1)).flatten) with
    | none =>
      rw [ht, Option.map_none, eq_comm, Option.map_eq_none_iff] at hlookup
      rw [hlookup]
      exact ih (Nat.le_of_succ_le hn)
    | some d =>
      rw [ht, Option.map_some, eq_comm, Option.map_eq_some_iff] at hlookup
      obtain ⟨d', hd', hcontent⟩ := hlookup
      rw [hd']
      simp [hcontent]

theorem readSymbol_agree (h : t.AgreesOn u source) {c : Char} {after : List Char}
    (hsource : c :: after <:+: source) :
    readSymbol t t.window c after = readSymbol u u.window c after := by
  -- with one window for both tables, both look among the same units
  rw [readSymbol_window (Nat.le_max_left t.window u.window),
    readSymbol_window (Nat.le_max_right t.window u.window)]
  obtain ⟨hus, hflat⟩ := units_spec (max t.window u.window) (c :: after)
  have hmatch := longestMatch?_agree h hus (hflat.isInfix.trans hsource) (Nat.le_refl _)
  unfold readSymbol
  dsimp only
  cases ht : longestMatch? t (units (max t.window u.window) (c :: after))
      (units (max t.window u.window) (c :: after)).length with
  | none =>
    rw [ht, Option.map_none, eq_comm, Option.map_eq_none_iff] at hmatch
    rw [hmatch]
  | some p =>
    rw [ht, Option.map_some, eq_comm, Option.map_eq_some_iff] at hmatch
    obtain ⟨q, hq, hsame⟩ := hmatch
    rw [hq]
    obtain ⟨spelling, value, kind, _, extra⟩ := p
    obtain ⟨spelling', value', kind', _, extra'⟩ := q
    cases hsame
    rfl

theorem readAt_agree (h : t.AgreesOn u source) {c : Char} {after : List Char}
    (hsource : c :: after <:+: source) :
    readAt t t.window c after = readAt u u.window c after := by
  unfold readAt
  rw [readSymbol_agree h hsource]

theorem next_agree (h : t.AgreesOn u source) {cs : List Char} (hcs : cs <:+: source) :
    next t t.window cs = next u u.window cs := by
  unfold next
  split
  · rfl
  · rename_i c after hdrop
    have hsuffix : c :: after <:+: cs := hdrop ▸ (List.dropWhile_suffix isBlank).isInfix
    rw [readAt_agree h (hsuffix.trans hcs)]

/-- Reading all tokens, one by one. -/
theorem readAll_eq (symbols : SymbolTable) (window : Nat) (cs : List Char) :
    readAll symbols window cs =
      match next symbols window cs with
      | .error e => ⟨[], some e⟩
      | .ok none => ⟨[], none⟩
      | .ok (some (t, rest)) =>
        ⟨t :: (readAll symbols window rest).tokens, (readAll symbols window rest).error⟩ := by
  rw [readAll]
  split <;> rename_i h <;> simp only [h]

theorem readAll_agree (h : t.AgreesOn u source) {cs : List Char} (hcs : cs <:+: source) :
    readAll t t.window cs = readAll u u.window cs := by
  fun_induction readAll t t.window cs with
  | case1 cs e hnext =>
    rw [next_agree h hcs] at hnext
    rw [readAll_eq, hnext]
  | case2 cs hnext =>
    rw [next_agree h hcs] at hnext
    rw [readAll_eq, hnext]
  | case3 cs token rest hnext _ reading ih =>
    have hrest : rest <:+: cs := by
      rw [(next_spec hnext).2, ← List.append_assoc]
      exact (List.suffix_append _ _).isInfix
    rw [next_agree h hcs] at hnext
    rw [readAll_eq u, hnext]
    simp only [reading, ih (hrest.trans hcs)]

end

end Token

/-! ## Results -/

open Text in
/-- With a table of roles, at a place where no literal text and no number starts: there is a scan
unit; the token is the longest run of units that is a key of the table, with what the table says of
it, or the first unit if no run is a key; and its text is what is taken from the source. -/
theorem maximal_munch {symbols : SymbolTable} (hroles : symbols.HasRoles) {cs after : List Char}
    {c : Char} (hcs : cs.dropWhile isBlank = c :: after) (hsymbol : Token.AtSymbol c after) :
    ∃ units unit others, units = unit :: others ∧
      (∀ units', Token.Scans (c :: after) units' ↔ units' = units) ∧
      ∃ token rest, Token.next symbols symbols.window cs = .ok (some (token, rest)) ∧
        token.text.toList ++ rest = c :: after ∧
        ((∃ k d role, Token.Longest symbols units k d ∧ d.kind = .grammar role ∧
            token = ⟨.role role, d.value, String.ofList (units.take k).flatten, d.extra⟩) ∨
          (∀ k, 1 ≤ k → k ≤ units.length →
              symbols.lookup (String.ofList (units.take k).flatten) = none) ∧
            token = ⟨.identifier, some (String.ofList unit), String.ofList unit, []⟩) := by
  have hblank : isBlank c = false := by
    have hhead := List.head_dropWhile_not isBlank (l := cs) (by rw [hcs]; exact nofun)
    simpa only [hcs, List.head_cons] using hhead
  obtain ⟨units, hunits⟩ := Token.exists_scans (c :: after)
  have hunit : units ≠ [] := by
    rintro rfl
    cases hunits with
    | stop hstop =>
      rcases hstop c rfl with hc | hc
      · exact Bool.noConfusion (hblank.symm.trans hc)
      · exact Bool.noConfusion (hsymbol.digit.symm.trans hc)
  obtain ⟨unit, others, rfl⟩ := List.exists_cons_of_ne_nil hunit
  obtain ⟨token, rest, hread, htoken⟩ := Token.readSymbol_longest hroles hunits
  refine ⟨_, unit, others, rfl, fun units' => ⟨hunits.unique, fun h => h ▸ hunits⟩, token, rest, ?_,
    (Token.readSymbol_spec hread).2, htoken⟩
  unfold Token.next
  rw [hcs]
  dsimp only
  rw [hsymbol.readAt_eq, hread]
  rfl

/-- A key that is a part of another, which holds an escaped blank. -/
def SymbolTable.nested : SymbolTable :=
  .ofRegistrations
    [⟨["a"], some "part", .grammar .symbol, []⟩,
     ⟨["a\\ b"], some "whole", .grammar .unary, [("convert_operand", .null)]⟩]

theorem SymbolTable.hasRoles_nested : nested.HasRoles := by
  have hentries : ∀ p ∈ nested.entries, ∃ role, p.2.kind = .grammar role := by
    simp [nested, ofRegistrations]
  exact fun key d hd => hentries _ (KeyedList.mem_of_value? hd)

/-- There are four units up to the blank, and the second is an escaped blank. -/
theorem maximal_munch_escaped_blank :
    SymbolTable.nested.HasRoles ∧
      "  a\\ bc 1".toList.dropWhile Text.isBlank = 'a' :: "\\ bc 1".toList ∧
      Token.AtSymbol 'a' "\\ bc 1".toList ∧
      ∃ units unit others, units = unit :: others ∧
        (∀ units', Token.Scans ('a' :: "\\ bc 1".toList) units' ↔ units' = units) ∧
        ∃ token rest, Token.next .nested SymbolTable.nested.window "  a\\ bc 1".toList =
            .ok (some (token, rest)) ∧
          token.text.toList ++ rest = 'a' :: "\\ bc 1".toList ∧
          ((∃ k d role, Token.Longest .nested units k d ∧ d.kind = .grammar role ∧
              token = ⟨.role role, d.value, String.ofList (units.take k).flatten, d.extra⟩) ∨
            (∀ k, 1 ≤ k → k ≤ units.length →
                SymbolTable.nested.lookup (String.ofList (units.take k).flatten) = none) ∧
              token = ⟨.identifier, some (String.ofList unit), String.ofList unit, []⟩) := by
  have hsymbol : Token.AtSymbol 'a' "\\ bc 1".toList :=
    ⟨by decide, by decide, by decide, nofun⟩
  exact ⟨SymbolTable.hasRoles_nested, rfl, hsymbol,
    maximal_munch SymbolTable.hasRoles_nested rfl hsymbol⟩

/-- Tables that say the same of every spelling that occurs in a source read the same tokens from it,
or fail in the same way, and give it the same expression. -/
theorem table_locality {t u : SymbolTable} {source : String} (h : t.AgreesOn u source.toList) :
    t.read source = u.read source ∧
      ∀ colors, Expr.parse t colors source = Expr.parse u colors source := by
  have hread : t.read source = u.read source := Token.readAll_agree h (List.infix_refl _)
  refine ⟨hread, fun colors => ?_⟩
  unfold Expr.parse
  rw [hread]

/-- An entry for a key that is longer than all others makes the window wider. -/
theorem table_locality_wide :
    (SymbolTable.spellings.set "proportional" (some "propto") (.grammar .symbol) []).AgreesOn
        .spellings "prop x".toList ∧
      (SymbolTable.spellings.set "proportional" (some "propto") (.grammar .symbol) []).read
          "prop x" = SymbolTable.spellings.read "prop x" ∧
      ∀ colors,
        Expr.parse (.set .spellings "proportional" (some "propto") (.grammar .symbol) [])
            colors "prop x" =
          Expr.parse .spellings colors "prop x" := by
  have habsent : ¬ "proportional".toList <:+: "prop x".toList :=
    fun h => absurd h.length_le (by decide)
  have hagree := SymbolTable.spellings.agreesOn_set habsent (some "propto") (.grammar .symbol) []
  exact ⟨hagree, table_locality hagree⟩

end MathMarkup
