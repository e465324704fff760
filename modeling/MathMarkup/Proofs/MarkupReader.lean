import MathMarkup.KeyedList
import MathMarkup.Text.CharRef

/-!
# Reading markup

Markup is text to everyone but its writer.  `Node.read?` reads such a text: it goes through it
character by character, with the elements that are open on a stack, and gives the trees that the
text is made of.  The reader is strict.  A tag has the form `<name key="value" …>` or `</name>`, an
end tag has the name of the element that it ends, a text or a value holds no `<` and no `>`, an
ampersand starts one of the five references, and a character beyond ASCII is refused.

* `Text.escapeTextChar_cases` and `Text.escapeAttributeChar_cases`: a character is written as it
  stands or as a reference that names it.
* `Node.ascii_of_read?` and `Node.referent?_of_read?` say of any text that is read what its
  characters and its ampersands are.
-/

namespace MathMarkup

/-! ## Names -/

/-- The characters that names are made of. -/
def isNameChar (c : Char) : Bool :=
  c.isAlphanum || c == ':' || c == '-' || c == '_'

/-- A text that is made of the characters of names. -/
def IsName (s : String) : Prop :=
  ∀ c ∈ s.toList, isNameChar c = true

instance (s : String) : Decidable (IsName s) :=
  decidable_of_iff (s.toList.all isNameChar = true) List.all_eq_true

theorem IsName.append {a b : String} (ha : IsName a) (hb : IsName b) : IsName (a ++ b) := by
  intro c hc
  rw [String.toList_append, List.mem_append] at hc
  exact hc.elim (ha c) (hb c)

/-- A character of a name is none that markup is made of. -/
theorem ne_of_isNameChar {c d : Char} (h : isNameChar c = true) (hd : isNameChar d = false) :
    c ≠ d := by
  rintro rfl
  exact Bool.noConfusion (h.symm.trans hd)

theorem toNat_le_of_isAlphanum {c : Char} (h : c.isAlphanum = true) : c.toNat ≤ 0x7F := by
  have h : (decide (c.val ≥ 'A'.val ∧ c.val ≤ 'Z'.val) ||
      (decide (c.val ≥ 'a'.val) && decide (c.val ≤ 'z'.val)) ||
      (decide (c.val ≥ '0'.val) && decide (c.val ≤ '9'.val))) = true := h
  simp only [Bool.or_eq_true, Bool.and_eq_true, decide_eq_true_eq, UInt32.le_iff_toNat_le] at h
  rcases h with (h | h) | h
  · exact Nat.le_trans h.2 (by decide)
  · exact Nat.le_trans h.2 (by decide)
  · exact Nat.le_trans h.2 (by decide)

theorem toNat_le_of_isNameChar {c : Char} (h : isNameChar c = true) : c.toNat ≤ 0x7F := by
  simp only [isNameChar, Bool.or_eq_true, beq_iff_eq] at h
  rcases h with ((h | rfl) | rfl) | rfl
  · exact toNat_le_of_isAlphanum h
  · decide
  · decide
  · decide

/-! ## Character references -/

namespace Text

/-- The number that hexadecimal digits in capital letters stand for. -/
def Hex.number? (digits : List Char) : Option Nat :=
  digits.foldlM (fun n c => if c.isLower then none else (value? c).map (16 * n + ·)) 0

/-- The character that a reference names, which stands between `&` and `;`. -/
def referent? (name : String) : Option Char :=
  if name = "amp" then some '&'
  else if name = "lt" then some '<'
  else if name = "gt" then some '>'
  else if name = "quot" then some '"'
  else
    match name.toList with
    | '#' :: 'x' :: digit :: digits =>
      ((Hex.number? (digit :: digits)).filter fun n => n.isValidChar).map Char.ofNat
    | _ => none

theorem Hex.value?_capitalDigit {n : Nat} (h : n < 16) :
    (capitalDigit n).isLower = false ∧ value? (capitalDigit n) = some n := by
  revert n
  decide

theorem Hex.number?_digits (n : Nat) : number? (digits capitalDigit n) = some n := by
  fun_induction digits capitalDigit n with
  | case1 n h =>
    obtain ⟨hlower, hvalue⟩ := value?_capitalDigit h
    simp [number?, hlower, hvalue]
  | case2 n h ih =>
    obtain ⟨hlower, hvalue⟩ := value?_capitalDigit (Nat.mod_lt n (by decide : 0 < 16))
    rw [number?] at ih
    rw [number?, List.foldlM_append, ih]
    simp [hlower, hvalue]
    omega

/-- The characters between `&` and `;`. -/
def isRefChar (c : Char) : Bool :=
  c.isAlphanum || c == '#'

theorem Hex.isRefChar_digits (n : Nat) :
    ∀ c ∈ digits capitalDigit n, isRefChar c = true := by
  have hdigit : ∀ m < 16, isRefChar (capitalDigit m) = true := by decide
  fun_induction digits capitalDigit n with
  | case1 n h => simpa using hdigit n h
  | case2 n h ih =>
    intro c hc
    rcases List.mem_append.mp hc with hc | hc
    · exact ih c hc
    · rw [List.mem_singleton.mp hc]
      exact hdigit _ (Nat.mod_lt n (by decide))

theorem toNat_le_of_isRefChar {c : Char} (h : isRefChar c = true) : c.toNat ≤ 0x7F := by
  simp only [isRefChar, Bool.or_eq_true, beq_iff_eq] at h
  rcases h with h | rfl
  · exact toNat_le_of_isAlphanum h
  · decide

/-- A numeric reference names the character that it was made from. -/
theorem referent?_numeric (c : Char) :
    referent? (String.ofList ('#' :: 'x' :: Hex.digits Hex.capitalDigit c.toNat)) = some c := by
  obtain ⟨digit, digits, hdigits⟩ :=
    List.exists_cons_of_ne_nil (Hex.digits_ne_nil Hex.capitalDigit c.toNat)
  have hnumber := Hex.number?_digits c.toNat
  have hvalid : c.toNat.isValidChar := c.valid
  rw [hdigits] at hnumber ⊢
  have hne : ∀ d ds, d ≠ '#' →
      String.ofList ('#' :: 'x' :: digit :: digits) ≠ String.ofList (d :: ds) := by
    intro d ds hd h
    rw [String.ofList_inj, List.cons.injEq] at h
    exact hd h.1.symm
  unfold referent?
  rw [if_neg (hne 'a' ['m', 'p'] (by decide)), if_neg (hne 'l' ['t'] (by decide)),
    if_neg (hne 'g' ['t'] (by decide)), if_neg (hne 'q' ['u', 'o', 't'] (by decide))]
  simp only [String.toList_ofList, hnumber, Option.filter_some, hvalid, decide_true, if_true,
    Option.map_some, Char.ofNat_toNat]

/-- A character of a text is written as it stands or as a reference. -/
theorem escapeTextChar_cases (c : Char) :
    (escapeTextChar c = [c] ∧ c.toNat ≤ 0x7F ∧ c ≠ '&' ∧ c ≠ '<' ∧ c ≠ '>') ∨
      ∃ name, escapeTextChar c = '&' :: name.toList ++ [';'] ∧
        (∀ d ∈ name.toList, isRefChar d = true) ∧ referent? name = some c := by
  unfold escapeTextChar
  split
  · rename_i h
    exact .inr ⟨"amp", rfl, List.all_eq_true.mp rfl, by rw [h]; decide⟩
  split
  · rename_i h
    exact .inr ⟨"lt", rfl, List.all_eq_true.mp rfl, by rw [h]; decide⟩
  split
  · rename_i h
    exact .inr ⟨"gt", rfl, List.all_eq_true.mp rfl, by rw [h]; decide⟩
  split
  · refine .inr ⟨_, ?_, ?_, referent?_numeric c⟩
    · rw [String.toList_ofList]
      rfl
    · rw [String.toList_ofList]
      simp only [List.forall_mem_cons]
      exact ⟨by decide, by decide, Hex.isRefChar_digits _⟩
  · exact .inl ⟨rfl, by omega, by assumption, by assumption, by assumption⟩

/-- A character of a value is written as it stands or as a reference. -/
theorem escapeAttributeChar_cases (c : Char) :
    (escapeAttributeChar c = [c] ∧ c.toNat ≤ 0x7F ∧ c ≠ '"' ∧ c ≠ '&' ∧ c ≠ '<' ∧ c ≠ '>') ∨
      ∃ name, escapeAttributeChar c = '&' :: name.toList ++ [';'] ∧
        (∀ d ∈ name.toList, isRefChar d = true) ∧ referent? name = some c := by
  unfold escapeAttributeChar
  split
  · rename_i h
    exact .inr ⟨"quot", rfl, List.all_eq_true.mp rfl, by rw [h]; decide⟩
  · rename_i h
    rcases escapeTextChar_cases c with ⟨heq, hle, hne⟩ | href
    · exact .inl ⟨heq, hle, h, hne⟩
    · exact .inr href

/-- A name is written as a value as it stands. -/
theorem escapeAttribute_of_isName {s : String} (h : IsName s) : escapeAttribute s = s := by
  have hchar : ∀ c ∈ s.toList, escapeAttributeChar c = [c] := by
    intro c hc
    have hne {d : Char} (hd : isNameChar d = false) : c ≠ d := ne_of_isNameChar (h c hc) hd
    have hle := toNat_le_of_isNameChar (h c hc)
    unfold escapeAttributeChar escapeTextChar
    rw [if_neg (hne (by decide)), if_neg (hne (by decide)), if_neg (hne (by decide)),
      if_neg (hne (by decide)), if_neg (Nat.not_lt.mpr hle)]
  rw [escapeAttribute, List.flatMap_def, List.map_congr_left hchar, ← List.flatMap_def,
    List.flatMap_singleton', String.ofList_toList]

end Text

/-! ## Trees and their reader -/

/-- A piece of a tree. -/
inductive Node where
  | element (name : String) (attributes : KeyedList String) (children : List Node)
  | char (c : Char)

/-- A start tag. -/
structure StartTag where
  name : String
  attributes : KeyedList String := []

/-- Where in the text the reader is. -/
inductive Phase where
  /-- Between tags. -/
  | content
  | reference (name : String)
  /-- After `<`. -/
  | tag
  | startName (name : String)
  | key (tag : StartTag) (key : String)
  /-- After the `=` of an attribute. -/
  | equals (tag : StartTag) (key : String)
  | value (tag : StartTag) (key value : String)
  | valueReference (tag : StartTag) (key value name : String)
  /-- After the value of an attribute. -/
  | afterValue (tag : StartTag)
  | endName (name : String)

/-- An element that is open, with what came before it in the element around it. -/
structure Frame where
  tag : StartTag
  before : List Node

/-- The state of the reader. -/
structure Reader where
  phase : Phase
  /-- What was read of the innermost element that is open. -/
  nodes : List Node
  /-- The elements that are open, the innermost first. -/
  frames : List Frame

namespace Reader

/-- The state before a text. -/
def start : Reader :=
  ⟨.content, [], []⟩

/-- Opens an element. -/
def enter (r : Reader) (tag : StartTag) : Reader :=
  ⟨.content, [], ⟨tag, r.nodes⟩ :: r.frames⟩

/-- Ends the innermost element, which must have the given name. -/
def leave? (r : Reader) (name : String) : Option Reader :=
  match r.frames with
  | [] => none
  | frame :: frames =>
    if frame.tag.name = name then
      some ⟨.content,
        frame.before ++ [.element frame.tag.name frame.tag.attributes r.nodes], frames⟩
    else none

/-- Reads a character of ASCII. -/
def advance (r : Reader) (c : Char) : Option Reader :=
  match r.phase with
  | .content =>
    if c = '<' then some { r with phase := .tag }
    else if c = '&' then some { r with phase := .reference "" }
    else if c = '>' then none
    else some { r with nodes := r.nodes ++ [.char c] }
  | .reference name =>
    if Text.isRefChar c then some { r with phase := .reference (name.push c) }
    else if c = ';' then
      (Text.referent? name).map fun d => { r with phase := .content, nodes := r.nodes ++ [.char d] }
    else none
  | .tag =>
    if isNameChar c then some { r with phase := .startName ("".push c) }
    else if c = '/' then some { r with phase := .endName "" }
    else none
  | .startName name =>
    if isNameChar c then some { r with phase := .startName (name.push c) }
    else if c = ' ' then some { r with phase := .key ⟨name, []⟩ "" }
    else if c = '>' then some (r.enter ⟨name, []⟩)
    else none
  | .key tag key =>
    if isNameChar c then some { r with phase := .key tag (key.push c) }
    else if c = '=' then some { r with phase := .equals tag key }
    else none
  | .equals tag key =>
    if c = '"' then some { r with phase := .value tag key "" } else none
  | .value tag key value =>
    if c = '"' then
      some { r with phase := .afterValue ⟨tag.name, tag.attributes ++ [(key, value)]⟩ }
    else if c = '&' then some { r with phase := .valueReference tag key value "" }
    else if c = '<' ∨ c = '>' then none
    else some { r with phase := .value tag key (value.push c) }
  | .valueReference tag key value name =>
    if Text.isRefChar c then some { r with phase := .valueReference tag key value (name.push c) }
    else if c = ';' then
      (Text.referent? name).map fun d => { r with phase := .value tag key (value.push d) }
    else none
  | .afterValue tag =>
    if c = ' ' then some { r with phase := .key tag "" }
    else if c = '>' then some (r.enter tag)
    else none
  | .endName name =>
    if isNameChar c then some { r with phase := .endName (name.push c) }
    else if c = '>' then r.leave? name
    else none

/-- Reads a character. -/
def step (r : Reader) (c : Char) : Option Reader :=
  if c.toNat ≤ 0x7F then r.advance c else none

/-- Reads characters. -/
def run (r : Reader) (cs : List Char) : Option Reader :=
  cs.foldlM step r

theorem run_append (r : Reader) (a b : List Char) :
    r.run (a ++ b) = (r.run a).bind fun r' => r'.run b :=
  List.foldlM_append

end Reader

/-- The trees that a text is made of. -/
def Node.read? (s : String) : Option (List Node) :=
  match Reader.start.run s.toList with
  | some ⟨.content, nodes, []⟩ => some nodes
  | _ => none

/-! ## What the reader accepts -/

/-- The part of a reference that was read. -/
def Phase.reference? : Phase → Option String
  | .reference name => some name
  | .valueReference _ _ _ name => some name
  | _ => none

namespace Node

theorem ascii_of_run {r r' : Reader} {cs : List Char} (h : r.run cs = some r') :
    ∀ c ∈ cs, c.toNat ≤ 0x7F := by
  induction cs generalizing r with
  | nil => exact List.forall_mem_nil _
  | cons c cs ih =>
    rw [Reader.run, List.foldlM_cons, Reader.step] at h
    split at h
    · rename_i hc
      obtain ⟨next, -, hrest⟩ := Option.bind_eq_some_iff.mp h
      exact List.forall_mem_cons.mpr ⟨hc, ih hrest⟩
    · cases h

/-- A text that is read is plain ASCII. -/
theorem ascii_of_read? {s : String} {ns : List Node} (h : read? s = some ns) :
    ∀ c ∈ s.toList, c.toNat ≤ 0x7F := by
  unfold read? at h
  split at h
  · rename_i hrun
    exact ascii_of_run hrun
  · cases h

/-- Within a reference, the reader goes on with its name or ends it. -/
theorem advance_of_reference {r r' : Reader} {name : String} {c : Char}
    (hr : r.phase.reference? = some name) (h : r.advance c = some r') :
    r'.phase.reference? = some (name.push c) ∨ c = ';' ∧ (Text.referent? name).isSome = true := by
  obtain ⟨phase, ns, fs⟩ := r
  cases phase with
  | reference =>
    cases hr
    simp only [Reader.advance] at h
    split at h
    · cases h
      exact .inl rfl
    split at h
    · rename_i hc
      obtain ⟨d, hd, -⟩ := Option.map_eq_some_iff.mp h
      exact .inr ⟨hc, by rw [hd]; rfl⟩
    · cases h
  | valueReference =>
    cases hr
    simp only [Reader.advance] at h
    split at h
    · cases h
      exact .inl rfl
    split at h
    · rename_i hc
      obtain ⟨d, hd, -⟩ := Option.map_eq_some_iff.mp h
      exact .inr ⟨hc, by rw [hd]; rfl⟩
    · cases h
  | _ => cases hr

/-- An ampersand always starts a reference. -/
theorem reference?_of_advance {r r' : Reader} (h : r.advance '&' = some r') :
    r'.phase.reference? = some "" := by
  obtain ⟨phase, ns, fs⟩ := r
  cases phase <;> simp [Reader.advance, isNameChar, Text.isRefChar] at h
  · subst h; rfl
  · subst h; rfl

/-- A reference that was started is one of those that name a character. -/
theorem referent?_of_run {r r' : Reader} {name : String} {cs : List Char}
    (hr : r.phase.reference? = some name) (h : r.run cs = some r')
    (hr' : r'.phase.reference? = none) :
    ∃ more rest, cs = more ++ ';' :: rest ∧
      (Text.referent? (name ++ String.ofList more)).isSome = true := by
  induction cs generalizing r name with
  | nil =>
    cases h
    rw [hr] at hr'
    cases hr'
  | cons c cs ih =>
    rw [Reader.run, List.foldlM_cons, Reader.step] at h
    split at h
    · obtain ⟨next, hnext, hrest⟩ := Option.bind_eq_some_iff.mp h
      rcases advance_of_reference hr hnext with hphase | ⟨rfl, hname⟩
      · obtain ⟨more, rest, rfl, hmore⟩ := ih hphase hrest
        refine ⟨c :: more, rest, rfl, ?_⟩
        have heq : name ++ String.ofList (c :: more) = name.push c ++ String.ofList more := by
          rw [← String.toList_inj]
          simp
        rw [heq]
        exact hmore
      · exact ⟨[], cs, rfl, by simpa using hname⟩
    · cases h

/-- In a text that is read, every ampersand starts a reference that names a character. -/
theorem referent?_of_read? {s : String} {ns : List Node} (h : read? s = some ns)
    {before after : List Char} (hs : s.toList = before ++ '&' :: after) :
    ∃ name rest, after = name ++ ';' :: rest ∧
      (Text.referent? (String.ofList name)).isSome = true := by
  unfold read? at h
  split at h
  · rename_i hrun
    rw [hs, Reader.run_append] at hrun
    obtain ⟨r, -, hrun⟩ := Option.bind_eq_some_iff.mp hrun
    rw [Reader.run, List.foldlM_cons] at hrun
    obtain ⟨r', hstep, hrun⟩ := Option.bind_eq_some_iff.mp hrun
    have hphase : r'.phase.reference? = some "" := reference?_of_advance hstep
    obtain ⟨name, rest, rfl, hname⟩ := referent?_of_run hphase hrun rfl
    rw [String.empty_append] at hname
    exact ⟨name, rest, rfl, hname⟩
  · cases h

end Node

end MathMarkup
