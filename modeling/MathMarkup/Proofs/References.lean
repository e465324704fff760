import MathMarkup.Proofs.MarkupReader

/-!
# Character references read back

A reader that knows nothing of trees can still read escaped text: it goes through the text from the
left, replaces every reference by the character that it names, and keeps everything else
(`Text.decode`).  A text that looks like a reference already is read back too, because its ampersand
is written as a reference of its own.

Element content and attribute values are escaped character by character, and either way a character
is written as itself or as a reference to it.  `Text.Coding` says this of a way of writing
characters, and all that is shown of escaped text is shown from it.

* `Text.Coding.decode_encode`: what was written is read back.
* `Text.Coding.harmless`: what is written is plain ASCII without angle brackets, and an ampersand
  always starts a reference.
-/

namespace MathMarkup.Text

/-! ## The reader -/

/-- The character that a reference names and the text after it, where the text starts after the
ampersand.  A reference goes to the first semicolon. -/
def reference? (cs : List Char) : Option (Char × List Char) :=
  match cs.dropWhile (· != ';') with
  | [] => none
  | _ :: rest => (referent? (String.ofList (cs.takeWhile (· != ';')))).map fun c => (c, rest)

theorem length_reference?_lt {cs rest : List Char} {c : Char}
    (h : reference? cs = some (c, rest)) : rest.length < cs.length := by
  unfold reference? at h
  split at h
  · cases h
  · rename_i d left hdrop
    obtain ⟨_, -, hpair⟩ := Option.map_eq_some_iff.mp h
    cases hpair
    have hle := (List.dropWhile_suffix (· != ';') (l := cs)).length_le
    rw [hdrop, List.length_cons] at hle
    exact hle

/-- The characters of a text in which references stand for characters. -/
def decodeChars (cs : List Char) : List Char :=
  match cs with
  | [] => []
  | c :: cs =>
    if c = '&' then
      match h : reference? cs with
      | some (d, rest) =>
        have := length_reference?_lt h
        d :: decodeChars rest
      | none => c :: decodeChars cs
    else c :: decodeChars cs
termination_by cs.length
decreasing_by all_goals simp only [List.length_cons]; omega

/-- A text in which references stand for characters. -/
def decode (s : String) : String :=
  String.ofList (decodeChars s.toList)

/-- What is not a reference is kept. -/
example : decode "a &lt; b &amp;&#x3C; &x; &#x3c; &" = "a < b &< &x; &#x3c; &" := by
  decide +kernel

theorem decodeChars_cons_of_ne {c : Char} (hc : c ≠ '&') (cs : List Char) :
    decodeChars (c :: cs) = c :: decodeChars cs := by
  rw [decodeChars, if_neg hc]

theorem reference?_of_referent? {name : List Char} {c : Char}
    (hname : ∀ d ∈ name, isRefChar d = true) (h : referent? (String.ofList name) = some c)
    (rest : List Char) : reference? (name ++ ';' :: rest) = some (c, rest) := by
  have hne : ∀ d ∈ name, (d != ';') = true := by
    intro d hd
    rw [bne_iff_ne]
    rintro rfl
    exact absurd (hname _ hd) (by decide)
  unfold reference?
  rw [List.dropWhile_append_of_pos hne, List.takeWhile_append_of_pos hne]
  simp [h]

/-- A reference is read as the character that it names. -/
theorem decodeChars_reference {name : List Char} {c : Char}
    (hname : ∀ d ∈ name, isRefChar d = true) (h : referent? (String.ofList name) = some c)
    (rest : List Char) :
    decodeChars ('&' :: (name ++ ';' :: rest)) = c :: decodeChars rest := by
  rw [decodeChars, if_pos rfl]
  split
  · rename_i d left href
    rw [reference?_of_referent? hname h] at href
    cases href
    rfl
  · rename_i hnone
    rw [reference?_of_referent? hname h] at hnone
    cases hnone

/-! ## Ways of writing characters -/

/-- What is written for a character: the character itself, if it is plain, or a reference to it. -/
inductive Coded (c : Char) : List Char → Prop
  | plain (hascii : c.toNat ≤ 0x7F) (hc : c ∉ ['&', '<', '>']) : Coded c [c]
  | reference {name : List Char} (hname : ∀ d ∈ name, isRefChar d = true)
      (h : referent? (String.ofList name) = some c) : Coded c ('&' :: (name ++ [';']))

/-- A way of writing characters. -/
def Coding (code : Char → List Char) : Prop :=
  ∀ c, Coded c (code c)

theorem coding_escapeTextChar : Coding escapeTextChar := by
  intro c
  rcases escapeTextChar_cases c with ⟨heq, hascii, hne⟩ | ⟨name, heq, hname, hreferent⟩
  · rw [heq]
    exact .plain hascii (by simpa using hne)
  · rw [heq]
    exact .reference hname (by rwa [String.ofList_toList])

theorem coding_escapeAttributeChar : Coding escapeAttributeChar := by
  intro c
  rcases escapeAttributeChar_cases c with ⟨heq, hascii, -, hne⟩ | ⟨name, heq, hname, hreferent⟩
  · rw [heq]
    exact .plain hascii (by simpa using hne)
  · rw [heq]
    exact .reference hname (by rwa [String.ofList_toList])

/-- What is written for a character is read as that character. -/
theorem Coded.decodeChars_append {c : Char} {written : List Char} (h : Coded c written)
    (cs : List Char) : decodeChars (written ++ cs) = c :: decodeChars cs := by
  cases h with
  | plain _ hc =>
    have hne : c ≠ '&' := by
      rintro rfl
      exact hc List.mem_cons_self
    exact decodeChars_cons_of_ne hne cs
  | reference hname hreferent =>
    rw [List.cons_append, List.append_assoc, List.singleton_append]
    exact decodeChars_reference hname hreferent cs

/-- A text in which nothing can be taken for a tag, and in which an ampersand always starts a
reference that names a character. -/
structure Harmless (cs : List Char) : Prop where
  ascii : ∀ c ∈ cs, c.toNat ≤ 0x7F
  noAngle : '<' ∉ cs ∧ '>' ∉ cs
  reference (after : List Char) (h : '&' :: after <:+ cs) :
    ∃ name rest, after = name ++ ';' :: rest ∧ (referent? (String.ofList name)).isSome = true

/-- A character that is not in the first of two texts starts a suffix of the second. -/
theorem cons_suffix_of_notMem {c : Char} {after a b : List Char} (h : c :: after <:+ a ++ b)
    (hc : c ∉ a) : c :: after <:+ b := by
  induction a with
  | nil => exact h
  | cons d a ih =>
    rw [List.mem_cons, not_or] at hc
    rcases List.suffix_cons_iff.mp h with heq | hsuffix
    · exact absurd (List.cons.inj heq).1 hc.1
    · exact ih hsuffix hc.2

theorem Coded.harmless_append {c : Char} {written cs : List Char} (h : Coded c written)
    (hcs : Harmless cs) : Harmless (written ++ cs) := by
  cases h with
  | plain hascii hc =>
    simp only [List.mem_cons, List.not_mem_nil, or_false, not_or] at hc
    refine ⟨List.forall_mem_cons.mpr ⟨hascii, hcs.ascii⟩, ?_, fun after hafter => ?_⟩
    · rw [List.singleton_append, List.mem_cons, not_or, List.mem_cons, not_or]
      exact ⟨⟨fun h => hc.2.1 h.symm, hcs.noAngle.1⟩, fun h => hc.2.2 h.symm, hcs.noAngle.2⟩
    · exact hcs.reference after (cons_suffix_of_notMem hafter (by simpa [eq_comm] using hc.1))
  | @reference name hname hreferent =>
    have hnot {d : Char} (hd : isRefChar d = false) : d ∉ name :=
      fun hmem => Bool.noConfusion (hd.symm.trans (hname d hmem))
    refine ⟨?_, ⟨?_, ?_⟩, fun after hafter => ?_⟩
    · have hascii : ∀ d ∈ name, d.toNat ≤ 0x7F := fun d hd => toNat_le_of_isRefChar (hname d hd)
      have hsemicolon : ∀ d ∈ [';'], d.toNat ≤ 0x7F := List.forall_mem_singleton.mpr (by decide)
      exact List.forall_mem_cons.mpr ⟨by decide, List.forall_mem_append.mpr
        ⟨List.forall_mem_append.mpr ⟨hascii, hsemicolon⟩, hcs.ascii⟩⟩
    · have hname : '<' ∉ name := hnot (by decide)
      simpa [hname] using hcs.noAngle.1
    · have hname : '>' ∉ name := hnot (by decide)
      simpa [hname] using hcs.noAngle.2
    · rw [List.cons_append, List.append_assoc, List.singleton_append] at hafter
      rcases List.suffix_cons_iff.mp hafter with heq | hsuffix
      · exact ⟨name, cs, (List.cons.inj heq).2, by rw [hreferent]; rfl⟩
      · have hrest := cons_suffix_of_notMem hsuffix (hnot (by decide))
        exact hcs.reference after (cons_suffix_of_notMem (a := [';']) hrest (by decide))

namespace Coding

variable {code : Char → List Char}

/-- What was written character by character is read back. -/
theorem decode_encode (h : Coding code) (cs : List Char) : decodeChars (cs.flatMap code) = cs := by
  induction cs with
  | nil => rw [List.flatMap_nil, decodeChars]
  | cons c cs ih => rw [List.flatMap_cons, (h c).decodeChars_append, ih]

/-- Nothing that is written character by character can be taken for markup. -/
theorem harmless (h : Coding code) (cs : List Char) : Harmless (cs.flatMap code) := by
  induction cs with
  | nil => exact ⟨nofun, ⟨nofun, nofun⟩, fun _ hafter => nomatch List.suffix_nil.mp hafter⟩
  | cons c cs ih =>
    rw [List.flatMap_cons]
    exact (h c).harmless_append ih

end Coding

theorem quote_notMem_escapeAttributeChar (c : Char) : '"' ∉ escapeAttributeChar c := by
  rcases escapeAttributeChar_cases c with ⟨heq, -, hne, -⟩ | ⟨name, heq, hname, -⟩
  · simpa [heq, eq_comm] using hne
  · have hnot : '"' ∉ name.toList := fun hmem => absurd (hname _ hmem) (by decide)
    simpa [heq] using hnot

/-- Escaped text is read back, whether as element content or as an attribute value.  What is written
is plain ASCII without angle brackets, every ampersand in it starts a reference, and no double quote
is in an attribute value. -/
theorem escaped_text_decodes (s : String) :
    decode (escapeText s) = s ∧ decode (escapeAttribute s) = s ∧
      Harmless (escapeText s).toList ∧ Harmless (escapeAttribute s).toList ∧
      '"' ∉ (escapeAttribute s).toList := by
  have htext : (escapeText s).toList = s.toList.flatMap escapeTextChar := String.toList_ofList
  have hattribute : (escapeAttribute s).toList = s.toList.flatMap escapeAttributeChar :=
    String.toList_ofList
  rw [decode, decode, htext, hattribute]
  refine ⟨?_, ?_, coding_escapeTextChar.harmless _, coding_escapeAttributeChar.harmless _, ?_⟩
  · rw [coding_escapeTextChar.decode_encode, String.ofList_toList]
  · rw [coding_escapeAttributeChar.decode_encode, String.ofList_toList]
  · intro hquote
    obtain ⟨c, -, hc⟩ := List.mem_flatMap.mp hquote
    exact quote_notMem_escapeAttributeChar c hc

end MathMarkup.Text
