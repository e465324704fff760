import Mathlib.Data.List.Basic

/-!
# The characters of a text by its bytes

Facts about the texts of a table are shown by computation.  There, to take a text apart into its
characters means to decode its bytes step by step, which is slow.  But most texts are ASCII, and
then each byte is a character.

* `Text.asciiChars`: the characters of a text, taken from its bytes if all of these are ASCII.
* `Text.asciiChars_eq`: they are the characters of the text, whatever it is.  A goal is rewritten
  with this from right to left before it is computed.
* `Text.mem_iff_asciiChars_mem`: texts can be looked for by their characters.
-/

namespace MathMarkup.Text

/-- The characters of a text, taken from its bytes if all of these are ASCII. -/
def asciiChars (s : String) : List Char :=
  let bytes := s.toByteArray.data.toList
  if bytes.all (·.toNat < 128) then bytes.map fun b => Char.ofNat b.toNat else s.toList

/-- A character with ASCII bytes is ASCII: a longer one starts with a byte that is not. -/
theorem val_le_of_all_ascii {c : Char}
    (h : (String.utf8EncodeChar c).all (·.toNat < 128) = true) : c.val ≤ 127 := by
  rw [UInt32.le_iff_toNat_le]
  by_contra hlarge
  have hnot : ¬ c.val.toNat ≤ 127 := hlarge
  unfold String.utf8EncodeChar at h
  simp only [hnot, if_false] at h
  split at h
  · simp at h
    omega
  · split at h
    · simp at h
      omega
    · simp at h
      omega

theorem map_ofNat_of_all_ascii {cs : List Char}
    (h : (cs.flatMap String.utf8EncodeChar).all (·.toNat < 128) = true) :
    (cs.flatMap String.utf8EncodeChar).map (fun b => Char.ofNat b.toNat) = cs := by
  induction cs with
  | nil => rfl
  | cons c cs ih =>
    rw [List.flatMap_cons, List.all_append, Bool.and_eq_true] at h
    have hc : c.val ≤ 127 := val_le_of_all_ascii h.1
    have hbyte : c.val.toNat % 256 = c.toNat := by
      rw [UInt32.le_iff_toNat_le] at hc
      exact Nat.mod_eq_of_lt (Nat.lt_of_le_of_lt hc (by decide))
    rw [List.flatMap_cons, String.utf8EncodeChar_eq_singleton (Char.utf8Size_eq_one_iff.mpr hc),
      List.map_append, ih h.2, List.map_singleton, List.singleton_append, UInt32.toNat_toUInt8,
      hbyte, Char.ofNat_toNat]

theorem asciiChars_eq (s : String) : asciiChars s = s.toList := by
  have hbytes : s.toByteArray.data.toList = s.toList.flatMap String.utf8EncodeChar := by
    rw [← String.utf8Encode_toList, List.utf8Encode, List.toList_data_toByteArray]
  unfold asciiChars
  dsimp only
  split
  · rename_i hall
    rw [hbytes] at hall ⊢
    exact map_ofNat_of_all_ascii hall
  · rfl

theorem mem_iff_asciiChars_mem {s : String} {ss : List String} :
    s ∈ ss ↔ asciiChars s ∈ ss.map asciiChars := by
  have hinjective : Function.Injective asciiChars := fun s s' h => by
    rwa [asciiChars_eq, asciiChars_eq, String.toList_inj] at h
  exact (List.mem_map_of_injective hinjective).symm

end MathMarkup.Text
