/-!
# Blanks and digits

The characters that separate tokens, and the digits that make up numbers.  Blanks are the white
space of Unicode together with the four information separators; digits are the ten ASCII digits
only, so that a digit of another script is an ordinary character.
-/

namespace MathMarkup.Text

/-- Whether a character is white space. -/
def isBlank (c : Char) : Bool :=
  let n := c.toNat
  (0x09 ≤ n && n ≤ 0x0D) || (0x1C ≤ n && n ≤ 0x20) || n = 0x85 || n = 0xA0 || n = 0x1680 ||
    (0x2000 ≤ n && n ≤ 0x200A) || n = 0x2028 || n = 0x2029 || n = 0x202F || n = 0x205F ||
    n = 0x3000

/-- Whether a character is one of the digits from 0 to 9. -/
def isDigit (c : Char) : Bool :=
  '0' ≤ c && c ≤ '9'

/-- No digit is a blank. -/
theorem isBlank_eq_false_of_isDigit {c : Char} (h : isDigit c = true) : isBlank c = false := by
  simp only [isDigit, Bool.and_eq_true, decide_eq_true_eq, Char.le_def, UInt32.le_iff_toNat_le] at h
  have h1 : 48 ≤ c.toNat := h.1
  have h2 : c.toNat ≤ 57 := h.2
  simp only [isBlank, Bool.or_eq_false_iff, Bool.and_eq_false_iff, decide_eq_false_iff_not]
  omega

end MathMarkup.Text
