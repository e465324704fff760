import MathMarkup.KeyedList
import MathMarkup.Number.Decimal
import MathMarkup.Text.Quoted

/-!
# Values

The metadata of a symbol and the values of attributes: nothing, truth values, numbers, texts,
choices, lists and records.  A choice is one of the values that metadata can name, and no text is
equal to it.

* `Value.isTrue` tells whether a value counts as true.
* `Value.literal` writes a value so that its type can be seen, and `Value.display` writes it for a
  reader.  They differ on texts and choices only.
-/

namespace MathMarkup

/-- What metadata can choose: what is done to an operand, and where an accent goes. -/
inductive Choice where
  | keepOperand
  /-- The text of the operand is read as a color. -/
  | colorOperand
  | above
  | below
  deriving DecidableEq

namespace Choice

/-- The name of the type of a choice. -/
def typeName : Choice → String
  | .keepOperand | .colorOperand => "OperandConversion"
  | .above | .below => "AccentPosition"

/-- The name of a choice within its type. -/
def name : Choice → String
  | .keepOperand => "NONE"
  | .colorOperand => "COLOR_TEXT"
  | .above => "OVER"
  | .below => "UNDER"

/-- The text that a choice stands for. -/
def spelling : Choice → String
  | .keepOperand => "none"
  | .colorOperand => "color_text"
  | .above => "over"
  | .below => "under"

/-- A choice written for a reader. -/
def display (c : Choice) : String :=
  c.typeName ++ "." ++ c.name

/-- A choice written with the text that it stands for. -/
def literal (c : Choice) : String :=
  "<" ++ c.display ++ ": " ++ Text.quoted c.spelling ++ ">"

example : literal .colorOperand = "<OperandConversion.COLOR_TEXT: 'color_text'>" := by decide

end Choice

/-- A metadata or attribute value. -/
inductive Value where
  | null
  | bool (b : Bool)
  | int (n : Int)
  /-- A number with a binary point. -/
  | real (x : Binary64)
  | text (s : String)
  | choice (c : Choice)
  | list (items : List Value)
  | record (fields : List (String × Value))

instance : Inhabited Value := ⟨.null⟩

/-- Named metadata. -/
abbrev Metadata := KeyedList Value

namespace Value

/-- Whether a value counts as true: everything but nothing, false, zero and what is empty. -/
def isTrue : Value → Bool
  | .null => false
  | .bool b => b
  | .int n => n != 0
  | .real x => !x.isZero
  | .text s => s != ""
  | .choice _ => true
  | .list items => !items.isEmpty
  | .record fields => !fields.isEmpty

/-- The name of the type of a value. -/
def typeName : Value → String
  | .null => "NoneType"
  | .bool _ => "bool"
  | .int _ => "int"
  | .real _ => "float"
  | .text _ => "str"
  | .choice c => c.typeName
  | .list _ => "list"
  | .record _ => "dict"

mutual

/-- A value written so that its type can be seen. -/
def literal : Value → String
  | .null => "None"
  | .bool b => if b then "True" else "False"
  | .int n => toString n
  | .real x => x.literal
  | .text s => Text.quoted s
  | .choice c => c.literal
  | .list items => "[" ++ ", ".intercalate (itemLiterals items) ++ "]"
  | .record fields => "\x7b" ++ ", ".intercalate (fieldLiterals fields) ++ "\x7d"

/-- The items of a list, each as a literal. -/
def itemLiterals : List Value → List String
  | [] => []
  | v :: vs => v.literal :: itemLiterals vs

/-- The fields of a record, each as a literal. -/
def fieldLiterals : List (String × Value) → List String
  | [] => []
  | (name, v) :: fields => (Text.quoted name ++ ": " ++ v.literal) :: fieldLiterals fields

end

/-- A value written for a reader: a text stands for itself, and a choice for its name. -/
def display : Value → String
  | .text s => s
  | .choice c => c.display
  | v => v.literal

mutual

/-- Whether two values are the same. -/
def same : Value → Value → Bool
  | .null, .null => true
  | .bool a, .bool b => a == b
  | .int a, .int b => a == b
  | .real x, .real y => x == y
  | .text a, .text b => a == b
  | .choice a, .choice b => a == b
  | .list as, .list bs => sameItems as bs
  | .record as, .record bs => sameFields as bs
  | _, _ => false

/-- Whether two lists of values are the same. -/
def sameItems : List Value → List Value → Bool
  | [], [] => true
  | a :: as, b :: bs => a.same b && sameItems as bs
  | _, _ => false

/-- Whether two lists of fields are the same. -/
def sameFields : List (String × Value) → List (String × Value) → Bool
  | [], [] => true
  | (k, a) :: as, (l, b) :: bs => k == l && a.same b && sameFields as bs
  | _, _ => false

end

mutual

/-- `same` decides equality. -/
theorem same_iff : ∀ a b : Value, a.same b = true ↔ a = b
  | .null, b => by cases b <;> simp [same]
  | .bool _, b => by cases b <;> simp [same]
  | .int _, b => by cases b <;> simp [same]
  | .real _, b => by cases b <;> simp [same]
  | .text _, b => by cases b <;> simp [same]
  | .choice _, b => by cases b <;> simp [same]
  | .list as, b => by cases b <;> simp [same, sameItems_iff as]
  | .record as, b => by cases b <;> simp [same, sameFields_iff as]

/-- `sameItems` decides equality. -/
theorem sameItems_iff : ∀ as bs : List Value, sameItems as bs = true ↔ as = bs
  | [], bs => by cases bs <;> simp [sameItems]
  | a :: as, bs => by cases bs <;> simp [sameItems, same_iff a, sameItems_iff as]

/-- `sameFields` decides equality. -/
theorem sameFields_iff : ∀ as bs : List (String × Value), sameFields as bs = true ↔ as = bs
  | [], bs => by cases bs <;> simp [sameFields]
  | (k, a) :: as, bs => by
    cases bs with
    | nil => simp [sameFields]
    | cons b bs =>
      obtain ⟨l, b⟩ := b
      simp [sameFields, same_iff a, sameFields_iff as]

end

instance : DecidableEq Value := fun a b => decidable_of_iff (a.same b = true) (same_iff a b)

end Value

end MathMarkup
