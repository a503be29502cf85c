import DegreeAudit.Text.Basic

/-!
# Defects of documents

A text that is not a document has a first defect: what is wrong, and where. A place is told by its
line and column, which count from one, and by the number of characters before it.
-/

namespace DegreeAudit

/-- A place in a text. -/
structure Place where
  line : Nat
  column : Nat
  /-- The number of characters before the place. -/
  offset : Nat
deriving DecidableEq

namespace Place

/-- The place after some characters of a text. A line ends with a line feed. -/
def ofOffset (cs : List Char) (n : Nat) : Place where
  line := (cs.take n).count '\n' + 1
  column := ((cs.take n).reverse.takeWhile fun c => c != '\n').length + 1
  offset := n

/-- The words that tell a place. -/
def toText (p : Place) : Text :=
  "line " ++ Text.decimal p.line ++ " column " ++ Text.decimal p.column ++
    " (char " ++ Text.decimal p.offset ++ ")"

/-- The start of a text is its first line and column. -/
theorem ofOffset_zero (cs : List Char) : ofOffset cs 0 = ⟨1, 1, 0⟩ := by simp [ofOffset]

end Place

namespace Json

/-- What is wrong with a text that is not a document. -/
inductive Defect where
  /-- No value stands where one must. -/
  | noValue
  /-- No key stands where one must. -/
  | noKey
  /-- No colon follows a key. -/
  | noColon
  /-- A value in a list or object is followed by neither a comma nor the end. -/
  | noComma
  /-- Something follows the document. -/
  | excess
  /-- A text has no closing quote. -/
  | openText
  /-- A control character stands in a text as it is. -/
  | rawControl
  /-- A backslash is followed by a character that it does not escape. -/
  | badEscape
  /-- An escaped code unit is not four hexadecimal digits with something after them. -/
  | badUnit
  /-- The text starts with a byte order mark. -/
  | byteOrderMark
deriving DecidableEq

/-- The words that tell a defect. -/
def Defect.wording : Defect → Text
  | noValue => "Expecting value"
  | noKey => "Expecting property name enclosed in double quotes"
  | noColon => "Expecting ':' delimiter"
  | noComma => "Expecting ',' delimiter"
  | excess => "Extra data"
  | openText => "Unterminated string starting at"
  | rawControl => "Invalid control character at"
  | badEscape => "Invalid \\escape"
  | badUnit => "Invalid \\uXXXX escape"
  | byteOrderMark => "Unexpected UTF-8 BOM (decode using utf-8-sig)"

end Json

end DegreeAudit
