import DegreeAudit.Number.Numeral
import DegreeAudit.Text.Letter
import DegreeAudit.Text.Upper

/-!
# Course codes

The same course is spelled `math 237`, `MATH237` or `MATH 237`. Codes are compared by their `key`,
which has no blanks and is in upper case, and shown in their canonical form: subject, one space,
number without needless zeros. A text that is no course code is shown trimmed and in upper case.
-/

namespace DegreeAudit

/-- A course code without blanks and in upper case. -/
abbrev Key := Text

namespace Code

open Text

/-- The longest run of capital letters at the start of a text, and what follows it. -/
def spanCapitals (cs : Text) : Text × Text := cs.span isCapital

/-- The longest run of ASCII digits at the start of a text, and what follows it. -/
def spanPlainDigits (cs : Text) : Text × Text := cs.span isPlainDigit

/-- The digits without zeros at the start, as long as two digits are left. -/
def dropZeros : Text → Text
  | '0' :: d :: e :: ds => dropZeros (d :: e :: ds)
  | ds => ds

/-- Subject and number of a course code in upper case: two to ten letters, blanks, two or three
digits apart from zeros at the start, and at most two letters. -/
def parts? (cs : Text) : Option (Text × Text) :=
  let (letters, rest) := spanCapitals cs
  let (digits, suffix) := spanPlainDigits (trimLeft rest)
  let number := dropZeros digits
  if 2 ≤ letters.length ∧ letters.length ≤ 10 ∧ 2 ≤ number.length ∧ number.length ≤ 3 ∧
      suffix.length ≤ 2 ∧ suffix.all isCapital then
    some (letters, number ++ suffix)
  else none

/-- The canonical form of a code. -/
def canonical (code : Text) : Text :=
  let s := trim (upper code)
  match parts? s with
  | some (letters, number) => letters ++ " " ++ number
  | none => s

/-- The key of a code. -/
def key (code : Text) : Key := upper (squeeze code)

/-- The capital letters that the key of a code starts with. -/
def subject (code : Text) : Text := (spanCapitals (key code)).1

/-- The first number in a code, zero if there is none; no value if it has too many digits. -/
def level? (code : Text) : Option Nat := Numeral.natOfDigits? (firstDecimals code)

end Code

end DegreeAudit
