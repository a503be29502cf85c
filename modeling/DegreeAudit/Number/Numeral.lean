import DegreeAudit.Text.Blank
import DegreeAudit.Text.Digit

/-!
# Reading whole numbers

A numeral is an optional sign and decimal digits of any script, where a single low line may stand
between two digits and blanks may stand around the whole. A numeral of more than `digitLimit`
digits is refused, whatever its value.
-/

namespace DegreeAudit.Numeral

/-- The greatest number of digits that a numeral may have. -/
def digitLimit : Nat := 4300

/-- The number that a run of decimal digits writes, unless the run is too long. -/
def natOfDigits? (digits : Text) : Option Nat :=
  if digits.length ≤ digitLimit then some (Text.decimalNat digits) else none

/-- Blanks that may surround a numeral: all but the four information separators. -/
def isMargin (c : CodePoint) : Bool :=
  Text.isBlank c && !(decide (0x1C ≤ c.val) && decide (c.val ≤ 0x1F))

/-- The digits of a text of digits in which single low lines may stand between two digits. -/
def digitsOf? : Text → Option Text
  | [] => none
  | [c] => if Text.isDecimal c then some [c] else none
  | c :: '_' :: cs => if Text.isDecimal c then (digitsOf? cs).map (c :: ·) else none
  | c :: d :: cs => if Text.isDecimal c then (digitsOf? (d :: cs)).map (c :: ·) else none

/-- The text without margins at its two ends. -/
def body (cs : Text) : Text :=
  ((cs.dropWhile isMargin).reverse.dropWhile isMargin).reverse

/-- The whole number that a text writes, if it is a numeral within the limit. -/
def int? (cs : Text) : Option Int :=
  match body cs with
  | '-' :: ds => ((digitsOf? ds).bind natOfDigits?).map fun n => -(n : Int)
  | '+' :: ds => ((digitsOf? ds).bind natOfDigits?).map fun n => (n : Int)
  | ds => ((digitsOf? ds).bind natOfDigits?).map fun n => (n : Int)

end DegreeAudit.Numeral
