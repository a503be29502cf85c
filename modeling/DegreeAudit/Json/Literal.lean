import DegreeAudit.Json.Basic
import DegreeAudit.Number.Shortest
import DegreeAudit.Text.Printable
import DegreeAudit.Text.Split

/-!
# Values quoted in messages

A message shows a value as a literal: texts in quotes with unprintable characters escaped, lists in
brackets, objects in braces. `Json.display` shows a text as it is and any other value as a literal.
-/

namespace DegreeAudit

namespace Text

/-- A hexadecimal number in lower case, filled up with zeros on the left to a width. -/
def hexDigits (width n : Nat) : List Char :=
  let ds := Nat.toDigits 16 n
  List.replicate (width - ds.length) '0' ++ ds

/-- One code point inside quotes of the given kind. A surrogate is never printable. -/
def quotedChar (quote c : CodePoint) : Text :=
  if c = quote ∨ c = '\\' then ['\\', c]
  else if c = '\n' then ['\\', 'n']
  else if c = '\r' then ['\\', 'r']
  else if c = '\t' then ['\\', 't']
  else if isPrintable c then [c]
  else if c.val ≤ 0xFF then "\\x" ++ ofChars (hexDigits 2 c.val)
  else if c.val ≤ 0xFFFF then "\\u" ++ ofChars (hexDigits 4 c.val)
  else "\\U" ++ ofChars (hexDigits 8 c.val)

/-- A text in single quotes, or in double quotes if it holds single quotes only. -/
def quoted (cs : Text) : Text :=
  let quote : CodePoint := if cs.contains '\'' && !cs.contains '"' then '"' else '\''
  quote :: cs.flatMap (quotedChar quote) ++ [quote]

end Text

/-- The literal of a number in binary floating point. -/
def Binary64.literal : Binary64 → Text
  | .nan => "nan"
  | .infinite negative => if negative then "-inf" else "inf"
  | .finite negative m e => Text.ofChars (Binary64.finiteText negative m e)

namespace Json

mutual

/-- The literal of a value. -/
def literal : Json → Text
  | .null => "None"
  | .bool true => "True"
  | .bool false => "False"
  | .int n => Text.decimal n
  | .float x => x.literal
  | .text s => Text.quoted s
  | .list items => "[" ++ Text.join ", " (itemLiterals items) ++ "]"
  | .object fields => "\x7b" ++ Text.join ", " (fieldLiterals fields) ++ "\x7d"

/-- The literals of the items of a list. -/
def itemLiterals : List Json → List Text
  | [] => []
  | v :: rest => literal v :: itemLiterals rest

/-- The literals of the fields of an object. -/
def fieldLiterals : List (Text × Json) → List Text
  | [] => []
  | (k, v) :: rest => (Text.quoted k ++ ": " ++ literal v) :: fieldLiterals rest

end

/-- A text as it is, any other value as its literal. -/
def display : Json → Text
  | .text s => s
  | v => v.literal

end Json

end DegreeAudit
