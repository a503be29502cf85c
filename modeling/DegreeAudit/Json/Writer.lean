import DegreeAudit.Json.Literal

/-!
# Writing JSON documents

A document is written with every item and field on a line of its own, two spaces deeper than the
list or object it belongs to. Characters outside ASCII and surrogates are written as escaped UTF-16
code units.
-/

namespace DegreeAudit.Json

/-- What comes between a bracket and the items at a depth. -/
def margin (depth : Nat) : List Char := '\n' :: List.replicate (2 * depth) ' '

/-- What separates two items at a depth. -/
def separator (depth : Nat) : List Char := ',' :: margin depth

/-- A code unit as an escape of four hexadecimal digits. -/
def unitEscape (n : Nat) : List Char := '\\' :: 'u' :: Text.hexDigits 4 n

/-- One character inside the quotes of a text. -/
def escapeChar (c : Char) : List Char :=
  if c = '"' then ['\\', '"']
  else if c = '\\' then ['\\', '\\']
  else if c = '\n' then ['\\', 'n']
  else if c = '\r' then ['\\', 'r']
  else if c = '\t' then ['\\', 't']
  else if c = '\x08' then ['\\', 'b']
  else if c = '\x0c' then ['\\', 'f']
  else if c.toNat < 0x20 then unitEscape c.toNat
  else if c.toNat < 0x7F then [c]
  else if c.toNat < 0x10000 then unitEscape c.toNat
  else
    let n := c.toNat - 0x10000
    unitEscape (0xD800 + n / 0x400) ++ unitEscape (0xDC00 + n % 0x400)

/-- One code point inside the quotes of a text. -/
def escapePoint : CodePoint → List Char
  | .scalar c => escapeChar c
  | .surrogate i => unitEscape (CodePoint.surrogate i).val

/-- A text in its quotes. -/
def textChars (s : Text) : List Char := '"' :: s.flatMap escapePoint ++ ['"']

/-- A number in binary floating point. -/
def floatChars : Binary64 → List Char
  | .nan => "NaN".toList
  | .infinite negative => if negative then "-Infinity".toList else "Infinity".toList
  | .finite negative m e => Binary64.finiteText negative m e

mutual

/-- The characters of a document whose first line starts at a depth. -/
def writeChars (depth : Nat) : Json → List Char
  | .null => "null".toList
  | .bool true => "true".toList
  | .bool false => "false".toList
  | .int n => (toString n).toList
  | .float x => floatChars x
  | .text s => textChars s
  | .list [] => ['[', ']']
  | .list (v :: rest) =>
    '[' :: margin (depth + 1) ++ writeChars (depth + 1) v ++ writeItems (depth + 1) rest ++
      margin depth ++ [']']
  | .object [] => ['\x7b', '\x7d']
  | .object ((k, v) :: rest) =>
    '\x7b' :: margin (depth + 1) ++ textChars k ++ ':' :: ' ' :: writeChars (depth + 1) v ++
      writeFields (depth + 1) rest ++ margin depth ++ ['\x7d']

/-- Further items of a list, each after a separator. -/
def writeItems (depth : Nat) : List Json → List Char
  | [] => []
  | v :: rest => separator depth ++ writeChars depth v ++ writeItems depth rest

/-- Further fields of an object, each after a separator. -/
def writeFields (depth : Nat) : List (Text × Json) → List Char
  | [] => []
  | (k, v) :: rest =>
    separator depth ++ textChars k ++ ':' :: ' ' :: writeChars depth v ++ writeFields depth rest

end

/-- The text of a document. -/
def write (v : Json) : String := String.ofList (writeChars 0 v)

end DegreeAudit.Json
