import DegreeAudit.Text.Basic

/-!
# Names of files

A name is made of bytes. A character in it is its bytes in UTF-8, and a surrogate from `0xDC80` to
`0xDCFF` is a single byte from `0x80` on; nothing else can stand in a name, and the zero character
neither. So two texts can write one name: where surrogates spell a character, the name is that of
the text with the character (`FileName.resolve`). A name has a greatest length in bytes.
-/

namespace DegreeAudit.FileName

/-- Whether a code point can stand in a name. -/
def allows : CodePoint → Bool
  | .scalar c => c != '\x00'
  | c@(.surrogate _) => decide (0xDC80 ≤ c.val) && decide (c.val ≤ 0xDCFF)

/-- The bytes of a code point in a name. -/
def bytesOf : CodePoint → List UInt8
  | .scalar c => String.utf8EncodeChar c
  | c@(.surrogate _) => [UInt8.ofNat (c.val - 0xDC00)]

/-- The bytes of a name. -/
def bytes (name : Text) : List UInt8 := name.flatMap bytesOf

/-- The greatest number of bytes in a name. -/
def maxBytes : Nat := 255

/-- Whether a name is too long. -/
def isOverlong (name : Text) : Bool := decide (maxBytes < (bytes name).length)

/-- The character that the first bytes of a list spell. -/
def firstChar? (bs : List UInt8) : Option Char :=
  [1, 2, 3, 4].findSome? fun n =>
    match (String.fromUTF8? (ByteArray.mk (bs.take n).toArray)).map String.toList with
    | some [c] => some c
    | _ => none

/-- The text of a list of bytes: characters where bytes spell them, and elsewhere a surrogate for a
byte. -/
def ofBytes : List UInt8 → Text
  | [] => []
  | b :: rest =>
    match firstChar? (b :: rest) with
    | some c => .scalar c :: ofBytes (rest.drop (c.utf8Size - 1))
    | none => CodePoint.ofNat (0xDC00 + b.toNat) :: ofBytes rest
termination_by bs => bs.length
decreasing_by all_goals (simp only [List.length_drop, List.length_cons]; omega)

/-- The text that stands for the same name and has a surrogate only where no character is spelled.
Without surrogates that is the text itself. -/
def resolve (name : Text) : Text :=
  if name.any CodePoint.isSurrogate then ofBytes (bytes name) else name

/-- A name of characters is its own text. -/
theorem resolve_ofChars (cs : List Char) : resolve (Text.ofChars cs) = Text.ofChars cs := by
  simp [resolve, Text.ofChars, CodePoint.isSurrogate]

end DegreeAudit.FileName
