import DegreeAudit.Json.Basic
import DegreeAudit.Json.Defect
import DegreeAudit.Number.Numeral

/-!
# Reading JSON documents

The reader is a machine with a stack that takes a document one character at a time. It accepts the
standard grammar and the constants `NaN`, `Infinity` and `-Infinity`.

**Words.** The characters of a number or name are collected up to the first that can belong to
neither. The longest value at the start of the word counts; whatever is left of the word stands
where a comma or an end should.

**Texts.** Two escapes that write a surrogate pair are one character; a surrogate that stands alone
is kept. The digits of an escaped code unit must not be the last of the document.

**Faults.** The first defect ends the reading and is told with its place. A whole number of more
digits than a numeral may have is a fault of its own. So is a document of more levels than the
reader is given: how many lists and objects may lie inside each other depends on where it runs.
-/

namespace DegreeAudit.Json

/-- Why a text is not a document. -/
inductive ReadFault where
  /-- The text has a defect after a number of characters. -/
  | malformed (why : Defect) (offset : Nat)
  | oversizedNumber
  | tooDeep
deriving DecidableEq

/-- A list or object that is being read; the items of a list latest first, and the fields of an
object with the last key. -/
inductive Frame where
  | list (items : List Json)
  | object (fields : Fields) (key : Text)

/-- A text that is being read, in quotes that start at a place. -/
structure Quote where
  isKey : Bool
  start : Nat
  /-- The code units, latest first. -/
  units : List Nat

/-- A quote with one more code unit. -/
def Quote.add (q : Quote) (u : Nat) : Quote := { q with units := u :: q.units }

/-- What the machine is reading. -/
inductive Mode where
  /-- A value must follow; a list may also close if it is still empty. -/
  | value
  /-- A key must follow; an object may also close if it is still empty. -/
  | key
  /-- A colon must follow the key. -/
  | colon
  /-- A value has ended inside a list or object. -/
  | ended
  /-- Inside a text. If the last thing was an escaped code unit, with the place of its `u`. -/
  | text (q : Quote) (unit : Option Nat)
  /-- Inside a text after a backslash. -/
  | escape (q : Quote)
  /-- Inside a text, in an escaped code unit with its `u` at a place and some digits missing. -/
  | unit (q : Quote) (place missing code : Nat)
  /-- Inside a number or name that starts at a place; its characters latest first. -/
  | word (start : Nat) (chars : List Char)
  /-- The document has ended. -/
  | done (result : Json)

/-- What is wrong when something else stands where the mode needs its continuation. -/
def Mode.defect : Mode → Defect
  | value | word .. => .noValue
  | key => .noKey
  | colon => .noColon
  | ended => .noComma
  | done _ => .excess
  | text .. | escape _ => .openText
  | unit .. => .badUnit

/-- A state of the machine. -/
structure Reading where
  stack : List Frame
  mode : Mode

namespace Reading

/-- The state before the first character. -/
def start : Reading := ⟨[], .value⟩

/-- White space between the tokens of a document. -/
def isGap (c : Char) : Bool := c == ' ' || c == '\t' || c == '\n' || c == '\r'

/-- Characters of numbers and names. -/
def isWordChar (c : Char) : Bool := c.isAlphanum || c == '-' || c == '+' || c == '.'

/-- The text of a list of code units, where a surrogate pair is one character. -/
def decodeUnits : List Nat → Text
  | [] => []
  | [u] => [CodePoint.ofNat u]
  | u :: v :: rest =>
    if 0xD800 ≤ u ∧ u < 0xDC00 ∧ 0xDC00 ≤ v ∧ v < 0xE000 then
      CodePoint.ofNat (0x10000 + (u - 0xD800) * 0x400 + (v - 0xDC00)) :: decodeUnits rest
    else CodePoint.ofNat u :: decodeUnits (v :: rest)

/-- The value of a hexadecimal digit. -/
def hexValue? (c : Char) : Option Nat :=
  if '0' ≤ c ∧ c ≤ '9' then some (c.toNat - '0'.toNat)
  else if 'a' ≤ c ∧ c ≤ 'f' then some (c.toNat - 'a'.toNat + 10)
  else if 'A' ≤ c ∧ c ≤ 'F' then some (c.toNat - 'A'.toNat + 10)
  else none

/-- The longest run of ASCII digits at the start of a text, and what follows it. -/
def spanDigits (cs : List Char) : List Char × List Char := cs.span Char.isDigit

/-- The fraction digits at the start of a text, and what follows them. -/
def spanFraction : List Char → List Char × List Char
  | '.' :: cs =>
    match spanDigits cs with
    | ([], _) => ([], '.' :: cs)
    | (ds, rest) => (ds, rest)
  | cs => ([], cs)

/-- The exponent at the start of a text, and what follows it. -/
def spanExponent (cs : List Char) : Option Int × List Char :=
  match cs with
  | e :: rest =>
    if e = 'e' ∨ e = 'E' then
      let (negative, ds, rest') :=
        match rest with
        | '-' :: r => (true, spanDigits r)
        | '+' :: r => (false, spanDigits r)
        | r => (false, spanDigits r)
      if ds.isEmpty then (none, cs)
      else
        let n : Int := Text.decimalNat (Text.ofChars ds)
        (some (if negative then -n else n), rest')
    else (none, cs)
  | [] => (none, [])

/-- The number at the start of a word, its sign apart, and the rest of the word. The word starts at
a place. -/
def numberOf (start : Nat) (negative : Bool) (cs : List Char) :
    Except ReadFault (Json × List Char) :=
  let (whole, rest) :=
    match spanDigits cs with
    | ('0' :: d :: ds, rest) => (['0'], d :: ds ++ rest)
    | split => split
  if whole.isEmpty then .error (.malformed .noValue start)
  else
    let (fraction, rest) := spanFraction rest
    let (exponent, rest) := spanExponent rest
    match fraction, exponent with
    | [], none =>
      match Numeral.natOfDigits? (Text.ofChars whole) with
      | none => .error .oversizedNumber
      | some n => .ok (.int (if negative then -(n : Int) else n), rest)
    | _, _ =>
      let ds := whole ++ fraction
      let x := Binary64.ofDecimal negative (Text.decimalNat (Text.ofChars ds)) ds.length
        (exponent.getD 0 - fraction.length)
      .ok (.float x, rest)

/-- The values that have names. -/
def constants : List (List Char × Json) :=
  [("null".toList, .null), ("true".toList, .bool true), ("false".toList, .bool false),
    ("NaN".toList, .float .nan), ("Infinity".toList, .float (.infinite false)),
    ("-Infinity".toList, .float (.infinite true))]

/-- The value at the start of a word, and the rest of the word. The word starts at a place. -/
def wordValue (start : Nat) (cs : List Char) : Except ReadFault (Json × List Char) :=
  match constants.find? fun e => e.1.isPrefixOf cs with
  | some (name, v) => .ok (v, cs.drop name.length)
  | none =>
    match cs with
    | '-' :: ds => numberOf start true ds
    | ds => numberOf start false ds

/-- The state after a whole value. -/
def push (stack : List Frame) (v : Json) : Reading :=
  match stack with
  | [] => ⟨[], .done v⟩
  | .list items :: rest => ⟨.list (v :: items) :: rest, .ended⟩
  | .object fields k :: rest => ⟨.object (Fields.put fields k v) k :: rest, .ended⟩

/-- The stack after a key. -/
def pushKey (stack : List Frame) (k : Text) : List Frame :=
  match stack with
  | .object fields _ :: rest => .object fields k :: rest
  | _ => stack

/-- The state after a whole text. -/
def pushText (stack : List Frame) (q : Quote) : Reading :=
  let s := decodeUnits q.units.reverse
  if q.isKey then ⟨pushKey stack s, .colon⟩ else push stack (.text s)

/-- The state after the start of a list or object, if it is not one too many inside each other. -/
def descend (limit : Nat) (stack : List Frame) (frame : Frame) (mode : Mode) :
    Except ReadFault Reading :=
  if stack.length < limit then .ok ⟨frame :: stack, mode⟩ else .error .tooDeep

/-- Takes the first character of a value, at a place. -/
def openValue (limit n : Nat) (stack : List Frame) (c : Char) : Except ReadFault Reading :=
  if c = '"' then .ok ⟨stack, .text ⟨false, n, []⟩ none⟩
  else if c = '[' then descend limit stack (.list []) .value
  else if c = '\x7b' then descend limit stack (.object [] []) .key
  else if isWordChar c then .ok ⟨stack, .word n [c]⟩
  else .error (.malformed .noValue n)

/-- Takes a character after a value inside a list or object, at a place. -/
def afterValue (n : Nat) (stack : List Frame) (c : Char) : Except ReadFault Reading :=
  match c, stack with
  | ']', .list items :: rest => .ok (push rest (.list items.reverse))
  | '\x7d', .object fields _ :: rest => .ok (push rest (.object fields))
  | ',', .list _ :: _ => .ok ⟨stack, .value⟩
  | ',', .object _ _ :: _ => .ok ⟨stack, .key⟩
  | _, _ => .error (.malformed .noComma n)

/-- The code unit that a backslash and a character write. -/
def escapeUnit? (c : Char) : Option Nat :=
  match c with
  | '"' => some 0x22
  | '\\' => some 0x5C
  | '/' => some 0x2F
  | 'b' => some 0x8
  | 'f' => some 0xC
  | 'n' => some 0xA
  | 'r' => some 0xD
  | 't' => some 0x9
  | _ => none

/-- Takes a character outside of texts and words, at a place. -/
def stepPlain (limit n : Nat) (s : Reading) (c : Char) : Except ReadFault Reading :=
  if isGap c then .ok s
  else
    match s.mode, s.stack with
    | .value, .list [] :: rest =>
      if c = ']' then .ok (push rest (.list [])) else openValue limit n s.stack c
    | .value, _ => openValue limit n s.stack c
    | .key, .object [] _ :: rest =>
      if c = '\x7d' then .ok (push rest (.object []))
      else if c = '"' then .ok ⟨s.stack, .text ⟨true, n, []⟩ none⟩
      else .error (.malformed .noKey n)
    | .key, _ =>
      if c = '"' then .ok ⟨s.stack, .text ⟨true, n, []⟩ none⟩ else .error (.malformed .noKey n)
    | .colon, _ => if c = ':' then .ok ⟨s.stack, .value⟩ else .error (.malformed .noColon n)
    | .ended, _ => afterValue n s.stack c
    | mode, _ => .error (.malformed mode.defect n)

/-- The state after a whole word. What is left of the word is refused in its place. -/
def endWord (stack : List Frame) (start : Nat) (cs : List Char) : Except ReadFault Reading := do
  let (v, rest) ← wordValue start cs
  let s := push stack v
  if rest.isEmpty then return s
  throw (.malformed s.mode.defect (start + (cs.length - rest.length)))

/-- Takes one character, at a place. -/
def step (limit n : Nat) (s : Reading) (c : Char) : Except ReadFault Reading :=
  match s.mode with
  | .text q _ =>
    if c = '"' then .ok (pushText s.stack q)
    else if c = '\\' then .ok ⟨s.stack, .escape q⟩
    else if c.toNat < 0x20 then .error (.malformed .rawControl n)
    else .ok ⟨s.stack, .text (q.add c.toNat) none⟩
  | .escape q =>
    if c = 'u' then .ok ⟨s.stack, .unit q n 4 0⟩
    else
      match escapeUnit? c with
      | some u => .ok ⟨s.stack, .text (q.add u) none⟩
      | none => .error (.malformed .badEscape (n - 1))
  | .unit q place missing code =>
    match hexValue? c with
    | none => .error (.malformed .badUnit place)
    | some d =>
      let code := 16 * code + d
      if missing ≤ 1 then .ok ⟨s.stack, .text (q.add code) (some place)⟩
      else .ok ⟨s.stack, .unit q place (missing - 1) code⟩
  | .word start chars =>
    if isWordChar c then .ok ⟨s.stack, .word start (c :: chars)⟩
    else do stepPlain limit n (← endWord s.stack start chars.reverse) c
  | _ => stepPlain limit n s c

/-- The document, if the machine has read a whole one at the end of a text. -/
def finish (n : Nat) (s : Reading) : Except ReadFault Json :=
  match s.mode with
  | .done v => .ok v
  | .word start chars => do
    let last ← endWord s.stack start chars.reverse
    match last.mode with
    | .done v => return v
    | mode => throw (.malformed mode.defect n)
  | .text _ (some place) => .error (.malformed .badUnit place)
  | .text q none => .error (.malformed .openText q.start)
  | .escape q => .error (.malformed .openText q.start)
  | .unit _ place _ _ => .error (.malformed .badUnit place)
  | mode => .error (.malformed mode.defect n)

/-- The document that the rest of a text completes. The rest starts at a place. -/
def run (limit n : Nat) (s : Reading) : List Char → Except ReadFault Json
  | [] => s.finish n
  | c :: rest =>
    match s.step limit n c with
    | .ok s => run limit (n + 1) s rest
    | .error e => .error e

end Reading

/-- The document that some characters write. -/
def readChars (limit : Nat) (cs : List Char) : Except ReadFault Json :=
  if cs.head? = some '\uFEFF' then .error (.malformed .byteOrderMark 0)
  else Reading.start.run limit 0 cs

/-- The document that a text writes. -/
def read (limit : Nat) (s : String) : Except ReadFault Json := readChars limit s.toList

end DegreeAudit.Json
