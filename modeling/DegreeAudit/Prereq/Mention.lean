import DegreeAudit.Course.Code

/-!
# Course codes in running text

A mention is a course code that stands as a word of its own: two to five capital letters, blanks,
two or three digits and at most one letter, with a word boundary on either side. The text is read
in upper case, from left to right, and mentions do not overlap.
-/

namespace DegreeAudit.Prereq

open Text Code

/-- The mention at the start of a text, and the number of its characters. -/
def mentionAt? (cs : Text) : Option (Text × Nat) :=
  let (letters, rest) := spanCapitals cs
  let gap := rest.takeWhile isBlank
  let (digits, rest) := spanPlainDigits (rest.dropWhile isBlank)
  let (suffix, rest) :=
    match rest with
    | c :: rest' => if isCapital c then ([c], rest') else ([], rest)
    | [] => ([], [])
  let bounded :=
    match rest with
    | c :: _ => !isWordChar c
    | [] => true
  if 2 ≤ letters.length ∧ letters.length ≤ 5 ∧ 2 ≤ digits.length ∧ digits.length ≤ 3 ∧
      bounded then
    some (letters ++ " " ++ digits ++ suffix,
      letters.length + gap.length + digits.length + suffix.length)
  else none

/-- The mentions of a text in upper case. `inside` tells whether a word character comes before it;
the first `skip` characters belong to a mention already found. -/
def scan (inside : Bool) : Nat → Text → List Text
  | _, [] => []
  | skip + 1, c :: cs => scan (isWordChar c) skip cs
  | 0, c :: cs =>
    match if inside then none else mentionAt? (c :: cs) with
    | some (code, length) => code :: scan true (length - 1) cs
    | none => scan (isWordChar c) 0 cs

/-- The codes with a key outside a list, the first of each key only. -/
def distinctCodes (seen : List Key) : List Text → List Text
  | [] => []
  | code :: rest =>
    if key code ∈ seen then distinctCodes seen rest
    else code :: distinctCodes (key code :: seen) rest

/-- The canonical codes that a text mentions, each once and in order, without one code if given. -/
def mentioned (text : Text) (exclude : Option Text) : List Text :=
  let codes := (scan false 0 (upper text)).map canonical
  let skipped :=
    match exclude with
    | some code => if code = "" then [] else [key code]
    | none => []
  distinctCodes skipped codes

end DegreeAudit.Prereq
