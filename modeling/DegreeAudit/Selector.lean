import DegreeAudit.Catalog
import DegreeAudit.Rule.Basic

/-!
# Selectors

A selector stands for courses of the catalog. `MATH135-MATH138` selects by the start of the key and
a window of levels, `CS245` one course, `AFM3` a subject and a hundred of levels, `CS` a subject,
and the category `CO` what starts with these letters and goes on with a digit. A token of another
shape selects nothing.

The selection of a requirement (`select`) takes the selectors in order (ranges, levels, patterns,
categories), each in catalog order, then the listed courses, and keeps the first course of each
key.
-/

namespace DegreeAudit

open Text

/-- A selector of courses. -/
inductive Selector where
  /-- The course with a key. -/
  | exactly (key : Key)
  /-- The courses whose keys start with letters and whose levels lie in a window. -/
  | window (letters : Text) (low high : Nat)
  /-- The courses of a subject. -/
  | subject (name : Text)
  /-- The courses of a subject in a hundred of levels. -/
  | hundred (name : Text) (digit : Nat)
  /-- The courses whose keys start with letters that a digit follows. -/
  | category (letters : Text)
deriving DecidableEq

namespace Selector

/-- The level of a course. A number with too many digits is a fault. -/
def levelOf (c : Course) : Except Fault Nat :=
  match Code.level? c.code with
  | some n => .ok n
  | none => .error .notANumeral

/-- The number that a run of digits writes. One with too many digits is a fault. -/
def numberOf (digits : Text) : Except Fault Nat :=
  match Numeral.natOfDigits? digits with
  | some n => .ok n
  | none => .error .notANumeral

/-- Letters and number at the start of a range. -/
def rangeStart? (cs : Text) : Option (Text × Text) :=
  let (letters, rest) := Code.spanCapitals cs
  let (digits, _) := spanDecimals (trimLeft rest)
  if letters.isEmpty || digits.isEmpty then none else some (letters, digits)

/-- The selector that a range token writes. -/
def ofRange? (token : Text) : Except Fault (Option Selector) :=
  let s := trim (upper token)
  match cut '-' s with
  | (_, none) => .ok (some (exactly (Code.key s)))
  | (start, some stop) =>
    match rangeStart? (trim start), firstDecimals stop with
    | none, _ => .ok none
    | some _, [] => .ok none
    | some (letters, low), high => do
      return some (window letters (← numberOf low) (← numberOf high))

/-- The selector that a level token or pattern writes. -/
def ofLevel? (token : Text) : Option Selector :=
  let (letters, rest) := Code.spanCapitals (Code.key token)
  if letters.isEmpty then none
  else
    match rest with
    | [] => some (subject letters)
    | [c] => (decimalValue? c).map (hundred letters)
    | _ => none

/-- The selector that a category token writes. -/
def ofCategory? (token : Text) : Option Selector :=
  let letters := Code.key token
  if allLetters letters then some (category letters) else none

/-- Whether a course has a level in a window. -/
def inWindow (low high : Nat) (c : Course) : Except Fault Bool := do
  let level ← levelOf c
  return decide (low ≤ level) && decide (level ≤ high)

/-- Whether a selector selects a course. -/
def selects (s : Selector) (c : Course) : Except Fault Bool :=
  match s with
  | exactly key => .ok (c.key == key)
  | window letters low high =>
    if letters.isPrefixOf c.key then inWindow low high c else .ok false
  | subject name => .ok (Code.subject c.code == name)
  | hundred name digit =>
    if Code.subject c.code = name then inWindow (100 * digit) (100 * digit + 99) c
    else .ok false
  | category letters =>
    .ok (letters.isPrefixOf c.key &&
      match c.key.drop letters.length with
      | d :: _ => isDigit d
      | [] => false)

/-- The courses of a list that a selector selects, in order. -/
def filterCourses (s : Selector) : List Course → Except Fault (List Course)
  | [] => .ok []
  | c :: rest => do
    let selected ← s.selects c
    let others ← s.filterCourses rest
    return if selected then c :: others else others

/-- The selectors that the range tokens of a requirement write. -/
def ofRanges : List Text → Except Fault (List Selector)
  | [] => .ok []
  | token :: rest => do
    let selector ← ofRange? token
    let others ← ofRanges rest
    return selector.toList ++ others

/-- The selectors of a requirement, in order. -/
def ofTerms (t : Terms) : Except Fault (List Selector) := do
  let ranges ← ofRanges t.range
  return ranges ++ (t.levelRanges ++ t.patterns).filterMap ofLevel? ++
    t.categoryRanges.filterMap ofCategory?

end Selector

namespace Catalog

/-- The courses that each of some selectors selects, one selector after the other. -/
def matching (catalog : Catalog) : List Selector → Except Fault (List Course)
  | [] => .ok []
  | s :: rest => do
    let first ← s.filterCourses catalog.courses
    let others ← catalog.matching rest
    return first ++ others

/-- The courses that a requirement selects or lists, without the excluded ones. -/
def select (catalog : Catalog) (excluded : List Key) (t : Terms) : Except Fault (List Course) := do
  let selected ← catalog.matching (← Selector.ofTerms t)
  return Course.dedupe excluded (selected ++ t.courses)

end Catalog

end DegreeAudit
