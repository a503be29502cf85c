import DegreeAudit.Text.Basic

/-!
# Comma-separated tables

A table is read one character at a time. Fields are separated by commas, rows by a line feed, a
carriage return or both. A field that starts with a quote runs up to the next quote that stands
alone, over commas and line ends; a doubled quote in it is one quote. Elsewhere a quote is an
ordinary character, and so is whatever follows the closing quote. An empty line is a row without
fields. A field has a greatest length.
-/

namespace DegreeAudit.Table

/-- Where in a row the reader is. -/
inductive Spot where
  /-- At the start of a row. -/
  | rowStart
  /-- At the start of a field that is not the first. -/
  | fieldStart
  /-- Inside a field. -/
  | plain
  /-- Inside quotes. -/
  | quoted
  /-- After a quote inside quotes. -/
  | quoteSeen
deriving DecidableEq

/-- A state of the reader. Everything is kept latest first. -/
structure Reading where
  rows : List (List Text)
  fields : List Text
  field : Text
  spot : Spot
  /-- Whether the last character was a carriage return that ended a row. -/
  returned : Bool

namespace Reading

/-- The state before the first character. -/
def start : Reading := ⟨[], [], [], .rowStart, false⟩

/-- The state after a field has ended. -/
def endField (s : Reading) : Reading :=
  { s with fields := s.field.reverse :: s.fields, field := [], spot := .fieldStart }

/-- The state after a row has ended. -/
def endRow (s : Reading) : Reading :=
  { s with rows := s.fields.reverse :: s.rows, fields := [], spot := .rowStart }

/-- The state after a character of a field. -/
def take (s : Reading) (c : CodePoint) (spot : Spot) : Reading :=
  { s with field := c :: s.field, spot }

/-- Takes a character outside quotes. -/
def stepPlain (s : Reading) (c : CodePoint) : Reading :=
  if c = '\n' ∨ c = '\r' then
    let ended := if s.spot = .rowStart then s.endRow else s.endField.endRow
    { ended with returned := c == '\r' }
  else if c = ',' then s.endField
  else if c = '"' ∧ (s.spot = .rowStart ∨ s.spot = .fieldStart) then { s with spot := .quoted }
  else s.take c .plain

/-- Takes one character. -/
def step (s : Reading) (c : CodePoint) : Reading :=
  if s.returned && c == '\n' then { s with returned := false }
  else
    let s := { s with returned := false }
    match s.spot with
    | .quoted => if c = '"' then { s with spot := .quoteSeen } else s.take c .quoted
    | .quoteSeen => if c = '"' then s.take c .quoted else s.stepPlain c
    | _ => s.stepPlain c

/-- The rows when the text has ended. -/
def finish (s : Reading) : List (List Text) :=
  (if s.spot = .rowStart then s.rows else s.endField.endRow.rows).reverse

end Reading

/-- The rows of a table. -/
def rows (s : Text) : List (List Text) := (s.foldl Reading.step Reading.start).finish

/-- The greatest number of characters in a field. -/
def maxField : Nat := 131072

/-- Whether a table has a field that is too long. -/
def isOverlong (s : Text) : Bool :=
  (rows s).any fun row => row.any fun field => decide (maxField < field.length)

/-- A row as the values of the columns of a header. A missing value is none; a column that stands
twice in the header has its later value. -/
def record (header row : List Text) : List (Text × Option Text) :=
  header.zipIdx.map fun h => (h.1, row[h.2]?)

/-- The value of a column, empty if it is missing. -/
def value (column : Text) (fields : List (Text × Option Text)) : Text :=
  ((fields.reverse.lookup column).getD none).getD ""

/-- The records of a table: the rows after the header that have fields. -/
def records (s : Text) : List (List (Text × Option Text)) :=
  match rows s with
  | [] => []
  | header :: rest => (rest.filter fun row => !row.isEmpty).map (record header)

end DegreeAudit.Table
