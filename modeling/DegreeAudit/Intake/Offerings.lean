import DegreeAudit.Folder.Basic
import DegreeAudit.Intake.Table
import DegreeAudit.Json.Writer
import DegreeAudit.Text.Blank

/-!
# The catalog from a table of offerings

A table of offerings has a code and a title in each row, under one of two headings each. Rows that
lack either are left out. The catalog document lists the others in order.
-/

namespace DegreeAudit.Offerings

/-- The first of two columns that is not empty, trimmed. -/
def column (first second : Text) (fields : List (Text × Option Text)) : Text :=
  let v := Table.value first fields
  Text.trim (if v = "" then Table.value second fields else v)

/-- The code and title of a row, if it has both. -/
def ofRecord? (fields : List (Text × Option Text)) : Option (Text × Text) :=
  let code := column "code" "Course code" fields
  let title := column "title" "Course title" fields
  if code = "" || title = "" then none else some (code, title)

/-- The codes and titles of a table. -/
def read (table : Text) : List (Text × Text) := (Table.records table).filterMap ofRecord?

/-- The record of an offering in the catalog document. -/
def toRecord (o : Text × Text) : Json := .object [("code", .text o.1), ("title", .text o.2)]

/-- The catalog document of some offerings. -/
def toJson (offerings : List (Text × Text)) : Json := .list (offerings.map toRecord)

/-- The text of the catalog document of a table. -/
def convert (table : Text) : String := (toJson (read table)).write

/-- What a conversion leaves behind. -/
structure Outcome where
  exitCode : Nat
  output : Text
  /-- The text of the catalog document, if one was written. -/
  document : Option String

/-- Converts the table at one path, if it exists, to the catalog document at another. -/
def run (input output : Path) (table : Option Text) : Except Fault Outcome :=
  match table with
  | none => .ok ⟨1, "❌ Input file not found: " ++ input.toText ++ "\n", none⟩
  | some table =>
    if Table.isOverlong table then .error .fieldTooLong
    else
      let count := (read table).length
      let told := "✅ Converted " ++ Text.decimal count ++ " courses → " ++ output.toText ++ "\n"
      .ok ⟨0, told, some (convert table)⟩

end DegreeAudit.Offerings
