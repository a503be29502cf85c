import DegreeAudit.Json.Defect
import DegreeAudit.Json.Literal

/-!
# Faults

A document is refused for one of the causes of `Malformed`. A `Fault` is that, a missing document,
a list of unknown courses, the use of a value that is not of the needed kind, a document that
cannot be read or written at all, or a fault from outside. Each cause that is told to the user has
its wording in `message`.
-/

namespace DegreeAudit

/-- Why a document is refused. A `place` is the path to the offending part. -/
inductive Malformed where
  | notJson (path : Text) (why : Json.Defect) (place : Place)
  | catalogNotList
  | catalogEntry (entry : Json)
  | requirementNotObject (place : Text) (got : Json)
  | unknownKind (place : Text) (tag : Json)
  | countNotInteger (place : Text)
  | descriptionNotText (place : Text)
  | noGroups (place : Text)
  | noParts (place tag : Text)
  | coursesNotList (place key : Text)
  | badCourse (place : Text) (entry : Json)
  | courseWithoutCode (place : Text)
  | notTexts (place key : Text)
  | communicationNotObject (place : Text)
  | listNotObject (place name : Text)
  | optionsNotList (place : Text)
  | optionNotObject (place : Text)
  | requiresNotList (place : Text)
  | badRequires (place : Text) (entry : Json)
  | unknownList (place : Text) (name : Json)
  | rulesNotObject (major : Text)
  | sectionNotList (major key : Text)
  | sourceNotObject (file : Text)
  | graphNotObject (path : Text)

/-- The message of a refused document. -/
def Malformed.message : Malformed → Text
  | notJson path why place => path ++ ": " ++ why.wording ++ ": " ++ place.toText
  | catalogNotList => "Course catalog must be a JSON list of \x7bcode, title\x7d"
  | catalogEntry entry => "Bad catalog entry: " ++ entry.literal
  | requirementNotObject place got => place ++ ": expected an object, got " ++ got.kindName
  | unknownKind place tag => place ++ ": unknown requirement type " ++ tag.literal
  | countNotInteger place => place ++ ": 'count' must be an integer"
  | descriptionNotText place => place ++ ": 'description' must be a string"
  | noGroups place => place ++ ": one_group_required needs a non-empty 'groups' list"
  | noParts place tag => place ++ ": " ++ tag ++ " needs a non-empty 'requirements' list"
  | coursesNotList place key => place ++ ": '" ++ key ++ "' must be a list of courses"
  | badCourse place entry => place ++ ": bad course entry " ++ entry.literal
  | courseWithoutCode place => place ++ ": course entry without a code"
  | notTexts place key => place ++ ": '" ++ key ++ "' must be a list of strings"
  | communicationNotObject place => place ++ ": expected an object"
  | listNotObject place name => place ++ "." ++ name ++ ": expected an object with 'courses'"
  | optionsNotList place => place ++ ": 'options' must be a list"
  | optionNotObject place => place ++ ": expected an object"
  | requiresNotList place => place ++ ": 'requires' must be a list"
  | badRequires place entry => place ++ ": bad requires entry " ++ entry.literal
  | unknownList place name => place ++ ": unknown list " ++ name.literal
  | rulesNotObject major => major ++ ": rule document must be a JSON object"
  | sectionNotList major key => major ++ "." ++ key ++ ": expected a list of requirements"
  | sourceNotObject file => file ++ ": expected a JSON object"
  | graphNotObject path => path ++ ": expected an object keyed by course code"

/-- Why an operation has no result. -/
inductive Fault where
  /-- A document was refused. -/
  | malformed (why : Malformed)
  /-- A document does not exist. -/
  | missing (path : Text)
  /-- Courses are not in the catalog. -/
  | unknownCourses (codes : List Text)
  /-- A value of the wrong kind stands where a list, number or text is used. -/
  | wrongKind
  /-- A value that is no object stands where fields are looked up, or one that is no text where a
  text is taken apart. -/
  | noFields
  /-- A text stands for a number that it does not write. -/
  | notANumeral
  /-- An infinite number stands for a whole number. -/
  | infiniteNumber
  /-- A document is not encoded in UTF-8. -/
  | notUtf8
  /-- A folder stands where a document is read or written. -/
  | folderRead
  /-- The name of a document, or the path to it, is longer than it can be. -/
  | nameTooLong
  /-- A document has too many lists and objects inside each other. -/
  | tooDeep
  /-- A field of a table is longer than it can be. -/
  | fieldTooLong
  /-- Something outside, such as the fetching of a page, went wrong in a way that is known by its
  name only. -/
  | foreign (name : Text)

/-- The message of a fault of the documents or of the courses entered. The misuse of a value has no
message of its own. -/
def Fault.message? : Fault → Option Text
  | malformed why => some why.message
  | missing path => some ("Data file not found: " ++ path)
  | unknownCourses codes => some ("Unknown course code(s): " ++ Text.join ", " codes)
  | _ => none

/-- Values can be compared where faults cannot. -/
theorem eq_ok_of_toOption {ε α : Type} {x : Except ε α} {a : α} (h : x.toOption = some a) :
    x = .ok a := by
  cases x with
  | ok b => rw [Option.some.inj h]
  | error e => cases h

end DegreeAudit
