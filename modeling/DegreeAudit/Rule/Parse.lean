import DegreeAudit.Json.Whole
import DegreeAudit.Rule.Basic

/-!
# Reading requirements

A requirement is read from an object with a known `type`. Each field is checked once, in a fixed
order: kind, count, description, the groups or parts below it, courses, and the lists of texts. The
first check that fails decides the fault.
-/

namespace DegreeAudit

/-- The whole number in a count. Only an infinite number is not a matter of the document. -/
def readCount (place : Text) (v : Json) : Except Fault Int :=
  match v.whole with
  | .ok n => .ok n
  | .error .infiniteNumber => .error .infiniteNumber
  | .error _ => .error (.malformed (.countNotInteger place))

/-- The course of an entry of a course list. -/
def readCourse (place : Text) (entry : Json) : Except Fault Course :=
  match Course.ofEntry? entry with
  | none => .error (.malformed (.badCourse place entry))
  | some c => if c.code = "" then .error (.malformed (.courseWithoutCode place)) else .ok c

/-- The courses in a field, none if it is absent or null. -/
def readCourses (place key : Text) (fields : Fields) : Except Fault (List Course) :=
  match Fields.get fields key with
  | .null => .ok []
  | .list entries => entries.mapM (readCourse place)
  | _ => .error (.malformed (.coursesNotList place key))

/-- The trimmed texts in a field, none if it is absent or null. -/
def readTexts (place key : Text) (fields : Fields) : Except Fault (List Text) :=
  match Fields.get fields key with
  | .null => .ok []
  | v =>
    match v.texts? with
    | some texts => .ok (texts.map Text.trim)
    | none => .error (.malformed (.notTexts place key))

namespace Requirement

/-- The kind of requirement that a value is the tag of. -/
def readKind (place : Text) (tag : Json) : Except Fault Kind :=
  match tag.text?.bind Kind.ofTag? with
  | some kind => .ok kind
  | none => .error (.malformed (.unknownKind place tag))

/-- The count of a requirement, if it has one. -/
def readOptionalCount (place : Text) : Json → Except Fault (Option Int)
  | .null => .ok none
  | v => do return some (← readCount place v)

/-- The description of a requirement, if it has one. -/
def readDescription (place : Text) : Json → Except Fault (Option Text)
  | .null => .ok none
  | .text s => .ok (some s)
  | _ => .error (.malformed (.descriptionNotText place))

/-- The terms of a requirement whose count and description are known. -/
def readTerms (place : Text) (fields : Fields) (count : Option Int)
    (description : Option Text) : Except Fault Terms := do
  let courses ← readCourses place "courses" fields
  let required ← readTexts place "required" fields
  let range ← readTexts place "range" fields
  let levelRanges ← readTexts place "level_ranges" fields
  let categoryRanges ← readTexts place "category_ranges" fields
  let patterns ← readTexts place "patterns" fields
  return { description, courses, count, required, range, levelRanges, categoryRanges, patterns }

mutual

/-- The requirement that a value describes. -/
def read (place : Text) : Json → Except Fault Requirement
  | .object fields => do
    let kind ← readKind place (Fields.get fields "type")
    let count ← readOptionalCount place (Fields.get fields "count")
    let description ← readDescription place (Fields.get fields "description")
    match kind with
    | .pick how => return pick how (← readTerms place fields count description)
    | .oneGroup => do
      let groups ← readBelow place "groups" (.noGroups place) fields
      return oneGroup (← readTerms place fields count description) groups
    | .bothLists => do
      let parts ← readBelow place "requirements" (.noParts place kind.tag) fields
      return bothLists (← readTerms place fields count description) parts
  | v => .error (.malformed (.requirementNotObject place v))

/-- The requirements in a field, of which there must be at least one. -/
def readBelow (place key : Text) (lack : Malformed) :
    List (Text × Json) → Except Fault (List Requirement)
  | [] => .error (.malformed lack)
  | (k, v) :: rest =>
    if k = key then
      match v with
      | .list [] => .error (.malformed lack)
      | .list items => readAll (place ++ "." ++ key) 0 items
      | _ => .error (.malformed lack)
    else readBelow place key lack rest

/-- The requirements that the items of a list describe, the first of them at an index. -/
def readAll (place : Text) (index : Nat) : List Json → Except Fault (List Requirement)
  | [] => .ok []
  | v :: rest => do
    let r ← read (place ++ "[" ++ Text.decimal index ++ "]") v
    let rs ← readAll place (index + 1) rest
    return r :: rs

end

end Requirement

end DegreeAudit
