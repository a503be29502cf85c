import DegreeAudit.Rule.Parse

/-!
# The communication requirement

A communication rule names course lists and options. An option asks for a number of courses of
each of some lists, and must name lists that the rule has.
-/

namespace DegreeAudit

/-- A named list of communication courses. The description is whatever the document gives. -/
structure CommunicationList where
  name : Text
  description : Json
  courses : List Course

/-- A way to meet the communication requirement: how many courses of which lists. -/
structure CommunicationOption where
  description : Json
  requires : List (Text × Int)

/-- The communication requirement of a major. -/
structure CommunicationRule where
  lists : List CommunicationList
  options : List CommunicationOption

namespace CommunicationRule

/-- The description in an object, empty if it counts as absent. -/
def readDescription (fields : Fields) : Json :=
  (Fields.get fields "description").orElse (.text "")

/-- The list of a name. -/
def readList (place name : Text) : Json → Except Fault CommunicationList
  | .object fields => do
    let courses ← readCourses (place ++ "." ++ name) "courses" fields
    return ⟨name, readDescription fields, courses⟩
  | _ => .error (.malformed (.listNotObject place name))

/-- The name of an existing list. A list or an object cannot be looked up as a name. -/
def readListName (place : Text) (names : List Text) (v : Json) : Except Fault Text :=
  match v with
  | .text s => if s ∈ names then .ok s else .error (.malformed (.unknownList place v))
  | .list _ => .error .wrongKind
  | .object _ => .error .wrongKind
  | _ => .error (.malformed (.unknownList place v))

/-- How many courses of which list an entry of an option asks for; one, if it does not say. -/
def readRequires (place : Text) (names : List Text) : Json → Except Fault (Text × Int)
  | .object fields => do
    let name ← readListName place names (Fields.get fields "list")
    let count ← readCount place ((Fields.get? fields "count").getD (.int 1))
    return (name, count)
  | v => .error (.malformed (.badRequires place v))

/-- The option that a value describes. -/
def readOption (place : Text) (names : List Text) : Json → Except Fault CommunicationOption
  | .object fields =>
    match (Fields.get fields "requires").orElse (.list []) with
    | .list entries => do
      let requires ← entries.mapM (readRequires place names)
      return ⟨readDescription fields, requires⟩
    | _ => .error (.malformed (.requiresNotList place))
  | _ => .error (.malformed (.optionNotObject place))

/-- The options that the items of a list describe, the first of them at an index. -/
def readOptions (place : Text) (names : List Text) (index : Nat) :
    List Json → Except Fault (List CommunicationOption)
  | [] => .ok []
  | v :: rest => do
    let option ← readOption (place ++ ".options[" ++ Text.decimal index ++ "]") names v
    let options ← readOptions place names (index + 1) rest
    return option :: options

/-- The communication rule that a value describes. Every field but `options` is a list. -/
def read (place : Text) : Json → Except Fault CommunicationRule
  | .object fields => do
    let named := fields.filter fun (f : Text × Json) => f.1 != "options"
    let lists ← named.mapM fun f => readList place f.1 f.2
    match (Fields.get fields "options").orElse (.list []) with
    | .list items => do
      let options ← readOptions place (lists.map (·.name)) 0 items
      return ⟨lists, options⟩
    | _ => .error (.malformed (.optionsNotList place))
  | _ => .error (.malformed (.communicationNotObject place))

end CommunicationRule

end DegreeAudit
