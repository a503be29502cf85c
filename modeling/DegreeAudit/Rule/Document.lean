import DegreeAudit.Rule.Communication

/-!
# The rule document of a major

A rule document lists the excluded courses of a major and its sections: up to three lists of
requirements, and the communication, breadth and depth requirements. The sections are kept in
document order, because an earlier requirement is the first to be credited with a course. Other
fields of the document are passed over.
-/

namespace DegreeAudit

/-- The lists of requirements that a rule document can have. -/
inductive RequirementList where
  | required
  | elective
  | additional
deriving DecidableEq

namespace RequirementList

/-- The key of a list in documents. -/
def key : RequirementList → Text
  | required => "required_courses"
  | elective => "elective_requirement"
  | additional => "additional_requirement"

/-- The lists, in the order in which documents usually give them. -/
def all : List RequirementList := [required, elective, additional]

/-- The list with a key. -/
def ofKey? (k : Text) : Option RequirementList := all.find? fun l => l.key == k

end RequirementList

/-- A section of a rule document. The source of a breadth or depth requirement is whatever the
document gives. -/
inductive Section where
  | requirements (which : RequirementList) (items : List Requirement)
  | communication (rule : CommunicationRule)
  | breadth (source : Json)
  | depth (source : Json)

namespace Section

/-- The key of the communication section. -/
def communicationKey : Text := "communication_requirement"

/-- The key of the breadth section. -/
def breadthKey : Text := "breadth_requirement"

/-- The key of the depth section. -/
def depthKey : Text := "depth_requirement"

/-- The key of a section in documents. -/
def key : Section → Text
  | requirements which _ => which.key
  | communication _ => communicationKey
  | breadth _ => breadthKey
  | depth _ => depthKey

end Section

/-- The rules of a major. -/
structure RuleSet where
  major : Text
  excluded : List Course
  sections : List Section

namespace RuleSet

/-- The keys of the excluded courses. -/
def excludedKeys (rules : RuleSet) : List Key := rules.excluded.map Course.key

/-- The keys of the sections, in document order. -/
def order (rules : RuleSet) : List Text := rules.sections.map Section.key

/-- The lists of requirements, in document order. -/
def requirementLists (rules : RuleSet) : List (RequirementList × List Requirement) :=
  rules.sections.filterMap fun
    | .requirements which items => some (which, items)
    | _ => none

/-- The communication rule. -/
def communication? (rules : RuleSet) : Option CommunicationRule :=
  rules.sections.findSome? fun
    | .communication rule => some rule
    | _ => none

/-- The source of the breadth requirement, null if there is none. -/
def breadthSource (rules : RuleSet) : Json :=
  (rules.sections.findSome? fun
    | .breadth source => some source
    | _ => none).getD .null

/-- The source of the depth requirement, null if there is none. -/
def depthSource (rules : RuleSet) : Json :=
  (rules.sections.findSome? fun
    | .depth source => some source
    | _ => none).getD .null

/-- The source that a breadth or depth requirement names. -/
def readSource : Json → Json
  | .object fields => Fields.get fields "source"
  | _ => .null

/-- The section that a field of the document holds, if its key is that of a section. -/
def readSection (major key : Text) (v : Json) : Except Fault (Option Section) :=
  match RequirementList.ofKey? key with
  | some which =>
    match v with
    | .list items => do
      return some (.requirements which (← Requirement.readAll (major ++ "." ++ key) 0 items))
    | _ => .error (.malformed (.sectionNotList major key))
  | none =>
    if key = Section.communicationKey then do
      return some (.communication (← CommunicationRule.read (major ++ "." ++ key) v))
    else if key = Section.breadthKey then .ok (some (.breadth (readSource v)))
    else if key = Section.depthKey then .ok (some (.depth (readSource v)))
    else .ok none

/-- The rules that a document gives for a major. -/
def read (major : Text) : Json → Except Fault RuleSet
  | .object fields => do
    let excluded ← readCourses major "excluded_courses" fields
    let sections ← fields.mapM fun f => readSection major f.1 f.2
    return ⟨major, excluded, sections.filterMap id⟩
  | _ => .error (.malformed (.rulesNotObject major))

end RuleSet

end DegreeAudit
