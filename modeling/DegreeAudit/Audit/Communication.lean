import DegreeAudit.Rule.Communication

/-!
# Auditing the communication requirement

Each list splits into the courses taken and those remaining. An option is met if enough courses of
each of its lists are taken, and the requirement is met if an option is. Lists without options are
for information only.
-/

namespace DegreeAudit

/-- How far a student is with a communication list. -/
structure CommunicationListFinding where
  name : Text
  description : Json
  taken : List Course
  remaining : List Course

/-- How far a student is with the communication requirement: the lists, and the options with
whether they are met. -/
structure CommunicationFinding where
  lists : List CommunicationListFinding
  options : List (Json × Bool)

namespace CommunicationFinding

/-- Whether the requirement is met. -/
def met (f : CommunicationFinding) : Bool := f.options.isEmpty || f.options.any (·.2)

/-- How many courses of the list with a name are taken. -/
def takenOf (lists : List CommunicationListFinding) (name : Text) : Nat :=
  match lists.find? fun l => l.name == name with
  | some l => l.taken.length
  | none => 0

/-- The finding as a JSON object. -/
def toJson (f : CommunicationFinding) : Json :=
  .object
    [("lists", .object (f.lists.map fun l =>
        (l.name, .object [("description", l.description),
          ("courses_taken", Course.listToJson l.taken),
          ("courses_remaining", Course.listToJson l.remaining)]))),
      ("options", .list (f.options.map fun o =>
        .object [("description", o.1), ("met", .bool o.2)])),
      ("met", .bool f.met)]

end CommunicationFinding

namespace CommunicationList

/-- How far a student is with a list, the excluded courses apart. -/
def audit (l : CommunicationList) (taken excluded : List Key) : CommunicationListFinding :=
  let valid := Course.dedupe excluded l.courses
  { name := l.name
    description := l.description
    taken := valid.filter fun c => c.key ∈ taken
    remaining := valid.filter fun c => c.key ∉ taken }

end CommunicationList

namespace CommunicationRule

/-- How far a student is with the communication requirement. -/
def audit (rule : CommunicationRule) (taken excluded : List Key) : CommunicationFinding :=
  let lists := rule.lists.map (·.audit taken excluded)
  { lists
    options := rule.options.map fun o =>
      (o.description,
        o.requires.all fun r => decide (r.2 ≤ CommunicationFinding.takenOf lists r.1)) }

end CommunicationRule

end DegreeAudit
