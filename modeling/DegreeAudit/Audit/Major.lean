import DegreeAudit.Audit.Communication
import DegreeAudit.Audit.Requirement
import DegreeAudit.Depth
import DegreeAudit.Registry

/-!
# Auditing a major

A student's courses are audited against the sections of a rule document in document order. All
lists of requirements share one list of used keys. The excluded courses of the major are taken out
of every list of candidates and out of the student's courses.

A breadth or depth requirement may name a source. Its subject lists replace those of the breadth
document if it has any, and its description opens the note of the finding.
-/

namespace DegreeAudit

/-- How far a student is with a major. -/
structure Progress where
  program : Text
  sections : List (RequirementList × List Finding)
  communication : Option CommunicationFinding
  breadth : Option BreadthFinding
  depth : Option DepthFinding

namespace Progress

/-- The progress before any section is audited. -/
def start (program : Text) : Progress := ⟨program, [], none, none, none⟩

/-- Whether every requirement is met. -/
def met (p : Progress) : Bool :=
  (p.sections.all fun s => s.2.all (·.met)) && (p.communication.all (·.met)) &&
    (p.breadth.all (·.satisfied)) && p.depth.all (·.ok)

/-- The progress as a JSON object. -/
def toJson (p : Progress) : Json :=
  let program : Fields := [("program", .text p.program)]
  let verdict : Fields := [("overall_met", .bool p.met)]
  .object
    (program ++ p.sections.map (fun s => (s.1.key, .list (Finding.listToJson s.2))) ++
      (p.communication.map fun f => (Section.communicationKey, f.toJson)).toList ++
      (p.breadth.map fun f => (Section.breadthKey, f.toJson)).toList ++
      (p.depth.map fun f => (Section.depthKey, f.toJson)).toList ++ verdict)

end Progress

/-- An audit under way: what is known of the sections so far, and the keys that they used. -/
structure Walk where
  progress : Progress
  used : List Key

namespace Major

/-- The note of every breadth finding. -/
def breadthNote : Text :=
  "Breadth is checked against subject lists only. " ++
    "Confirm course eligibility with an academic advisor."

/-- The note of every depth finding. -/
def depthNote : Text :=
  "Depth is estimated from subject counts and scraped prerequisites. " ++
    "Confirm with an academic advisor before relying on it."

/-- The document with the subject lists for a requirement with a source. -/
def policyDocument (source : Json) : Load Fields :=
  if source.truthy then do
    let fields ← Load.source source
    if Category.all.any fun c => Fields.has fields c.name then return fields
    else Load.breadthDocument
  else Load.breadthDocument

/-- The note of a finding, after the description that a source gives. -/
def note (source : Json) (standing : Text) : Load Text :=
  if source.truthy then do
    let fields ← Load.source source
    let description := Fields.get fields "description"
    return if description.truthy then description.display ++ " " ++ standing else standing
  else return standing

/-- How far a student is with the breadth requirement. -/
def auditBreadth (source : Json) (codes : List Text) : Load BreadthFinding := do
  let fields ← policyDocument source
  let policy ← Load.ofExcept (BreadthPolicy.ofFields fields)
  let finding := policy.classify codes
  return { finding with note := ← note source breadthNote }

/-- How far a student is with the depth requirement. -/
def auditDepth (source : Json) (codes : List Text) : Load DepthFinding := do
  let fields ← policyDocument source
  let graph ← Load.graph
  let policy ← Load.ofExcept (BreadthPolicy.ofFields fields)
  let finding ← Load.ofExcept (Depth.analyze policy graph codes)
  return { finding with note := ← note source depthNote }

/-- Audits a section after others. -/
def auditSection (s : Student) (codes : List Text) (w : Walk) : Section → Load Walk
  | .requirements which items => do
    let (findings, used) := Requirement.auditAll s items w.used
    let findings ← Load.ofExcept findings
    return ⟨{ w.progress with sections := w.progress.sections ++ [(which, findings)] }, used⟩
  | .communication rule =>
    return { w with progress.communication := some (rule.audit s.taken s.excluded) }
  | .breadth source => do
    let finding ← auditBreadth source codes
    return { w with progress.breadth := some finding }
  | .depth source => do
    let finding ← auditDepth source codes
    return { w with progress.depth := some finding }

/-- Audits sections in order. -/
def auditSections (s : Student) (codes : List Text) : List Section → Walk → Load Walk
  | [], w => return w
  | sec :: rest, w => do
    let w ← auditSection s codes w sec
    auditSections s codes rest w

/-- The courses that are not excluded from a major. -/
def admitted (rules : RuleSet) (courses : List Text) : List Text :=
  courses.filter fun c => Code.key c ∉ rules.excludedKeys

/-- What the requirements of a major are audited against for a student with the given courses. -/
def student (rules : RuleSet) (catalog : Catalog) (courses : List Text) : Student :=
  ⟨catalog, (admitted rules courses).map Code.key, rules.excludedKeys⟩

/-- How far a student with the given courses is with a major. -/
def audit (major : Text) (courses : List Text) : Load Progress := do
  let rules ← Load.rules major
  let catalog ← Load.catalog
  let w ← auditSections (student rules catalog courses) (admitted rules courses) rules.sections
    ⟨Progress.start major, []⟩
  return w.progress

end Major

end DegreeAudit
