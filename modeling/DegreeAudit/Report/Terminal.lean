import DegreeAudit.Audit.Major
import DegreeAudit.Report.Paint

/-!
# Reports for the terminal

A report is a list of lines. Findings show at most six courses of a list and count the others.
-/

namespace DegreeAudit

namespace Report

open Text

/-- The text of a list of lines, each with its line end. -/
def text (lines : List Text) : Text := lines.flatMap fun l => l ++ "\n"

/-- Lines after an empty line. -/
def spaced (lines : List Text) : List Text := "" :: lines

/-- A heading between two rules, after an empty line. -/
def heading (title : Text) : List Text :=
  let rule := Paint.on [.bold, .cyan] (List.replicate 70 '═')
  spaced [rule, Paint.on [.bold, .cyan] ("  " ++ title), rule]

/-- The heading of a section, after an empty line. -/
def subheading (title : Text) : List Text :=
  spaced [Paint.on [.bold, .white] ("  ── " ++ title ++ " ──")]

/-- The state of a requirement in a coloured field. -/
def badge (met : Bool) : Text :=
  if met then Paint.on [.onGreen, .white] " ✓ COMPLETE "
  else Paint.on [.onRed, .white] " ✗ MISSING "

/-- The state of a requirement as a mark. -/
def mark (met : Bool) : Text := if met then Paint.on [.green] "✓" else Paint.on [.red] "✗"

/-- What stands in place of an empty list. -/
def nothing : Text := Paint.on [.dim] "(none)"

/-- The most courses shown of a list. -/
def shown : Nat := 6

/-- The codes of a list of courses. -/
def codes (courses : List Course) : Text :=
  let first := join ", " ((courses.take shown).map (·.code))
  let more := courses.length - shown
  if courses.length ≤ shown then first
  else first ++ " " ++ Paint.on [.dim] ("(+" ++ decimal more ++ " more)")

/-- The text, or what stands in place of an empty list if it is empty. -/
def orNothing (s : Text) : Text := if s = "" then nothing else s

/-- The title of a list of requirements. -/
def sectionTitle : RequirementList → Text
  | .required => "Required Courses"
  | .elective => "Electives"
  | .additional => "Additional Requirements"

/-- The courses taken and remaining of a finding. What remains of a met requirement is not shown. -/
def courseLines (indent : Text) (f : Finding) : List Text :=
  (if f.taken.isEmpty then []
    else [indent ++ "   " ++ Paint.on [.green] "Taken:" ++ " " ++ codes f.taken]) ++
  (if f.remaining.isEmpty || f.met then []
    else [indent ++ "   " ++ Paint.on [.red] "Remaining:" ++ " " ++ codes f.remaining])

/-- The letter of a group. -/
def groupLabel (index : Nat) : Text := [CodePoint.ofNat (65 + index)]

/-- The line that opens a group. -/
def groupLine (indent : Text) (index : Nat) (satisfiedBy : Option Nat) : Text :=
  indent ++ "   " ++ Paint.on [.cyan] ("Option " ++ groupLabel index ++ ":") ++
    (if satisfiedBy = some index then " " ++ Paint.on [.green] "← satisfies" else "")

mutual

/-- The lines of a finding under a label. -/
def findingLines (label indent : Text) : Finding → List Text
  | ⟨description, kind, taken, remaining, met, satisfiedBy, groups⟩ =>
    spaced [indent ++ mark met ++ " " ++ Paint.on [.bold] (label ++ ". " ++ description)] ++
      courseLines indent ⟨description, kind, taken, remaining, met, satisfiedBy, []⟩ ++
      groupLines indent satisfiedBy 0 groups

/-- The lines of the findings of groups, the first of them at an index. -/
def groupLines (indent : Text) (satisfiedBy : Option Nat) (index : Nat) :
    List Finding → List Text
  | [] => []
  | f :: rest =>
    groupLine indent index satisfiedBy ::
      findingLines (groupLabel index) (indent ++ "      ") f ++
      groupLines indent satisfiedBy (index + 1) rest

end

/-- The lines of a list of findings, numbered from an index. -/
def numberedLines (index : Nat) : List Finding → List Text
  | [] => []
  | f :: rest => findingLines (decimal index) "  " f ++ numberedLines (index + 1) rest

/-- The lines of the communication requirement. -/
def communicationLines (f : CommunicationFinding) : List Text :=
  subheading "Communication Requirement" ++
    f.lists.flatMap (fun l =>
      let title := (l.description.orElse (.text l.name)).display
      spaced ["  " ++ Paint.on [.bold] title,
        "     " ++ Paint.on [.green] "Taken:" ++ " " ++ orNothing (codes l.taken)]) ++
    f.options.map fun o => "  " ++ mark o.2 ++ " " ++ o.1.display

/-- The line with the state of a breadth or depth requirement, after an empty line. -/
def statusLines (met : Bool) : List Text :=
  spaced ["  " ++ Paint.on [.bold] "Status:" ++ " " ++ badge met]

/-- The note of a finding, after an empty line. -/
def noteLines (note : Text) : List Text :=
  if note = "" then [] else spaced ["  " ++ Paint.on [.dim] note]

/-- The line of a breadth category. -/
def categoryLine (f : CategoryFinding) : Text :=
  let paint := if f.met then Paint.green else if f.taken.isEmpty then Paint.red else Paint.yellow
  "  " ++ Paint.on [paint] (padRight 20 f.category.name) ++ " " ++ padRight 10 f.progress ++ " " ++
    orNothing (join ", " f.taken)

/-- The lines of the breadth requirement. -/
def breadthLines (f : BreadthFinding) : List Text :=
  subheading "Breadth Requirement" ++ statusLines f.satisfied ++
    spaced ["  " ++ Paint.on [.bold]
        (padRight 20 "CATEGORY" ++ " " ++ padRight 10 "PROGRESS" ++ " " ++ "COURSES"),
      "  " ++ Paint.on [.dim] (List.replicate 66 '-')] ++
    f.categories.map categoryLine ++ noteLines f.note

/-- The line that shows why the depth requirement is met, or that it is not. -/
def witnessLine : Option DepthWitness → Text
  | some (.courses subject codes) =>
    "  Option 1: " ++ decimal codes.length ++ " " ++ subject ++ " courses (" ++ join ", " codes ++
      ")"
  | some (.chain _ keys) => "  Option 2: prerequisite chain " ++ join " → " keys
  | none =>
    "  " ++ Paint.on [.dim]
      ("No subject has 3 courses with one at the 300 level, " ++
        "or a 3-course prerequisite chain.")

/-- The lines of the depth requirement. -/
def depthLines (f : DepthFinding) : List Text :=
  subheading "Depth Requirement" ++ statusLines f.ok ++ [witnessLine f.witness] ++
    noteLines f.note

/-- The name of a major as a heading shows it. -/
def programTitle (program : Text) : Text :=
  upper (program.map fun c : CodePoint => if c = '_' then (' ' : CodePoint) else c)

/-- The lines of a whole audit. -/
def progressLines (p : Progress) : List Text :=
  heading ("MAJOR PROGRESS: " ++ programTitle p.program) ++
    spaced ["  " ++ Paint.on [.bold] "Overall Status:" ++ " " ++ badge p.met] ++
    p.sections.flatMap (fun s => subheading (sectionTitle s.1) ++ numberedLines 1 s.2) ++
    (p.communication.map communicationLines).getD [] ++
    (p.breadth.map breadthLines).getD [] ++
    (p.depth.map depthLines).getD [] ++ spaced []

/-- Texts as the items of a list. -/
def bullets (items : List Text) : List Text := items.map fun (s : Text) => "    • " ++ s

/-- The lines that tell of unknown courses. -/
def unknownCourseLines (courses : List Text) : List Text :=
  heading "COURSE CHECK: ERROR" ++
    spaced ["  " ++ Paint.on [.red]
      "One or more courses you entered do not exist. Please check and try again."] ++
    bullets courses

/-- The lines of a list of majors. -/
def majorLines (majors : List Text) : List Text :=
  heading "AVAILABLE MAJORS" ++ bullets majors ++ spaced []

end Report

namespace Major

/-- Audits an entered course list and reports the outcome, or the unknown courses in it. The flag
tells whether the audit took place. -/
def report (check : Load Progress) : Load (Bool × Text) :=
  tryCatch (do return (true, Report.text (Report.progressLines (← check)))) fun
    | .unknownCourses codes => return (false, Report.text (Report.unknownCourseLines codes))
    | e => throw e

end Major

end DegreeAudit
