import DegreeAudit.Audit.CourseList
import DegreeAudit.Command.Options
import DegreeAudit.Json.Writer
import DegreeAudit.Report.Terminal

/-!
# The command line

A run lists the majors, or audits a course list against a major and reports the outcome in lines or
as a JSON document. A major or course list that is not given is asked for. The exit code is 0 after
an audit, 1 if courses are unknown, and 2 if a document is missing or refused.
-/

namespace DegreeAudit

namespace CommandLine

/-- What a run leaves behind. -/
structure Outcome where
  exitCode : Nat
  output : Text
  errors : Text

/-- A run up to its end or its next question, and from there on for every answer. -/
inductive Dialogue where
  | ended (outcome : Outcome)
  /-- A value in a document was misused. -/
  | broken (why : Fault)
  | ask (output : Text) (next : Text → Dialogue)

/-- The exit code of a run that has not begun. -/
def Stop.exitCode : Stop → Nat
  | .help => 0
  | .error => 2

/-- The JSON document that tells of unknown courses. -/
def unknownCoursesJson (message : Text) (codes : List Text) : Json :=
  .object [("error", .text message), ("unknown_courses", Json.ofTexts codes)]

namespace Dialogue

/-- The end of a run with a fault. -/
def failed (e : Fault) : Dialogue :=
  match e.message?, e with
  | some message, .unknownCourses codes =>
    ended ⟨1, Report.text [(unknownCoursesJson message codes).write], ""⟩
  | some message, _ => ended ⟨2, "", Report.text [Paint.on [.red] ("Error: " ++ message)]⟩
  | none, e => broken e

/-- The end of a run with an exit code and a report, or with a fault. -/
def ofResult : Except Fault (Nat × Text) → Dialogue
  | .ok (code, text) => ended ⟨code, text, ""⟩
  | .error e => failed e

/-- What comes before the first line end, without blanks at its ends, and what comes after it. -/
def nextLine (input : Text) : Text × Text :=
  match Text.cut '\n' input with
  | (line, rest) => (Text.trim line, rest.getD [])

/-- The outcome when the lines of a text answer the questions. At its end, answers are empty. -/
def play : Dialogue → Text → Except Fault Outcome
  | ended outcome, _ => .ok outcome
  | broken why, _ => .error why
  | ask output next, input => do
    let (line, rest) := nextLine input
    let outcome ← (next line).play rest
    return { outcome with output := output ++ outcome.output }

end Dialogue

/-- The exit code and the report of an audit. -/
def answer (json : Bool) (major courses : Text) : Load (Nat × Text) := do
  let check := Major.check major courses
  if json then return (0, Report.text [(← check).toJson.write])
  else
    let (audited, text) ← Major.report check
    return (if audited then 0 else 1, text)

/-- A question in the terminal. -/
def question (label : Text) : Text := Paint.on [.bold] label

/-- The rest of a run that knows the major. The courses are asked for if they are not given. -/
def askCourses (o : Options) (r : Registry) (major : Text) : Dialogue :=
  let finish courses := Dialogue.ofResult ((answer o.json major courses).run r).1
  match o.courses with
  | some courses => finish courses
  | none => .ask (question "Courses (comma-separated): ") finish

/-- A run with options. A major that is not given is asked for after listing the majors, and the
first of them stands for an empty answer. -/
def dialogue (o : Options) (r : Registry) : Dialogue :=
  if o.listMajors then
    .ofResult (r.majors.map fun majors => (0, Report.text (Report.majorLines majors)))
  else
    match o.major.filter fun (s : Text) => s ≠ "" with
    | some major => askCourses o r major
    | none =>
      match r.majors with
      | .error e => .failed e
      | .ok majors =>
        .ask (Report.text (Report.majorLines majors) ++ question "Major: ") fun line =>
          askCourses o r (if line = "" then majors.headD "" else line)

/-- How a command line ends: before it has begun, or with an outcome. -/
inductive Ending where
  | stopped (why : Stop)
  | finished (outcome : Outcome)

/-- The registry that a command line works with. -/
def registryFor (o : Options) (folder : Folder) : Except Fault Registry :=
  match o.dataDir with
  | .standard => .ok (.ofFolder folder folder.base)
  | .named path => .ok (.ofFolder folder (.ofText path))
  | .missing => .error .wrongKind

/-- Runs a command line over a data folder, with a text that answers its questions. -/
def run (folder : Folder) (words : List Text) (input : Text) : Except Fault Ending :=
  match read words with
  | .error why => .ok (.stopped why)
  | .ok o => do
    let registry ← registryFor o folder
    return .finished (← (dialogue o registry).play input)

end CommandLine

end DegreeAudit
