import DegreeAudit.Audit.CourseList
import DegreeAudit.Report.Terminal

/-!
# Sessions

A session is a list of requests to one registry. A request changes a file of the data folder, lists
the majors, or asks for something that rests on documents. Each request is served with the registry
that the requests before it left behind, also after a fault.
-/

namespace DegreeAudit

/-- What can be asked for: a document, or an audit of a course list against a major, with the
courses given one by one, entered as one text, or entered and reported for the terminal. -/
inductive Question where
  | catalog
  | graph
  | rules (major : Text)
  | source (name : Json)
  | breadthDocument
  | audit (major : Text) (courses : List Text)
  | check (major courses : Text)
  | report (major courses : Text)

/-- What a request is answered with. -/
inductive Answer where
  | changed
  | majors (names : List Text)
  | catalog (c : Catalog)
  | graph (g : PrereqGraph)
  | rules (rs : RuleSet)
  | source (fields : Fields)
  | progress (p : Progress)
  | report (audited : Bool) (text : Text)

/-- The answer to a question. -/
def Question.answer : Question → Load Answer
  | catalog => return .catalog (← Load.catalog)
  | graph => return .graph (← Load.graph)
  | rules major => return .rules (← Load.rules major)
  | source name => return .source (← Load.source name)
  | breadthDocument => return .source (← Load.breadthDocument)
  | audit major courses => return .progress (← Major.audit major courses)
  | check major courses => return .progress (← Major.check major courses)
  | report major courses => do
    let (audited, text) ← Major.report (Major.check major courses)
    return .report audited text

/-- A request to a registry. -/
inductive Request where
  | write (parts : List Text) (bytes : ByteArray)
  | delete (parts : List Text)
  | majors
  | ask (q : Question)

/-- Serves a request. -/
def Request.serve : Request → Load Answer
  | write parts bytes => do
    modify fun r => { r with folder := r.folder.write parts bytes }
    return .changed
  | delete parts => do
    modify fun r => { r with folder := r.folder.delete parts }
    return .changed
  | majors => return .majors (← Load.majors)
  | ask q => q.answer

namespace Session

/-- Serves requests in order, and gives the registry afterwards. -/
def run (r : Registry) : List Request → List (Except Fault Answer) × Registry
  | [] => ([], r)
  | request :: rest =>
    let (answer, r) := request.serve.run r
    let (answers, r) := run r rest
    (answer :: answers, r)

end Session

end DegreeAudit
