import DegreeAudit.Folder.Basic
import DegreeAudit.Prereq.Graph
import DegreeAudit.Catalog
import DegreeAudit.Rule.Document

/-!
# The registry of loaded documents

A registry reads documents from a data folder when they are first asked for and keeps what they
say. A document that was refused or missing is not kept, and is read again the next time; what was
kept stays, whatever happens to the folder.

Names of majors and sources come from outside. They are used only if they are the name of a single
part of a path, so that they cannot lead out of the requirements folder.
-/

namespace DegreeAudit

/-- A data folder with what is known of its documents. -/
structure Registry where
  folder : Folder
  /-- The path of the data folder. -/
  data : Path
  catalog : Option Catalog
  graph : Option PrereqGraph
  rules : List (Text × RuleSet)
  sources : List (Text × Fields)

/-- A computation that loads documents and can fail. What was loaded stays loaded. -/
abbrev Load := ExceptT Fault (StateM Registry)

namespace Load

/-- A result that needs no loading. -/
def ofExcept {α : Type} (x : Except Fault α) : Load α := ExceptT.mk (pure x)

/-- Runs a computation, and gives the registry afterwards. -/
def run {α : Type} (x : Load α) (r : Registry) : Except Fault α × Registry :=
  StateT.run (ExceptT.run x) r

@[simp] theorem run_pure {α : Type} (a : α) (r : Registry) :
    run (pure a : Load α) r = (.ok a, r) := rfl

@[simp] theorem run_ofExcept {α : Type} (x : Except Fault α) (r : Registry) :
    run (ofExcept x) r = (x, r) := rfl

/-- A computation goes on with the registry of its first part, and ends with it after a fault. -/
theorem run_bind {α β : Type} (x : Load α) (f : α → Load β) (r : Registry) :
    run (x >>= f) r =
      match run x r with
      | (.ok a, r') => run (f a) r'
      | (.error e, r') => (.error e, r') := by
  simp only [run, ExceptT.run, StateT.run, bind, ExceptT.bind, ExceptT.mk, StateT.bind,
    ExceptT.bindCont]
  cases x r with
  | mk result _ => cases result <;> rfl

/-- A computation in two parts gives a result exactly if both parts do. -/
theorem run_bind_eq_ok {α β : Type} {x : Load α} {f : α → Load β} {r r' : Registry} {b : β} :
    run (x >>= f) r = (.ok b, r') ↔
      ∃ a r₁, run x r = (.ok a, r₁) ∧ run (f a) r₁ = (.ok b, r') := by
  rw [run_bind]
  match run x r with
  | (.ok a, r₁) => exact ⟨fun h => ⟨a, r₁, rfl, h⟩, by rintro ⟨_, _, ⟨⟩, h⟩; exact h⟩
  | (.error e, r₁) => simp

end Load

namespace Registry

/-- A registry that knows nothing of its folder yet. -/
def ofFolder (folder : Folder) (data : Path) : Registry := ⟨folder, data, none, none, [], []⟩

/-- The folder of the catalog and the prerequisites. -/
def courseFolder (r : Registry) : Path := r.data.child "course-data"

/-- The folder of the rule documents and their sources. -/
def requirementsFolder (r : Registry) : Path := r.data.child "requirements"

/-- The path of the catalog. -/
def catalogPath (r : Registry) : Path := r.courseFolder.child "courses.json"

/-- The path of the collected prerequisites. -/
def prereqsPath (r : Registry) : Path := r.courseFolder.child "prereqs.json"

/-- The path of the rule document of a major. -/
def rulesPath (r : Registry) (major : Text) : Path := r.requirementsFolder.child (major ++ ".json")

/-- The path of a source. -/
def sourcePath (r : Registry) (name : Text) : Path := r.requirementsFolder.child name

/-- The breadth document. -/
def breadthName : Text := "breadth.json"

/-- The catalog that the folder holds. -/
def readCatalog (r : Registry) : Except Fault Catalog := do
  Catalog.ofJson (← r.folder.read r.catalogPath)

/-- The prerequisite graph that the folder holds; without a document it is empty. -/
def readGraph (r : Registry) : Except Fault PrereqGraph :=
  match r.folder.read r.prereqsPath with
  | .ok (.object entries) => PrereqGraph.ofFields entries
  | .ok _ => .error (.malformed (.graphNotObject r.prereqsPath.toText))
  | .error (.missing _) => .ok []
  | .error e => .error e

/-- The path that is read for the rules of a major. Only a name of a single part has one. -/
def rulesTarget? (r : Registry) (major : Text) : Option Path :=
  if major = "" || !Path.isName major then none else some (r.rulesPath major)

/-- The path that is read for a source. Only a name of a single part has one. -/
def sourceTarget? (r : Registry) (name : Text) : Option Path :=
  if !Path.isName name then none else some (r.sourcePath name)

section

variable {r : Registry} {major name : Text} {p : Path}

theorem rulesTarget?_eq_some_iff : r.rulesTarget? major = some p ↔
    (major ≠ "" ∧ major ≠ "." ∧ ('/' : CodePoint) ∉ major) ∧ r.rulesPath major = p := by
  rw [rulesTarget?, Option.ite_none_left_eq_some, Bool.or_eq_true, not_or, decide_eq_true_eq,
    Bool.not_eq_true', Bool.not_eq_false, Path.isName_eq_true_iff, Option.some_inj]

theorem rulesTarget?_eq_none_iff :
    r.rulesTarget? major = none ↔ major = "" ∨ major = "." ∨ ('/' : CodePoint) ∈ major := by
  rw [← Path.isName_eq_false_iff, rulesTarget?]
  by_cases hempty : major = "" <;> simp [hempty]

theorem sourceTarget?_eq_some_iff : r.sourceTarget? name = some p ↔
    (name ≠ "." ∧ ('/' : CodePoint) ∉ name) ∧ r.sourcePath name = p := by
  rw [sourceTarget?, Option.ite_none_left_eq_some, Bool.not_eq_true', Bool.not_eq_false,
    Path.isName_eq_true_iff, Option.some_inj]

theorem sourceTarget?_eq_none_iff :
    r.sourceTarget? name = none ↔ name = "." ∨ ('/' : CodePoint) ∈ name := by
  rw [← Path.isName_eq_false_iff, sourceTarget?]
  simp

end

/-- The rules of a major that the folder holds. -/
def readRules (r : Registry) (major : Text) : Except Fault RuleSet :=
  match r.rulesTarget? major with
  | none => .error (.missing (r.rulesPath major).toText)
  | some p => do RuleSet.read major (← r.folder.read p)

theorem readRules_of_none {r : Registry} {major : Text} (h : r.rulesTarget? major = none) :
    r.readRules major = .error (.missing (r.rulesPath major).toText) := by
  rw [readRules, h]

theorem readRules_of_some {r : Registry} {major : Text} {p : Path}
    (h : r.rulesTarget? major = some p) :
    r.readRules major = (r.folder.read p >>= RuleSet.read major) := by
  rw [readRules, h]

/-- The source that the folder holds under a name. -/
def readSource (r : Registry) (name : Text) : Except Fault Fields :=
  match r.sourceTarget? name with
  | none => .error (.missing (r.sourcePath name).toText)
  | some p =>
    match r.folder.read p with
    | .ok (.object fields) => .ok fields
    | .ok _ => .error (.malformed (.sourceNotObject name))
    | .error e => .error e

/-- Whether a document is the rule document of a major: it has a list of requirements. -/
def isRules : Json → Bool
  | .object fields => RequirementList.all.any fun l => Fields.has fields l.key
  | _ => false

/-- The name of the major whose rule document a file of the requirements folder is, if it is one.
A document that is refused is none. -/
def majorOf (r : Registry) (name : Text) : Except Fault (Option Text) :=
  match r.folder.read (r.sourcePath name) with
  | .ok v => .ok (if isRules v then some (Path.stem name) else none)
  | .error (.malformed _) => .ok none
  | .error e => .error e

/-- The ending of the names of documents. -/
def extension : Text := ".json"

/-- Whether a file name is that of a document. -/
def isDocument (name : Text) : Bool := extension.isSuffixOf name

/-- The majors with a rule document, in order. -/
def majors (r : Registry) : Except Fault (List Text) := do
  match r.folder.look r.requirementsFolder with
  | .overlong => .error .nameTooLong
  | _ =>
    let found ← ((r.folder.names r.requirementsFolder).filter isDocument).mapM r.majorOf
    return (found.filterMap id).mergeSort Text.le

end Registry

namespace Load

/-- The catalog. -/
def catalog : Load Catalog := do
  let r ← get
  match r.catalog with
  | some c => return c
  | none => do
    let c ← ofExcept r.readCatalog
    modify fun r => { r with catalog := some c }
    return c

/-- The prerequisite graph. -/
def graph : Load PrereqGraph := do
  let r ← get
  match r.graph with
  | some g => return g
  | none => do
    let g ← ofExcept r.readGraph
    modify fun r => { r with graph := some g }
    return g

/-- The rules of a major. -/
def rules (major : Text) : Load RuleSet := do
  let r ← get
  match r.rules.lookup major with
  | some rs => return rs
  | none => do
    let rs ← ofExcept (r.readRules major)
    modify fun r => { r with rules := (major, rs) :: r.rules }
    return rs

/-- The source of a name. -/
def sourceNamed (name : Text) : Load Fields := do
  let r ← get
  match r.sources.lookup name with
  | some fields => return fields
  | none => do
    let fields ← ofExcept (r.readSource name)
    modify fun r => { r with sources := (name, fields) :: r.sources }
    return fields

/-- The source that a value names. Only a text is a name. -/
def source (name : Json) : Load Fields :=
  match name with
  | .text s => sourceNamed s
  | _ => ofExcept (.error .wrongKind)

/-- The breadth document. -/
def breadthDocument : Load Fields := sourceNamed Registry.breadthName

/-- The majors with a rule document, in order. They are looked up each time. -/
def majors : Load (List Text) := do
  let r ← get
  ofExcept r.majors

end Load

end DegreeAudit
