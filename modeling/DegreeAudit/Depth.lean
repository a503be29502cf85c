import DegreeAudit.Breadth
import DegreeAudit.Prereq.Graph
import DegreeAudit.Selector

/-!
# The depth requirement

Depth is shown in one subject, which must be eligible for breadth. Either the student has three
courses of the subject with one of them at level 300 or above, or three courses of the subject form
a chain in which each next one is listed as a prerequisite of the one before. The second way is
tried only if no subject qualifies the first way. Among several witnesses the first is taken:
subjects and starting courses in the student's order, prerequisites in the graph's order.
-/

namespace DegreeAudit

/-- How the depth requirement is met. -/
inductive DepthWitness where
  | courses (subject : Text) (codes : List Text)
  | chain (subject : Text) (keys : List Key)

/-- How far a student is with the depth requirement. -/
structure DepthFinding where
  witness : Option DepthWitness
  note : Text

namespace DepthFinding

/-- Whether the requirement is met. -/
def ok (f : DepthFinding) : Bool := f.witness.isSome

/-- The finding as a JSON object. -/
def toJson (f : DepthFinding) : Json :=
  let shown : Fields :=
    match f.witness with
    | some (.courses subject codes) =>
      [("option", .int 1), ("subject", .text subject), ("courses", Json.ofTexts codes)]
    | some (.chain subject keys) =>
      [("option", .int 2), ("subject", .text subject), ("chain", Json.ofTexts keys)]
    | none => []
  let note : Fields := if f.note = "" then [] else [("note", .text f.note)]
  .object ([(("ok" : Text), .bool f.ok)] ++ shown ++ note)

end DepthFinding

namespace Depth

/-- How many courses a subject needs. -/
def minCourses : Nat := 3

/-- The level that one of them needs. -/
def minLevel : Nat := 300

/-- The length of a chain. -/
def chainLength : Nat := 3

/-- Adds a course to the group of its subject, or starts a group. -/
def addToGroup (subject code : Text) :
    List (Text × List Text) → List (Text × List Text)
  | [] => [(subject, [code])]
  | (s, codes) :: rest =>
    if s = subject then (s, codes ++ [code]) :: rest
    else (s, codes) :: addToGroup subject code rest

/-- The courses by subject, subjects and courses in the order they were first met. -/
def groups (codes : List Text) : List (Text × List Text) :=
  codes.foldl (fun gs code => addToGroup (Code.subject code) code gs) []

/-- Whether a course of a list has the level needed. Levels are read up to the first one that is
high enough. -/
def anyHigh : List Text → Except Fault Bool
  | [] => .ok false
  | code :: rest =>
    match Code.level? code with
    | none => .error .notANumeral
    | some level => if minLevel ≤ level then .ok true else anyHigh rest

/-- The first group with enough courses, one of them at the level needed. -/
def firstCounted : List (Text × List Text) → Except Fault (Option DepthWitness)
  | [] => .ok none
  | (subject, codes) :: rest =>
    if minCourses ≤ codes.length then do
      if ← anyHigh codes then return some (.courses subject codes) else firstCounted rest
    else firstCounted rest

/-- The first way to extend a path by a number of steps within a group, without repetition. The
path is given with its last course first. -/
def extend (graph : PrereqGraph) (group : List Key) : Nat → List Key → Option (List Key)
  | 0, path => some path.reverse
  | n + 1, path =>
    match path with
    | [] => none
    | last :: _ =>
      (graph.prereqs last).findSome? fun pre =>
        if pre ∈ group ∧ pre ∉ path then extend graph group n (pre :: path) else none

/-- The first chain within the courses of a group. -/
def findChain (graph : PrereqGraph) (codes : List Text) : Option (List Key) :=
  let keys := codes.map Code.key
  keys.findSome? fun start => extend graph keys (chainLength - 1) [start]

/-- The first group with a chain. -/
def firstChained (graph : PrereqGraph) (gs : List (Text × List Text)) :
    Option DepthWitness :=
  gs.findSome? fun g => (findChain graph g.2).map (.chain g.1)

/-- The groups that can show depth. -/
def eligibleGroups (p : BreadthPolicy) (codes : List Text) : List (Text × List Text) :=
  (groups (countable p.excludedSubjects codes)).filter fun g => g.1 ∈ p.eligible

/-- How far a student with the given courses is with the depth requirement. -/
def analyze (p : BreadthPolicy) (graph : PrereqGraph) (codes : List Text) :
    Except Fault DepthFinding := do
  let gs := eligibleGroups p codes
  match ← firstCounted gs with
  | some witness => return ⟨some witness, ""⟩
  | none => return ⟨firstChained graph gs, ""⟩

end Depth

end DegreeAudit
