import DegreeAudit.Course.Code
import DegreeAudit.Json.Whole

/-!
# The breadth requirement

A student needs a number of courses in each of four categories. A category is a set of subjects,
and a course belongs to the categories of its subject. A subject can be both a pure and an applied
science; its courses are handed out last, to the pure sciences up to the number needed and then to
the applied sciences, so that none counts twice.

Courses of the excluded subjects never count, nor do those of the first communication list.
-/

namespace DegreeAudit

/-- The breadth categories. -/
inductive Category where
  | humanities
  | socialSciences
  | pureSciences
  | appliedSciences
deriving DecidableEq

namespace Category

/-- The name of a category in documents and reports. -/
def name : Category → Text
  | humanities => "humanities"
  | socialSciences => "social_sciences"
  | pureSciences => "pure_sciences"
  | appliedSciences => "applied_sciences"

/-- The categories in the order of reports. -/
def all : List Category := [humanities, socialSciences, pureSciences, appliedSciences]

/-- The number of courses needed unless a document says otherwise. -/
def defaultNeeded : Category → Int
  | humanities | socialSciences => 2
  | pureSciences | appliedSciences => 1

/-- The weight of a category in units. -/
def units : Category → Binary64
  | humanities | socialSciences => Binary64.one
  | pureSciences | appliedSciences => Binary64.half

end Category

/-- The breadth policy: the subjects of each category, the subjects excluded, and the numbers
needed. Entries that are no texts are left out, since no course has such a subject. -/
structure BreadthPolicy where
  subjects : Category → List Text
  excludedSubjects : List Text
  needed : Category → Int

namespace BreadthPolicy

/-- Whether a value can be an entry of a set. -/
def isSetEntry : Json → Bool
  | .list _ | .object _ => false
  | _ => true

/-- The entries of a set in a document: a list of simple values, the characters of a text, or the
keys of an object. A value that counts as absent is the empty set. -/
def readSet (v : Json) : Except Fault (List Json) :=
  if !v.truthy then .ok []
  else
    match v with
    | .list items => if items.all isSetEntry then .ok items else .error .wrongKind
    | .text s => .ok (s.map fun c => .text [c])
    | .object fields => .ok ((Fields.keys fields).map .text)
    | _ => .error .wrongKind

/-- The fields with the numbers needed. A value that counts as absent has none. -/
def readNeeded (v : Json) : Except Fault Fields :=
  if !v.truthy then .ok []
  else
    match v with
    | .object fields => .ok fields
    | _ => .error .noFields

/-- The number of courses that a category needs. -/
def neededOf (overrides : Fields) (c : Category) : Except Fault Int :=
  match Fields.get? overrides c.name with
  | some v => v.whole
  | none => .ok c.defaultNeeded

/-- The policy that a breadth document describes. -/
def ofFields (fields : Fields) : Except Fault BreadthPolicy := do
  let humanities ← readSet (Fields.get fields (Category.name .humanities))
  let social ← readSet (Fields.get fields (Category.name .socialSciences))
  let pureEntries ← readSet (Fields.get fields (Category.name .pureSciences))
  let applied ← readSet (Fields.get fields (Category.name .appliedSciences))
  let excluded ← readSet (Fields.get fields "excluded_subjects")
  let overrides ← readNeeded (Fields.get fields "needed")
  let neededHumanities ← neededOf overrides .humanities
  let neededSocial ← neededOf overrides .socialSciences
  let neededPure ← neededOf overrides .pureSciences
  let neededApplied ← neededOf overrides .appliedSciences
  let entries : Category → List Json
    | .humanities => humanities
    | .socialSciences => social
    | .pureSciences => pureEntries
    | .appliedSciences => applied
  return {
    subjects := fun c => (entries c).filterMap Json.text?
    excludedSubjects := excluded.filterMap Json.text?
    needed := fun
      | .humanities => neededHumanities
      | .socialSciences => neededSocial
      | .pureSciences => neededPure
      | .appliedSciences => neededApplied }

/-- The policy that a document describes. -/
def ofJson : Json → Except Fault BreadthPolicy
  | .object fields => ofFields fields
  | _ => .error .noFields

/-- The subjects of all categories. -/
def eligible (p : BreadthPolicy) : List Text := Category.all.flatMap p.subjects

/-- Whether a subject belongs to a category. -/
def belongs (p : BreadthPolicy) (c : Category) (subject : Text) : Bool :=
  decide (subject ∈ p.subjects c)

end BreadthPolicy

/-- The courses of the first communication list, which never count for breadth or depth. -/
def neverCounted : List Text :=
  ["COMMST 100", "COMMST 223", "ENGL 109", "ENGL 129R", "EMLS 129R", "EMLS 101R", "EMLS 102R"]

/-- Whether a canonical code counts for breadth and depth. -/
def isCountable (excludedSubjects : List Text) (code : Text) : Bool :=
  code != "" && decide (Code.subject code ∉ excludedSubjects) && decide (code ∉ neverCounted)

/-- The codes outside a list, each once. -/
def distinctTexts (seen : List Text) : List Text → List Text
  | [] => []
  | s :: rest =>
    if s ∈ seen then distinctTexts seen rest else s :: distinctTexts (s :: seen) rest

/-- The canonical codes that count for breadth and depth, each once and in order. -/
def countable (excludedSubjects : List Text) (codes : List Text) : List Text :=
  distinctTexts [] ((codes.map Code.canonical).filter (isCountable excludedSubjects))

/-- How far a student is with a category. -/
structure CategoryFinding where
  category : Category
  needed : Int
  taken : List Text

namespace CategoryFinding

/-- Whether enough courses are taken. -/
def met (f : CategoryFinding) : Bool := decide (f.needed ≤ f.taken.length)

/-- How many courses are still needed. -/
def remaining (f : CategoryFinding) : Int := max 0 (f.needed - f.taken.length)

/-- The courses taken out of those needed. -/
def progress (f : CategoryFinding) : Text :=
  Text.decimal f.taken.length ++ "/" ++ Text.decimal f.needed

/-- The state of the category in words. -/
def status (f : CategoryFinding) : Text :=
  if f.met then f.category.name ++ " satisfied (" ++ f.progress ++ ")"
  else
    f.category.name ++ " in progress (" ++ f.progress ++ ", need " ++ Text.decimal f.remaining ++
      " more)"

/-- The finding as a JSON object. -/
def toJson (f : CategoryFinding) : Json :=
  .object
    [("needed", .int f.needed), ("units", .float f.category.units),
      ("taken", Json.ofTexts f.taken), ("met", .bool f.met), ("remaining", .int f.remaining),
      ("progress", .text f.progress), ("status", .text f.status)]

end CategoryFinding

/-- How far a student is with the breadth requirement. -/
structure BreadthFinding where
  categories : List CategoryFinding
  note : Text

namespace BreadthFinding

/-- Whether every category has enough courses. -/
def satisfied (f : BreadthFinding) : Bool := f.categories.all (·.met)

/-- The states of the categories in words. -/
def description (f : BreadthFinding) : Text := Text.join " | " (f.categories.map (·.status))

/-- The finding as a JSON object. -/
def toJson (f : BreadthFinding) : Json :=
  .object
    [("satisfied", .bool f.satisfied), ("description", .text f.description),
      ("categories", .object (f.categories.map fun c => (c.category.name, c.toJson))),
      ("note", .text f.note)]

end BreadthFinding

namespace BreadthPolicy

/-- The courses of subjects in a category. -/
def ofCategory (p : BreadthPolicy) (c : Category) (codes : List Text) : List Text :=
  codes.filter fun code => p.belongs c (Code.subject code)

/-- Whether a course has a subject that is both a pure and an applied science. -/
def overlaps (p : BreadthPolicy) (code : Text) : Bool :=
  p.belongs .pureSciences (Code.subject code) && p.belongs .appliedSciences (Code.subject code)

/-- The courses of subjects that are both pure and applied sciences. -/
def overlap (p : BreadthPolicy) (codes : List Text) : List Text := codes.filter p.overlaps

/-- The courses of subjects in a category that do not overlap. -/
def withoutOverlap (p : BreadthPolicy) (c : Category) (codes : List Text) : List Text :=
  (p.ofCategory c codes).filter fun code => !p.overlaps code

/-- How many of the overlapping courses the pure sciences still need. -/
def pureShare (p : BreadthPolicy) (codes : List Text) : Nat :=
  (p.needed .pureSciences - (p.withoutOverlap .pureSciences codes).length).toNat

/-- The courses counted in a category, out of the countable ones. -/
def assigned (p : BreadthPolicy) (codes : List Text) : Category → List Text
  | .pureSciences =>
    p.withoutOverlap .pureSciences codes ++ (p.overlap codes).take (p.pureShare codes)
  | .appliedSciences =>
    p.withoutOverlap .appliedSciences codes ++ (p.overlap codes).drop (p.pureShare codes)
  | c => p.ofCategory c codes

/-- How far a student with the given courses is with the breadth requirement. -/
def classify (p : BreadthPolicy) (codes : List Text) : BreadthFinding :=
  let counted := countable p.excludedSubjects codes
  { categories := Category.all.map fun c => ⟨c, p.needed c, p.assigned counted c⟩
    note := "" }

end BreadthPolicy

end DegreeAudit
