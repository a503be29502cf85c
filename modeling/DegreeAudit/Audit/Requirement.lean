import DegreeAudit.Audit.Finding
import DegreeAudit.Rule.Describe
import DegreeAudit.Selector

/-!
# Auditing requirements

Requirements are audited in order against one list of used keys. A course that the student has
taken is free for a requirement if it is a candidate and not used; the courses credited to a
requirement are free ones, and become used. So no course is credited twice. A counting requirement
is credited with no more courses than it needs, and leaves the others free for later requirements;
whether it is met is decided on all free candidates.

The used keys are known after a fault too: they are those of the requirements audited before it.
-/

namespace DegreeAudit

/-- What requirements are audited against. -/
structure Student where
  catalog : Catalog
  /-- The keys of the courses taken. -/
  taken : List Key
  /-- The keys of the courses that the major excludes. -/
  excluded : List Key

namespace Terms

/-- The courses that can satisfy a leaf, without the excluded ones. -/
def candidates (t : Terms) (how : Pick) (catalog : Catalog) (excluded : List Key) :
    Except Fault (List Course) :=
  if how.counts then do
    let selected ← catalog.select excluded t
    return Course.dedupe excluded (t.courses ++ selected ++ t.required.map catalog.courseFor)
  else .ok (Course.dedupe excluded t.courses)

/-- The keys of the courses that must be among those counted. -/
def requiredKeys (t : Terms) : List Key := t.required.map Code.key

/-- The keys credited already, and those of further courses in order until enough are credited. -/
def fill (needed : Int) (credited : List Key) : List Course → List Key
  | [] => credited
  | c :: rest =>
    if needed ≤ credited.length then credited
    else if c.key ∈ credited then fill needed credited rest
    else fill needed (credited ++ [c.key]) rest

/-- The keys that a counting requirement credits out of the free courses: the required ones first,
then others up to the number needed. -/
def countedKeys (t : Terms) (free : List Course) : List Key :=
  fill t.needed (t.requiredKeys.filter (· ∈ free.map Course.key)) free

end Terms

namespace Pick

/-- The keys that a leaf credits out of its free courses. -/
def creditedKeys (how : Pick) (t : Terms) (free : List Course) : List Key :=
  match how with
  | every => free.map Course.key
  | one => (free.take 1).map Course.key
  | listOne => (free.take 2).map Course.key
  | ranged | several => t.countedKeys free

/-- The free courses that a leaf reports as credited. -/
def credit (how : Pick) (t : Terms) (free : List Course) : List Course :=
  match how with
  | every => free
  | one => free.take 1
  | listOne => free.take 2
  | ranged | several => free.filter fun c => c.key ∈ t.countedKeys free

/-- Whether a leaf is met, given its free and its remaining candidates. -/
def isMet (how : Pick) (t : Terms) (free remaining : List Course) : Bool :=
  match how with
  | every => remaining.isEmpty
  | one => decide (1 ≤ free.length)
  | listOne => decide (2 ≤ free.length)
  | ranged => decide (t.needed ≤ free.length)
  | several =>
    decide (t.needed ≤ free.length) && t.requiredKeys.all (· ∈ free.map Course.key)

end Pick

namespace Requirement

/-- The courses that can satisfy the node at the root of a requirement. -/
def candidates (r : Requirement) (catalog : Catalog) (excluded : List Key) :
    Except Fault (List Course) :=
  match r with
  | pick how t => t.candidates how catalog excluded
  | r => .ok (Course.dedupe excluded r.terms.courses)

/-- The candidates that a student has taken and that no earlier requirement used. -/
def freeOf (taken used : List Key) (valid : List Course) : List Course :=
  valid.filter fun c => c.key ∈ taken && c.key ∉ used

/-- The finding of a leaf with the given candidates. -/
def pickFinding (how : Pick) (t : Terms) (taken used : List Key) (valid : List Course) : Finding :=
  let free := freeOf taken used valid
  let remaining := valid.filter fun c => c.key ∉ taken
  { description := describe (pick how t)
    kind := .pick how
    taken := how.credit t free
    remaining
    met := how.isMet t free remaining
    satisfiedBy := none
    groups := [] }

/-- The finding of a choice of groups with the given findings. -/
def groupFinding (description : Text) (groups : List Finding) : Finding :=
  let satisfiedBy := groups.findIdx? Finding.complete
  { description
    kind := .oneGroup
    taken := Course.dedupe [] (groups.flatMap (·.taken))
    remaining := Course.dedupe [] (groups.flatMap (·.remaining))
    met := satisfiedBy.isSome
    satisfiedBy
    groups }

/-- The finding of a requirement with parts of the given findings. -/
def partsFinding (description : Text) (parts : List Finding) : Finding :=
  { description
    kind := .bothLists
    taken := Course.dedupe [] (parts.flatMap (·.taken))
    remaining := Course.dedupe [] (parts.flatMap (·.remaining))
    met := parts.all (·.met)
    satisfiedBy := none
    groups := [] }

mutual

/-- Audits a requirement, and gives the keys used by then. -/
def audit (s : Student) : Requirement → List Key → Except Fault Finding × List Key
  | pick how t, used =>
    match t.candidates how s.catalog s.excluded with
    | .error e => (.error e, used)
    | .ok valid =>
      (.ok (pickFinding how t s.taken used valid),
        used ++ how.creditedKeys t (freeOf s.taken used valid))
  | oneGroup t groups, used =>
    match auditAll s groups used with
    | (.error e, used') => (.error e, used')
    | (.ok fs, used') => (.ok (groupFinding (describe (oneGroup t groups)) fs), used')
  | bothLists t parts, used =>
    match auditAll s parts used with
    | (.error e, used') => (.error e, used')
    | (.ok fs, used') => (.ok (partsFinding (describe (bothLists t parts)) fs), used')

/-- Audits requirements in order, and gives the keys used by then. -/
def auditAll (s : Student) : List Requirement → List Key → Except Fault (List Finding) × List Key
  | [], used => (.ok [], used)
  | r :: rest, used =>
    match audit s r used with
    | (.error e, used') => (.error e, used')
    | (.ok f, used') =>
      match auditAll s rest used' with
      | (.error e, used'') => (.error e, used'')
      | (.ok fs, used'') => (.ok (f :: fs), used'')

end

end Requirement

end DegreeAudit
