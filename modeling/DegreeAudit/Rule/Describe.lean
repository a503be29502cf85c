import DegreeAudit.Rule.Basic
import DegreeAudit.Text.Split

/-!
# Describing requirements

A description in the document wins. Without one, the kind and terms of a requirement describe it,
and a choice of groups is described by its groups.
-/

namespace DegreeAudit

open Text

namespace Terms

/-- The codes of the listed courses. -/
def codes (t : Terms) : Text := join ", " (t.courses.map Course.code)

/-- The places that a counting requirement without listed courses takes its courses from. -/
def sources (t : Terms) : List Text :=
  let starts := t.levelRanges ++ t.patterns ++ t.categoryRanges
  (if t.range.isEmpty then [] else [join ", " t.range]) ++
    (if starts.isEmpty then [] else ["any course starting with " ++ join " or " starts])

/-- The description of a counting requirement. -/
def countDescription (t : Terms) : Text :=
  let n := decimal t.needed
  let what : Text :=
    if t.codes ≠ "" then "Complete " ++ n ++ " of " ++ t.codes
    else if t.sources.isEmpty then "Complete " ++ n ++ " courses"
    else "Complete " ++ n ++ " from " ++ join ", or " t.sources
  if t.required.isEmpty then what
  else what ++ " (must include " ++ join ", " t.required ++ ")"

/-- The description of a leaf by its kind and terms. -/
def pickDescription (how : Pick) (t : Terms) : Text :=
  match how with
  | .every => "Complete all of " ++ t.codes
  | .one => "Complete one of " ++ t.codes
  | .listOne => "Complete 2 courses from list 1"
  | .ranged | .several => t.countDescription

/-- The description in the document, or another one if it gives none. -/
def describedAs (t : Terms) (fallback : Text) : Text :=
  match t.description with
  | some s => if s = "" then fallback else s
  | none => fallback

end Terms

namespace Requirement

mutual

/-- The description of a requirement. -/
def describe : Requirement → Text
  | pick how t => t.describedAs (t.pickDescription how)
  | oneGroup t groups =>
    let texts := (describeAll groups).filter fun (s : Text) => s ≠ ""
    t.describedAs
      (if texts.isEmpty then "Complete one of the following options" else join " or " texts)
  | bothLists t _ => t.describedAs "Complete one course from list 1 and one from list 2"

/-- The descriptions of a list of requirements. -/
def describeAll : List Requirement → List Text
  | [] => []
  | r :: rest => describe r :: describeAll rest

end

end Requirement

end DegreeAudit
