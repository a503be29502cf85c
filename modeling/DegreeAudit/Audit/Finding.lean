import DegreeAudit.Catalog
import DegreeAudit.Rule.Basic

/-!
# Findings

A finding says how far a student is with one requirement: the courses credited to it, the
candidates not taken, and whether it is met. The finding of a choice of groups has the findings of
its groups, and the first of them that satisfies it.
-/

namespace DegreeAudit

/-- How far a student is with a requirement. -/
structure Finding where
  description : Text
  kind : Kind
  /-- The courses credited to this requirement. -/
  taken : List Course
  /-- The candidates that the student has not taken. -/
  remaining : List Course
  met : Bool
  /-- The index of the first group that is met with nothing remaining. -/
  satisfiedBy : Option Nat
  groups : List Finding

namespace Finding

/-- Whether a group with this finding satisfies a choice of groups. -/
def complete (f : Finding) : Bool := f.met && f.remaining.isEmpty

theorem complete_iff {f : Finding} : f.complete = true ↔ f.met = true ∧ f.remaining = [] := by
  rw [complete, Bool.and_eq_true, List.isEmpty_iff]

/-- The keys of the courses credited. -/
def takenKeys (f : Finding) : List Key := f.taken.map Course.key

mutual

/-- The finding as a JSON object. -/
def toJson : Finding → Json
  | ⟨description, kind, taken, remaining, met, satisfiedBy, groups⟩ =>
    let below : Fields :=
      if groups.isEmpty then []
      else
        [("satisfied_by_group", match satisfiedBy with
            | some i => .int i
            | none => .null),
          ("groups", .list (listToJson groups))]
    .object (("description", .text description) :: ("type", .text kind.tag) ::
      ("courses_taken", Course.listToJson taken) ::
      ("courses_remaining", Course.listToJson remaining) :: ("met", .bool met) :: below)

/-- The findings as JSON objects. -/
def listToJson : List Finding → List Json
  | [] => []
  | f :: rest => toJson f :: listToJson rest

end

end Finding

end DegreeAudit
