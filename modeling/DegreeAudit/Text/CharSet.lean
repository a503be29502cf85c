import DegreeAudit.Text.Basic

/-!
# Sets of characters given by ranges

A property of characters is tabulated as the list of the ranges of code points that have it, both
ends included. `CharSet.has` decides membership.
-/

namespace DegreeAudit

/-- A set of characters, as ranges of code points with both ends included. -/
abbrev CharSet := List (Nat × Nat)

namespace CharSet

/-- Whether a character lies in one of the ranges. -/
def has (ranges : CharSet) (c : CodePoint) : Bool :=
  ranges.any fun r => decide (r.1 ≤ c.val) && decide (c.val ≤ r.2)

theorem has_iff {ranges : CharSet} {c : CodePoint} :
    ranges.has c = true ↔ ∃ r ∈ ranges, r.1 ≤ c.val ∧ c.val ≤ r.2 := by
  simp [has]

theorem has_append (xs ys : CharSet) (c : CodePoint) :
    (xs ++ ys).has c = (xs.has c || ys.has c) := by
  simp [has]

end CharSet

end DegreeAudit
