import DegreeAudit.Course.Basic

/-!
# Requirements

A requirement of a major is a tree. Its leaves pick courses out of a set: every one, any one, a
number of them, or two of a communication list. A node asks for one of several groups, or for the
parts of both communication lists. Every node carries the same `Terms`; which of them matter
depends on its kind.
-/

namespace DegreeAudit

/-- How a leaf picks courses. -/
inductive Pick where
  /-- Every listed course. -/
  | every
  /-- Any one listed course. -/
  | one
  /-- A number of courses out of selected ones. -/
  | ranged
  /-- A number of courses out of selected ones, some of them named. -/
  | several
  /-- Two courses of the first communication list. -/
  | listOne
deriving DecidableEq

namespace Pick

/-- Whether the leaf asks for a number of courses out of selected ones. -/
def counts : Pick → Bool
  | ranged | several => true
  | _ => false

end Pick

/-- The kinds of requirement. -/
inductive Kind where
  | pick (how : Pick)
  | oneGroup
  | bothLists
deriving DecidableEq

namespace Kind

/-- The tag of a kind in documents. -/
def tag : Kind → Text
  | pick .every => "all_required"
  | pick .one => "one_required"
  | pick .ranged => "range_required"
  | pick .several => "n_required"
  | oneGroup => "one_group_required"
  | pick .listOne => "list1_required"
  | bothLists => "list1+list2_required"

/-- The kinds, in the order in which documents introduce them. -/
def all : List Kind :=
  [pick .every, pick .one, pick .ranged, pick .several, oneGroup, pick .listOne, bothLists]

/-- The kind with a tag. -/
def ofTag? (s : Text) : Option Kind := all.find? fun k => k.tag == s

end Kind

/-- What a document says of a requirement beside its kind. -/
structure Terms where
  description : Option Text
  courses : List Course
  count : Option Int
  /-- Codes that must be among the courses counted. -/
  required : List Text
  /-- Selectors such as `MATH135-MATH138` or `CS245`. -/
  range : List Text
  /-- Selectors such as `AFM3` or `CS`. -/
  levelRanges : List Text
  /-- Selectors such as `CO`. -/
  categoryRanges : List Text
  /-- Selectors in the older spelling of level ranges. -/
  patterns : List Text

namespace Terms

/-- How many courses a counting requirement needs. -/
def needed (t : Terms) : Int := t.count.getD 1

end Terms

/-- A requirement of a major. -/
inductive Requirement where
  | pick (how : Pick) (terms : Terms)
  | oneGroup (terms : Terms) (groups : List Requirement)
  | bothLists (terms : Terms) (parts : List Requirement)

namespace Requirement

/-- The kind of a requirement. -/
def kind : Requirement → Kind
  | pick how _ => .pick how
  | oneGroup _ _ => .oneGroup
  | bothLists _ _ => .bothLists

/-- The terms of a requirement. -/
def terms : Requirement → Terms
  | pick _ t => t
  | oneGroup t _ => t
  | bothLists t _ => t

end Requirement

end DegreeAudit
