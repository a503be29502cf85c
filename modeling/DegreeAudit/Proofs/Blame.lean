import DegreeAudit.Audit.CourseList

/-!
# Whose fault it is

Some faults say that a document is refused or missing. They come from loading documents only: all
that is computed from loaded documents is *blameless*, because its faults say that a value was
misused, that a number cannot be read or that courses are unknown. This is shown of every function
that an audit calls with what was loaded.

Requirements and depth have one fault only, a number that cannot be read: what they compute is
*numeric*, and so blameless.
-/

namespace DegreeAudit

/-! ## Faults of documents -/

/-- Whether a fault says that a document is refused or missing. -/
def Fault.OfDocument : Fault → Prop
  | malformed _ | missing _ => True
  | _ => False

/-- Whether a result is no fault of a document. -/
def Blameless {α : Type} (x : Except Fault α) : Prop := ∀ e, x = .error e → ¬e.OfDocument

section

variable {α β : Type}

theorem blameless_ok (a : α) : Blameless (.ok a) := fun _ h => absurd h (by simp)

theorem blameless_error {e : Fault} (h : ¬e.OfDocument) : Blameless (.error e : Except Fault α) :=
  fun _ heq => Except.error.inj heq ▸ h

theorem Blameless.bind {x : Except Fault α} {f : α → Except Fault β} (h : Blameless x)
    (hf : ∀ a, Blameless (f a)) : Blameless (x >>= f) := by
  cases x with
  | ok a => exact hf a
  | error e => exact blameless_error (h e rfl)

/-- Whether the only fault that a result can have is a number that cannot be read. -/
def Numeric {α : Type} (x : Except Fault α) : Prop := ∀ e, x = .error e → e = .notANumeral

theorem numeric_ok (a : α) : Numeric (.ok a) := fun _ h => absurd h (by simp)

theorem numeric_error {e : Fault} (h : e = .notANumeral) : Numeric (.error e : Except Fault α) :=
  fun _ heq => Except.error.inj heq ▸ h

theorem Numeric.bind {x : Except Fault α} {f : α → Except Fault β} (h : Numeric x)
    (hf : ∀ a, Numeric (f a)) : Numeric (x >>= f) := by
  cases x with
  | ok a => exact hf a
  | error e => exact numeric_error (h e rfl)

theorem Numeric.blameless {x : Except Fault α} (h : Numeric x) : Blameless x := by
  intro e he hdocument
  rw [h e he] at hdocument
  exact hdocument

end

namespace Selector

theorem levelOf_numeric (c : Course) : Numeric (levelOf c) := by
  unfold levelOf
  split
  · exact numeric_ok _
  · exact numeric_error rfl

theorem numberOf_numeric (digits : Text) : Numeric (numberOf digits) := by
  unfold numberOf
  split
  · exact numeric_ok _
  · exact numeric_error rfl

theorem ofRange?_numeric (token : Text) : Numeric (ofRange? token) := by
  unfold ofRange?
  dsimp only
  split
  · exact numeric_ok _
  · split
    · exact numeric_ok _
    · exact numeric_ok _
    · exact (numberOf_numeric _).bind fun _ =>
        (numberOf_numeric _).bind fun _ => numeric_ok _

theorem ofRanges_numeric (tokens : List Text) : Numeric (ofRanges tokens) := by
  induction tokens with
  | nil => exact numeric_ok _
  | cons token rest ih =>
    exact (ofRange?_numeric token).bind fun _ => ih.bind fun _ => numeric_ok _

theorem ofTerms_numeric (t : Terms) : Numeric (ofTerms t) :=
  (ofRanges_numeric t.range).bind fun _ => numeric_ok _

theorem inWindow_numeric (low high : Nat) (c : Course) : Numeric (inWindow low high c) :=
  (levelOf_numeric c).bind fun _ => numeric_ok _

theorem selects_numeric (s : Selector) (c : Course) : Numeric (s.selects c) := by
  cases s with
  | exactly key | subject name | category letters => exact numeric_ok _
  | window letters low high =>
    rw [selects]
    split
    · exact inWindow_numeric low high c
    · exact numeric_ok _
  | hundred name digit =>
    rw [selects]
    split
    · exact inWindow_numeric _ _ c
    · exact numeric_ok _

theorem filterCourses_numeric (s : Selector) (courses : List Course) :
    Numeric (s.filterCourses courses) := by
  induction courses with
  | nil => exact numeric_ok _
  | cons c rest ih =>
    exact (s.selects_numeric c).bind fun _ => ih.bind fun _ => numeric_ok _

end Selector

namespace Catalog

theorem matching_numeric (catalog : Catalog) (selectors : List Selector) :
    Numeric (catalog.matching selectors) := by
  induction selectors with
  | nil => exact numeric_ok _
  | cons s rest ih =>
    exact (s.filterCourses_numeric _).bind fun _ => ih.bind fun _ => numeric_ok _

theorem select_numeric (catalog : Catalog) (excluded : List Key) (t : Terms) :
    Numeric (catalog.select excluded t) :=
  (Selector.ofTerms_numeric t).bind fun selectors =>
    (catalog.matching_numeric selectors).bind fun _ => numeric_ok _

end Catalog

theorem Terms.candidates_numeric (t : Terms) (how : Pick) (catalog : Catalog)
    (excluded : List Key) : Numeric (t.candidates how catalog excluded) := by
  unfold candidates
  split
  · exact (catalog.select_numeric excluded t).bind fun _ => numeric_ok _
  · exact numeric_ok _

namespace Requirement

variable (s : Student)

mutual

theorem audit_numeric : ∀ (r : Requirement) (used : List Key), Numeric (audit s r used).1
  | .pick how t, used => by
    rw [audit]
    split
    · next e he => exact numeric_error (t.candidates_numeric how s.catalog s.excluded e he)
    · exact numeric_ok _
  | .oneGroup t groups, used => by
    rw [audit]
    have hgroups := auditAll_numeric groups used
    split
    · next e used' he =>
      rw [he] at hgroups
      exact numeric_error (hgroups e rfl)
    · exact numeric_ok _
  | .bothLists t parts, used => by
    rw [audit]
    have hparts := auditAll_numeric parts used
    split
    · next e used' he =>
      rw [he] at hparts
      exact numeric_error (hparts e rfl)
    · exact numeric_ok _

theorem auditAll_numeric :
    ∀ (items : List Requirement) (used : List Key), Numeric (auditAll s items used).1
  | [], used => by
    rw [auditAll]
    exact numeric_ok _
  | r :: rest, used => by
    rw [auditAll]
    have hfirst := audit_numeric r used
    split
    · next e used' he =>
      rw [he] at hfirst
      exact numeric_error (hfirst e rfl)
    · next f used' _ =>
      have hrest := auditAll_numeric rest used'
      split
      · next e used'' he =>
        rw [he] at hrest
        exact numeric_error (hrest e rfl)
      · exact numeric_ok _

end

end Requirement

theorem Json.whole_blameless (v : Json) : Blameless v.whole := by
  unfold whole
  split
  · exact blameless_ok _
  · exact blameless_ok _
  · exact blameless_error id
  · exact blameless_error id
  · exact blameless_ok _
  · split
    · exact blameless_ok _
    · exact blameless_error id
  · exact blameless_error id

namespace BreadthPolicy

theorem readSet_blameless (v : Json) : Blameless (readSet v) := by
  unfold readSet
  split
  · exact blameless_ok _
  · split
    · split
      · exact blameless_ok _
      · exact blameless_error id
    · exact blameless_ok _
    · exact blameless_ok _
    · exact blameless_error id

theorem readNeeded_blameless (v : Json) : Blameless (readNeeded v) := by
  unfold readNeeded
  split
  · exact blameless_ok _
  · split
    · exact blameless_ok _
    · exact blameless_error id

theorem neededOf_blameless (overrides : Fields) (c : Category) :
    Blameless (neededOf overrides c) := by
  unfold neededOf
  split
  · exact Json.whole_blameless _
  · exact blameless_ok _

theorem ofFields_blameless (fields : Fields) : Blameless (ofFields fields) := by
  unfold ofFields
  iterate 5 refine (readSet_blameless _).bind fun _ => ?_
  refine (readNeeded_blameless _).bind fun _ => ?_
  iterate 4 refine (neededOf_blameless _ _).bind fun _ => ?_
  exact blameless_ok _

end BreadthPolicy

namespace Depth

theorem anyHigh_numeric (codes : List Text) : Numeric (anyHigh codes) := by
  induction codes with
  | nil => exact numeric_ok _
  | cons code rest ih =>
    unfold anyHigh
    split
    · exact numeric_error rfl
    · split
      · exact numeric_ok _
      · exact ih

theorem firstCounted_numeric (gs : List (Text × List Text)) : Numeric (firstCounted gs) := by
  induction gs with
  | nil => exact numeric_ok _
  | cons g rest ih =>
    obtain ⟨subject, codes⟩ := g
    unfold firstCounted
    split
    · refine (anyHigh_numeric codes).bind fun high => ?_
      cases high with
      | true => exact numeric_ok _
      | false => exact ih
    · exact ih

theorem analyze_numeric (p : BreadthPolicy) (graph : PrereqGraph) (codes : List Text) :
    Numeric (analyze p graph codes) := by
  refine (firstCounted_numeric _).bind fun found => ?_
  cases found with
  | some witness => exact numeric_ok _
  | none => exact numeric_ok _

end Depth

end DegreeAudit
