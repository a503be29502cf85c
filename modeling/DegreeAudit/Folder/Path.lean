import DegreeAudit.Text.Split

/-!
# Paths

A path is a list of parts behind an anchor: none, one slash or two. Empty parts and single dots
drop out when a path is read, so `a//b`, `./a/b` and `a/b/` are one path; two dots stay. Joining an
anchored path to another replaces it.
-/

namespace DegreeAudit

/-- A path. -/
structure Path where
  /-- The slashes that the path starts with: none, one or two. -/
  slashes : Nat
  parts : List Text
deriving DecidableEq, Inhabited

namespace Path

open Text

/-- Whether a part of a text is a part of the path. -/
def isPart (s : Text) : Bool := !s.isEmpty && s != "."

/-- The path that a text writes. -/
def ofText (s : Text) : Path where
  slashes :=
    match (s.takeWhile fun (c : CodePoint) => c == '/').length with
    | 0 => 0
    | 2 => 2
    | _ => 1
  parts := (split '/' s).filter isPart

/-- The text of a path. -/
def toText (p : Path) : Text :=
  if p.slashes = 0 ∧ p.parts = [] then "."
  else List.replicate p.slashes ('/' : CodePoint) ++ join "/" p.parts

/-- The last part of a path, empty if it has none. -/
def name (p : Path) : Text := p.parts.getLast?.getD ""

/-- A path followed by another one. -/
def append (p q : Path) : Path :=
  if q.slashes = 0 then ⟨p.slashes, p.parts ++ q.parts⟩ else q

/-- A path followed by the path that a text writes. -/
def child (p : Path) (s : Text) : Path := p.append (ofText s)

/-- A name without its extension: the characters before the last point, unless the name starts or
ends with it. -/
def stem (name : Text) : Text :=
  match name.reverse.span fun (c : CodePoint) => c != '.' with
  | ([], _) => name
  | (_, []) => name
  | (_, [_]) => name
  | (_, _ :: rest) => rest.reverse

/-- Whether a text is the name of a single part, and no more than that. -/
def isName (s : Text) : Bool := (ofText s).name == s

/-- The greatest number of bytes in a path. -/
def maxBytes : Nat := 4095

theorem not_mem_of_isName {s : Text} (h : isName s = true) : ('/' : CodePoint) ∉ s := by
  have hname : (ofText s).name = s := eq_of_beq h
  rw [← hname, name]
  cases hlast : (ofText s).parts.getLast? with
  | none => exact List.not_mem_nil
  | some part =>
    have hmem : part ∈ (Text.split '/' s).filter isPart := List.mem_of_getLast? hlast
    exact Text.not_mem_of_mem_split (List.mem_filter.mp hmem).1

/-- A text without a slash writes a path of at most one part. -/
theorem ofText_of_not_mem {s : Text} (h : ('/' : CodePoint) ∉ s) :
    ofText s = ⟨0, [s].filter isPart⟩ := by
  have hslashes : (s.takeWhile fun (c : CodePoint) => c == '/') = [] := by
    cases s with
    | nil => rfl
    | cons c cs =>
      rw [List.mem_cons, not_or] at h
      exact List.takeWhile_cons_of_neg (by simp [Ne.symm h.1])
  rw [ofText, hslashes, Text.split_of_not_mem h]
  rfl

/-- A text without a slash adds at most one part to a path. -/
theorem child_of_not_mem (p : Path) {s : Text} (h : ('/' : CodePoint) ∉ s) :
    p.child s = ⟨p.slashes, p.parts ++ [s].filter isPart⟩ := by
  rw [child, append, ofText_of_not_mem h, if_pos rfl]

/-- A text without a slash is the name of a part unless it is a single point. -/
theorem isName_iff {s : Text} (h : ('/' : CodePoint) ∉ s) : isName s = true ↔ s ≠ "." := by
  rw [isName, ofText_of_not_mem h, beq_iff_eq]
  by_cases hpart : isPart s = true
  · have hpoint : s ≠ "." := by
      rintro rfl
      exact absurd hpart (by decide)
    rw [List.filter_cons_of_pos hpart]
    simpa [name] using hpoint
  · rw [List.filter_cons_of_neg hpart, List.filter_nil]
    have hshort : s = [] ∨ s = "." := by
      simpa [isPart, Classical.or_iff_not_imp_left] using hpart
    rcases hshort with rfl | rfl <;> decide

theorem isName_eq_true_iff {s : Text} : isName s = true ↔ s ≠ "." ∧ ('/' : CodePoint) ∉ s := by
  constructor
  · intro h
    have hslash := not_mem_of_isName h
    exact ⟨(isName_iff hslash).mp h, hslash⟩
  · rintro ⟨hpoint, hslash⟩
    exact (isName_iff hslash).mpr hpoint

theorem isName_eq_false_iff {s : Text} : isName s = false ↔ s = "." ∨ ('/' : CodePoint) ∈ s := by
  rw [← Bool.not_eq_true, isName_eq_true_iff]
  simp [Classical.or_iff_not_imp_left]

theorem child_child (p : Path) {parent s : Text} (hparent : ('/' : CodePoint) ∉ parent)
    (hpart : isPart parent = true) (h : ('/' : CodePoint) ∉ s) :
    (p.child parent).child s = ⟨p.slashes, p.parts ++ parent :: [s].filter isPart⟩ := by
  have hfilter : [parent].filter isPart = [parent] := List.filter_eq_self.mpr (by simpa using hpart)
  rw [child_of_not_mem p hparent, hfilter, child_of_not_mem _ h, List.append_assoc,
    List.singleton_append]

end Path

end DegreeAudit
