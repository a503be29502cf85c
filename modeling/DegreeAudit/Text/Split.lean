import DegreeAudit.Text.Basic

/-!
# Cutting and joining texts

`split` cuts a text at every occurrence of a character, `before` at the first occurrence of a
mark. `join` puts a separator between texts, and undoes `split` (`join_split`).
-/

namespace DegreeAudit.Text

/-- The parts of a text between the occurrences of a character; a text without one is one part. -/
def split (sep : CodePoint) : Text → List Text
  | [] => [[]]
  | c :: cs =>
    if c = sep then [] :: split sep cs
    else
      match split sep cs with
      | [] => [[c]]
      | part :: parts => (c :: part) :: parts

/-- The part of a text before the first occurrence of a character, and the part after it if there
is an occurrence. -/
def cut (sep : CodePoint) : Text → Text × Option Text
  | [] => ([], none)
  | c :: cs =>
    if c = sep then ([], some cs)
    else ((c :: (cut sep cs).1), (cut sep cs).2)

/-- Whether a mark occurs in a text. -/
def mentions (mark : Text) : Text → Bool
  | [] => mark.isEmpty
  | c :: cs => mark.isPrefixOf (c :: cs) || mentions mark cs

/-- The part of a text before the first occurrence of a mark; the whole text if there is none. -/
def before (mark : Text) : Text → Text
  | [] => []
  | c :: cs => if mark.isPrefixOf (c :: cs) then [] else c :: before mark cs

/-- The texts one after the other with a separator between neighbours. -/
def join (sep : Text) (parts : List Text) : Text := List.intercalate sep parts

/-- The text filled up with spaces on the right to a width. -/
def padRight (width : Nat) (s : Text) : Text :=
  s ++ List.replicate (width - s.length) (' ' : CodePoint)

theorem split_ne_nil (sep : CodePoint) (cs : Text) : split sep cs ≠ [] := by
  cases cs with
  | nil => simp [split]
  | cons c cs =>
    unfold split
    split
    · simp
    · split <;> simp

/-- Cutting a text at a character and joining the parts with it gives the text back. -/
theorem join_split (sep : CodePoint) (cs : Text) : join [sep] (split sep cs) = cs := by
  induction cs with
  | nil => rfl
  | cons c cs ih =>
    have hne := split_ne_nil sep cs
    unfold split
    match h : split sep cs with
    | [] => exact absurd h hne
    | part :: parts =>
      rw [h] at ih
      by_cases hc : c = sep
      · subst hc
        simpa [join, List.intercalate] using congrArg (List.cons c) ih
      · cases parts <;> simp_all [join, List.intercalate]

theorem not_mem_of_mem_split {sep : CodePoint} {cs part : Text} (h : part ∈ split sep cs) :
    sep ∉ part := by
  induction cs generalizing part with
  | nil =>
    obtain rfl := List.mem_singleton.mp h
    exact List.not_mem_nil
  | cons c cs ih =>
    unfold split at h
    by_cases hc : c = sep
    · rw [if_pos hc] at h
      rcases List.mem_cons.mp h with rfl | h
      · exact List.not_mem_nil
      · exact ih h
    · rw [if_neg hc] at h
      cases hsplit : split sep cs with
      | nil => exact absurd hsplit (split_ne_nil sep cs)
      | cons first rest =>
        rw [hsplit] at h ih
        rcases List.mem_cons.mp h with rfl | h
        · have hfirst := ih List.mem_cons_self
          simp [hfirst, Ne.symm hc]
        · exact ih (List.mem_cons_of_mem first h)

theorem split_of_not_mem {sep : CodePoint} {cs : Text} (h : sep ∉ cs) :
    split sep cs = [cs] := by
  induction cs with
  | nil => rfl
  | cons c cs ih =>
    rw [List.mem_cons, not_or] at h
    rw [split, if_neg (Ne.symm h.1), ih h.2]

/-- Two texts with a separator between them are cut one after the other. -/
theorem split_append (sep : CodePoint) (s t : Text) :
    split sep (s ++ sep :: t) = split sep s ++ split sep t := by
  induction s with
  | nil => simp [split]
  | cons c s ih =>
    rw [List.cons_append, split, split]
    by_cases hc : c = sep
    · rw [if_pos hc, if_pos hc, ih, List.cons_append]
    · rw [if_neg hc, if_neg hc, ih]
      cases hsplit : split sep s with
      | nil => exact absurd hsplit (split_ne_nil sep s)
      | cons part parts => rfl

end DegreeAudit.Text
