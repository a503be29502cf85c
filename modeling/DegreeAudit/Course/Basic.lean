import DegreeAudit.Course.Code
import DegreeAudit.Fault

/-!
# Courses

A course is a code and a title. Lists of courses are compared by key: `dedupe` keeps the first
course of each key and drops the excluded ones.
-/

namespace DegreeAudit

/-- A course of the catalog or of a rule document. The title is whatever the document gives. -/
structure Course where
  code : Text
  title : Json
deriving Inhabited

namespace Course

/-- The key that a course is compared by. -/
def key (c : Course) : Key := Code.key c.code

/-- A course known by its code only. -/
def untitled (code : Text) : Course := ⟨code, .text ""⟩

/-- The course that the fields of an entry describe. A code that is no text is shown as one. -/
def ofFields (fields : Fields) : Course where
  code := Text.trim ((fields.get? "code").getD (.text "")).display
  title := (fields.get "title").orElse (.text "")

/-- The course that an entry describes: a code, or an object with a code and a title. -/
def ofEntry? : Json → Option Course
  | .text s => some (untitled (Text.trim s))
  | .object fields => some (ofFields fields)
  | _ => none

/-- The course as a JSON object. -/
def toJson (c : Course) : Json := .object [("code", .text c.code), ("title", c.title)]

/-- The courses as a JSON list. -/
def listToJson (courses : List Course) : Json := .list (courses.map toJson)

/-- The courses with a key outside a list, the first of each key only. -/
def dedupe (excluded : List Key) : List Course → List Course
  | [] => []
  | c :: rest =>
    if c.key ∈ excluded then dedupe excluded rest
    else c :: dedupe (c.key :: excluded) rest

theorem not_mem_excluded_of_mem_dedupe {excluded : List Key} {courses : List Course} {c : Course}
    (h : c ∈ dedupe excluded courses) : c.key ∉ excluded := by
  induction courses generalizing excluded with
  | nil => simp [dedupe] at h
  | cons d rest ih =>
    unfold dedupe at h
    split at h
    · exact ih h
    · next hd =>
      rcases List.mem_cons.mp h with rfl | h
      · exact hd
      · exact fun hmem => ih h (List.mem_cons_of_mem _ hmem)

theorem dedupe_sublist (excluded : List Key) (courses : List Course) :
    (dedupe excluded courses).Sublist courses := by
  induction courses generalizing excluded with
  | nil => exact List.Sublist.slnil
  | cons c rest ih =>
    unfold dedupe
    split
    · exact (ih excluded).cons c
    · exact (ih _).cons_cons c

/-- No two courses of a deduplicated list have the same key. -/
theorem nodup_key_dedupe (excluded : List Key) (courses : List Course) :
    ((dedupe excluded courses).map key).Nodup := by
  induction courses generalizing excluded with
  | nil => simp [dedupe]
  | cons c rest ih =>
    unfold dedupe
    split
    · exact ih excluded
    · simp only [List.map_cons, List.nodup_cons, List.mem_map, not_exists, not_and]
      exact ⟨fun d hd hkey => not_mem_excluded_of_mem_dedupe hd (by simp [hkey]), ih _⟩

end Course

end DegreeAudit
