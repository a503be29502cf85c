import DegreeAudit.Catalog
import DegreeAudit.Proofs.FirstOfKey

/-!
# Collecting and looking up courses

Courses are collected one after the other: each is kept at the end of a list and under its key,
unless the key is excluded or there is a course under it already.

**In step.** At every moment the list is the deduplication of the courses seen so far, and what
stands under a key is the course of the list with that key (`Course.Index.add_of`). So there is no
need for an index beside the list, and what was seen before is known from the list alone.

**The catalog** is collected with the empty key excluded. Whatever is asked of it by a code, it
answers by the key of the code: a code without a key has no course.
-/

namespace DegreeAudit

namespace Course

/-- The courses kept so far, with the course kept under each key. -/
structure Index where
  kept : List Course
  byKey : Key → Option Course

namespace Index

/-- The index of a list: under each key, the first course that has it. -/
def of (kept : List Course) : Index := ⟨kept, fun k => kept.find? fun c => c.key == k⟩

/-- One more course, unless its key is excluded or has a course. -/
def add (excluded : List Key) (s : Index) (c : Course) : Index :=
  if c.key ∈ excluded ∨ (s.byKey c.key).isSome then s
  else ⟨s.kept ++ [c], Function.update s.byKey c.key (some c)⟩

theorem isSome_byKey_of {kept : List Course} {k : Key} :
    ((of kept).byKey k).isSome = true ↔ k ∈ kept.map key := by
  simp [of]

/-- A course with a new key is found under it, and the others where they were. -/
theorem of_append_singleton {kept : List Course} {c : Course} (h : c.key ∉ kept.map key) :
    of (kept ++ [c]) = ⟨kept ++ [c], Function.update (of kept).byKey c.key (some c)⟩ := by
  refine congrArg (Index.mk (kept ++ [c])) (funext fun k => ?_)
  rw [List.find?_append, List.find?_singleton, Function.update_apply]
  by_cases hk : k = c.key
  · have hnone : kept.find? (fun d => d.key == k) = none :=
      Option.not_isSome_iff_eq_none.mp fun hsome => h (hk ▸ isSome_byKey_of.mp hsome)
    rw [hnone, Option.none_or, if_pos hk, if_pos (beq_iff_eq.mpr hk.symm)]
  · rw [if_neg hk, if_neg (by simpa using Ne.symm hk), Option.or_none]
    rfl

/-- **One course.** The list is deduplicated and the index is that of the list, before and after. -/
theorem add_of (excluded : List Key) (seen : List Course) (c : Course) :
    add excluded (of (dedupe excluded seen)) c = of (dedupe excluded (seen ++ [c])) := by
  rw [dedupe_append, dedupe, dedupe, dedupe, add]
  by_cases hc : c.key ∈ excluded
  · rw [if_pos (.inl hc), if_pos (List.mem_append_right _ hc), List.append_nil]
  · have hseen : ((of (dedupe excluded seen)).byKey c.key).isSome = true ↔
        c.key ∈ seen.map key := by
      rw [isSome_byKey_of, mem_keys_dedupe, and_iff_left hc]
    by_cases hs : c.key ∈ seen.map key
    · rw [if_pos (.inr (hseen.mpr hs)), if_pos (List.mem_append_left _ hs), List.append_nil]
    · have hnew : c.key ∉ (dedupe excluded seen).map key := fun h => hs (mem_keys_dedupe.mp h).1
      rw [if_neg (not_or.mpr ⟨hc, mt hseen.mp hs⟩),
        if_neg (List.mem_append.not.mpr (not_or.mpr ⟨hs, hc⟩)), of_append_singleton hnew]
      rfl

/-- **A run of courses.** It does not matter how many were seen before. -/
theorem foldl_add (excluded : List Key) (seen courses : List Course) :
    courses.foldl (add excluded) (of (dedupe excluded seen)) =
      of (dedupe excluded (seen ++ courses)) := by
  induction courses generalizing seen with
  | nil => rw [List.foldl_nil, List.append_nil]
  | cons c rest ih => rw [List.foldl_cons, add_of, ih, List.append_assoc, List.singleton_append]

theorem foldl_add_nil (excluded : List Key) (courses : List Course) :
    courses.foldl (add excluded) (of []) = of (dedupe excluded courses) :=
  foldl_add excluded [] courses

end Index

end Course

namespace Catalog

open Course

theorem has_iff {catalog : Catalog} {code : Text} :
    catalog.has code = true ↔ Code.key code ∈ catalog.courses.map key :=
  Index.isSome_byKey_of

theorem find?_eq_some_iff {catalog : Catalog} {code : Text} {c : Course} :
    catalog.find? code = some c ↔ c ∈ catalog.courses ∧ c.key = Code.key code := by
  constructor
  · intro h
    have hbeq : (c.key == Code.key code) = true :=
      List.find?_some (p := fun d : Course => d.key == Code.key code) h
    exact ⟨List.mem_of_find?_eq_some h, eq_of_beq hbeq⟩
  · rintro ⟨hmem, hkey⟩
    rw [find?, ← hkey]
    exact find?_of_nodup_map catalog.nodup hmem

theorem unknown_eq (catalog : Catalog) (codes : List Text) :
    catalog.unknown codes = codes.filter fun code => Code.key code ∉ catalog.courses.map key := by
  refine List.filter_congr fun code _ => ?_
  simp only [← has_iff, Bool.not_eq_true, Bool.decide_eq_false]

/-- A code has the first course with its key, unless the key is empty. -/
theorem find?_ofCourses (courses : List Course) (code : Text) :
    (ofCourses courses).find? code =
      if Code.key code = "" then none else courses.find? fun c => c.key == Code.key code := by
  split
  · next hempty =>
    rw [find?, List.find?_eq_none]
    exact fun c hc hbeq => (ofCourses courses).keyed c hc ((eq_of_beq hbeq).trans hempty)
  · next hne => exact Course.find?_dedupe (by simpa using hne) courses

/-- **The first course of each key is kept.** Whatever courses there are and whatever codes are
excluded, in any spelling, deduplication gives the one list that has the first course of each key
that is not excluded, in order, and it is what the courses are collected to one by one. To
deduplicate twice changes nothing, nor does it matter whether the parts of a list are deduplicated
first. The catalog is the same with the empty key excluded, and by any text it has, finds and misses
the courses of the list according to their keys. -/
theorem first_courses_kept (codes : List Text) (courses : List Course) :
    (∀ kept, KeepsFirsts (codes.map Code.key) courses kept ↔
      kept = dedupe (codes.map Code.key) courses) ∧
    courses.foldl (Index.add (codes.map Code.key)) (.of []) =
      .of (dedupe (codes.map Code.key) courses) ∧
    dedupe (codes.map Code.key) (dedupe (codes.map Code.key) courses) =
      dedupe (codes.map Code.key) courses ∧
    (∀ parts : List (List Course),
      dedupe (codes.map Code.key) (parts.map (dedupe (codes.map Code.key))).flatten =
        dedupe (codes.map Code.key) parts.flatten) ∧
    (∀ kept, KeepsFirsts [""] courses kept ↔ kept = (ofCourses courses).courses) ∧
    courses.foldl (Index.add [""]) (.of []) = .of (ofCourses courses).courses ∧
    (∀ code, (ofCourses courses).has code = true ↔
      Code.key code ∈ (ofCourses courses).courses.map key) ∧
    (∀ code c, (ofCourses courses).find? code = some c ↔
      c ∈ (ofCourses courses).courses ∧ c.key = Code.key code) ∧
    ∀ asked : List Text, (ofCourses courses).unknown asked =
      asked.filter fun code => Code.key code ∉ (ofCourses courses).courses.map key := by
  exact ⟨fun _ => keepsFirsts_iff, Index.foldl_add_nil _ courses, dedupe_dedupe _ courses,
    dedupe_flatten (List.Subset.refl _), fun _ => keepsFirsts_iff,
    Index.foldl_add_nil [""] courses, fun _ => has_iff, fun _ _ => find?_eq_some_iff, unknown_eq _⟩

end Catalog

end DegreeAudit
