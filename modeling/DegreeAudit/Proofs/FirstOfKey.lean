import DegreeAudit.Course.Basic
import Mathlib.Data.List.Nodup
import Mathlib.Data.List.Sort

/-!
# The first course of each key

A deduplicated list has of each key the first course that the list has, unless the key is excluded
(`Course.mem_dedupe_iff`), and it keeps these courses in their order. Where a list is not free of
repetition, order is a matter of first occurrences: `Course.placeIn` is the place at which the key
of a course first occurs. The two together leave no other list (`Course.keepsFirsts_iff`).

**Two lists in a row.** The second one is deduplicated as if the keys of the first were excluded
(`Course.dedupe_append`). So what is collected from several sources can be followed source by
source.

**Twice.** What was dropped would have been dropped later in any case, so it does not matter whether
the sources were deduplicated before they were put in a row (`Course.dedupe_flatten`).
-/

namespace DegreeAudit

theorem find?_of_nodup_map {α β : Type} [BEq β] [LawfulBEq β] {f : α → β} {xs : List α} {a : α}
    (hnodup : (xs.map f).Nodup) (ha : a ∈ xs) : xs.find? (fun x => f x == f a) = some a := by
  induction xs with
  | nil => cases ha
  | cons b rest ih =>
    rw [List.map_cons, List.nodup_cons] at hnodup
    rw [List.find?_cons]
    rcases List.mem_cons.mp ha with rfl | ha
    · rw [beq_self_eq_true]
    · have hne : f b ≠ f a := fun heq => hnodup.1 (heq ▸ List.mem_map_of_mem ha)
      rw [beq_false_of_ne hne]
      exact ih hnodup.2 ha

namespace Course

/-! ## Members -/

theorem map_key_dedupe (excluded : List Key) (courses : List Course) :
    (dedupe excluded courses).map key =
      ((courses.map key).filter fun k => k ∉ excluded).eraseDups := by
  induction courses generalizing excluded with
  | nil => rfl
  | cons c rest ih =>
    unfold dedupe
    by_cases hc : c.key ∈ excluded
    · rw [if_pos hc, List.map_cons, List.filter_cons_of_neg (by simpa using hc), ih]
    · rw [if_neg hc, List.map_cons, List.map_cons, List.filter_cons_of_pos (by simpa using hc),
        List.eraseDups_cons, List.filter_filter, ih]
      congr 2
      refine List.filter_congr fun k _ => ?_
      by_cases hk : k = c.key <;> simp [hk]

theorem mem_keys_dedupe {excluded : List Key} {courses : List Course} {k : Key} :
    k ∈ (dedupe excluded courses).map key ↔ k ∈ courses.map key ∧ k ∉ excluded := by
  rw [map_key_dedupe, List.mem_eraseDups, List.mem_filter, decide_eq_true_eq]

/-- The course of a key that is not excluded is the first with it. -/
theorem find?_dedupe {excluded : List Key} {k : Key} (hk : k ∉ excluded) (courses : List Course) :
    (dedupe excluded courses).find? (fun c => c.key == k) =
      courses.find? fun c => c.key == k := by
  induction courses generalizing excluded with
  | nil => rfl
  | cons c rest ih =>
    unfold dedupe
    by_cases hkey : c.key = k
    · have hc : c.key ∉ excluded := hkey ▸ hk
      rw [if_neg hc, List.find?_cons, List.find?_cons, beq_iff_eq.mpr hkey]
    · have hrest : (c :: rest).find? (fun c => c.key == k) = rest.find? fun c => c.key == k :=
        List.find?_cons_of_neg (by simpa using hkey)
      rw [hrest]
      by_cases hc : c.key ∈ excluded
      · rw [if_pos hc]
        exact ih hk
      · rw [if_neg hc, List.find?_cons, beq_false_of_ne hkey]
        exact ih fun hmem => (List.mem_cons.mp hmem).elim (fun h => hkey h.symm) hk

/-- **The first of each key** is kept, unless the key is excluded. -/
theorem mem_dedupe_iff {excluded : List Key} {courses : List Course} {c : Course} :
    c ∈ dedupe excluded courses ↔
      courses.find? (fun d => d.key == c.key) = some c ∧ c.key ∉ excluded := by
  constructor
  · intro h
    have hc := not_mem_excluded_of_mem_dedupe h
    rw [← find?_dedupe hc]
    exact ⟨find?_of_nodup_map (nodup_key_dedupe excluded courses) h, hc⟩
  · rintro ⟨hfirst, hc⟩
    rw [← find?_dedupe hc] at hfirst
    exact List.mem_of_find?_eq_some hfirst

theorem dedupe_eq_filter {courses : List Course} (hnodup : (courses.map key).Nodup)
    (excluded : List Key) :
    dedupe excluded courses = courses.filter fun c => c.key ∉ excluded := by
  induction courses generalizing excluded with
  | nil => rfl
  | cons c rest ih =>
    rw [List.map_cons, List.nodup_cons] at hnodup
    unfold dedupe
    split
    · next hc => rw [List.filter_cons_of_neg (by simpa using hc), ih hnodup.2]
    · next hc =>
      rw [List.filter_cons_of_pos (by simpa using hc), ih hnodup.2]
      refine congrArg (c :: ·) (List.filter_congr fun d hd => ?_)
      have hne : d.key ≠ c.key := fun h => hnodup.1 (h ▸ List.mem_map_of_mem hd)
      simp [hne]

theorem dedupe_eq_self {excluded : List Key} {courses : List Course}
    (hnodup : (courses.map key).Nodup) (hex : ∀ c ∈ courses, c.key ∉ excluded) :
    dedupe excluded courses = courses := by
  rw [dedupe_eq_filter hnodup, List.filter_eq_self]
  exact fun c hc => decide_eq_true (hex c hc)

theorem dedupe_nil_eq_nil_iff {courses : List Course} : dedupe [] courses = [] ↔ courses = [] := by
  cases courses <;> simp [dedupe]

/-! ## Lists in a row -/

/-- Only the excluded keys that occur matter. -/
theorem dedupe_congr {excluded excluded' : List Key} {courses : List Course}
    (h : ∀ k ∈ courses.map key, k ∈ excluded ↔ k ∈ excluded') :
    dedupe excluded courses = dedupe excluded' courses := by
  induction courses generalizing excluded excluded' with
  | nil => rfl
  | cons c rest ih =>
    rw [List.map_cons, List.forall_mem_cons] at h
    unfold dedupe
    by_cases hc : c.key ∈ excluded
    · rw [if_pos hc, if_pos (h.1.mp hc), ih h.2]
    · rw [if_neg hc, if_neg (mt h.1.mpr hc)]
      refine congrArg (c :: ·) (ih fun k hk => ?_)
      rw [List.mem_cons, List.mem_cons, h.2 k hk]

theorem dedupe_append (excluded : List Key) (xs ys : List Course) :
    dedupe excluded (xs ++ ys) = dedupe excluded xs ++ dedupe (xs.map key ++ excluded) ys := by
  induction xs generalizing excluded with
  | nil => rfl
  | cons c rest ih =>
    rw [List.cons_append, dedupe, dedupe, List.map_cons]
    split
    · next hc =>
      rw [ih]
      refine congrArg (_ ++ ·) (dedupe_congr fun k _ => ?_)
      simp only [List.cons_append, List.mem_cons, List.mem_append]
      exact ⟨.inr, fun h => h.elim (fun hk => .inr (hk ▸ hc)) id⟩
    · rw [ih, List.cons_append]
      refine congrArg (fun t => c :: (_ ++ t)) (dedupe_congr fun k _ => ?_)
      simp only [List.cons_append, List.mem_cons, List.mem_append, or_left_comm]

/-! ## Twice -/

/-- What more keys exclude need not be there before. -/
theorem dedupe_dedupe_of_subset {excluded excluded' : List Key} (h : excluded ⊆ excluded')
    (courses : List Course) :
    dedupe excluded' (dedupe excluded courses) = dedupe excluded' courses := by
  induction courses generalizing excluded excluded' with
  | nil => rfl
  | cons c rest ih =>
    rw [dedupe]
    by_cases hc : c.key ∈ excluded
    · rw [if_pos hc, ih h, dedupe, if_pos (h hc)]
    · rw [if_neg hc, dedupe, dedupe]
      split
      · next hc' => exact ih (List.cons_subset.mpr ⟨hc', h⟩)
      · exact congrArg (c :: ·) (ih (List.cons_subset_cons _ h))

theorem dedupe_dedupe (excluded : List Key) (courses : List Course) :
    dedupe excluded (dedupe excluded courses) = dedupe excluded courses :=
  dedupe_dedupe_of_subset (List.Subset.refl _) courses

/-- It does not matter whether the parts of a list are deduplicated before the list is, as long as
they lose no more courses than the list does. -/
theorem dedupe_flatten {excluded excluded' : List Key} (h : excluded ⊆ excluded')
    (parts : List (List Course)) :
    dedupe excluded' (parts.map (dedupe excluded)).flatten = dedupe excluded' parts.flatten := by
  induction parts generalizing excluded' with
  | nil => rfl
  | cons part rest ih =>
    rw [List.map_cons, List.flatten_cons, List.flatten_cons, dedupe_append, dedupe_append,
      dedupe_dedupe_of_subset h, ih (List.subset_append_of_subset_right _ h)]
    -- A key of the part that the part lost is excluded all the same.
    refine congrArg (_ ++ ·) (dedupe_congr fun k _ => ?_)
    rw [List.mem_append, List.mem_append, mem_keys_dedupe, and_or_right]
    exact and_iff_left_of_imp fun _ => (Decidable.em (k ∈ excluded)).elim (.inr ∘ (h ·)) .inl

/-! ## Order -/

/-- The place at which the key of a course first occurs. -/
def placeIn (courses : List Course) (c : Course) : Nat := courses.findIdx fun d => d.key == c.key

theorem placeIn_cons (c : Course) (rest : List Course) (d : Course) :
    placeIn (c :: rest) d = if c.key = d.key then 0 else placeIn rest d + 1 := by
  rw [placeIn, List.findIdx_cons, placeIn]
  by_cases h : c.key = d.key
  · rw [if_pos h, beq_iff_eq.mpr h, cond_true]
  · rw [if_neg h, beq_false_of_ne h, cond_false]

/-- The courses of a list without repetition stand in the order of their places. -/
theorem pairwise_placeIn_of_nodup {courses : List Course} (hnodup : (courses.map key).Nodup) :
    courses.Pairwise fun c d => placeIn courses c < placeIn courses d := by
  induction courses with
  | nil => exact .nil
  | cons c rest ih =>
    rw [List.map_cons, List.nodup_cons] at hnodup
    have hne : ∀ d ∈ rest, c.key ≠ d.key := fun d hd h =>
      hnodup.1 (h ▸ List.mem_map_of_mem hd)
    refine List.pairwise_cons.mpr ⟨fun d hd => ?_, (ih hnodup.2).imp_of_mem ?_⟩
    · rw [placeIn_cons, placeIn_cons, if_pos rfl, if_neg (hne d hd)]
      exact Nat.succ_pos _
    · intro d e hd he hlt
      rw [placeIn_cons, placeIn_cons, if_neg (hne d hd), if_neg (hne e he)]
      exact Nat.succ_lt_succ hlt

/-- A deduplicated list keeps the order in which the keys first occur. -/
theorem pairwise_placeIn_dedupe (excluded : List Key) (courses : List Course) :
    (dedupe excluded courses).Pairwise fun c d => placeIn courses c < placeIn courses d := by
  induction courses generalizing excluded with
  | nil => exact .nil
  | cons c rest ih =>
    -- Among courses with other keys than the first one, the order is that of the rest.
    have hlater : ∀ ex : List Key, c.key ∈ ex →
        (dedupe ex rest).Pairwise fun d e => placeIn (c :: rest) d < placeIn (c :: rest) e := by
      intro ex hex
      refine (ih ex).imp_of_mem fun {d e} hd he hlt => ?_
      have hd' : c.key ≠ d.key := fun h => not_mem_excluded_of_mem_dedupe hd (h ▸ hex)
      have he' : c.key ≠ e.key := fun h => not_mem_excluded_of_mem_dedupe he (h ▸ hex)
      rw [placeIn_cons, placeIn_cons, if_neg hd', if_neg he']
      exact Nat.succ_lt_succ hlt
    rw [dedupe]
    split
    · next hc => exact hlater excluded hc
    · refine List.pairwise_cons.mpr ⟨fun d hd => ?_, hlater _ List.mem_cons_self⟩
      have hd' : c.key ≠ d.key := fun h =>
        not_mem_excluded_of_mem_dedupe hd (h ▸ List.mem_cons_self)
      rw [placeIn_cons, placeIn_cons, if_pos rfl, if_neg hd']
      exact Nat.succ_pos _

/-- Whether a list has the first course of each key of another one, in order, and none of an
excluded key. -/
structure KeepsFirsts (excluded : List Key) (courses kept : List Course) : Prop where
  sublist : kept.Sublist courses
  nodup : (kept.map key).Nodup
  keys : ∀ k, k ∈ kept.map key ↔ k ∈ courses.map key ∧ k ∉ excluded
  first : ∀ c ∈ kept, courses.find? (fun d => d.key == c.key) = some c
  inOrder : kept.Pairwise fun c d => placeIn courses c < placeIn courses d

theorem keepsFirsts_dedupe (excluded : List Key) (courses : List Course) :
    KeepsFirsts excluded courses (dedupe excluded courses) where
  sublist := dedupe_sublist excluded courses
  nodup := nodup_key_dedupe excluded courses
  keys _ := mem_keys_dedupe
  first _ hc := (mem_dedupe_iff.mp hc).1
  inOrder := pairwise_placeIn_dedupe excluded courses

theorem KeepsFirsts.mem_iff {excluded : List Key} {courses kept : List Course}
    (h : KeepsFirsts excluded courses kept) {c : Course} :
    c ∈ kept ↔ courses.find? (fun d => d.key == c.key) = some c ∧ c.key ∉ excluded := by
  constructor
  · intro hc
    exact ⟨h.first c hc, ((h.keys _).mp (List.mem_map_of_mem hc)).2⟩
  · rintro ⟨hfirst, hc⟩
    have hkey := List.mem_map_of_mem (f := key) (List.mem_of_find?_eq_some hfirst)
    obtain ⟨d, hd, heq⟩ := List.mem_map.mp ((h.keys _).mpr ⟨hkey, hc⟩)
    have hd' := h.first d hd
    rw [heq, hfirst] at hd'
    exact Option.some.inj hd' ▸ hd

/-- **Deduplication is the one list** that keeps the first of each key in order. -/
theorem keepsFirsts_iff {excluded : List Key} {courses kept : List Course} :
    KeepsFirsts excluded courses kept ↔ kept = dedupe excluded courses := by
  constructor
  · intro h
    have : Std.Irrefl fun c d => placeIn courses c < placeIn courses d := ⟨fun _ => lt_irrefl _⟩
    have : Std.Antisymm fun c d => placeIn courses c < placeIn courses d :=
      ⟨fun _ _ hlt hgt => absurd hgt hlt.asymm⟩
    exact h.inOrder.eq_of_mem_iff (pairwise_placeIn_dedupe excluded courses) fun c => by
      rw [h.mem_iff, mem_dedupe_iff]
  · rintro rfl
    exact keepsFirsts_dedupe excluded courses

end Course

end DegreeAudit
