import DegreeAudit.Proofs.Derivation
import DegreeAudit.Proofs.Walk

/-!
# Every course is credited once

Auditing requirements passes a list of used keys along. `Credits taken used keys used'` says that
the keys `keys` were credited on the way from `used` to `used'`: they are distinct, they were not
used before, the student has taken them, and `used'` has them and what `used` has.

**Steps.** A leaf credits the keys of the courses that it reports (`credits_leaf`), and what two
audits in a row credit is credited by both together (`Credits.append`). A node reports what its
groups or parts report. Since that is free of repetition already, merging the reports drops nothing
(`takenKeys_merge`).

**Runs.** So the findings of any audit report exactly what is credited (`Audited.credits`), and over
a whole walk no key is credited twice (`Walked.credits`). The main statement is `credited_once`.
-/

namespace DegreeAudit

/-! ## Credit from one list of used keys to the next -/

/-- The keys are credited on the way from one list of used keys to another. -/
structure Credits (taken used keys used' : List Key) : Prop where
  mem_used : ∀ k, k ∈ used' ↔ k ∈ used ∨ k ∈ keys
  nodup : keys.Nodup
  fresh : ∀ k ∈ keys, k ∉ used
  taken : ∀ k ∈ keys, k ∈ taken

theorem Credits.nil (taken used : List Key) : Credits taken used [] used :=
  ⟨by simp, List.nodup_nil, by simp, by simp⟩

/-- What is credited later was not credited before. -/
theorem Credits.append {taken used used₁ used' ks ls : List Key} (h : Credits taken used ks used₁)
    (h' : Credits taken used₁ ls used') : Credits taken used (ks ++ ls) used' where
  mem_used k := by rw [h'.mem_used, h.mem_used, List.mem_append, or_assoc]
  nodup := by
    refine List.nodup_append.mpr ⟨h.nodup, h'.nodup, fun k hk l hl heq => ?_⟩
    subst heq
    exact h'.fresh k hl ((h.mem_used k).mpr (.inr hk))
  fresh k hk := by
    rcases List.mem_append.mp hk with hk | hk
    · exact h.fresh k hk
    · exact fun hused => h'.fresh k hk ((h.mem_used k).mpr (.inl hused))
  taken k hk := (List.mem_append.mp hk).elim (h.taken k) (h'.taken k)

/-! ## Leaves and nodes -/

namespace Requirement

theorem credits_leaf (how : Pick) (t : Terms) (taken used : List Key) {valid : List Course}
    (hvalid : (valid.map Course.key).Nodup) :
    Credits taken used (pickFinding how t taken used valid).takenKeys
      (used ++ how.creditedKeys t (freeOf taken used valid)) := by
  have hfree := nodup_freeOf hvalid taken used
  have hsub : (pickFinding how t taken used valid).taken.Sublist (freeOf taken used valid) :=
    how.credit_sublist t (freeOf taken used valid)
  have hmem : ∀ k ∈ (pickFinding how t taken used valid).takenKeys, k ∈ taken ∧ k ∉ used := by
    intro k hk
    obtain ⟨c, hc, rfl⟩ := List.mem_map.mp hk
    exact (mem_freeOf.mp (hsub.subset hc)).2
  exact {
    mem_used := fun k => by
      rw [List.mem_append, how.mem_creditedKeys t hfree]
      rfl
    nodup := hfree.sublist (hsub.map Course.key)
    fresh := fun k hk => (hmem k hk).2
    taken := fun k hk => (hmem k hk).1 }

/-- Merging the reports of several findings drops nothing if no key is reported twice. -/
theorem takenKeys_merge {gs : List Finding} (h : (gs.flatMap Finding.takenKeys).Nodup) :
    (Course.dedupe [] (gs.flatMap Finding.taken)).map Course.key =
      gs.flatMap Finding.takenKeys := by
  have hmap : (gs.flatMap Finding.taken).map Course.key = gs.flatMap Finding.takenKeys :=
    List.map_flatMap
  rw [Course.dedupe_eq_self (hmap ▸ h) (by simp), hmap]

/-- **Report and credit of a whole audit agree**, whatever the nesting. -/
theorem Audited.credits {s : Student} {items : List Requirement} {used used' : List Key}
    {fs : List Finding} (h : Audited s items used fs used') :
    Credits s.taken used (fs.flatMap Finding.takenKeys) used' := by
  induction h with
  | nil used => exact .nil s.taken used
  | @pick how t _ used _ valid _ hvalid _ ih =>
    exact (credits_leaf how t s.taken used (Terms.nodup_of_candidates hvalid)).append ih
  | oneGroup _ _ ihgroups ih =>
    have hreport := (takenKeys_merge ihgroups.nodup).symm
    exact (hreport ▸ ihgroups).append ih
  | bothLists _ _ ihparts ih =>
    have hreport := (takenKeys_merge ihparts.nodup).symm
    exact (hreport ▸ ihparts).append ih

end Requirement

/-! ## Walks -/

namespace Major

variable {s : Student} {codes : List Text}

theorem Step.credits {w w' : Walk} {r r' : Registry} {sec : Section}
    (h : Step s codes w r sec w' r')
    (hw : Credits s.taken [] (w.progress.findings.flatMap Finding.takenKeys) w.used) :
    Credits s.taken [] (w'.progress.findings.flatMap Finding.takenKeys) w'.used := by
  cases h with
  | requirements h =>
    have hfs := (Requirement.auditAll_eq_ok_iff.mp h).credits
    simpa [Progress.findings] using hw.append hfs
  | communication | breadth | depth => exact hw

end Major

/-! ## Every course is credited once -/

/-- Findings that credit courses of a student, none of them twice. -/
structure CreditedApart (taken : List Key) (fs : List Finding) : Prop where
  nodup : ∀ f ∈ fs, f.takenKeys.Nodup
  apart : fs.Pairwise fun f g => f.takenKeys.Disjoint g.takenKeys
  taken : ∀ f ∈ fs, ∀ k ∈ f.takenKeys, k ∈ taken

theorem Credits.apart {taken used used' : List Key} {fs : List Finding}
    (h : Credits taken used (fs.flatMap Finding.takenKeys) used') : CreditedApart taken fs := by
  obtain ⟨hnodup, hapart⟩ := List.nodup_flatMap.mp h.nodup
  exact ⟨hnodup, hapart, fun f hf k hk => h.taken k (List.mem_flatMap_of_mem hf hk)⟩

/-- **Every course is credited once.** Over a whole audit of a major, the findings of all sections
credit courses of the student, none of them twice. Whatever keys are used at first, an audit of
requirements adds to them exactly the keys credited by its findings, and none of these was used. -/
theorem credited_once :
    (∀ (major : Text) (courses : List Text) (r r' : Registry) (p : Progress),
      Load.run (Major.audit major courses) r = (.ok p, r') →
        CreditedApart (courses.map Code.key) p.findings) ∧
    ∀ (s : Student) (items : List Requirement) (used used' : List Key) (fs : List Finding),
      Requirement.auditAll s items used = (.ok fs, used') →
        CreditedApart s.taken fs ∧ (∀ f ∈ fs, used.Disjoint f.takenKeys) ∧
          ∀ k, k ∈ used' ↔ k ∈ used ∨ ∃ f ∈ fs, k ∈ f.takenKeys := by
  constructor
  · intro major courses r r' p h
    obtain ⟨rules, catalog, r₁, r₂, used, -, -, hwalk⟩ := Major.walked_of_audit h
    have hcredits := (hwalk.keeps Major.Step.credits (Credits.nil _ [])).apart
    exact { hcredits with
      taken := fun f hf k hk => Major.mem_keys_of_mem_student (hcredits.taken f hf k hk) }
  · intro s items used used' fs h
    have hcredits := (Requirement.auditAll_eq_ok_iff.mp h).credits
    refine ⟨hcredits.apart, fun f hf k hused hk => ?_, fun k => ?_⟩
    · exact hcredits.fresh k (List.mem_flatMap_of_mem hf hk) hused
    · rw [hcredits.mem_used, List.mem_flatMap]

/-- A major whose second section accepts courses that its first section has used up. -/
def overlappingRules : RuleSet where
  major := "m"
  excluded := []
  sections := [
    .requirements .required [.pick .every (.listing ["MATH 135"] none),
      .pick .several { Terms.listing ["CS 135", "MATH 135"] (some 1) with required := ["CS 135"] }],
    .requirements .elective [.oneGroup (.listing [] none)
      [.pick .one (.listing ["MATH 135", "CS 135", "CS 136"] none),
        .pick .listOne (.listing ["CS 136", "ENGL 109", "CS 246"] none)]]]

theorem credited_once_overlapping :
    ∃ p r', Load.run (Major.audit "m" ["cs135", "math 135", "CS 136", "CS 246"])
        (.loaded "m" overlappingRules (.ofCourses []) [] []) = (.ok p, r') ∧
      p.findings.map Finding.takenKeys =
        ([["MATH135"], ["CS135"], ["CS136", "CS246"]] : List (List Key)) ∧
      CreditedApart ["CS135", "MATH135", "CS136", "CS246"] p.findings :=
  ⟨_, _, rfl, by decide +kernel, credited_once.1 "m" ["cs135", "math 135", "CS 136", "CS 246"]
    (.loaded "m" overlappingRules (.ofCourses []) [] []) _ _ rfl⟩

end DegreeAudit
