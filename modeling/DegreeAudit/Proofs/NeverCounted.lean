import DegreeAudit.Proofs.DepthSearch
import DegreeAudit.Proofs.FixedForm
import DegreeAudit.Proofs.Spelling

/-!
# Courses that may not count

The courses of the first communication list and the excluded courses of a major may not count for
breadth or depth. Both are kept out of the list of courses before breadth and depth are audited: the
excluded courses by the key of the text that was given, the others by its canonical form. A course
is counted under its canonical form, though, or in a chain under the key of that form.

**What is kept out.** Every code that is counted stands for a course of the list that passed both
filters (`Major.Step.counts`). It can still have the key of a forbidden course, in two ways only:
the text is not read as a course code, so that blanks inside it hide a course of the communication
list; or it has needless zeros, which hide an excluded course (`CountedAs.hidden_by_blanks`,
`CountedAs.hidden_by_zeros`).

**What gets through.** Both ways are real. A list of courses keeps all forbidden courses out, for
all majors and documents, exactly if none of its texts hides a course in one of them
(`forbidden_courses_kept_out`).
-/

namespace DegreeAudit

/-! ## Counted codes -/

/-- The courses of a witness as it reports them, by code or by key. -/
def DepthWitness.codes : DepthWitness → List Text
  | courses _ codes => codes
  | chain _ keys => keys

/-- The codes that are counted in the categories of a breadth finding. -/
def BreadthFinding.counted (f : BreadthFinding) : List Text := f.categories.flatMap (·.taken)

/-- The codes that a depth finding shows. -/
def DepthFinding.counted (f : DepthFinding) : List Text := f.witness.toList.flatMap (·.codes)

/-- The codes that count for breadth or depth. -/
def Progress.counted (p : Progress) : List Text :=
  p.breadth.toList.flatMap (·.counted) ++ p.depth.toList.flatMap (·.counted)

/-- Whether a code has the key of a course that may not count for a major. -/
def RuleSet.Forbids (rules : RuleSet) (code : Text) : Prop :=
  Code.key code ∈ neverCounted.map Code.key ∨ Code.key code ∈ rules.excludedKeys

instance (rules : RuleSet) (code : Text) : Decidable (rules.Forbids code) :=
  inferInstanceAs (Decidable (_ ∨ _))

/-- A code is counted for a course of the list: it has the key of its canonical form, which passed
the filter for the communication list. -/
structure CountedAs (c code : Text) : Prop where
  key : Code.key code = Code.key (Code.canonical c)
  passed : Code.canonical c ∉ neverCounted

theorem canonical_of_mem_neverCounted :
    ∀ code ∈ neverCounted, Code.canonical code = code ∧ Code.IsShaped code := by
  decide +kernel

namespace CountedAs

variable {c code : Text}

/-- **Blanks.** Only a text that is not read as a course code hides a course of the communication
list. -/
theorem hidden_by_blanks (h : CountedAs c code)
    (hforbidden : Code.key code ∈ neverCounted.map Code.key) : ¬Code.IsShaped c := by
  intro hshaped
  obtain ⟨listed, hlisted, hkey⟩ := List.mem_map.mp hforbidden
  obtain ⟨hcanonical, hlistedShaped⟩ := canonical_of_mem_neverCounted listed hlisted
  have hsame : Code.canonical (Code.canonical c) = Code.canonical listed :=
    (Code.canonical_eq_iff (h.key.symm.trans hkey.symm)).mpr
      (.inr ⟨Code.isShaped_canonical.mpr hshaped, hlistedShaped⟩)
  rw [Code.canonical_canonical, hcanonical] at hsame
  exact h.passed (hsame ▸ hlisted)

/-- **Zeros.** Only a text with needless zeros hides an excluded course. -/
theorem hidden_by_zeros (h : CountedAs c code) {excluded : List Key}
    (hadmitted : Code.key c ∉ excluded) (hforbidden : Code.key code ∈ excluded) :
    Code.HasNeedlessZeros c := by
  by_contra hno
  rw [h.key, Code.key_canonical_eq_iff.mpr hno] at hforbidden
  exact hadmitted hforbidden

end CountedAs

/-! ## Breadth and depth -/

theorem exists_countedAs_of_mem_countable {excluded codes : List Text} {code : Text}
    (h : code ∈ countable excluded codes) : ∃ c ∈ codes, CountedAs c code := by
  obtain ⟨hcount, c, hc, rfl⟩ := mem_countable.mp h
  have hpassed : Code.canonical c ∉ neverCounted := by
    simp only [isCountable, Bool.and_eq_true, decide_eq_true_eq] at hcount
    exact hcount.2
  exact ⟨c, hc, rfl, hpassed⟩

theorem BreadthPolicy.assigned_subset (p : BreadthPolicy) (codes : List Text) (c : Category) :
    p.assigned codes c ⊆ codes := by
  have hcategory : ∀ c, p.ofCategory c codes ⊆ codes := fun _ => List.filter_subset_self _
  have halone : ∀ c, p.withoutOverlap c codes ⊆ codes :=
    fun c => List.Subset.trans (List.filter_subset_self _) (hcategory c)
  have hoverlap : p.overlap codes ⊆ codes := List.filter_subset_self _
  cases c with
  | humanities => exact hcategory .humanities
  | socialSciences => exact hcategory .socialSciences
  | pureSciences =>
    have htake := List.Subset.trans (List.take_subset (p.pureShare codes) _) hoverlap
    exact List.append_subset.mpr ⟨halone .pureSciences, htake⟩
  | appliedSciences =>
    have hdrop := List.Subset.trans (List.drop_subset (p.pureShare codes) _) hoverlap
    exact List.append_subset.mpr ⟨halone .appliedSciences, hdrop⟩

theorem BreadthPolicy.counted_classify (p : BreadthPolicy) {codes : List Text} {code : Text}
    (h : code ∈ (p.classify codes).counted) : ∃ c ∈ codes, CountedAs c code := by
  obtain ⟨f, hf, hcode⟩ := List.mem_flatMap.mp h
  obtain ⟨c, -, rfl⟩ := List.mem_map.mp hf
  exact exists_countedAs_of_mem_countable (p.assigned_subset _ c hcode)

theorem Depth.subset_of_mem_eligibleGroups {p : BreadthPolicy} {codes : List Text}
    {g : Text × List Text} (h : g ∈ eligibleGroups p codes) :
    g.2 ⊆ countable p.excludedSubjects codes := by
  obtain ⟨-, -, hgroup⟩ := mem_eligibleGroups.mp h
  rw [hgroup]
  exact List.filter_subset_self _

theorem Depth.counted_analyze {p : BreadthPolicy} {graph : PrereqGraph} {codes : List Text}
    {f : DepthFinding} (h : analyze p graph codes = .ok f) {code : Text}
    (hcode : code ∈ f.counted) : ∃ c ∈ codes, CountedAs c code := by
  obtain ⟨w, hw, hcode⟩ := List.mem_flatMap.mp hcode
  rw [Option.mem_toList] at hw
  obtain ⟨found, hfirst, rfl⟩ := analyze_eq_ok_iff.mp h
  cases found with
  | some v =>
    obtain rfl := Option.some.inj hw
    obtain ⟨g, hg, rfl⟩ := exists_group_of_firstCounted hfirst
    exact exists_countedAs_of_mem_countable (subset_of_mem_eligibleGroups hg hcode)
  | none =>
    obtain ⟨g, hg, chain, hchain, rfl⟩ := exists_group_of_firstChained hw
    obtain ⟨d, hd, rfl⟩ := List.mem_map.mp (subset_of_findChain hchain hcode)
    obtain ⟨c, hc, hcounted⟩ :=
      exists_countedAs_of_mem_countable (subset_of_mem_eligibleGroups hg hd)
    exact ⟨c, hc, { hcounted with key := (Code.key_key d).trans hcounted.key }⟩

/-! ## Audits -/

namespace Major

/-- **One section** counts only courses of the list. -/
theorem Step.counts {s : Student} {codes : List Text} {w w' : Walk} {r r' : Registry}
    {sec : Section} (h : Step s codes w r sec w' r')
    (hw : ∀ code ∈ w.progress.counted, ∃ c ∈ codes, CountedAs c code) :
    ∀ code ∈ w'.progress.counted, ∃ c ∈ codes, CountedAs c code := by
  intro code hcode
  cases h with
  | requirements _ | communication _ => exact hw code hcode
  | breadth h =>
    obtain ⟨p, note, rfl, -, -⟩ := auditBreadth_pair h h
    rcases List.mem_append.mp hcode with hcode | hcode
    · rw [Option.toList_some, List.flatMap_singleton] at hcode
      exact p.counted_classify hcode
    · exact hw code (List.mem_append_right _ hcode)
  | depth h =>
    obtain ⟨p, graph, g, g', note, hg, -, rfl, -, -⟩ := auditDepth_pair h h
    rcases List.mem_append.mp hcode with hcode | hcode
    · exact hw code (List.mem_append_left _ hcode)
    · rw [Option.toList_some, List.flatMap_singleton] at hcode
      exact Depth.counted_analyze hg hcode

/-- **An audit** counts only courses of the list that are not excluded. -/
theorem counted_of_audit {major : Text} {courses : List Text} {r r' : Registry} {p : Progress}
    (h : Load.run (audit major courses) r = (.ok p, r')) :
    ∃ rules r₁, Load.run (Load.rules major) r = (.ok rules, r₁) ∧
      ∀ code ∈ p.counted, ∃ c ∈ courses, Code.key c ∉ rules.excludedKeys ∧ CountedAs c code := by
  obtain ⟨rules, catalog, r₁, r₂, used, hrules, -, hwalk⟩ := walked_of_audit h
  have hcounts := hwalk.keeps (I := fun w => ∀ code ∈ w.progress.counted,
    ∃ c ∈ admitted rules courses, CountedAs c code) Step.counts (by simp [Progress.counted,
      Progress.start])
  refine ⟨rules, r₁, hrules, fun code hcode => ?_⟩
  obtain ⟨c, hc, hcounted⟩ := hcounts code hcode
  obtain ⟨hmem, hadmitted⟩ := List.mem_filter.mp hc
  exact ⟨c, hmem, of_decide_eq_true hadmitted, hcounted⟩

end Major

/-! ## Courses that get through -/

/-- A list of courses keeps all forbidden courses out if no audit that gives progress counts one,
whatever the major and the documents. -/
def KeepsForbiddenOut (courses : List Text) : Prop :=
  ∀ (major : Text) (r r₁ r' : Registry) (rules : RuleSet) (p : Progress),
    Load.run (Load.rules major) r = (.ok rules, r₁) →
    Load.run (Major.audit major courses) r = (.ok p, r') → ∀ code ∈ p.counted, ¬rules.Forbids code

/-- A text hides no forbidden course: if it has the key of a course that never counts it is read as
a course code, and if it has needless zeros its canonical form never counts. -/
def HidesNothing (c : Text) : Prop :=
  (Code.key c ∈ neverCounted.map Code.key → Code.IsShaped c) ∧
    (Code.HasNeedlessZeros c → Code.canonical c ∈ neverCounted)

instance (c : Text) : Decidable (HidesNothing c) := inferInstanceAs (Decidable (_ ∧ _))

/-- A course that is countable and not excluded is counted by some audit. -/
theorem counted_of_isCountable {courses : List Text} {c : Text} (hc : c ∈ courses)
    (excluded : List Course) (hadmitted : Code.key c ∉ excluded.map Course.key)
    (hcount : isCountable [] (Code.canonical c) = true) :
    ∃ (r : Registry) (p : Progress),
      Load.run (Load.rules "m") r = (.ok (excludingRules excluded), r) ∧
        Load.run (Major.audit "m" courses) r = (.ok p, r) ∧ Code.canonical c ∈ p.counted := by
  obtain ⟨p, hsubjects, hexcluded, hrun⟩ :=
    run_audit_excluding excluded [Code.subject (Code.canonical c)]
  refine ⟨_, _, rfl, hrun courses, ?_⟩
  have hmem : Code.canonical c ∈ countable p.excludedSubjects
      (Major.admitted (excludingRules excluded) courses) := by
    rw [hexcluded]
    exact mem_countable.mpr ⟨hcount, c, List.mem_filter.mpr ⟨hc, decide_eq_true hadmitted⟩, rfl⟩
  have hhumanities : Code.canonical c ∈ p.assigned (countable p.excludedSubjects
      (Major.admitted (excludingRules excluded) courses)) .humanities :=
    List.mem_filter.mpr ⟨hmem, by simp [BreadthPolicy.belongs, hsubjects]⟩
  refine List.mem_append_left _ ?_
  rw [Option.toList_some, List.flatMap_singleton]
  exact List.mem_flatMap.mpr ⟨_, List.mem_map_of_mem (a := Category.humanities) (by decide),
    hhumanities⟩

theorem isCountable_of_not_mem {c : Text} (hkey : Code.key c ≠ [])
    (h : Code.canonical c ∉ neverCounted) : isCountable [] (Code.canonical c) = true := by
  have hform : Code.canonical c ≠ ("" : Text) := fun heq => hkey (Code.canonical_eq_nil_iff.mp heq)
  simp [isCountable, hform, h]

theorem KeepsForbiddenOut.hidesNothing {courses : List Text} (h : KeepsForbiddenOut courses)
    {c : Text} (hc : c ∈ courses) : HidesNothing c := by
  constructor
  · intro hlisted
    by_contra hunshaped
    -- The text itself is counted, and has the key of the course that it hides.
    have hkey : Code.key c ≠ [] := by
      intro hnil
      rw [hnil] at hlisted
      exact absurd hlisted (by decide +kernel)
    have hcount := isCountable_of_not_mem hkey fun hmem =>
      hunshaped (isShaped_of_canonical_mem hmem)
    obtain ⟨r, p, hrules, hrun, hcounted⟩ := counted_of_isCountable hc [] List.not_mem_nil hcount
    refine h "m" r r r _ p hrules hrun _ hcounted (.inl ?_)
    rwa [Code.key_canonical_of_not_isShaped hunshaped]
  · intro hzeros
    by_contra hpassed
    -- The major excludes the canonical form, whose key the text does not have.
    have hkey : Code.key c ∉ [Course.untitled (Code.canonical c)].map Course.key := by
      intro hmem
      exact Code.key_canonical_eq_iff.mp (List.mem_singleton.mp hmem).symm hzeros
    have hcount : isCountable [] (Code.canonical c) = true := by
      refine isCountable_of_not_mem (fun hnil => ?_) hpassed
      have hempty : Code.canonical c = [] := Code.canonical_eq_nil_iff.mpr hnil
      have hshaped := Code.isShaped_canonical.mpr hzeros.isShaped
      rw [hempty] at hshaped
      exact absurd hshaped (by decide +kernel)
    obtain ⟨r, p, hrules, hrun, hcounted⟩ := counted_of_isCountable hc _ hkey hcount
    exact h "m" r r r _ p hrules hrun _ hcounted (.inr (List.mem_singleton.mpr rfl))

/-- **Courses that may not count.** A list keeps all forbidden courses out, for all majors and
documents, exactly if none of its texts hides one. For every audit that gives progress, whatever the
list: a code that is counted for breadth or depth stands for a course of the list that is not
excluded and whose canonical form is not that of a course that never counts. If it still has the key
of a course that never counts, then the text is not read as a course code; if it still has the key of
an excluded course, then the text has needless zeros. -/
theorem forbidden_courses_kept_out (courses : List Text) :
    (KeepsForbiddenOut courses ↔ ∀ c ∈ courses, HidesNothing c) ∧
    ∀ (major : Text) (r r' : Registry) (p : Progress),
      Load.run (Major.audit major courses) r = (.ok p, r') →
        ∃ rules r₁, Load.run (Load.rules major) r = (.ok rules, r₁) ∧
          ∀ code ∈ p.counted, ∃ c ∈ courses, Code.key code = Code.key (Code.canonical c) ∧
            Code.key c ∉ rules.excludedKeys ∧ Code.canonical c ∉ neverCounted ∧
            (Code.key code ∈ neverCounted.map Code.key → ¬Code.IsShaped c) ∧
            (Code.key code ∈ rules.excludedKeys → Code.HasNeedlessZeros c) := by
  refine ⟨⟨fun h c hc => h.hidesNothing hc, ?_⟩, ?_⟩
  · intro h major r r₁ r' rules p hrules hrun code hcode
    obtain ⟨rules', r₁', hrules', hcounted⟩ := Major.counted_of_audit hrun
    obtain ⟨⟨⟩, -⟩ := Prod.mk.inj (hrules'.symm.trans hrules)
    obtain ⟨c, hc, hadmitted, has⟩ := hcounted code hcode
    obtain ⟨hblanks, hzeros⟩ := h c hc
    rintro (hlisted | hexcluded)
    · have hunshaped := has.hidden_by_blanks hlisted
      rw [has.key, Code.key_canonical_of_not_isShaped hunshaped] at hlisted
      exact hunshaped (hblanks hlisted)
    · exact has.passed (hzeros (has.hidden_by_zeros hadmitted hexcluded))
  · intro major r r' p h
    obtain ⟨rules, r₁, hrules, hcounted⟩ := Major.counted_of_audit h
    refine ⟨rules, r₁, hrules, fun code hcode => ?_⟩
    obtain ⟨c, hc, hadmitted, has⟩ := hcounted code hcode
    exact ⟨c, hc, has.key, hadmitted, has.passed, has.hidden_by_blanks,
      has.hidden_by_zeros hadmitted⟩

/-- A major that excludes a course, with the subjects of that course and of a course of the
communication list among the humanities. -/
def hidingRegistry : Registry :=
  excludingRegistry [.untitled "MATH 237"] ["ENGL", "MATH"]

theorem forbidden_courses_kept_out_math :
    (∃ p rules r₁,
      Load.run (Major.audit "m" ["math 237", "ENGL109", "MATH 135"]) hidingRegistry =
        (.ok p, hidingRegistry) ∧
      Load.run (Load.rules "m") hidingRegistry = (.ok rules, r₁) ∧
      p.counted = (["MATH 135"] : List Text) ∧
      ∀ code ∈ p.counted, ∃ c ∈ (["math 237", "ENGL109", "MATH 135"] : List Text),
        Code.key code = Code.key (Code.canonical c) ∧ Code.key c ∉ rules.excludedKeys) ∧
    KeepsForbiddenOut ["math 237", "ENGL109", "MATH 135"] ∧ ¬KeepsForbiddenOut ["EN GL 109"] ∧
      ¬KeepsForbiddenOut ["MATH 0237"] := by
  refine ⟨?_, ?_, ?_, ?_⟩
  · obtain ⟨rules, r₁, hrules, hcounted⟩ := (forbidden_courses_kept_out
      ["math 237", "ENGL109", "MATH 135"]).2 "m" hidingRegistry hidingRegistry _ rfl
    refine ⟨_, rules, r₁, rfl, hrules, by decide +kernel, fun code hcode => ?_⟩
    obtain ⟨c, hc, hkey, hadmitted, -⟩ := hcounted code hcode
    exact ⟨c, hc, hkey, hadmitted⟩
  · exact (forbidden_courses_kept_out _).1.mpr (by decide +kernel)
  · exact fun h => absurd ((forbidden_courses_kept_out _).1.mp h) (by decide +kernel)
  · exact fun h => absurd ((forbidden_courses_kept_out _).1.mp h) (by decide +kernel)

/-- Both kinds of forbidden courses get through, one behind a blank and one behind a zero. -/
theorem forbidden_courses_counted :
    ∃ p, Load.run (Load.rules "m") hidingRegistry =
        (.ok (excludingRules [.untitled "MATH 237"]), hidingRegistry) ∧
      Load.run (Major.audit "m" ["EN GL 109", "MATH 0237"]) hidingRegistry =
        (.ok p, hidingRegistry) ∧
      p.counted = (["EN GL 109", "MATH 237"] : List Text) ∧
      ∀ code ∈ p.counted, (excludingRules [.untitled "MATH 237"]).Forbids code :=
  ⟨_, rfl, rfl, by decide +kernel, by decide +kernel⟩

end DegreeAudit
