import DegreeAudit.Proofs.CanonicalForm
import DegreeAudit.Proofs.Comparison
import DegreeAudit.Proofs.Counting

/-!
# Spellings of the same courses

Two students name the same courses in different spellings: place by place, their texts have one key.

**What rests on keys.** Requirements and communication see a student's courses through their keys
only, so two such students have the same findings there (`related_of_keys`).

**What rests on canonical forms.** Breadth and depth see the courses through their canonical forms.
If these agree as well, then the audits are the same computation (`audit_congr`). If they do not,
then a course is counted in one spelling and not in the other, or twice in two spellings and once
in one.

**Interchangeable texts** are two texts that no audit tells apart, whatever the major, the documents
and the other courses. Two texts with one key are interchangeable exactly if they have one canonical
form (`interchangeable_iff`).
-/

namespace DegreeAudit

/-! ## Agreement -/

/-- Two progresses agree in all that does not show how a course is spelled. -/
structure Progress.Agrees (p p' : Progress) : Prop where
  sections : p.sections = p'.sections
  communication : p.communication = p'.communication
  breadth : Option.Rel (fun f g => List.Forall₂ (fun c d => c.category = d.category ∧
    c.taken.length = d.taken.length ∧ c.met = d.met) f.categories g.categories) p.breadth p'.breadth
  depth : Option.Rel (fun f g => f.ok = g.ok) p.depth p'.depth
  met : p.met = p'.met

theorem Progress.Agrees.refl (p : Progress) : p.Agrees p where
  sections := rfl
  communication := rfl
  breadth := by
    cases p.breadth with
    | none => exact .none
    | some f => exact .some (List.forall₂_same.mpr fun _ _ => ⟨rfl, rfl, rfl⟩)
  depth := by
    cases p.depth with
    | none => exact .none
    | some f => exact .some rfl
  met := rfl

/-- Two texts are interchangeable if no audit tells them apart, whatever the major, the documents
and the other courses of the list. -/
def Interchangeable (x y : Text) : Prop :=
  ∀ (major : Text) (before after : List Text) (r r₁ r₂ : Registry) (p p' : Progress),
    Load.run (Major.audit major (before ++ x :: after)) r = (.ok p, r₁) →
    Load.run (Major.audit major (before ++ y :: after)) r = (.ok p', r₂) → p.Agrees p'

namespace Major

/-! ## One key in every place -/

theorem map_key_admitted (rules : RuleSet) (courses : List Text) :
    (admitted rules courses).map Code.key =
      (courses.map Code.key).filter fun k => k ∉ rules.excludedKeys := by
  rw [List.filter_map]
  rfl

theorem student_congr {courses courses' : List Text}
    (hkeys : courses.map Code.key = courses'.map Code.key) (rules : RuleSet) (catalog : Catalog) :
    student rules catalog courses = student rules catalog courses' := by
  unfold student
  rw [map_key_admitted, map_key_admitted, hkeys]

/-- The findings that rest on keys are the same. -/
def sameFindings : Comparison where
  used s s' used used' := s = s' ∧ used = used'
  finding := Eq
  communication := Eq
  breadth _ _ := True
  depth _ _ := True

theorem sameFindings_applies (s : Student) (codes codes' : List Text) :
    sameFindings.Applies s s codes codes' where
  audited hused h h' := by
    obtain ⟨-, rfl⟩ := hused
    have hsame := (Requirement.auditAll_eq_ok_iff.mpr h).symm.trans
      (Requirement.auditAll_eq_ok_iff.mpr h')
    simp only [Prod.mk.injEq, Except.ok.injEq] at hsame
    obtain ⟨rfl, rfl⟩ := hsame
    exact ⟨List.forall₂_same.mpr fun _ _ => rfl, rfl, rfl⟩
  communication _ := rfl
  breadth _ _ := trivial
  depth _ _ _ := trivial

/-- **Requirements and communication rest on keys.** -/
theorem same_findings_of_keys {major : Text} {courses courses' : List Text} {r r₁ r₂ : Registry}
    {p p' : Progress} (hkeys : courses.map Code.key = courses'.map Code.key)
    (h : Load.run (audit major courses) r = (.ok p, r₁))
    (h' : Load.run (audit major courses') r = (.ok p', r₂)) :
    p.sections = p'.sections ∧ p.communication = p'.communication := by
  have hrelated : sameFindings.Related p p' := by
    refine (related_of_audit h h' (fun rules catalog => ?_) fun rules catalog => ?_).1
    · exact ⟨student_congr hkeys rules catalog, rfl⟩
    · rw [student_congr hkeys rules catalog]
      exact sameFindings_applies _ _ _
  constructor
  · have hsections : List.Forall₂ Eq p.sections p'.sections :=
      hrelated.sections.imp fun _ _ hs => Prod.ext hs.1 (List.forall₂_eq_eq_eq ▸ hs.2)
    rwa [List.forall₂_eq_eq_eq] at hsections
  · exact eq_of_optionRel hrelated.communication

/-! ## One canonical form in every place -/

theorem map_canonical_admitted {courses courses' : List Text}
    (hkeys : courses.map Code.key = courses'.map Code.key)
    (hforms : courses.map Code.canonical = courses'.map Code.canonical) (rules : RuleSet) :
    (admitted rules courses).map Code.canonical =
      (admitted rules courses').map Code.canonical := by
  induction courses generalizing courses' with
  | nil =>
    rw [List.map_nil, eq_comm, List.map_eq_nil_iff] at hkeys
    rw [hkeys]
  | cons x rest ih =>
    cases courses' with
    | nil => exact absurd hkeys (by simp)
    | cons y rest' =>
      simp only [List.map_cons, List.cons.injEq] at hkeys hforms
      have htail := ih hkeys.2 hforms.2
      unfold admitted at htail ⊢
      rw [List.filter_cons, List.filter_cons, hkeys.1]
      split
      · rw [List.map_cons, List.map_cons, hforms.1, htail]
      · exact htail

section

variable {codes codes' : List Text}

theorem classify_congr (hforms : codes.map Code.canonical = codes'.map Code.canonical)
    (p : BreadthPolicy) : p.classify codes = p.classify codes' := by
  unfold BreadthPolicy.classify countable
  rw [hforms]

theorem analyze_congr (hforms : codes.map Code.canonical = codes'.map Code.canonical)
    (p : BreadthPolicy) (graph : PrereqGraph) :
    Depth.analyze p graph codes = Depth.analyze p graph codes' := by
  unfold Depth.analyze Depth.eligibleGroups countable
  rw [hforms]

theorem auditSection_congr (hforms : codes.map Code.canonical = codes'.map Code.canonical)
    (s : Student) (w : Walk) (sec : Section) :
    auditSection s codes w sec = auditSection s codes' w sec := by
  cases sec with
  | requirements which items => rfl
  | communication rule => rfl
  | breadth source => simp only [auditSection, auditBreadth, classify_congr hforms]
  | depth source => simp only [auditSection, auditDepth, analyze_congr hforms]

theorem auditSections_congr (hforms : codes.map Code.canonical = codes'.map Code.canonical)
    (s : Student) (sections : List Section) (w : Walk) :
    auditSections s codes sections w = auditSections s codes' sections w := by
  induction sections generalizing w with
  | nil => rfl
  | cons sec rest ih => simp only [auditSections, auditSection_congr hforms, ih]

end

/-- **Breadth and depth rest on canonical forms.** With one key and one canonical form in every
place, two lists of courses are audited by the same computation. -/
theorem audit_congr {courses courses' : List Text}
    (hkeys : courses.map Code.key = courses'.map Code.key)
    (hforms : courses.map Code.canonical = courses'.map Code.canonical) (major : Text) :
    audit major courses = audit major courses' := by
  unfold audit
  simp only [student_congr hkeys, auditSections_congr (map_canonical_admitted hkeys hforms _)]

end Major

/-! ## Telling two spellings apart -/

/-- Rules with nothing but the breadth requirement. -/
def breadthRules : RuleSet where
  major := "m"
  excluded := []
  sections := [.breadth .null]

/-- A registry with these rules, and a breadth document that counts some subjects as humanities. -/
def humanitiesRegistry (subjects : List Text) : Registry :=
  .loaded "m" breadthRules (.ofCourses []) [] [("humanities", .list (subjects.map .text))]

theorem readSet_texts (texts : List Text) :
    BreadthPolicy.readSet (.list (texts.map .text)) = .ok (texts.map .text) := by
  have hall : (texts.map Json.text).all BreadthPolicy.isSetEntry = true := by
    simp [BreadthPolicy.isSetEntry]
  cases texts with
  | nil => rfl
  | cons t rest =>
    simp only [BreadthPolicy.readSet, hall]
    rfl

theorem humanities_policy (subjects : List Text) :
    ∃ p : BreadthPolicy,
      BreadthPolicy.ofFields [("humanities", .list (subjects.map .text))] = .ok p ∧
        p.subjects .humanities = subjects ∧ p.excludedSubjects = [] := by
  have hfield : Fields.get [(("humanities" : Text), Json.list (subjects.map .text))]
      (Category.name .humanities) = .list (subjects.map .text) := rfl
  unfold BreadthPolicy.ofFields
  rw [hfield, readSet_texts]
  refine ⟨_, rfl, ?_, rfl⟩
  simp [List.filterMap_map, Function.comp_def, Json.text?]

/-- The same rules for a major that excludes some courses. -/
def excludingRules (excluded : List Course) : RuleSet := { breadthRules with excluded }

/-- The same registry for a major that excludes some courses. -/
def excludingRegistry (excluded : List Course) (subjects : List Text) : Registry :=
  .loaded "m" (excludingRules excluded) (.ofCourses []) []
    [("humanities", .list (subjects.map .text))]

/-- An audit from that registry classifies the courses that are not excluded, and does nothing
else. -/
theorem run_audit_excluding (excluded : List Course) (subjects : List Text) :
    ∃ p : BreadthPolicy, p.subjects .humanities = subjects ∧ p.excludedSubjects = [] ∧
      ∀ codes, Load.run (Major.audit "m" codes) (excludingRegistry excluded subjects) =
        (.ok { Progress.start "m" with
          breadth := some { p.classify (Major.admitted (excludingRules excluded) codes) with
            note := Major.breadthNote } },
          excludingRegistry excluded subjects) := by
  obtain ⟨p, hp, hsubjects, hexcluded⟩ := humanities_policy subjects
  refine ⟨p, hsubjects, hexcluded, fun codes => ?_⟩
  have hrules : Load.run (Load.rules "m") (excludingRegistry excluded subjects) =
      (.ok (excludingRules excluded), excludingRegistry excluded subjects) := rfl
  have hcatalog : Load.run Load.catalog (excludingRegistry excluded subjects) =
      (.ok (.ofCourses []), excludingRegistry excluded subjects) := rfl
  have hdocument : Load.run (Major.policyDocument .null) (excludingRegistry excluded subjects) =
      (.ok [("humanities", .list (subjects.map .text))], excludingRegistry excluded subjects) := rfl
  have hbreadth : ∀ codes,
      Load.run (Major.auditBreadth .null codes) (excludingRegistry excluded subjects) =
        (.ok { p.classify codes with note := Major.breadthNote },
          excludingRegistry excluded subjects) := by
    intro codes
    simp only [Major.auditBreadth, Load.run_bind, hdocument, Load.run_ofExcept, hp]
    rfl
  have hsections : (excludingRules excluded).sections = [.breadth .null] := rfl
  simp only [Major.audit, Load.run_bind, hrules, hcatalog, hsections, Major.auditSections,
    Major.auditSection, hbreadth, Load.run_pure]

theorem run_audit_humanities (subjects : List Text) :
    ∃ p : BreadthPolicy, p.subjects .humanities = subjects ∧ p.excludedSubjects = [] ∧
      ∀ codes, Load.run (Major.audit "m" codes) (humanitiesRegistry subjects) =
        (.ok { Progress.start "m" with
          breadth := some { p.classify codes with note := Major.breadthNote } },
          humanitiesRegistry subjects) := by
  obtain ⟨p, hsubjects, hexcluded, hrun⟩ := run_audit_excluding [] subjects
  refine ⟨p, hsubjects, hexcluded, fun codes => ?_⟩
  have hadmitted : Major.admitted (excludingRules []) codes = codes := by
    simp [Major.admitted, excludingRules, RuleSet.excludedKeys]
  have hsame := hrun codes
  rwa [hadmitted] at hsame

/-- **Counting tells texts apart.** Interchangeable texts leave the number of countable courses of
every list unchanged. -/
theorem Interchangeable.length_countable {x y : Text} (h : Interchangeable x y)
    (before after : List Text) :
    (countable [] (before ++ x :: after)).length =
      (countable [] (before ++ y :: after)).length := by
  -- The subjects of both lists are humanities.
  let subjects := ((before ++ x :: after) ++ (before ++ y :: after)).map fun c =>
    Code.subject (Code.canonical c)
  obtain ⟨p, hsubjects, hexcluded, hrun⟩ := run_audit_humanities subjects
  have hall : ∀ codes ⊆ (before ++ x :: after) ++ (before ++ y :: after),
      p.assigned (countable p.excludedSubjects codes) .humanities = countable [] codes := by
    intro codes hsub
    rw [hexcluded]
    refine List.filter_eq_self.mpr fun code hcode => ?_
    obtain ⟨-, c, hc, rfl⟩ := mem_countable.mp hcode
    rw [BreadthPolicy.belongs, hsubjects, decide_eq_true_eq]
    exact List.mem_map.mpr ⟨c, hsub hc, rfl⟩
  have hbreadth := (h "m" before after _ _ _ _ _ (hrun _) (hrun _)).breadth
  cases hbreadth with
  | some hcategories =>
    obtain ⟨⟨-, hlength, -⟩, -⟩ := List.forall₂_cons.mp hcategories
    dsimp only at hlength
    rwa [hall _ (List.subset_append_left _ _), hall _ (List.subset_append_right _ _)] at hlength

theorem countable_singleton (x : Text) :
    countable [] [x] = if isCountable [] (Code.canonical x) then [Code.canonical x] else [] := by
  unfold countable
  cases hx : isCountable [] (Code.canonical x) <;> simp [distinctTexts, hx]

theorem isShaped_of_canonical_mem {x : Text} (h : Code.canonical x ∈ neverCounted) :
    Code.IsShaped x := by
  have hshaped : ∀ s ∈ neverCounted, (Code.parts? s).isSome = true := by decide
  rw [Code.IsShaped, ← Code.parts?_canonical]
  exact hshaped _ h

/-- Courses of one key that do not count have one canonical form. -/
theorem canonical_eq_of_not_countable {x y : Text} (hkey : Code.key x = Code.key y)
    (hx : isCountable [] (Code.canonical x) = false)
    (hy : isCountable [] (Code.canonical y) = false) : Code.canonical x = Code.canonical y := by
  by_cases hnil : Code.key x = []
  · rw [Code.canonical_eq_nil_iff.mpr hnil, Code.canonical_eq_nil_iff.mpr (hkey ▸ hnil)]
  · have hnever : ∀ z, Code.key z ≠ [] → isCountable [] (Code.canonical z) = false →
        Code.canonical z ∈ neverCounted := by
      intro z hz hcount
      have hform : Code.canonical z ≠ ("" : Text) := fun h => hz (Code.canonical_eq_nil_iff.mp h)
      simpa [isCountable, hform] using hcount
    exact (Code.canonical_eq_iff hkey).mpr (.inr
      ⟨isShaped_of_canonical_mem (hnever x hnil hx),
        isShaped_of_canonical_mem (hnever y (hkey ▸ hnil) hy)⟩)

/-- **Two texts with one key** are interchangeable exactly if they have one canonical form. -/
theorem interchangeable_iff {x y : Text} (hkey : Code.key x = Code.key y) :
    Interchangeable x y ↔ Code.canonical x = Code.canonical y := by
  constructor
  · intro h
    have halone := h.length_countable [] []
    rw [List.nil_append, List.nil_append, countable_singleton, countable_singleton] at halone
    cases hx : isCountable [] (Code.canonical x) with
    | false =>
      cases hy : isCountable [] (Code.canonical y) with
      | false => exact canonical_eq_of_not_countable hkey hx hy
      | true => simp [hx, hy] at halone
    | true =>
      cases hy : isCountable [] (Code.canonical y) with
      | false => simp [hx, hy] at halone
      | true =>
        -- A list with both spellings counts two courses, unless they have one canonical form.
        have hboth := h.length_countable [x] []
        by_contra hne
        simp [countable, distinctTexts, hx, hy, Ne.symm hne] at hboth
  · intro hform major before after r r₁ r₂ p p' hx hy
    have hsame : Major.audit major (before ++ x :: after) =
        Major.audit major (before ++ y :: after) :=
      Major.audit_congr (by simp [hkey]) (by simp [hform]) major
    rw [hsame, hy] at hx
    obtain ⟨⟨⟩, -⟩ := Prod.mk.inj hx
    exact .refl p

/-! ## When spelling does not matter -/

/-- **When spelling does not matter.** Let two lists of courses have one key in every place. If both
audits give progress, then the requirements and the communication requirement have the same
findings. If the canonical forms are the same as well, then the two audits are one computation, so
nothing in the progress differs. This is exact: the texts are interchangeable place by place, in all
lists, for all majors and documents, exactly if the canonical forms are the same, which is so
exactly if in every place the two texts are the same apart from case and from blanks at the ends,
or both are spelled as course codes. -/
theorem spellings_interchangeable {courses courses' : List Text}
    (hkeys : courses.map Code.key = courses'.map Code.key) :
    (∀ (major : Text) (r r₁ r₂ : Registry) (p p' : Progress),
      Load.run (Major.audit major courses) r = (.ok p, r₁) →
      Load.run (Major.audit major courses') r = (.ok p', r₂) →
        p.sections = p'.sections ∧ p.communication = p'.communication) ∧
    (courses.map Code.canonical = courses'.map Code.canonical →
      ∀ major, Major.audit major courses = Major.audit major courses') ∧
    (List.Forall₂ Interchangeable courses courses' ↔
      courses.map Code.canonical = courses'.map Code.canonical) ∧
    (courses.map Code.canonical = courses'.map Code.canonical ↔
      List.Forall₂ (fun x y => Text.trim (Text.upper x) = Text.trim (Text.upper y) ∨
        Code.IsShaped x ∧ Code.IsShaped y) courses courses') := by
  have hplaces := map_eq_map_iff_forall₂.mp hkeys
  refine ⟨?_, ?_, ?_, ?_⟩
  · intro major r r₁ r₂ p p' h h'
    exact Major.same_findings_of_keys hkeys h h'
  · intro hforms major
    exact Major.audit_congr hkeys hforms major
  · rw [map_eq_map_iff_forall₂]
    exact forall₂_iff_of_forall₂ hplaces fun x y hkey => interchangeable_iff hkey
  · rw [map_eq_map_iff_forall₂]
    exact forall₂_iff_of_forall₂ hplaces fun x y hkey => Code.canonical_eq_iff hkey

/-- A registry with a catalog of one course, and a breadth document that needs two pure sciences. -/
def twoSciencesRegistry : Registry :=
  .loaded "m" breadthRules (.ofCourses [.untitled "MATH 237"]) []
    [("pure_sciences", .list [.text "MATH"]),
      ("needed", .object [("humanities", .int 0), ("social_sciences", .int 0),
        ("pure_sciences", .int 2), ("applied_sciences", .int 0)])]

theorem spellings_interchangeable_math :
    (["math237", "MATH  237 "] : List Text).map Code.key =
        (["MATH 237", "MA TH 237"] : List Text).map Code.key ∧
      (∃ p p', Load.run (Major.audit "m" ["math237", "MATH  237 "]) twoSciencesRegistry =
          (.ok p, twoSciencesRegistry) ∧
        Load.run (Major.audit "m" ["MATH 237", "MA TH 237"]) twoSciencesRegistry =
          (.ok p', twoSciencesRegistry) ∧
        p.sections = p'.sections ∧ p.communication = p'.communication) ∧
      Major.audit "m" ["math237", "MATH  237 "] = Major.audit "m" ["MATH 237", "MATH237"] ∧
      ¬List.Forall₂ Interchangeable ["math237", "MATH  237 "] ["MATH 237", "MA TH 237"] :=
  ⟨by decide +kernel,
    ⟨_, _, rfl, rfl, (spellings_interchangeable (by decide +kernel)).1 "m" twoSciencesRegistry
      twoSciencesRegistry twoSciencesRegistry _ _ rfl rfl⟩,
    (spellings_interchangeable (by decide +kernel)).2.1 (by decide +kernel) "m",
    fun h => absurd ((spellings_interchangeable (by decide +kernel)).2.2.1.mp h)
      (by decide +kernel)⟩

/-- One course in two spellings counts twice: both lists hold nothing but a course of the catalog,
twice, and only the second one meets a breadth requirement of two courses. -/
theorem spellings_counted_twice :
    ∃ p p', (["MATH 237", "MATH 237"] : List Text).map Code.key =
        (["MATH 237", "MA TH 237"] : List Text).map Code.key ∧
      twoSciencesRegistry.catalog.map (·.requireAll ["MATH 237", "MA TH 237"]) = some (.ok ()) ∧
      Load.run (Major.audit "m" ["MATH 237", "MATH 237"]) twoSciencesRegistry =
        (.ok p, twoSciencesRegistry) ∧
      Load.run (Major.audit "m" ["MATH 237", "MA TH 237"]) twoSciencesRegistry =
        (.ok p', twoSciencesRegistry) ∧
      p.met = false ∧ p'.met = true ∧ ¬p.Agrees p' :=
  ⟨_, _, by decide +kernel, rfl, rfl, rfl, by decide +kernel, by decide +kernel,
    fun h => absurd h.met (by decide +kernel)⟩

end DegreeAudit
