import DegreeAudit.Proofs.Comparison
import DegreeAudit.Proofs.Counting
import DegreeAudit.Proofs.DepthSearch

/-!
# The order of a course list

Two students give the same courses in different orders, or repeat some of them: their lists have the
same members. Then the audits agree in everything that does not show the order
(`course_order_never_decides`).

**Requirements and communication** ask of the courses taken only whether a key is among them, so the
findings are the same (`Audited.of_same_taken`).

**Breadth** hands the overlapping courses out in the order of the list, so the courses of a category
can differ. But a list with the same members has the same countable courses, and how many courses a
category gets does not decrease with more courses. Both ways round, the numbers are equal.

**Depth** takes the first witness in the order of the list, so the subject, the courses and the
chain can differ. The search misses nothing, though: whether depth is shown, and whether it is shown
in the first way (`option_eq_one_iff`), is a matter of the groups alone.
-/

namespace DegreeAudit

/-! ## Requirements -/

namespace Requirement

/-- What is free depends on which keys are taken, not on how they are listed. -/
theorem freeOf_of_same_taken {taken taken' : List Key} (h : ∀ k, k ∈ taken ↔ k ∈ taken')
    (used : List Key) (valid : List Course) :
    freeOf taken used valid = freeOf taken' used valid := by
  refine List.filter_congr fun c _ => ?_
  rw [decide_eq_decide.mpr (h c.key)]

theorem pickFinding_of_same_taken {taken taken' : List Key} (h : ∀ k, k ∈ taken ↔ k ∈ taken')
    (how : Pick) (t : Terms) (used : List Key) (valid : List Course) :
    pickFinding how t taken used valid = pickFinding how t taken' used valid := by
  have hremaining : (valid.filter fun c => c.key ∉ taken) = valid.filter fun c => c.key ∉ taken' :=
    List.filter_congr fun c _ => by rw [decide_eq_decide.mpr (not_congr (h c.key))]
  unfold pickFinding
  rw [freeOf_of_same_taken h, hremaining]

/-- **Requirements.** Two students who have taken the same courses get the same findings, and use
the same keys. -/
theorem Audited.of_same_taken {s s' : Student} (hcat : s'.catalog = s.catalog)
    (hex : s'.excluded = s.excluded) (htaken : ∀ k, k ∈ s.taken ↔ k ∈ s'.taken)
    {items : List Requirement} {used used' : List Key} {fs : List Finding}
    (h : Audited s items used fs used') : Audited s' items used fs used' := by
  induction h with
  | nil used => exact .nil used
  | @pick how t _ used _ valid _ hvalid _ ih =>
    rw [pickFinding_of_same_taken htaken]
    rw [freeOf_of_same_taken htaken] at ih
    exact .pick (by rwa [hcat, hex]) ih
  | oneGroup _ _ ihgroups ih => exact .oneGroup ihgroups ih
  | bothLists _ _ ihparts ih => exact .bothLists ihparts ih

end Requirement

/-! ## Communication -/

theorem CommunicationRule.audit_of_same_taken (rule : CommunicationRule) {taken taken' : List Key}
    (h : ∀ k, k ∈ taken ↔ k ∈ taken') (excluded : List Key) :
    rule.audit taken excluded = rule.audit taken' excluded := by
  have hlist : ∀ l : CommunicationList, l.audit taken excluded = l.audit taken' excluded := by
    intro l
    simp only [CommunicationList.audit, h]
  simp only [audit, hlist]

/-! ## Breadth -/

/-- Two findings of a category have the same number of courses and say the same of it. -/
structure CategoryFinding.SameState (f g : CategoryFinding) : Prop where
  category : f.category = g.category
  length : f.taken.length = g.taken.length
  met : f.met = g.met
  status : f.status = g.status

theorem CategoryFinding.SameState.of_length {f g : CategoryFinding}
    (hcategory : f.category = g.category) (hneeded : f.needed = g.needed)
    (hlength : f.taken.length = g.taken.length) : f.SameState g where
  category := hcategory
  length := hlength
  met := by rw [CategoryFinding.met, CategoryFinding.met, hneeded, hlength]
  status := by
    unfold CategoryFinding.status CategoryFinding.met CategoryFinding.progress
      CategoryFinding.remaining
    rw [hcategory, hneeded, hlength]

theorem BreadthPolicy.classify_sameState (p : BreadthPolicy) {codes codes' : List Text}
    (hsub : codes ⊆ codes') (hsub' : codes' ⊆ codes) :
    List.Forall₂ CategoryFinding.SameState (p.classify codes).categories
      (p.classify codes').categories := by
  have hle := countable_subperm p.excludedSubjects hsub
  have hge := countable_subperm p.excludedSubjects hsub'
  simp only [classify, List.forall₂_map_left_iff, List.forall₂_map_right_iff, List.forall₂_same]
  intro c _
  exact .of_length rfl rfl (Nat.le_antisymm (p.length_assigned_le hle c)
    (p.length_assigned_le hge c))

/-! ## Depth -/

/-- The number of the way in which depth is shown. -/
def DepthWitness.option : DepthWitness → Nat
  | courses _ _ => 1
  | chain _ _ => 2

def DepthFinding.option (f : DepthFinding) : Option Nat := f.witness.map DepthWitness.option

/-- There are two ways only, so it is enough to know whether depth is shown and whether it is shown
in the first way. -/
theorem DepthFinding.option_eq_option {f g : DepthFinding} (hok : f.ok = g.ok)
    (hfirst : f.option = some 1 ↔ g.option = some 1) : f.option = g.option := by
  obtain ⟨w, note⟩ := f
  obtain ⟨v, note'⟩ := g
  cases w with
  | none =>
    cases v with
    | none => rfl
    | some v => simp [ok] at hok
  | some w =>
    cases v with
    | none => simp [ok] at hok
    | some v => cases w <;> cases v <;> simp [option, DepthWitness.option] at hfirst ⊢

namespace Depth

theorem option_of_firstCounted {gs : List (Text × List Text)} {w : DepthWitness}
    (h : firstCounted gs = .ok (some w)) : w.option = 1 := by
  obtain ⟨g, -, rfl⟩ := exists_group_of_firstCounted h
  rfl

theorem option_of_firstChained {graph : PrereqGraph} {gs : List (Text × List Text)}
    {w : DepthWitness} (h : firstChained graph gs = some w) : w.option = 2 := by
  obtain ⟨g, -, chain, -, rfl⟩ := exists_group_of_firstChained h
  rfl

/-- **The first way.** If the search for depth ends, it has taken the first way exactly if some
eligible group qualifies. -/
theorem option_eq_one_iff {p : BreadthPolicy} {graph : PrereqGraph} {codes : List Text}
    {f : DepthFinding} (h : analyze p graph codes = .ok f) :
    f.option = some 1 ↔ ∃ g ∈ eligibleGroups p codes, Qualifies g.2 := by
  obtain ⟨w, hfirst, rfl⟩ := analyze_eq_ok_iff.mp h
  rw [← firstCounted_eq_ok hfirst]
  cases w with
  | some witness => simp [DepthFinding.option, option_of_firstCounted hfirst]
  | none =>
    cases hchain : firstChained graph (eligibleGroups p codes) with
    | none => simp [DepthFinding.option]
    | some witness => simp [DepthFinding.option, option_of_firstChained hchain]

/-- Two lists with the same members show depth in the same way. -/
theorem option_of_same_members {p : BreadthPolicy} {graph : PrereqGraph}
    {codes codes' : List Text} {f f' : DepthFinding} (hsub : codes ⊆ codes')
    (hsub' : codes' ⊆ codes) (h : analyze p graph codes = .ok f)
    (h' : analyze p graph codes' = .ok f') : f.ok = f'.ok ∧ f.option = f'.option := by
  have hok : f.ok = f'.ok := Bool.eq_iff_iff.mpr
    ⟨ok_of_analyze_of_subset hsub h h', ok_of_analyze_of_subset hsub' h' h⟩
  refine ⟨hok, DepthFinding.option_eq_option hok ?_⟩
  rw [option_eq_one_iff h, option_eq_one_iff h']
  exact ⟨exists_eligibleGroup_of_subset (fun hnodup hgroup hq => hq.of_subset hnodup hgroup) hsub,
    exists_eligibleGroup_of_subset (fun hnodup hgroup hq => hq.of_subset hnodup hgroup) hsub'⟩

end Depth

/-! ## The order of a course list -/

/-- Two progresses agree in all that does not show in which order the courses are listed. -/
structure Progress.SameOutcome (p p' : Progress) : Prop where
  sections : p.sections = p'.sections
  communication : p.communication = p'.communication
  breadth : Option.Rel (fun f g => List.Forall₂ CategoryFinding.SameState f.categories g.categories)
    p.breadth p'.breadth
  depth : Option.Rel (fun f g => f.ok = g.ok ∧ f.option = g.option) p.depth p'.depth
  met : p.met = p'.met

/-- Both audits come to the same outcome, part by part. -/
def Comparison.sameOutcome : Comparison where
  used _ _ used used' := used = used'
  finding := Eq
  communication := Eq
  breadth f g := List.Forall₂ CategoryFinding.SameState f.categories g.categories
  depth f g := f.ok = g.ok ∧ f.option = g.option

theorem Comparison.sameOutcome_applies {s s' : Student} {codes codes' : List Text}
    (hcat : s'.catalog = s.catalog) (hex : s'.excluded = s.excluded)
    (htaken : ∀ k, k ∈ s.taken ↔ k ∈ s'.taken) (hcodes : ∀ c, c ∈ codes ↔ c ∈ codes') :
    sameOutcome.Applies s s' codes codes' where
  audited hused h h' := by
    obtain rfl := hused
    have hsame := (Requirement.auditAll_eq_ok_iff.mpr (h.of_same_taken hcat hex htaken)).symm.trans
      (Requirement.auditAll_eq_ok_iff.mpr h')
    obtain ⟨⟨⟩, rfl⟩ := Prod.mk.inj hsame
    exact ⟨List.forall₂_same.mpr fun _ _ => rfl, rfl⟩
  communication rule := by
    rw [hex]
    exact rule.audit_of_same_taken htaken s.excluded
  breadth p _ := p.classify_sameState (fun c => (hcodes c).mp) fun c => (hcodes c).mpr
  depth h h' _ := by
    have hsame := Depth.option_of_same_members (fun c => (hcodes c).mp) (fun c => (hcodes c).mpr)
      h h'
    exact hsame

theorem BreadthFinding.satisfied_of_sameState {f g : BreadthFinding}
    (h : List.Forall₂ CategoryFinding.SameState f.categories g.categories) :
    f.satisfied = g.satisfied := by
  rw [satisfied, satisfied, Bool.eq_iff_iff]
  exact ⟨all_of_forall₂ (h.imp fun _ _ hc hmet => hc.met ▸ hmet),
    all_of_forall₂ (h.flip.imp fun _ _ hc hmet => hc.met ▸ hmet)⟩

theorem all_eq_of_optionRel {α : Type} {R : α → α → Prop} {q : α → Bool} {x y : Option α}
    (hq : ∀ a b, R a b → q a = q b) (h : Option.Rel R x y) : x.all q = y.all q := by
  cases h with
  | some hab => exact hq _ _ hab
  | none => rfl

theorem Comparison.Related.sameOutcome {p p' : Progress} (h : Comparison.sameOutcome.Related p p') :
    p.SameOutcome p' := by
  have hsections : p.sections = p'.sections := by
    rw [← List.forall₂_eq_eq_eq]
    exact h.sections.imp fun _ _ hs => Prod.ext hs.1 (List.forall₂_eq_eq_eq ▸ hs.2)
  have hcommunication := eq_of_optionRel h.communication
  refine ⟨hsections, hcommunication, h.breadth, h.depth, ?_⟩
  unfold Progress.met
  rw [hsections, hcommunication,
    all_eq_of_optionRel (fun _ _ hf => BreadthFinding.satisfied_of_sameState hf) h.breadth,
    all_eq_of_optionRel (fun _ _ hf => hf.1) h.depth]

theorem mem_admitted_iff {courses courses' : List Text} (h : ∀ c, c ∈ courses ↔ c ∈ courses')
    (rules : RuleSet) (c : Text) :
    c ∈ Major.admitted rules courses ↔ c ∈ Major.admitted rules courses' := by
  simp only [Major.admitted, List.mem_filter, h]

/-- **The order of a course list never decides the outcome.** If two lists of courses have the same
members, in whatever order and however often, and both audits of a major give progress, then the
findings of all requirements and of communication are the same, every breadth category has the same
number of courses and the same state, depth is shown in the same way or not at all, and both or
neither meet everything. -/
theorem course_order_never_decides (major : Text) (courses courses' : List Text)
    (r r₁ r₂ : Registry) (p p' : Progress) (hsame : ∀ c, c ∈ courses ↔ c ∈ courses')
    (h : Load.run (Major.audit major courses) r = (.ok p, r₁))
    (h' : Load.run (Major.audit major courses') r = (.ok p', r₂)) : p.SameOutcome p' := by
  have hcodes := mem_admitted_iff hsame
  have htaken : ∀ rules catalog k, k ∈ (Major.student rules catalog courses).taken ↔
      k ∈ (Major.student rules catalog courses').taken := by
    intro rules catalog k
    simp only [Major.student, List.mem_map, hcodes]
  exact (Major.related_of_audit h h' (fun _ _ => rfl) fun rules catalog =>
    Comparison.sameOutcome_applies rfl rfl (htaken rules catalog) (hcodes rules)).1.sameOutcome

/-- A major with a requirement, and with breadth and depth. -/
def orderedRules : RuleSet where
  major := "m"
  excluded := []
  sections := [.requirements .required [.pick .one (.listing ["PHYS 121", "PHYS 122"] none)],
    .breadth .null, .depth .null]

/-- A registry that holds these rules. Physics is a pure and an applied science, and two courses
have the same prerequisites. -/
def orderedRegistry : Registry :=
  .loaded "m" orderedRules (.ofCourses [])
    [("PHYS234", ["PHYS122"]), ("PHYS236", ["PHYS122"]), ("PHYS122", ["PHYS121"])]
    [("pure_sciences", .list [.text "PHYS"]), ("applied_sciences", .list [.text "PHYS"])]

/-- In another order, other courses count for the two sciences and another chain is found. -/
theorem course_order_never_decides_physics :
    ∃ p p',
      (∀ c, c ∈ (["PHYS 234", "PHYS 236", "PHYS 122", "PHYS 121"] : List Text) ↔
        c ∈ (["PHYS 121", "PHYS 236", "PHYS 122", "PHYS 236", "PHYS 234"] : List Text)) ∧
      Load.run (Major.audit "m" ["PHYS 234", "PHYS 236", "PHYS 122", "PHYS 121"])
        orderedRegistry = (.ok p, orderedRegistry) ∧
      Load.run (Major.audit "m" ["PHYS 121", "PHYS 236", "PHYS 122", "PHYS 236", "PHYS 234"])
        orderedRegistry = (.ok p', orderedRegistry) ∧
      p.breadth.map (fun f => f.categories.map (·.taken)) =
        some ([[], [], ["PHYS 234"], ["PHYS 236", "PHYS 122", "PHYS 121"]] : List (List Text)) ∧
      p'.breadth.map (fun f => f.categories.map (·.taken)) =
        some ([[], [], ["PHYS 121"], ["PHYS 236", "PHYS 122", "PHYS 234"]] : List (List Text)) ∧
      p.depth.bind (·.option) = some 2 ∧ p.SameOutcome p' := by
  have hsub : (["PHYS 234", "PHYS 236", "PHYS 122", "PHYS 121"] : List Text) ⊆
      ["PHYS 121", "PHYS 236", "PHYS 122", "PHYS 236", "PHYS 234"] := by decide
  have hsub' : (["PHYS 121", "PHYS 236", "PHYS 122", "PHYS 236", "PHYS 234"] : List Text) ⊆
      ["PHYS 234", "PHYS 236", "PHYS 122", "PHYS 121"] := by decide
  have hsame := fun c => Iff.intro (@hsub c) (@hsub' c)
  exact ⟨_, _, hsame, rfl, rfl, by decide +kernel, by decide +kernel, by decide +kernel,
    course_order_never_decides "m" _ _ orderedRegistry orderedRegistry orderedRegistry _ _ hsame
      rfl rfl⟩

end DegreeAudit
