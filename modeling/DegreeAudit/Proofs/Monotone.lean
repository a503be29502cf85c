import DegreeAudit.Proofs.Comparison
import DegreeAudit.Proofs.DepthSearch

/-!
# Taking more courses never hurts

A student who takes more courses meets at least what the other student meets
(`more_courses_never_hurt`). This is not obvious, because requirements are audited greedily: an
extra course can be credited early on, and then the courses credited later on are others.

**The invariant** (`Freer`). The second student has taken what the first one has, and every key that
is free for the first student is free for the second one. A leaf keeps it: if the second student is
credited with a key that is free for the first student, then so is the first student
(`Pick.mem_creditedKeys_of_sublist`). It is all that later requirements depend on.

**Findings** (`Finding.Better`). More free courses leave a leaf met, and more courses taken leave
fewer remaining. Both together are kept by the nodes: a choice of groups asks for a group that is
met with nothing remaining.

Communication lists count courses taken, breadth counts courses of a category, and depth is a
search that misses nothing. So these are kept as well.
-/

namespace DegreeAudit

/-! ## The invariant -/

/-- The second student has taken what the first one has, and what is free for the first student is
free for the second one. -/
structure Freer (taken taken' used used' : List Key) : Prop where
  more : ∀ k ∈ taken, k ∈ taken'
  free : ∀ k ∈ taken, k ∉ used → k ∉ used'

theorem Freer.freeOf_sublist {taken taken' used used' : List Key}
    (h : Freer taken taken' used used') (valid : List Course) :
    (Requirement.freeOf taken used valid).Sublist (Requirement.freeOf taken' used' valid) :=
  Requirement.freeOf_sublist_freeOf (fun k hk hfree => ⟨h.more k hk, h.free k hk hfree⟩) valid

/-- **A leaf keeps the invariant.** -/
theorem Freer.leaf {taken taken' used used' : List Key} (h : Freer taken taken' used used')
    (how : Pick) (t : Terms) {valid : List Course} (hvalid : (valid.map Course.key).Nodup) :
    Freer taken taken' (used ++ how.creditedKeys t (Requirement.freeOf taken used valid))
      (used' ++ how.creditedKeys t (Requirement.freeOf taken' used' valid)) where
  more := h.more
  free k hk hfree := by
    rw [List.mem_append, not_or] at hfree ⊢
    refine ⟨h.free k hk hfree.1, fun hcred' => hfree.2 ?_⟩
    have hnodup' := Requirement.nodup_freeOf hvalid taken' used'
    have hreport := (how.mem_creditedKeys t hnodup' k).mp hcred'
    obtain ⟨c, hc, rfl⟩ := List.mem_map.mp hreport
    have hc' := Requirement.mem_freeOf.mp ((how.credit_sublist t _).subset hc)
    -- The key is a candidate that the first student has taken and not used: it is free for both.
    have hboth : c ∈ Requirement.freeOf taken used valid :=
      Requirement.mem_freeOf.mpr ⟨hc'.1, hk, hfree.1⟩
    exact how.mem_creditedKeys_of_sublist (h.freeOf_sublist valid) hnodup'
      (List.mem_map_of_mem hboth) hcred'

/-! ## Better findings -/

/-- The second finding is met if the first one is, and nothing remains if nothing remains in the
first one. -/
structure Finding.Better (f g : Finding) : Prop where
  met : f.met = true → g.met = true
  remaining : f.remaining = [] → g.remaining = []

theorem Finding.Better.complete {f g : Finding} (h : f.Better g) (hf : f.complete = true) :
    g.complete = true := by
  simp only [Finding.complete, Bool.and_eq_true, List.isEmpty_iff] at hf ⊢
  exact ⟨h.met hf.1, h.remaining hf.2⟩

namespace Requirement

theorem remaining_sublist {taken taken' : List Key} (h : ∀ k ∈ taken, k ∈ taken')
    (valid : List Course) :
    (valid.filter fun c => c.key ∉ taken').Sublist (valid.filter fun c => c.key ∉ taken) := by
  refine List.monotone_filter_right valid fun c hc => ?_
  simp only [decide_eq_true_eq] at hc ⊢
  exact fun hmem => hc (h c.key hmem)

theorem pickFinding_better {taken taken' used used' : List Key}
    (h : Freer taken taken' used used') (how : Pick) (t : Terms) (valid : List Course) :
    (pickFinding how t taken used valid).Better (pickFinding how t taken' used' valid) where
  met := Pick.isMet_of_sublist (h.freeOf_sublist valid) (remaining_sublist h.more valid)
  remaining hnil := List.sublist_nil.mp (hnil ▸ remaining_sublist h.more valid)

theorem merged_remaining_eq_nil {gs : List Finding} :
    Course.dedupe [] (gs.flatMap Finding.remaining) = [] ↔ ∀ g ∈ gs, g.remaining = [] := by
  rw [Course.dedupe_nil_eq_nil_iff, List.flatMap_eq_nil_iff]

theorem merged_remaining_better {gs gs' : List Finding}
    (h : List.Forall₂ Finding.Better gs gs') (hnil : ∀ g ∈ gs, g.remaining = []) :
    ∀ g ∈ gs', g.remaining = [] := by
  induction h with
  | nil => exact hnil
  | cons hg _ ih =>
    rw [List.forall_mem_cons] at hnil ⊢
    exact ⟨hg.remaining hnil.1, ih hnil.2⟩

theorem groupFinding_better {d d' : Text} {gs gs' : List Finding}
    (h : List.Forall₂ Finding.Better gs gs') :
    (groupFinding d gs).Better (groupFinding d' gs') where
  met hmet := by
    simp only [groupFinding, List.findIdx?_isSome] at hmet ⊢
    exact any_of_forall₂ (h.imp fun _ _ hg => hg.complete) hmet
  remaining hnil :=
    merged_remaining_eq_nil.mpr (merged_remaining_better h (merged_remaining_eq_nil.mp hnil))

theorem partsFinding_better {d d' : Text} {gs gs' : List Finding}
    (h : List.Forall₂ Finding.Better gs gs') :
    (partsFinding d gs).Better (partsFinding d' gs') where
  met hmet := all_of_forall₂ (h.imp fun _ _ hg => hg.met) hmet
  remaining hnil :=
    merged_remaining_eq_nil.mpr (merged_remaining_better h (merged_remaining_eq_nil.mp hnil))

/-- **Requirements keep the invariant**, and every finding becomes better, whatever the nesting. -/
theorem Audited.better {s s' : Student} (hcat : s'.catalog = s.catalog)
    (hex : s'.excluded = s.excluded) {items : List Requirement} {used used' stop stop' : List Key}
    {fs fs' : List Finding} (hused : Freer s.taken s'.taken used used')
    (h : Audited s items used fs stop) (h' : Audited s' items used' fs' stop') :
    List.Forall₂ Finding.Better fs fs' ∧ Freer s.taken s'.taken stop stop' := by
  induction h generalizing used' fs' stop' with
  | nil used =>
    cases h'
    exact ⟨.nil, hused⟩
  | @pick how t rest used stop valid fs hvalid _ ih =>
    cases h' with
    | pick hvalid' hrest' =>
      rw [hcat, hex, hvalid] at hvalid'
      obtain rfl := Except.ok.inj hvalid'
      have hnodup := Terms.nodup_of_candidates hvalid
      obtain ⟨hfs, hstop⟩ := ih (hused.leaf how t hnodup) hrest'
      exact ⟨.cons (pickFinding_better hused how t valid) hfs, hstop⟩
  | oneGroup _ _ ihgroups ih =>
    cases h' with
    | oneGroup hgroups' hrest' =>
      obtain ⟨hgs, hmiddle⟩ := ihgroups hused hgroups'
      obtain ⟨hfs, hstop⟩ := ih hmiddle hrest'
      exact ⟨.cons (groupFinding_better hgs) hfs, hstop⟩
  | bothLists _ _ ihparts ih =>
    cases h' with
    | bothLists hparts' hrest' =>
      obtain ⟨hgs, hmiddle⟩ := ihparts hused hparts'
      obtain ⟨hfs, hstop⟩ := ih hmiddle hrest'
      exact ⟨.cons (partsFinding_better hgs) hfs, hstop⟩

end Requirement

/-! ## Communication -/

namespace CommunicationRule

theorem takenOf_le (lists : List CommunicationList) {taken taken' : List Key}
    (excluded : List Key) (h : ∀ k ∈ taken, k ∈ taken') (name : Text) :
    CommunicationFinding.takenOf (lists.map (·.audit taken excluded)) name ≤
      CommunicationFinding.takenOf (lists.map (·.audit taken' excluded)) name := by
  induction lists with
  | nil => exact Nat.le_refl _
  | cons l rest ih =>
    unfold CommunicationFinding.takenOf at ih ⊢
    rw [List.map_cons, List.map_cons, List.find?_cons, List.find?_cons]
    by_cases hname : (l.name == name) = true
    · have hsub : (l.audit taken excluded).taken.Sublist (l.audit taken' excluded).taken := by
        refine List.monotone_filter_right _ fun c hc => ?_
        simp only [decide_eq_true_eq] at hc ⊢
        exact h c.key hc
      simpa [CommunicationList.audit, hname] using hsub.length_le
    · simpa [CommunicationList.audit, hname] using ih

theorem audit_options_better (rule : CommunicationRule) {taken taken' : List Key}
    (excluded : List Key) (h : ∀ k ∈ taken, k ∈ taken') :
    List.Forall₂ (fun o o' => o.1 = o'.1 ∧ (o.2 = true → o'.2 = true))
      (rule.audit taken excluded).options (rule.audit taken' excluded).options := by
  simp only [audit, List.forall₂_map_left_iff, List.forall₂_map_right_iff, List.forall₂_same,
    true_and]
  intro o _ hmet
  rw [List.all_eq_true] at hmet ⊢
  intro req hreq
  have hcount := takenOf_le rule.lists excluded h req.1
  have hold := hmet req hreq
  simp only [decide_eq_true_eq] at hold ⊢
  omega

end CommunicationRule

/-! ## Taking more courses never hurts -/

/-- Whatever is met in the first progress is met in the second one, part by part. -/
structure Progress.NoWorse (p p' : Progress) : Prop where
  sections : List.Forall₂ (fun a b => a.1 = b.1 ∧
    List.Forall₂ (fun f g => f.met = true → g.met = true) a.2 b.2) p.sections p'.sections
  communication : Option.Rel (fun f g => List.Forall₂ (fun o o' => o.1 = o'.1 ∧
    (o.2 = true → o'.2 = true)) f.options g.options) p.communication p'.communication
  breadth : Option.Rel (fun f g => List.Forall₂ (fun c d => c.category = d.category ∧
    (c.met = true → d.met = true)) f.categories g.categories) p.breadth p'.breadth
  depth : Option.Rel (fun f g => f.ok = true → g.ok = true) p.depth p'.depth
  met : p.met = true → p'.met = true

/-- Every part of the second audit is better. -/
def Comparison.better : Comparison where
  used s s' := Freer s.taken s'.taken
  finding := Finding.Better
  communication f g :=
    List.Forall₂ (fun o o' => o.1 = o'.1 ∧ (o.2 = true → o'.2 = true)) f.options g.options
  breadth f g := List.Forall₂ (fun c d => c.category = d.category ∧ (c.met = true → d.met = true))
    f.categories g.categories
  depth f g := f.ok = true → g.ok = true

theorem Comparison.better_applies {s s' : Student} {codes codes' : List Text}
    (hcat : s'.catalog = s.catalog) (hex : s'.excluded = s.excluded)
    (htaken : ∀ k ∈ s.taken, k ∈ s'.taken) (hcodes : codes ⊆ codes') :
    better.Applies s s' codes codes' where
  audited hused h h' := Requirement.Audited.better hcat hex hused h h'
  communication rule := by
    rw [hex]
    exact rule.audit_options_better s.excluded htaken
  breadth p note := by
    refine (p.classify_length_le hcodes).imp fun c d h => ⟨h.1, fun hmet => ?_⟩
    obtain ⟨-, hneeded, hlen⟩ := h
    simp only [CategoryFinding.met, decide_eq_true_eq] at hmet ⊢
    omega
  depth h h' note := by
    have hok := Depth.ok_of_analyze_of_subset hcodes h h'
    exact hok

theorem CommunicationFinding.met_of_options {f g : CommunicationFinding}
    (h : List.Forall₂ (fun o o' => o.1 = o'.1 ∧ (o.2 = true → o'.2 = true)) f.options g.options)
    (hmet : f.met = true) : g.met = true := by
  simp only [met, Bool.or_eq_true, List.isEmpty_iff] at hmet ⊢
  refine hmet.imp (fun hnil => ?_) (any_of_forall₂ (h.imp fun _ _ ho => ho.2))
  rw [hnil] at h
  exact List.forall₂_nil_left_iff.mp h

theorem Comparison.Related.noWorse {p p' : Progress} (h : better.Related p p') :
    p.NoWorse p' where
  sections := h.sections.imp fun _ _ hs => ⟨hs.1, hs.2.imp fun _ _ hf => hf.met⟩
  communication := h.communication
  breadth := h.breadth
  depth := h.depth
  met hmet := by
    simp only [Progress.met, Bool.and_eq_true] at hmet ⊢
    obtain ⟨⟨⟨hsections, hcommunication⟩, hbreadth⟩, hdepth⟩ := hmet
    refine ⟨⟨⟨?_, ?_⟩, ?_⟩, ?_⟩
    · have hmets : List.Forall₂ (fun a b => a.2.all (·.met) = true → b.2.all (·.met) = true)
          p.sections p'.sections :=
        h.sections.imp fun _ _ hs => all_of_forall₂ (hs.2.imp fun _ _ hf => hf.met)
      exact all_of_forall₂ hmets hsections
    · exact all_of_optionRel (fun _ _ hf => CommunicationFinding.met_of_options hf)
        h.communication hcommunication
    · exact all_of_optionRel (fun _ _ hf => all_of_forall₂ (hf.imp fun _ _ hc => hc.2))
        h.breadth hbreadth
    · exact all_of_optionRel (fun _ _ hf => hf) h.depth hdepth

/-- **Taking more courses never hurts.** If a student has all courses of another one and both
audits of a major give progress, then whatever is met for the other student is met for this one:
every requirement, every communication option, every breadth category, depth, and all of them
together. Requirements keep the invariant that this rests on, from any used keys: what is taken by
the first student is taken by the second one, and what is free for the first is free for the
second. -/
theorem more_courses_never_hurt :
    (∀ (major : Text) (courses courses' : List Text) (r r₁ r₂ : Registry) (p p' : Progress),
      courses ⊆ courses' → Load.run (Major.audit major courses) r = (.ok p, r₁) →
        Load.run (Major.audit major courses') r = (.ok p', r₂) → p.NoWorse p') ∧
    ∀ (s s' : Student) (items : List Requirement) (used used' stop stop' : List Key)
      (fs fs' : List Finding), s'.catalog = s.catalog → s'.excluded = s.excluded →
      Freer s.taken s'.taken used used' → Requirement.auditAll s items used = (.ok fs, stop) →
      Requirement.auditAll s' items used' = (.ok fs', stop') →
        List.Forall₂ (fun f g => f.met = true → g.met = true) fs fs' ∧
          Freer s.taken s'.taken stop stop' := by
  constructor
  · intro major courses courses' r r₁ r₂ p p' hsub h h'
    have hcodes : ∀ rules, Major.admitted rules courses ⊆ Major.admitted rules courses' :=
      fun rules => List.filter_subset _ hsub
    have htaken : ∀ rules catalog, ∀ k ∈ (Major.student rules catalog courses).taken,
        k ∈ (Major.student rules catalog courses').taken :=
      fun rules catalog => List.map_subset _ (hcodes rules)
    refine (Major.related_of_audit h h' (fun rules catalog => ?_) fun rules catalog => ?_).1.noWorse
    · exact ⟨htaken rules catalog, fun _ _ hfree => hfree⟩
    · exact Comparison.better_applies rfl rfl (htaken rules catalog) (hcodes rules)
  · intro s s' items used used' stop stop' fs fs' hcat hex hused h h'
    obtain ⟨hfs, hstop⟩ := Requirement.Audited.better hcat hex hused
      (Requirement.auditAll_eq_ok_iff.mp h) (Requirement.auditAll_eq_ok_iff.mp h')
    exact ⟨hfs.imp fun _ _ hf => hf.met, hstop⟩

/-- A major whose first requirement takes the course that its second one needs, unless the student
has another course for it. -/
def greedyRules : RuleSet where
  major := "m"
  excluded := []
  sections := [
    .requirements .required [.pick .one (.listing ["MATH 135", "CS 135"] none),
      .pick .ranged (.listing ["CS 135", "CS 136"] (some 1))],
    .communication ⟨[⟨"list1", .null, [.untitled "ENGL 109"]⟩], [⟨.null, [("list1", 1)]⟩]⟩,
    .breadth .null,
    .depth .null]

/-- A registry that holds these rules, and a breadth document with one category. -/
def greedyRegistry : Registry :=
  .loaded "m" greedyRules (.ofCourses []) [] [("applied_sciences", .list [.text "CS"])]

theorem more_courses_never_hurt_greedy :
    ∃ p p', (["CS 135", "CS 136"] : List Text) ⊆ ["ENGL 109", "MATH 135", "CS 136", "CS 135"] ∧
      Load.run (Major.audit "m" ["CS 135", "CS 136"]) greedyRegistry = (.ok p, greedyRegistry) ∧
      Load.run (Major.audit "m" ["ENGL 109", "MATH 135", "CS 136", "CS 135"]) greedyRegistry =
        (.ok p', greedyRegistry) ∧
      p.findings.map Finding.takenKeys = ([["CS135"], ["CS136"]] : List (List Key)) ∧
      p'.findings.map Finding.takenKeys = ([["MATH135"], ["CS135"]] : List (List Key)) ∧
      p.NoWorse p' :=
  ⟨_, _, by decide, rfl, rfl, by decide +kernel, by decide +kernel,
    more_courses_never_hurt.1 "m" ["CS 135", "CS 136"]
      ["ENGL 109", "MATH 135", "CS 136", "CS 135"] greedyRegistry greedyRegistry greedyRegistry _ _
      (by decide) rfl rfl⟩

end DegreeAudit
