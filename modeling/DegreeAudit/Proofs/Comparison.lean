import DegreeAudit.Proofs.Derivation
import DegreeAudit.Proofs.Walk
import Mathlib.Data.List.Forall2
import Mathlib.Data.Option.Basic

/-!
# Comparing two audits of a major

Two students are audited against one major, from one registry. A `Comparison` says what is to hold
between the findings of both, part by part, and between the used keys on the way. It *applies* to
two students if each kind of section keeps it (`Comparison.Applies`): this is all that has to be
shown about a pair of students.

**Walks.** What is loaded does not depend on the courses. So two walks through the same sections
that both end have loaded the same documents at every step, and keep each comparison that applies
(`Walked.related`). Hence two audits that both give progress are related (`related_of_audit`).
-/

namespace DegreeAudit

/-! ## Lists and options compared item by item -/

section

variable {α β : Type} {p q : α → Bool} {R P Q : α → α → Prop} {xs ys : List α} {x y : Option α}

theorem any_of_forall₂ (h : List.Forall₂ (fun a b => p a = true → q b = true) xs ys)
    (hany : xs.any p = true) : ys.any q = true := by
  induction h with
  | nil => exact hany
  | cons hab _ ih =>
    rw [List.any_cons, Bool.or_eq_true] at hany ⊢
    exact hany.imp hab ih

theorem all_of_forall₂ (h : List.Forall₂ (fun a b => p a = true → q b = true) xs ys)
    (hall : xs.all p = true) : ys.all q = true := by
  induction h with
  | nil => rfl
  | cons hab _ ih =>
    rw [List.all_cons, Bool.and_eq_true] at hall ⊢
    exact ⟨hab hall.1, ih hall.2⟩

theorem map_eq_map_iff_forall₂ {f : α → β} :
    xs.map f = ys.map f ↔ List.Forall₂ (fun a b => f a = f b) xs ys := by
  rw [← List.forall₂_eq_eq_eq, List.forall₂_map_left_iff, List.forall₂_map_right_iff]

theorem forall₂_iff_of_forall₂ (h : List.Forall₂ R xs ys)
    (hiff : ∀ a b, R a b → (P a b ↔ Q a b)) : List.Forall₂ P xs ys ↔ List.Forall₂ Q xs ys := by
  induction h with
  | nil => simp
  | cons hab _ ih => rw [List.forall₂_cons, List.forall₂_cons, hiff _ _ hab, ih]

theorem all_of_optionRel (hp : ∀ a b, R a b → p a = true → p b = true) (h : Option.Rel R x y)
    (hx : x.all p = true) : y.all p = true := by
  cases h with
  | some hab => exact hp _ _ hab hx
  | none => rfl

theorem eq_of_optionRel (h : Option.Rel Eq x y) : x = y := by
  cases h with
  | some hab => rw [hab]
  | none => rfl

end

/-! ## Comparisons -/

/-- What is to hold between two audits of one major. -/
structure Comparison where
  used : Student → Student → List Key → List Key → Prop
  finding : Finding → Finding → Prop
  communication : CommunicationFinding → CommunicationFinding → Prop
  breadth : BreadthFinding → BreadthFinding → Prop
  depth : DepthFinding → DepthFinding → Prop

namespace Comparison

/-- The comparison holds between all parts of two audits. -/
structure Related (κ : Comparison) (p p' : Progress) : Prop where
  sections : List.Forall₂ (fun a b => a.1 = b.1 ∧ List.Forall₂ κ.finding a.2 b.2)
    p.sections p'.sections
  communication : Option.Rel κ.communication p.communication p'.communication
  breadth : Option.Rel κ.breadth p.breadth p'.breadth
  depth : Option.Rel κ.depth p.depth p'.depth

/-- The comparison is kept by every kind of section, for two students with their courses. -/
structure Applies (κ : Comparison) (s s' : Student) (codes codes' : List Text) : Prop where
  audited : ∀ {items : List Requirement} {used used' stop stop' : List Key}
    {fs fs' : List Finding}, κ.used s s' used used' →
    Requirement.Audited s items used fs stop → Requirement.Audited s' items used' fs' stop' →
    List.Forall₂ κ.finding fs fs' ∧ κ.used s s' stop stop'
  communication : ∀ rule : CommunicationRule,
    κ.communication (rule.audit s.taken s.excluded) (rule.audit s'.taken s'.excluded)
  breadth : ∀ (p : BreadthPolicy) (note : Text),
    κ.breadth { p.classify codes with note } { p.classify codes' with note }
  depth : ∀ {p : BreadthPolicy} {graph : PrereqGraph} {f f' : DepthFinding},
    Depth.analyze p graph codes = .ok f → Depth.analyze p graph codes' = .ok f' →
    ∀ note : Text, κ.depth { f with note } { f' with note }

theorem related_start (κ : Comparison) (major : Text) :
    κ.Related (Progress.start major) (Progress.start major) :=
  ⟨.nil, .none, .none, .none⟩

end Comparison

namespace Major

/-! ## Breadth and depth -/

theorem auditBreadth_pair {source : Json} {codes codes' : List Text} {r r₁ r₁' : Registry}
    {f f' : BreadthFinding} (h : Load.run (auditBreadth source codes) r = (.ok f, r₁))
    (h' : Load.run (auditBreadth source codes') r = (.ok f', r₁')) :
    ∃ (p : BreadthPolicy) (note : Text), f = { p.classify codes with note } ∧
      f' = { p.classify codes' with note } ∧ r₁ = r₁' := by
  simp only [auditBreadth, Load.run_bind_eq_ok, Load.run_ofExcept, Load.run_pure, Prod.mk.injEq,
    Except.ok.injEq] at h h'
  obtain ⟨fields, r₂, hfields, p, r₃, ⟨hp, rfl⟩, n, r₄, hn, rfl, rfl⟩ := h
  obtain ⟨fields', r₂', hfields', p', r₃', ⟨hp', rfl⟩, n', r₄', hn', rfl, rfl⟩ := h'
  obtain ⟨⟨⟩, rfl⟩ := Prod.mk.inj (hfields.symm.trans hfields')
  obtain rfl := Except.ok.inj (hp.symm.trans hp')
  obtain ⟨⟨⟩, rfl⟩ := Prod.mk.inj (hn.symm.trans hn')
  exact ⟨p, n, rfl, rfl, rfl⟩

theorem auditDepth_pair {source : Json} {codes codes' : List Text} {r r₁ r₁' : Registry}
    {f f' : DepthFinding} (h : Load.run (auditDepth source codes) r = (.ok f, r₁))
    (h' : Load.run (auditDepth source codes') r = (.ok f', r₁')) :
    ∃ (p : BreadthPolicy) (graph : PrereqGraph) (g g' : DepthFinding) (note : Text),
      Depth.analyze p graph codes = .ok g ∧ Depth.analyze p graph codes' = .ok g' ∧
        f = { g with note } ∧ f' = { g' with note } ∧ r₁ = r₁' := by
  simp only [auditDepth, Load.run_bind_eq_ok, Load.run_ofExcept, Load.run_pure, Prod.mk.injEq,
    Except.ok.injEq] at h h'
  obtain ⟨fields, r₂, hfields, graph, r₃, hgraph, p, r₄, ⟨hp, rfl⟩, g, r₅, ⟨hg, rfl⟩, n, r₆, hn,
    rfl, rfl⟩ := h
  obtain ⟨fields', r₂', hfields', graph', r₃', hgraph', p', r₄', ⟨hp', rfl⟩, g', r₅', ⟨hg', rfl⟩,
    n', r₆', hn', rfl, rfl⟩ := h'
  obtain ⟨⟨⟩, rfl⟩ := Prod.mk.inj (hfields.symm.trans hfields')
  obtain ⟨⟨⟩, rfl⟩ := Prod.mk.inj (hgraph.symm.trans hgraph')
  obtain rfl := Except.ok.inj (hp.symm.trans hp')
  obtain ⟨⟨⟩, rfl⟩ := Prod.mk.inj (hn.symm.trans hn')
  exact ⟨p, graph, g, g', n, hg, hg', rfl, rfl, rfl⟩

/-! ## Steps and walks -/

variable {κ : Comparison} {s s' : Student} {codes codes' : List Text}

/-- **One section** keeps a comparison that applies. -/
theorem Step.related (happ : κ.Applies s s' codes codes') {w w₁ w' w₁' : Walk}
    {r r₁ r₁' : Registry} {sec : Section} (h : Step s codes w r sec w₁ r₁)
    (h' : Step s' codes' w' r sec w₁' r₁') (hprogress : κ.Related w.progress w'.progress)
    (hused : κ.used s s' w.used w'.used) :
    κ.Related w₁.progress w₁'.progress ∧ κ.used s s' w₁.used w₁'.used ∧ r₁ = r₁' := by
  cases h with
  | requirements h =>
    cases h' with
    | requirements h' =>
      obtain ⟨hfs, hstop⟩ := happ.audited hused (Requirement.auditAll_eq_ok_iff.mp h)
        (Requirement.auditAll_eq_ok_iff.mp h')
      refine ⟨{ hprogress with sections := ?_ }, hstop, rfl⟩
      exact List.rel_append hprogress.sections (.cons ⟨rfl, hfs⟩ .nil)
  | communication rule =>
    cases h'
    exact ⟨{ hprogress with communication := .some (happ.communication rule) }, hused, rfl⟩
  | breadth h =>
    cases h' with
    | breadth h' =>
      obtain ⟨p, note, rfl, rfl, rfl⟩ := auditBreadth_pair h h'
      exact ⟨{ hprogress with breadth := .some (happ.breadth p note) }, hused, rfl⟩
  | depth h =>
    cases h' with
    | depth h' =>
      obtain ⟨p, graph, g, g', note, hg, hg', rfl, rfl, rfl⟩ := auditDepth_pair h h'
      exact ⟨{ hprogress with depth := .some (happ.depth hg hg' note) }, hused, rfl⟩

/-- **All sections** keep a comparison that applies. -/
theorem Walked.related (happ : κ.Applies s s' codes codes') {sections : List Section}
    {w w₁ w' w₁' : Walk} {r r₁ r₁' : Registry} (h : Walked s codes sections w r w₁ r₁)
    (h' : Walked s' codes' sections w' r w₁' r₁') (hprogress : κ.Related w.progress w'.progress)
    (hused : κ.used s s' w.used w'.used) :
    κ.Related w₁.progress w₁'.progress ∧ κ.used s s' w₁.used w₁'.used ∧ r₁ = r₁' := by
  induction h generalizing w' with
  | nil w r =>
    cases h'
    exact ⟨hprogress, hused, rfl⟩
  | cons hstep _ ih =>
    cases h' with
    | cons hstep' hrest' =>
      obtain ⟨hprogress₂, hused₂, rfl⟩ := hstep.related happ hstep' hprogress hused
      exact ih hrest' hprogress₂ hused₂

/-- **Two audits of a major** are related by every comparison that applies to the two students,
whatever the rules and the catalog. -/
theorem related_of_audit {major : Text} {courses courses' : List Text} {r r₁ r₁' : Registry}
    {p p' : Progress} (h : Load.run (audit major courses) r = (.ok p, r₁))
    (h' : Load.run (audit major courses') r = (.ok p', r₁'))
    (hused : ∀ rules catalog,
      κ.used (student rules catalog courses) (student rules catalog courses') [] [])
    (happ : ∀ rules catalog, κ.Applies (student rules catalog courses)
      (student rules catalog courses') (admitted rules courses) (admitted rules courses')) :
    κ.Related p p' ∧ r₁ = r₁' := by
  obtain ⟨rules, catalog, r₂, r₃, used, hrules, hcatalog, hwalk⟩ := walked_of_audit h
  obtain ⟨rules', catalog', r₂', r₃', used', hrules', hcatalog', hwalk'⟩ := walked_of_audit h'
  obtain ⟨⟨⟩, rfl⟩ := Prod.mk.inj (hrules.symm.trans hrules')
  obtain ⟨⟨⟩, rfl⟩ := Prod.mk.inj (hcatalog.symm.trans hcatalog')
  obtain ⟨hrelated, -, hregistry⟩ := hwalk.related (happ rules catalog) hwalk'
    (κ.related_start major) (hused rules catalog)
  exact ⟨hrelated, hregistry⟩

end Major

end DegreeAudit
