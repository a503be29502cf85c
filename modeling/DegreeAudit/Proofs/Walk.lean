import DegreeAudit.Audit.Major

/-!
# Walking through the sections of a major

`Step` says what auditing one section does to a walk and to the registry, `Walked` what auditing a
list of sections does. Every audit of a major that gives progress is such a walk, from the start
and with the rules and the catalog that were loaded first (`walked_of_audit`). A property of the
audits of all majors is proved for one step, and then holds after all sections (`Walked.keeps`).

A registry can hold the documents of a major already (`Registry.loaded`). Then nothing is read from
the folder, and the rules, the catalog, the graph and the breadth document are the given ones. Small
majors are put together in this way.
-/

namespace DegreeAudit

/-- The findings of the requirements of a major, in the order of the audit. -/
def Progress.findings (p : Progress) : List Finding := p.sections.flatMap Prod.snd

namespace Major

/-! ## Steps -/

/-- What auditing a section after others does to a walk and to the registry. -/
inductive Step (s : Student) (codes : List Text) (w : Walk) (r : Registry) :
    Section → Walk → Registry → Prop
  | requirements {which : RequirementList} {items : List Requirement} {fs : List Finding}
      {used : List Key} (h : Requirement.auditAll s items w.used = (.ok fs, used)) :
      Step s codes w r (.requirements which items)
        ⟨{ w.progress with sections := w.progress.sections ++ [(which, fs)] }, used⟩ r
  | communication (rule : CommunicationRule) :
      Step s codes w r (.communication rule)
        { w with progress.communication := some (rule.audit s.taken s.excluded) } r
  | breadth {source : Json} {f : BreadthFinding} {r' : Registry}
      (h : Load.run (auditBreadth source codes) r = (.ok f, r')) :
      Step s codes w r (.breadth source) { w with progress.breadth := some f } r'
  | depth {source : Json} {f : DepthFinding} {r' : Registry}
      (h : Load.run (auditDepth source codes) r = (.ok f, r')) :
      Step s codes w r (.depth source) { w with progress.depth := some f } r'

theorem step_of_run {s : Student} {codes : List Text} {w w' : Walk} {r r' : Registry}
    {sec : Section} (h : Load.run (auditSection s codes w sec) r = (.ok w', r')) :
    Step s codes w r sec w' r' := by
  cases sec with
  | requirements which items =>
    obtain ⟨fs, r₁, hfs, h⟩ := Load.run_bind_eq_ok.mp h
    simp only [Load.run_ofExcept, Prod.mk.injEq] at hfs
    simp only [Load.run_pure, Prod.mk.injEq, Except.ok.injEq] at h
    obtain ⟨hfs, rfl⟩ := hfs
    obtain ⟨rfl, rfl⟩ := h
    exact .requirements (Prod.ext hfs rfl)
  | communication rule =>
    simp only [auditSection, Load.run_pure, Prod.mk.injEq, Except.ok.injEq] at h
    obtain ⟨rfl, rfl⟩ := h
    exact .communication rule
  | breadth source =>
    obtain ⟨f, r₁, hf, h⟩ := Load.run_bind_eq_ok.mp h
    simp only [Load.run_pure, Prod.mk.injEq, Except.ok.injEq] at h
    obtain ⟨rfl, rfl⟩ := h
    exact .breadth hf
  | depth source =>
    obtain ⟨f, r₁, hf, h⟩ := Load.run_bind_eq_ok.mp h
    simp only [Load.run_pure, Prod.mk.injEq, Except.ok.injEq] at h
    obtain ⟨rfl, rfl⟩ := h
    exact .depth hf

/-! ## Walks -/

/-- What auditing sections in order does to a walk and to the registry. -/
inductive Walked (s : Student) (codes : List Text) :
    List Section → Walk → Registry → Walk → Registry → Prop
  | nil (w : Walk) (r : Registry) : Walked s codes [] w r w r
  | cons {sec : Section} {rest : List Section} {w w₁ w' : Walk} {r r₁ r' : Registry}
      (hstep : Step s codes w r sec w₁ r₁) (hrest : Walked s codes rest w₁ r₁ w' r') :
      Walked s codes (sec :: rest) w r w' r'

theorem walked_of_run {s : Student} {codes : List Text} {sections : List Section} {w w' : Walk}
    {r r' : Registry} (h : Load.run (auditSections s codes sections w) r = (.ok w', r')) :
    Walked s codes sections w r w' r' := by
  induction sections generalizing w r with
  | nil =>
    simp only [auditSections, Load.run_pure, Prod.mk.injEq, Except.ok.injEq] at h
    obtain ⟨rfl, rfl⟩ := h
    exact .nil w r
  | cons sec rest ih =>
    obtain ⟨w₁, r₁, hstep, hrest⟩ := Load.run_bind_eq_ok.mp h
    exact .cons (step_of_run hstep) (ih hrest)

/-- **Invariants.** What every section keeps holds after all sections. -/
theorem Walked.keeps {s : Student} {codes : List Text} {I : Walk → Prop}
    (hstep : ∀ {w w' : Walk} {r r' : Registry} {sec : Section},
      Step s codes w r sec w' r' → I w → I w')
    {sections : List Section} {w w' : Walk} {r r' : Registry}
    (h : Walked s codes sections w r w' r') (hw : I w) : I w' := by
  induction h with
  | nil w r => exact hw
  | cons hfirst _ ih => exact ih (hstep hfirst hw)

/-- **Audits are walks.** An audit that gives progress loads the rules of the major and the catalog,
and walks through the sections of the rules from the start. -/
theorem walked_of_audit {major : Text} {courses : List Text} {r r' : Registry} {p : Progress}
    (h : Load.run (audit major courses) r = (.ok p, r')) :
    ∃ rules catalog r₁ r₂ used, Load.run (Load.rules major) r = (.ok rules, r₁) ∧
      Load.run Load.catalog r₁ = (.ok catalog, r₂) ∧
      Walked (student rules catalog courses) (admitted rules courses) rules.sections
        ⟨Progress.start major, []⟩ r₂ ⟨p, used⟩ r' := by
  obtain ⟨rules, r₁, hrules, h⟩ := Load.run_bind_eq_ok.mp h
  obtain ⟨catalog, r₂, hcatalog, h⟩ := Load.run_bind_eq_ok.mp h
  obtain ⟨w, r₃, hw, h⟩ := Load.run_bind_eq_ok.mp h
  simp only [Load.run_pure, Prod.mk.injEq, Except.ok.injEq] at h
  obtain ⟨rfl, rfl⟩ := h
  exact ⟨rules, catalog, r₁, r₂, w.used, hrules, hcatalog, walked_of_run hw⟩

theorem mem_keys_of_mem_student {rules : RuleSet} {catalog : Catalog} {courses : List Text}
    {k : Key} (h : k ∈ (student rules catalog courses).taken) : k ∈ courses.map Code.key :=
  (List.filter_sublist.map Code.key).subset h

end Major

/-! ## Small majors -/

/-- Terms that list courses by their codes and ask for a number of them. -/
def Terms.listing (codes : List Text) (count : Option Int) : Terms where
  description := none
  courses := codes.map Course.untitled
  count := count
  required := []
  range := []
  levelRanges := []
  categoryRanges := []
  patterns := []

/-- A registry that holds the documents needed for a major. -/
def Registry.loaded (major : Text) (rules : RuleSet) (catalog : Catalog) (graph : PrereqGraph)
    (breadth : Fields) : Registry where
  folder := Folder.empty ⟨0, []⟩ 900
  data := ⟨0, []⟩
  catalog := some catalog
  graph := some graph
  rules := [(major, rules)]
  sources := [(Registry.breadthName, breadth)]

end DegreeAudit
