import DegreeAudit.Json.Writer
import DegreeAudit.Proofs.Blame
import DegreeAudit.Proofs.Reporting
import DegreeAudit.Proofs.WellFormed

/-!
# Walking through rules

An audit goes through the sections of the rules of a major. What it looks up on the way was promised
when the rules were read, so that no lookup fails.

**Choices.** The finding of a choice has one group for each group of the requirement, and names the
first of them that is met with nothing remaining, if there is one (`Answers`). This holds at every
node that is told: the parts of a requirement of both lists are merged and not told.

**Communication.** Every list that an option asks for is among the lists audited
(`CommunicationRule.Answered`).

**Walks.** Only the breadth and depth sections load documents. The others have one fault at most, a
number that cannot be read (`Major.auditSections_numeric`).
-/

namespace DegreeAudit

/-! ## Choices -/

namespace Requirement

mutual

/-- The nodes of a requirement that its finding tells of. -/
def told : Requirement → List Requirement
  | pick how t => [pick how t]
  | oneGroup t groups => oneGroup t groups :: toldAll groups
  | bothLists t parts => [bothLists t parts]

/-- The nodes of requirements that are told, one requirement after the other. -/
def toldAll : List Requirement → List Requirement
  | [] => []
  | q :: rest => q.told ++ toldAll rest

end

mutual

theorem told_subset : ∀ q : Requirement, q.told ⊆ q.nodes
  | pick how t => by
    rw [told, nodes]
    exact List.Subset.refl _
  | oneGroup t groups => by
    rw [told, nodes]
    exact List.cons_subset_cons _ (toldAll_subset groups)
  | bothLists t parts => by
    rw [told, nodes]
    exact List.cons_subset_cons _ (List.nil_subset _)

theorem toldAll_subset : ∀ items : List Requirement, toldAll items ⊆ nodesAll items
  | [] => List.Subset.refl _
  | q :: rest => by
    rw [toldAll, nodesAll]
    exact List.append_subset.mpr
      ⟨List.subset_append_of_subset_left _ (told_subset q),
        List.subset_append_of_subset_right _ (toldAll_subset rest)⟩

end

mutual

theorem nodes_subset_nodes : ∀ (q : Requirement) {n : Requirement}, n ∈ q.nodes → n.nodes ⊆ q.nodes
  | pick how t, n, hn => by
    rw [nodes] at hn
    obtain rfl := List.mem_singleton.mp hn
    exact List.Subset.refl _
  | oneGroup t groups, n, hn => by
    rw [nodes, List.mem_cons] at hn
    rcases hn with rfl | hn
    · exact List.Subset.refl _
    · rw [nodes]
      exact List.subset_cons_of_subset _ (nodes_subset_nodesAll groups hn)
  | bothLists t parts, n, hn => by
    rw [nodes, List.mem_cons] at hn
    rcases hn with rfl | hn
    · exact List.Subset.refl _
    · rw [nodes]
      exact List.subset_cons_of_subset _ (nodes_subset_nodesAll parts hn)

theorem nodes_subset_nodesAll : ∀ (items : List Requirement) {n : Requirement},
    n ∈ nodesAll items → n.nodes ⊆ nodesAll items
  | [], n, hn => absurd hn List.not_mem_nil
  | q :: rest, n, hn => by
    rw [nodesAll, List.mem_append] at hn
    rw [nodesAll]
    rcases hn with hn | hn
    · exact List.subset_append_of_subset_left _ (nodes_subset_nodes q hn)
    · exact List.subset_append_of_subset_right _ (nodes_subset_nodesAll rest hn)

end

/-- What the finding of a requirement says of its groups. -/
structure Answers (q : Requirement) (f : Finding) : Prop where
  kind : f.kind = q.kind
  groups : f.groups.length = q.groups.length
  present : f.satisfiedBy.isSome = true ↔ q.kind = .oneGroup ∧ f.met = true
  first : ∀ i, f.satisfiedBy = some i ↔ ∃ h : i < f.groups.length,
    (f.groups[i].met = true ∧ f.groups[i].remaining = []) ∧
      ∀ j (hj : j < i), ¬(f.groups[j].met = true ∧ f.groups[j].remaining = [])

theorem answers_pickFinding (how : Pick) (t : Terms) (taken used : List Key)
    (valid : List Course) : (pick how t).Answers (pickFinding how t taken used valid) where
  kind := rfl
  groups := rfl
  present := by simp [pickFinding, kind]
  first i := by simp [pickFinding]

theorem answers_partsFinding (t : Terms) (parts : List Requirement) (description : Text)
    (fs : List Finding) : (bothLists t parts).Answers (partsFinding description fs) where
  kind := rfl
  groups := rfl
  present := by simp [partsFinding, kind]
  first i := by simp [partsFinding]

theorem answers_groupFinding (t : Terms) {groups : List Requirement} (description : Text)
    {fs : List Finding} (h : fs.length = groups.length) :
    (oneGroup t groups).Answers (groupFinding description fs) where
  kind := rfl
  groups := h
  present := by simp [groupFinding, kind]
  first i := by
    show fs.findIdx? Finding.complete = some i ↔ _
    rw [List.findIdx?_eq_some_iff_getElem]
    simp only [Finding.complete_iff]
    rfl

variable {s : Student} {items : List Requirement} {used used' : List Key} {fs : List Finding}

/-- **Choices are answered** at every node that is told. -/
theorem Audited.answers (h : Audited s items used fs used') :
    List.Forall₂ Answers (toldAll items) (Finding.nodesAll fs) := by
  induction h with
  | nil used => exact .nil
  | pick _ _ ih =>
    rw [toldAll, told, Finding.nodesAll, Finding.nodes_eq]
    exact List.rel_append (.cons (answers_pickFinding _ _ _ _ _) .nil) ih
  | oneGroup hgroups _ ihgroups ih =>
    rw [toldAll, told, Finding.nodesAll, Finding.nodes_eq]
    exact List.rel_append (.cons (answers_groupFinding _ _ hgroups.length_eq) ihgroups) ih
  | bothLists _ _ _ ih =>
    rw [toldAll, told, Finding.nodesAll, Finding.nodes_eq]
    exact List.rel_append (.cons (answers_partsFinding _ _ _ _) .nil) ih

end Requirement

/-! ## Communication -/

namespace CommunicationRule

/-- Whether every list that an option asks for is found by its name in a finding. -/
def Answered (rule : CommunicationRule) (f : CommunicationFinding) : Prop :=
  ∀ o ∈ rule.options, ∀ pair ∈ o.requires, ∃ l ∈ f.lists,
    f.lists.find? (fun l => l.name == pair.1) = some l ∧
      CommunicationFinding.takenOf f.lists pair.1 = l.taken.length

theorem answered_audit {rule : CommunicationRule} (h : rule.Sound) (taken excluded : List Key) :
    rule.Answered (rule.audit taken excluded) := by
  intro o ho pair hpair
  have hnames : (rule.audit taken excluded).lists.map (·.name) = rule.lists.map (·.name) := by
    rw [audit, List.map_map]
    rfl
  have hmem : pair.1 ∈ (rule.audit taken excluded).lists.map (·.name) :=
    hnames ▸ h.options o ho pair hpair
  obtain ⟨l, hl, hname⟩ := List.mem_map.mp hmem
  have hfind : (rule.audit taken excluded).lists.find? (fun l => l.name == pair.1) = some l := by
    rw [← hname]
    exact find?_of_nodup_map (hnames ▸ h.names) hl
  exact ⟨l, hl, hfind, by rw [CommunicationFinding.takenOf, hfind]⟩

end CommunicationRule

/-! ## Walks -/

/-- Whether a section is audited with documents that it names or that every audit of it needs. -/
def Section.loads : Section → Bool
  | requirements _ _ | communication _ => false
  | breadth _ | depth _ => true

namespace Major

theorem auditSection_numeric (s : Student) (codes : List Text) (w : Walk) (r : Registry)
    {sec : Section} (h : sec.loads = false) :
    ∃ x, Load.run (auditSection s codes w sec) r = (x, r) ∧ Numeric x := by
  cases sec with
  | requirements which items =>
    have hnumeric := Requirement.auditAll_numeric (s := s) items w.used
    rw [auditSection]
    generalize Requirement.auditAll s items w.used = result at hnumeric ⊢
    obtain ⟨findings, used⟩ := result
    cases findings with
    | ok fs => exact ⟨_, rfl, numeric_ok _⟩
    | error e => exact ⟨_, rfl, numeric_error (hnumeric e rfl)⟩
  | communication rule => exact ⟨_, rfl, numeric_ok _⟩
  | breadth | depth => cases h

/-- A walk through sections without documents has one fault at most. -/
theorem auditSections_numeric (s : Student) (codes : List Text) (w : Walk) (r : Registry)
    {sections : List Section} (h : ∀ sec ∈ sections, sec.loads = false) :
    ∃ x, Load.run (auditSections s codes sections w) r = (x, r) ∧ Numeric x := by
  induction sections generalizing w with
  | nil => exact ⟨_, rfl, numeric_ok _⟩
  | cons sec rest ih =>
    rw [List.forall_mem_cons] at h
    obtain ⟨x, hx, hnumeric⟩ := auditSection_numeric s codes w r h.1
    rw [auditSections, Load.run_bind, hx]
    cases x with
    | error e => exact ⟨_, rfl, numeric_error (hnumeric e rfl)⟩
    | ok w' => exact ih w' h.2

end Major

/-! ## What is read can be walked through -/

namespace RuleSet

theorem exists_of_read {major : Text} {v : Json} {rules : RuleSet}
    (h : read major v = .ok rules) : ∃ fields, v = .object fields := by
  cases v with
  | object fields => exact ⟨fields, rfl⟩
  | null | bool | int | float | text | list => cases h

theorem mem_sections_of_communication? {rules : RuleSet} {rule : CommunicationRule}
    (h : rules.communication? = some rule) : .communication rule ∈ rules.sections := by
  obtain ⟨sec, hsec, hrule⟩ := List.exists_of_findSome?_eq_some h
  split at hrule
  · obtain rfl := Option.some.inj hrule
    exact hsec
  · cases hrule

def nodes (rules : RuleSet) : List Requirement :=
  rules.sections.flatMap fun
    | .requirements _ items => Requirement.nodesAll items
    | _ => []

theorem WellFormed.sound_of_mem_nodes {fields : Fields} {rules : RuleSet}
    (h : rules.WellFormed fields) : ∀ q ∈ rules.nodes, q.Sound := by
  intro q hq
  obtain ⟨sec, hsec, hmem⟩ := List.mem_flatMap.mp hq
  have hsound := h.sections sec hsec
  cases sec with
  | requirements which items => exact hsound q hmem
  | communication | breadth | depth => exact absurd hmem List.not_mem_nil

theorem nodesAll_subset_nodes {rules : RuleSet} {items : List Requirement}
    (h : items ⊆ rules.nodes) : Requirement.nodesAll items ⊆ rules.nodes := by
  intro n hn
  induction items with
  | nil => exact absurd hn List.not_mem_nil
  | cons q rest ih =>
    rw [List.cons_subset] at h
    rw [Requirement.nodesAll, List.mem_append] at hn
    rcases hn with hn | hn
    · obtain ⟨sec, hsec, hmem⟩ := List.mem_flatMap.mp h.1
      refine List.mem_flatMap.mpr ⟨sec, hsec, ?_⟩
      cases sec with
      | requirements which below => exact Requirement.nodes_subset_nodesAll below hmem hn
      | communication | breadth | depth => exact absurd hmem List.not_mem_nil
    · exact ih h.2 hn

end RuleSet

/-- What a registry reads from its folder has distinct keys, so its rules keep their promises. -/
theorem Registry.wellFormed_of_readRules {r : Registry} {major : Text} {rules : RuleSet}
    (h : r.readRules major = .ok rules) : ∃ fields, rules.WellFormed fields := by
  unfold readRules at h
  split at h
  · cases h
  · next p _ =>
    cases hread : r.folder.read p with
    | error e =>
      rw [hread] at h
      cases h
    | ok v =>
      rw [hread] at h
      obtain ⟨fields, rfl⟩ := RuleSet.exists_of_read h
      exact ⟨fields, (RuleSet.read_yields (Folder.read_keyed hread) major rules h).2⟩

/-- **What is read can be walked through.** Rules that are read from a value with distinct keys are
those of an object and keep their promises to it. Whatever the catalog and the student, the walk
through their sections without documents has one fault at most, a number that cannot be read; every
list that an option of their communication rule asks for is found; and wherever some of their
requirements are audited, at any depth, the finding of every choice answers for its groups. -/
theorem rules_read_walkable (major : Text) (v : Json) (hv : v.Keyed) (rules : RuleSet)
    (h : RuleSet.read major v = .ok rules) :
    (∃ fields, v = .object fields ∧ rules.WellFormed fields) ∧ (∀ q ∈ rules.nodes, q.Sound) ∧
    ∀ s : Student,
      (∀ codes w r, ∃ x, Load.run (Major.auditSections s codes
        (rules.sections.filter fun sec => !sec.loads) w) r = (x, r) ∧ Numeric x) ∧
      (∀ rule, rules.communication? = some rule →
        rule.Sound ∧ rule.Answered (rule.audit s.taken s.excluded)) ∧
      ∀ items ⊆ rules.nodes, ∀ used fs used',
        Requirement.auditAll s items used = (.ok fs, used') →
          Requirement.toldAll items ⊆ rules.nodes ∧
          List.Forall₂ Requirement.Answers (Requirement.toldAll items) (Finding.nodesAll fs) := by
  obtain ⟨fields, rfl⟩ := RuleSet.exists_of_read h
  obtain ⟨-, hrules⟩ := RuleSet.read_yields hv major rules h
  refine ⟨⟨fields, rfl, hrules⟩, hrules.sound_of_mem_nodes, fun s => ⟨fun codes w r => ?_,
    fun rule hrule => ?_, fun items hitems used fs used' haudit => ?_⟩⟩
  · refine Major.auditSections_numeric s codes w r fun sec hsec => ?_
    simpa using (List.mem_filter.mp hsec).2
  · have hsound := hrules.sections _ (RuleSet.mem_sections_of_communication? hrule)
    exact ⟨hsound, CommunicationRule.answered_audit hsound s.taken s.excluded⟩
  · have htold := List.Subset.trans (Requirement.toldAll_subset items)
      (RuleSet.nodesAll_subset_nodes hitems)
    exact ⟨htold, (Requirement.auditAll_eq_ok_iff.mp haudit).answers⟩

/-- A document with a communication rule, and with a choice of groups beside two other fields. -/
def groupedDocument : Json :=
  .object [("program", .text "Mathematics"),
    ("communication_requirement", .object [
      ("list1", .object [("courses", .list [.text "ENGL 109"])]),
      ("options", .list [.object [("requires", .list [.object [("list", .text "list1")]])]])]),
    ("required_courses", .list [.object [("type", .text "one_group_required"),
      ("groups", .list [.object [("type", .text "all_required"),
          ("courses", .list [.text "MATH 135"])],
        .object [("type", .text "all_required"), ("courses", .list [.text "MATH 145"])]])]])]

theorem keyed_groupedDocument : groupedDocument.Keyed := by
  have hread : Json.readChars 900 (Json.writeChars 0 groupedDocument) = .ok groupedDocument := by
    decide +kernel
  exact Json.readChars_keyed hread

theorem rules_read_walkable_grouped :
    ∃ rules, RuleSet.read "m" groupedDocument = .ok rules ∧
      rules.order = (["communication_requirement", "required_courses"] : List Text) ∧
      rules.communication?.isSome = true ∧
      ∃ f used, Requirement.auditAll ⟨.ofCourses [], ["MATH145"], []⟩ (rules.nodes.take 1) [] =
          (.ok [f], used) ∧
        f.groups.length = 2 ∧ f.satisfiedBy = some 1 ∧
        List.Forall₂ Requirement.Answers (Requirement.toldAll (rules.nodes.take 1))
          (Finding.nodesAll [f]) := by
  obtain ⟨-, -, hwalk⟩ := rules_read_walkable "m" groupedDocument keyed_groupedDocument _ rfl
  obtain ⟨-, -, haudit⟩ := hwalk ⟨.ofCourses [], ["MATH145"], []⟩
  exact ⟨_, rfl, by decide +kernel, by decide +kernel, _, _, rfl, by decide +kernel,
    by decide +kernel, (haudit _ (List.take_subset 1 _) [] _ _ rfl).2⟩

end DegreeAudit
