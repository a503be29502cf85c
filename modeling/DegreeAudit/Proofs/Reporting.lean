import DegreeAudit.Proofs.Derivation
import DegreeAudit.Proofs.Walk
import Mathlib.Data.List.Forall2

/-!
# What findings report

Every node of a finding, at any depth of groups, has a list of courses taken and a list of courses
remaining, and so has every communication list. `Reports student excluded taken remaining` says what
such lists promise: no key comes twice in one of them, the courses taken are the student's, the
courses remaining are not, and no excluded course is in either.

**Promises.** A leaf keeps them since it splits its candidates (`reports_pickFinding`). A node with
groups or parts merges lists that keep them (`Reports.merge`). So they hold at every node of every
audit (`Audited.reports`) and over whole majors (`Walked.reporting`).

**Independence.** What remains is a matter of the candidates and of the student alone. Two audits of
the same requirements from different used keys agree on it at every node (`Audited.sameRemaining`),
and so does the audit of one requirement without its siblings.
-/

namespace DegreeAudit

/-! ## Nodes -/

mutual

/-- A finding with the findings of its groups, at every depth. -/
def Finding.nodes : Finding → List Finding
  | ⟨description, kind, taken, remaining, met, satisfiedBy, groups⟩ =>
    ⟨description, kind, taken, remaining, met, satisfiedBy, groups⟩ :: Finding.nodesAll groups

def Finding.nodesAll : List Finding → List Finding
  | [] => []
  | f :: rest => f.nodes ++ Finding.nodesAll rest

end

namespace Finding

theorem nodes_eq (f : Finding) : f.nodes = f :: nodesAll f.groups := by
  cases f
  rw [nodes]

theorem mem_nodesAll {n : Finding} {fs : List Finding} :
    n ∈ nodesAll fs ↔ ∃ f ∈ fs, n ∈ f.nodes := by
  induction fs with
  | nil => simp [nodesAll]
  | cons f rest ih => simp [nodesAll, ih]

theorem mem_nodesAll_of_mem {f : Finding} {fs : List Finding} (h : f ∈ fs) : f ∈ nodesAll fs :=
  mem_nodesAll.mpr ⟨f, h, by rw [nodes_eq]; exact List.mem_cons_self⟩

end Finding

/-! ## Promises -/

/-- What lists of courses taken and of courses remaining promise. -/
structure Reports (student excluded : List Key) (taken remaining : List Course) : Prop where
  nodup_taken : (taken.map Course.key).Nodup
  taken : ∀ k ∈ taken.map Course.key, k ∈ student ∧ k ∉ excluded
  nodup_remaining : (remaining.map Course.key).Nodup
  remaining : ∀ k ∈ remaining.map Course.key, k ∉ student ∧ k ∉ excluded

/-- Splitting candidates keeps the promises, also if only some of those taken are reported. -/
theorem Reports.split {student excluded : List Key} {valid taken : List Course}
    (hnodup : (valid.map Course.key).Nodup) (hex : ∀ c ∈ valid, c.key ∉ excluded)
    (hsub : taken.Sublist (valid.filter fun c => c.key ∈ student)) :
    Reports student excluded taken (valid.filter fun c => c.key ∉ student) where
  nodup_taken := hnodup.sublist ((hsub.trans List.filter_sublist).map Course.key)
  taken k hk := by
    obtain ⟨c, hc, rfl⟩ := List.mem_map.mp hk
    obtain ⟨hvalid, hstudent⟩ := List.mem_filter.mp (hsub.subset hc)
    exact ⟨by simpa using hstudent, hex c hvalid⟩
  nodup_remaining := hnodup.sublist (List.filter_sublist.map Course.key)
  remaining k hk := by
    obtain ⟨c, hc, rfl⟩ := List.mem_map.mp hk
    obtain ⟨hvalid, hstudent⟩ := List.mem_filter.mp hc
    exact ⟨by simpa using hstudent, hex c hvalid⟩

theorem exists_of_mem_merge {gs : List Finding} {lists : Finding → List Course} {k : Key}
    (hk : k ∈ (Course.dedupe [] (gs.flatMap lists)).map Course.key) :
    ∃ g ∈ gs, k ∈ (lists g).map Course.key := by
  obtain ⟨c, hc, rfl⟩ := List.mem_map.mp hk
  obtain ⟨g, hg, hcg⟩ := List.mem_flatMap.mp ((Course.dedupe_sublist _ _).subset hc)
  exact ⟨g, hg, List.mem_map_of_mem hcg⟩

theorem Reports.merge {student excluded : List Key} {gs : List Finding}
    (h : ∀ g ∈ gs, Reports student excluded g.taken g.remaining) :
    Reports student excluded (Course.dedupe [] (gs.flatMap Finding.taken))
      (Course.dedupe [] (gs.flatMap Finding.remaining)) where
  nodup_taken := Course.nodup_key_dedupe _ _
  taken k hk := by
    obtain ⟨g, hg, hkg⟩ := exists_of_mem_merge hk
    exact (h g hg).taken k hkg
  nodup_remaining := Course.nodup_key_dedupe _ _
  remaining k hk := by
    obtain ⟨g, hg, hkg⟩ := exists_of_mem_merge hk
    exact (h g hg).remaining k hkg

theorem CommunicationList.reports (l : CommunicationList) (student excluded : List Key) :
    Reports student excluded (l.audit student excluded).taken
      (l.audit student excluded).remaining :=
  Reports.split (Course.nodup_key_dedupe excluded l.courses)
    (fun _ hc => Course.not_mem_excluded_of_mem_dedupe hc) (List.Sublist.refl _)

namespace Requirement

variable {s : Student}

theorem reports_pickFinding (how : Pick) (t : Terms) (used : List Key) {valid : List Course}
    (hvalid : t.candidates how s.catalog s.excluded = .ok valid) :
    Reports s.taken s.excluded (pickFinding how t s.taken used valid).taken
      (pickFinding how t s.taken used valid).remaining := by
  have hfree : (freeOf s.taken used valid).Sublist (valid.filter fun c => c.key ∈ s.taken) := by
    refine List.monotone_filter_right valid fun c hc => ?_
    rw [Bool.and_eq_true] at hc
    exact hc.1
  exact Reports.split (Terms.nodup_of_candidates hvalid)
    (fun _ hc => Terms.not_mem_excluded_of_candidates hvalid hc)
    ((how.credit_sublist t (freeOf s.taken used valid)).trans hfree)

/-- **Every node keeps the promises.** -/
theorem Audited.reports {items : List Requirement} {used used' : List Key} {fs : List Finding}
    (h : Audited s items used fs used') :
    ∀ n ∈ Finding.nodesAll fs, Reports s.taken s.excluded n.taken n.remaining := by
  induction h with
  | nil used => simp [Finding.nodesAll]
  | pick hvalid _ ih =>
    intro n hn
    rw [Finding.nodesAll, Finding.nodes_eq, List.cons_append, List.mem_cons] at hn
    rcases hn with rfl | hn
    · exact reports_pickFinding _ _ _ hvalid
    · exact ih n hn
  | oneGroup _ _ ihgroups ih =>
    intro n hn
    rw [Finding.nodesAll, Finding.nodes_eq, List.cons_append, List.mem_cons,
      List.mem_append] at hn
    rcases hn with rfl | hn | hn
    · exact Reports.merge fun g hg => ihgroups g (Finding.mem_nodesAll_of_mem hg)
    · exact ihgroups n hn
    · exact ih n hn
  | bothLists _ _ ihparts ih =>
    intro n hn
    rw [Finding.nodesAll, Finding.nodes_eq, List.cons_append, List.mem_cons] at hn
    rcases hn with rfl | hn
    · exact Reports.merge fun g hg => ihparts g (Finding.mem_nodesAll_of_mem hg)
    · exact ih n hn

end Requirement

/-! ## Independence -/

/-- The findings agree on what remains. If all candidates are asked for, then they agree on whether
the requirement is met as well. -/
structure Finding.SameRemaining (f g : Finding) : Prop where
  kind : f.kind = g.kind
  remaining : f.remaining = g.remaining
  met : f.kind = .pick .every → f.met = g.met

namespace Finding

/-- The findings agree on what remains, at every node. -/
def AgreeOnRemaining (f g : Finding) : Prop := List.Forall₂ SameRemaining f.nodes g.nodes

theorem AgreeOnRemaining.root {f g : Finding} (h : f.AgreeOnRemaining g) : f.SameRemaining g := by
  unfold AgreeOnRemaining at h
  rw [nodes_eq, nodes_eq, List.forall₂_cons] at h
  exact h.1

theorem agreeOnRemaining_nodesAll {gs gs' : List Finding}
    (h : List.Forall₂ AgreeOnRemaining gs gs') :
    List.Forall₂ SameRemaining (nodesAll gs) (nodesAll gs') := by
  induction h with
  | nil => exact .nil
  | cons hg _ ih => exact List.rel_append hg ih

/-- Findings of one kind that agree on what remains agree at every node if their groups do. -/
theorem AgreeOnRemaining.of_groups {f g : Finding} (hroot : f.SameRemaining g)
    (hgroups : List.Forall₂ AgreeOnRemaining f.groups g.groups) : f.AgreeOnRemaining g := by
  unfold AgreeOnRemaining
  rw [nodes_eq, nodes_eq]
  exact .cons hroot (agreeOnRemaining_nodesAll hgroups)

theorem merged_remaining_congr {gs gs' : List Finding}
    (h : List.Forall₂ AgreeOnRemaining gs gs') :
    Course.dedupe [] (gs.flatMap remaining) = Course.dedupe [] (gs'.flatMap remaining) := by
  congr 1
  induction h with
  | nil => rfl
  | cons hg _ ih => rw [List.flatMap_cons, List.flatMap_cons, hg.root.remaining, ih]

end Finding

namespace Requirement

variable {s : Student}

/-- **Independence.** Two audits of the same requirements agree on what remains, at every node,
whatever keys were used before. -/
theorem Audited.agreeOnRemaining {items : List Requirement} {used start used' stop : List Key}
    {fs fs' : List Finding} (h : Audited s items used fs used')
    (h' : Audited s items start fs' stop) : List.Forall₂ Finding.AgreeOnRemaining fs fs' := by
  induction h generalizing start fs' stop with
  | nil used =>
    cases h'
    exact .nil
  | @pick how _ _ _ _ _ _ hvalid _ ih =>
    cases h' with
    | pick hvalid' hrest' =>
      obtain rfl := Except.ok.inj (hvalid.symm.trans hvalid')
      refine .cons (.of_groups ⟨rfl, rfl, fun hkind => ?_⟩ .nil) (ih hrest')
      obtain rfl : how = Pick.every := Kind.pick.inj hkind
      rfl
  | oneGroup _ _ ihgroups ih =>
    cases h' with
    | oneGroup hgroups' hrest' =>
      have hgs := ihgroups hgroups'
      exact .cons (.of_groups ⟨rfl, Finding.merged_remaining_congr hgs, nofun⟩ hgs) (ih hrest')
  | bothLists _ _ ihparts ih =>
    cases h' with
    | bothLists hparts' hrest' =>
      have hgs := ihparts hparts'
      exact .cons (.of_groups ⟨rfl, Finding.merged_remaining_congr hgs, nofun⟩ .nil) (ih hrest')

/-- From any used keys, a requirement on its own is reported as it is among its siblings. -/
theorem Audited.agree_alone {items : List Requirement} {used used' : List Key}
    {fs : List Finding} (h : Audited s items used fs used') (start : List Key) :
    List.Forall₂ (fun r f => ∃ g stop, audit s r start = (.ok g, stop) ∧ f.AgreeOnRemaining g)
      items fs := by
  have hitems := auditAll_eq_ok_iff.mpr h
  clear h
  induction items generalizing used fs with
  | nil =>
    simp only [auditAll, Prod.mk.injEq, Except.ok.injEq] at hitems
    obtain ⟨rfl, -⟩ := hitems
    exact .nil
  | cons r rest ih =>
    obtain ⟨f, fs', used₁, hr, hrest, rfl⟩ := auditAll_cons_eq_ok_iff.mp hitems
    refine .cons ?_ (ih hrest)
    obtain ⟨g, stop, hg⟩ := exists_audit_of_audit hr start
    have hagree := (audited_singleton_iff.mpr ⟨f, hr, rfl⟩).agreeOnRemaining
      (audited_singleton_iff.mpr ⟨g, hg, rfl⟩)
    exact ⟨g, stop, hg, (List.forall₂_cons.mp hagree).1⟩

end Requirement

/-! ## Walks -/

/-- All requirement findings and communication lists of a progress keep the promises. -/
structure Progress.Reporting (student excluded : List Key) (p : Progress) : Prop where
  findings : ∀ f ∈ p.findings, ∀ n ∈ f.nodes, Reports student excluded n.taken n.remaining
  communication : ∀ c ∈ p.communication, ∀ l ∈ c.lists,
    Reports student excluded l.taken l.remaining

namespace Major

variable {s : Student} {codes : List Text}

theorem Step.reporting {w w' : Walk} {r r' : Registry} {sec : Section}
    (h : Step s codes w r sec w' r') (hw : w.progress.Reporting s.taken s.excluded) :
    w'.progress.Reporting s.taken s.excluded := by
  cases h with
  | requirements h =>
    refine { hw with findings := fun f hf => ?_ }
    simp only [Progress.findings, List.flatMap_append, List.flatMap_singleton,
      List.mem_append] at hf
    rcases hf with hf | hf
    · exact hw.findings f hf
    · intro n hn
      exact (Requirement.auditAll_eq_ok_iff.mp h).reports n (Finding.mem_nodesAll.mpr ⟨f, hf, hn⟩)
  | communication rule =>
    refine { hw with communication := fun c hc l hl => ?_ }
    obtain rfl := Option.some.inj hc
    obtain ⟨list, -, rfl⟩ := List.mem_map.mp hl
    exact list.reports s.taken s.excluded
  | breadth | depth => exact { hw with }

/-- The excluded courses are not among those that remain, so it makes no difference whether they
count as taken. -/
theorem reports_of_student {rules : RuleSet} {catalog : Catalog} {courses : List Text}
    {taken remaining : List Course}
    (h : Reports (student rules catalog courses).taken rules.excludedKeys taken remaining) :
    Reports (courses.map Code.key) rules.excludedKeys taken remaining where
  nodup_taken := h.nodup_taken
  taken k hk := ⟨mem_keys_of_mem_student (h.taken k hk).1, (h.taken k hk).2⟩
  nodup_remaining := h.nodup_remaining
  remaining k hk := by
    obtain ⟨hstudent, hex⟩ := h.remaining k hk
    refine ⟨fun hmem => hstudent ?_, hex⟩
    obtain ⟨c, hc, rfl⟩ := List.mem_map.mp hmem
    exact List.mem_map_of_mem (List.mem_filter.mpr ⟨hc, by simpa using hex⟩)

end Major

/-! ## What findings report -/

/-- **What findings report.** At every node of every finding, and in every communication list, no
key is reported twice, what is taken is the student's, what remains is not, and no excluded course
is reported. What remains at a node does not depend on the keys used before nor on other
requirements, and neither does whether a leaf that asks for every listed course is met. -/
theorem reported_courses :
    (∀ (s : Student) (items : List Requirement) (used used' : List Key) (fs : List Finding),
      Requirement.auditAll s items used = (.ok fs, used') →
        (∀ f ∈ fs, ∀ n ∈ f.nodes, Reports s.taken s.excluded n.taken n.remaining) ∧
        (∀ start, ∃ gs stop, Requirement.auditAll s items start = (.ok gs, stop) ∧
          List.Forall₂ Finding.AgreeOnRemaining fs gs) ∧
        ∀ start, List.Forall₂ (fun r f => ∃ g stop, Requirement.audit s r start = (.ok g, stop) ∧
          f.AgreeOnRemaining g) items fs) ∧
    (∀ (l : CommunicationList) (student excluded : List Key),
      Reports student excluded (l.audit student excluded).taken
        (l.audit student excluded).remaining) ∧
    ∀ (major : Text) (courses : List Text) (r r' : Registry) (p : Progress),
      Load.run (Major.audit major courses) r = (.ok p, r') →
        ∃ rules r₁, Load.run (Load.rules major) r = (.ok rules, r₁) ∧
          p.Reporting (courses.map Code.key) rules.excludedKeys := by
  refine ⟨fun s items used used' fs h => ?_, CommunicationList.reports, ?_⟩
  · have haudited := Requirement.auditAll_eq_ok_iff.mp h
    refine ⟨fun f hf n hn => ?_, fun start => ?_, haudited.agree_alone⟩
    · exact haudited.reports n (Finding.mem_nodesAll.mpr ⟨f, hf, hn⟩)
    · obtain ⟨gs, stop, hgs⟩ := haudited.exists_of_same_rules rfl rfl start
      exact ⟨gs, stop, Requirement.auditAll_eq_ok_iff.mpr hgs, haudited.agreeOnRemaining hgs⟩
  · intro major courses r r' p h
    obtain ⟨rules, catalog, r₁, r₂, used, hrules, -, hwalk⟩ := Major.walked_of_audit h
    have hstart : (Progress.start major).Reporting
        (Major.student rules catalog courses).taken rules.excludedKeys :=
      ⟨by simp [Progress.findings, Progress.start], by simp [Progress.start]⟩
    have hreporting := hwalk.keeps Major.Step.reporting hstart
    exact ⟨rules, r₁, hrules, {
      findings := fun f hf n hn => Major.reports_of_student (hreporting.findings f hf n hn)
      communication := fun c hc l hl =>
        Major.reports_of_student (hreporting.communication c hc l hl) }⟩

/-- Requirements that share courses, one of them in a group. -/
def sharingItems : List Requirement :=
  [.oneGroup (.listing [] none)
    [.pick .every (.listing ["MATH 135", "STAT 230"] none),
      .pick .ranged (.listing ["CS 135", "MATH 135", "CS 136"] (some 1))],
    .pick .every (.listing ["CS 135", "math 136"] none)]

/-- A major with these requirements that excludes a course of each of its sections. -/
def sharingRules : RuleSet where
  major := "m"
  excluded := [.untitled "STAT 230"]
  sections := [.requirements .required sharingItems,
    .communication ⟨[⟨"list1", .null, [.untitled "STAT 230", .untitled "ENGL 109"]⟩], []⟩]

def sharingStudent : Student := ⟨.ofCourses [], ["MATH135", "CS135"], ["STAT230"]⟩

theorem reported_courses_sharing :
    (∃ fs used', Requirement.auditAll sharingStudent sharingItems ["CS135"] = (.ok fs, used') ∧
      (Finding.nodesAll fs).map (fun n => n.remaining.map Course.key) =
        ([["CS136"], [], ["CS136"], ["MATH136"]] : List (List Key)) ∧
      ∀ f ∈ fs, ∀ n ∈ f.nodes, Reports ["MATH135", "CS135"] ["STAT230"] n.taken n.remaining) ∧
    ∃ p r' rules r₁,
      Load.run (Major.audit "m" ["MATH 135", "STAT 230"])
        (.loaded "m" sharingRules (.ofCourses []) [] []) = (.ok p, r') ∧
      Load.run (Load.rules "m") (.loaded "m" sharingRules (.ofCourses []) [] []) = (.ok rules, r₁) ∧
      p.Reporting ["MATH135", "STAT230"] rules.excludedKeys := by
  refine ⟨⟨_, _, rfl, by decide +kernel,
    (reported_courses.1 sharingStudent sharingItems ["CS135"] _ _ rfl).1⟩, ?_⟩
  obtain ⟨rules, r₁, hrules, hreporting⟩ := reported_courses.2.2 "m" ["MATH 135", "STAT 230"]
    (.loaded "m" sharingRules (.ofCourses []) [] []) _ _ rfl
  exact ⟨_, _, rules, r₁, rfl, hrules, hreporting⟩

end DegreeAudit
