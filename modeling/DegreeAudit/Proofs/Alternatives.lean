import DegreeAudit.Proofs.Filling
import DegreeAudit.Proofs.Footprint
import DegreeAudit.Proofs.Monotone

/-!
# Choices of groups

A choice asks for one of several groups. Its groups are audited one after the other, and a course
credited to one of them is used for the next ones. So what an earlier group takes, though it is
left incomplete, can spoil a later one: the order of the groups matters
(`group_spoiled_by_earlier_group`).

**In place.** A choice is met exactly if some group is *complete* in its place, that is, met with
nothing remaining from the keys used by then (`met_iff_in_place`). Such a group is complete on its
own too, from the keys used before the choice, since fewer used keys never hurt.

**On its own.** For the converse, a group must not lose a course that it needs to be free. Its
leaves that ask for every listed course never do: they are met as soon as nothing remains. The
*limited* leaves ask for free courses, and a group complete on its own stays complete in its place
if no candidate of these was used in between (`CompleteFrom.of_sameWithin`).

**Orders.** Some group is complete on its own exactly if the choice is met in some order of the
groups. If no group credits what a limited leaf of another one can pick, then all orders are alike
(`choice_met_in_place`).
-/

namespace DegreeAudit

namespace Requirement

variable {s : Student}

/-! ## Limited leaves -/

/-- The keys of the candidates of a leaf that does not ask for all of them. -/
def limitedKeys (s : Student) : Requirement → List Key
  | pick .every _ => []
  | r => leafKeys s r

/-- The keys of the candidates of the leaves that do not ask for all of them. -/
def limited (s : Student) (r : Requirement) : List Key := r.nodes.flatMap (limitedKeys s)

theorem limitedKeys_of_ne_every {how : Pick} (hhow : how ≠ .every) (t : Terms) :
    limitedKeys s (.pick how t) = leafKeys s (.pick how t) := by
  cases how with
  | every => exact absurd rfl hhow
  | one | ranged | several | listOne => rfl

/-- A leaf that asks for every listed course uses all candidates that the student has taken,
whichever of them were used before. -/
theorem sameWithin_every {keys taken used used' : List Key} (valid : List Course) (t : Terms)
    (h : SameWithin keys used used') :
    SameWithin keys (used ++ Pick.creditedKeys .every t (freeOf taken used valid))
      (used' ++ Pick.creditedKeys .every t (freeOf taken used' valid)) := by
  have hmem : ∀ used k, k ∈ used ++ Pick.creditedKeys .every t (freeOf taken used valid) ↔
      k ∈ used ∨ k ∈ valid.map Course.key ∧ k ∈ taken := by
    intro used k
    simp only [Pick.creditedKeys, List.mem_append, List.mem_map, mem_freeOf]
    constructor
    · rintro (hk | ⟨c, ⟨hc, htaken, -⟩, rfl⟩)
      · exact .inl hk
      · exact .inr ⟨⟨c, hc, rfl⟩, htaken⟩
    · rintro (hk | ⟨⟨c, hc, rfl⟩, htaken⟩)
      · exact .inl hk
      · by_cases hused : c.key ∈ used
        · exact .inl hused
        · exact .inr ⟨c, ⟨hc, htaken, hused⟩, rfl⟩
  intro k hk
  rw [hmem, hmem, h k hk]

/-- **Limited leaves decide.** If two lists of used keys agree on the candidates of the limited
leaves, then what is met or has nothing remaining from the one is so from the other. -/
theorem Audited.better_within {items : List Requirement} {keys used used' stop stop' : List Key}
    {fs fs' : List Finding} (hkeys : ∀ n ∈ nodesAll items, limitedKeys s n ⊆ keys)
    (hused : SameWithin keys used used') (h : Audited s items used fs stop)
    (h' : Audited s items used' fs' stop') :
    List.Forall₂ Finding.Better fs fs' ∧ SameWithin keys stop stop' := by
  induction h generalizing used' fs' stop' with
  | nil used =>
    cases h'
    exact ⟨.nil, hused⟩
  | @pick how t rest used stop valid fs hvalid _ ih =>
    rw [nodesAll, nodes, List.singleton_append, List.forall_mem_cons] at hkeys
    cases h' with
    | pick hvalid' hrest' =>
      obtain rfl := Except.ok.inj (hvalid.symm.trans hvalid')
      by_cases hhow : how = .every
      · subst hhow
        obtain ⟨hfs, hstop⟩ := ih hkeys.2 (sameWithin_every valid t hused) hrest'
        exact ⟨.cons ⟨fun hmet => hmet, fun hnil => hnil⟩ hfs, hstop⟩
      · have hcandidates : valid.map Course.key ⊆ keys := by
          have hlimited := hkeys.1
          rwa [limitedKeys_of_ne_every hhow, leafKeys_of_candidates hvalid] at hlimited
        have hfree : freeOf s.taken used valid = freeOf s.taken used' valid :=
          freeOf_of_sameWithin (hused.mono hcandidates)
        rw [← hfree] at hrest'
        obtain ⟨hfs, hstop⟩ := ih hkeys.2 (hused.append _) hrest'
        refine ⟨.cons ?_ hfs, hstop⟩
        unfold pickFinding
        rw [hfree]
        exact ⟨fun hmet => hmet, fun hnil => hnil⟩
  | oneGroup _ _ ihgroups ih =>
    rw [nodesAll, nodes, List.cons_append, List.forall_mem_cons, List.forall_mem_append] at hkeys
    cases h' with
    | oneGroup hgroups' hrest' =>
      obtain ⟨hgs, hmiddle⟩ := ihgroups hkeys.2.1 hused hgroups'
      obtain ⟨hfs, hstop⟩ := ih hkeys.2.2 hmiddle hrest'
      exact ⟨.cons (groupFinding_better hgs) hfs, hstop⟩
  | bothLists _ _ ihparts ih =>
    rw [nodesAll, nodes, List.cons_append, List.forall_mem_cons, List.forall_mem_append] at hkeys
    cases h' with
    | bothLists hparts' hrest' =>
      obtain ⟨hgs, hmiddle⟩ := ihparts hkeys.2.1 hused hparts'
      obtain ⟨hfs, hstop⟩ := ih hkeys.2.2 hmiddle hrest'
      exact ⟨.cons (partsFinding_better hgs) hfs, hstop⟩

/-! ## Complete groups -/

/-- From some used keys, the requirement is met with nothing remaining. -/
def CompleteFrom (s : Student) (used : List Key) (r : Requirement) : Prop :=
  ∃ f used', audit s r used = (.ok f, used') ∧ f.met = true ∧ f.remaining = []

/-- The keys used after an audit of requirements. -/
def usedAfter (s : Student) (items : List Requirement) (used : List Key) : List Key :=
  (auditAll s items used).2

theorem subset_usedAfter (items : List Requirement) (used : List Key) :
    used ⊆ usedAfter s items used := by
  obtain ⟨x, added, -, hframe⟩ := exists_auditAll_within s items used
  rw [usedAfter, hframe used (.refl _ used)]
  exact List.subset_append_left used added

theorem mem_usedAfter {items : List Requirement} {used : List Key} {k : Key}
    (h : k ∈ usedAfter s items used) : k ∈ used ∨ k ∈ footprintAll s items := by
  obtain ⟨x, added, hsub, hframe⟩ := exists_auditAll_within s items used
  rw [usedAfter, hframe used (.refl _ used), List.mem_append] at h
  exact h.imp_right fun hk => hsub hk

theorem CompleteFrom.of_better {used used' : List Key} {r : Requirement}
    (h : CompleteFrom s used r)
    (hbetter : ∀ {fs gs : List Finding} {stop stop' : List Key}, Audited s [r] used fs stop →
      Audited s [r] used' gs stop' → List.Forall₂ Finding.Better fs gs) :
    CompleteFrom s used' r := by
  obtain ⟨f, stop, hf, hmet, hremaining⟩ := h
  obtain ⟨g, stop', hg⟩ := exists_audit_of_audit hf used'
  have hfg := hbetter (audited_singleton_iff.mpr ⟨f, hf, rfl⟩)
    (audited_singleton_iff.mpr ⟨g, hg, rfl⟩)
  rw [List.forall₂_cons] at hfg
  exact ⟨g, stop', hg, hfg.1.met hmet, hfg.1.remaining hremaining⟩

theorem CompleteFrom.of_subset {used used' : List Key} {r : Requirement} (hsub : used ⊆ used')
    (h : CompleteFrom s used' r) : CompleteFrom s used r :=
  h.of_better fun hf hg => (Audited.better rfl rfl
    ⟨fun _ hk => hk, fun _ _ hfree hk => hfree (hsub hk)⟩ hf hg).1

/-- Other used keys make no difference as long as no candidate of a limited leaf is among them. -/
theorem CompleteFrom.of_sameWithin {used used' : List Key} {r : Requirement}
    (hsame : SameWithin (limited s r) used used') (h : CompleteFrom s used r) :
    CompleteFrom s used' r := by
  refine h.of_better fun hf hg => (hf.better_within (fun n hn => ?_) hsame hg).1
  rw [nodesAll, nodesAll, List.append_nil] at hn
  exact fun k hk => List.mem_flatMap_of_mem hn hk

/-! ## Choices -/

/-- Some of the findings is complete exactly if some of the requirements is complete in its
place. -/
theorem exists_complete_iff {items : List Requirement} {used used' : List Key} {fs : List Finding}
    (h : auditAll s items used = (.ok fs, used')) :
    (∃ f ∈ fs, f.complete = true) ↔
      ∃ pre r post, items = pre ++ r :: post ∧ CompleteFrom s (usedAfter s pre used) r := by
  induction items generalizing used fs with
  | nil =>
    simp only [auditAll, Prod.mk.injEq, Except.ok.injEq] at h
    obtain ⟨rfl, -⟩ := h
    simp
  | cons q rest ih =>
    obtain ⟨f, fs', used₁, hq, hrest, rfl⟩ := auditAll_cons_eq_ok_iff.mp h
    have hnext : ∀ pre, usedAfter s (q :: pre) used = usedAfter s pre used₁ := by
      intro pre
      simp only [usedAfter, auditAll, hq]
      rcases auditAll s pre used₁ with ⟨e | gs, stop⟩ <;> rfl
    rw [List.exists_mem_cons_iff, ih hrest, Finding.complete_iff]
    constructor
    · rintro (hf | ⟨pre, r, post, rfl, hr⟩)
      · exact ⟨[], q, rest, rfl, f, used₁, hq, hf⟩
      · exact ⟨q :: pre, r, post, rfl, (hnext pre).symm ▸ hr⟩
    · rintro ⟨pre, r, post, hitems, hr⟩
      cases pre with
      | nil =>
        obtain ⟨rfl, rfl⟩ := List.cons.inj hitems
        obtain ⟨g, stop, hg, hcomplete⟩ := hr
        obtain ⟨hfg, -⟩ := Prod.mk.inj (hq.symm.trans hg)
        obtain rfl := Except.ok.inj hfg
        exact .inl hcomplete
      | cons p pre =>
        obtain ⟨rfl, rfl⟩ := List.cons.inj hitems
        exact .inr ⟨pre, r, post, rfl, (hnext pre) ▸ hr⟩

section

variable {t : Terms} {groups : List Requirement} {used used' : List Key} {f : Finding}

theorem audit_oneGroup_eq_ok_iff :
    audit s (.oneGroup t groups) used = (.ok f, used') ↔
      ∃ fs, auditAll s groups used = (.ok fs, used') ∧
        f = groupFinding (describe (.oneGroup t groups)) fs := by
  rw [audit]
  rcases auditAll s groups used with ⟨e | fs, stop⟩
  · simp
  · simp [and_comm, eq_comm]

/-- A choice has a finding exactly if each of its groups has one on its own. -/
theorem exists_audit_oneGroup_iff :
    (∃ f used', audit s (.oneGroup t groups) used = (.ok f, used')) ↔
      ∀ r ∈ groups, ∃ f used', audit s r used = (.ok f, used') := by
  rw [← exists_auditAll_iff]
  simp only [audit_oneGroup_eq_ok_iff]
  constructor
  · rintro ⟨-, used', fs, hfs, -⟩
    exact ⟨fs, used', hfs⟩
  · rintro ⟨fs, used', hfs⟩
    exact ⟨_, used', fs, hfs, rfl⟩

/-- **In place.** A choice is met exactly if some group is complete from the keys used by the groups
before it. -/
theorem met_iff_in_place (h : audit s (.oneGroup t groups) used = (.ok f, used')) :
    f.met = true ↔
      ∃ pre r post, groups = pre ++ r :: post ∧ CompleteFrom s (usedAfter s pre used) r := by
  obtain ⟨fs, hfs, rfl⟩ := audit_oneGroup_eq_ok_iff.mp h
  rw [← exists_complete_iff hfs]
  simp only [groupFinding, List.findIdx?_isSome, List.any_eq_true]

theorem exists_complete_of_met (h : audit s (.oneGroup t groups) used = (.ok f, used'))
    (hmet : f.met = true) : ∃ r ∈ groups, CompleteFrom s used r := by
  obtain ⟨pre, r, post, rfl, hr⟩ := (met_iff_in_place h).mp hmet
  exact ⟨r, by simp, hr.of_subset (subset_usedAfter pre used)⟩

/-- A group that is complete on its own makes the choice met, if no candidate of its limited leaves
was used by the groups before it. -/
theorem met_of_complete {pre post : List Requirement} {r : Requirement}
    (h : audit s (.oneGroup t (pre ++ r :: post)) used = (.ok f, used'))
    (hr : CompleteFrom s used r)
    (hfree : ∀ k ∈ limited s r, k ∈ usedAfter s pre used → k ∈ used) : f.met = true :=
  (met_iff_in_place h).mpr ⟨pre, r, post, rfl, hr.of_sameWithin fun k hk =>
    ⟨fun hused => subset_usedAfter pre used hused, hfree k hk⟩⟩

/-- **Orders.** Some group is complete on its own exactly if the choice is met in some order. -/
theorem exists_complete_iff_exists_order
    (h : audit s (.oneGroup t groups) used = (.ok f, used')) :
    (∃ r ∈ groups, CompleteFrom s used r) ↔
      ∃ order, order.Perm groups ∧ ∃ g stop, audit s (.oneGroup t order) used = (.ok g, stop) ∧
        g.met = true := by
  constructor
  · rintro ⟨r, hr, hcomplete⟩
    obtain ⟨pre, post, rfl⟩ := List.append_of_mem hr
    have horder : (r :: (pre ++ post)).Perm (pre ++ r :: post) := List.perm_middle.symm
    have hall := exists_audit_oneGroup_iff.mp ⟨f, used', h⟩
    obtain ⟨g, stop, hg⟩ := (exists_audit_oneGroup_iff (t := t)).mpr fun q hq =>
      hall q (horder.mem_iff.mp hq)
    exact ⟨_, horder, g, stop, hg, (met_iff_in_place hg).mpr ⟨[], r, _, rfl, hcomplete⟩⟩
  · rintro ⟨order, horder, g, stop, hg, hmet⟩
    obtain ⟨r, hr, hcomplete⟩ := exists_complete_of_met hg hmet
    exact ⟨r, horder.mem_iff.mp hr, hcomplete⟩

end

/-- Neither of two groups has a candidate that a limited leaf of the other one can pick. -/
structure Apart (s : Student) (r q : Requirement) : Prop where
  left : (footprint s r).Disjoint (limited s q)
  right : (footprint s q).Disjoint (limited s r)

theorem Apart.symm {r q : Requirement} (h : Apart s r q) : Apart s q r := ⟨h.right, h.left⟩

/-- If the groups are apart, then the choice is met exactly if some group is complete on its own. -/
theorem met_iff_of_apart {t : Terms} {groups : List Requirement} {used used' : List Key}
    {f : Finding} (hapart : groups.Pairwise (Apart s))
    (h : audit s (.oneGroup t groups) used = (.ok f, used')) :
    f.met = true ↔ ∃ r ∈ groups, CompleteFrom s used r := by
  refine ⟨exists_complete_of_met h, ?_⟩
  rintro ⟨r, hr, hcomplete⟩
  obtain ⟨pre, post, rfl⟩ := List.append_of_mem hr
  refine met_of_complete h hcomplete fun k hk hused => ?_
  rcases mem_usedAfter hused with hused | hpre
  · exact hused
  · obtain ⟨q, hq, hkq⟩ := mem_footprintAll.mp hpre
    have hqr := (List.pairwise_append.mp hapart).2.2 q hq r List.mem_cons_self
    exact absurd hk (hqr.left hkq)

/-- **When a choice of groups is met.** It has a finding exactly if each group has one on its own.
Then it is met exactly if some group is complete in its place: met with nothing remaining, from the
keys used by the groups before it. Such a group is complete on its own too, from the keys used
before the choice. Conversely, a group complete on its own makes the choice met if no candidate of
its limited leaves was used by the groups before it, and in any case it does so in some order of the
groups. Where the groups are apart, so where no two of them share a candidate or all ask for every
listed course, the choice is met exactly if some group is complete on its own, and in every order of
the groups or in none. -/
theorem choice_met_in_place (s : Student) (t : Terms) (groups : List Requirement)
    (used : List Key) :
    ((∃ f used', audit s (.oneGroup t groups) used = (.ok f, used')) ↔
      ∀ r ∈ groups, ∃ f used', audit s r used = (.ok f, used')) ∧
    ∀ f used', audit s (.oneGroup t groups) used = (.ok f, used') →
      (f.met = true ↔
        ∃ pre r post, groups = pre ++ r :: post ∧ CompleteFrom s (usedAfter s pre used) r) ∧
      (f.met = true → ∃ r ∈ groups, CompleteFrom s used r) ∧
      (∀ pre r post, groups = pre ++ r :: post → CompleteFrom s used r →
        (∀ k ∈ limited s r, k ∈ usedAfter s pre used → k ∈ used) → f.met = true) ∧
      ((∃ r ∈ groups, CompleteFrom s used r) ↔
        ∃ order, order.Perm groups ∧ ∃ g stop, audit s (.oneGroup t order) used = (.ok g, stop) ∧
          g.met = true) ∧
      (groups.Pairwise (Apart s) →
        (f.met = true ↔ ∃ r ∈ groups, CompleteFrom s used r) ∧
        ∀ order, order.Perm groups →
          ∃ g stop, audit s (.oneGroup t order) used = (.ok g, stop) ∧ g.met = f.met) := by
  refine ⟨exists_audit_oneGroup_iff, fun f used' h => ⟨met_iff_in_place h,
    exists_complete_of_met h, ?_, exists_complete_iff_exists_order h, fun hapart => ?_⟩⟩
  · rintro pre r post rfl hr hfree
    exact met_of_complete h hr hfree
  · refine ⟨met_iff_of_apart hapart h, fun order horder => ?_⟩
    have hall := exists_audit_oneGroup_iff.mp ⟨f, used', h⟩
    obtain ⟨g, stop, hg⟩ := (exists_audit_oneGroup_iff (t := t)).mpr fun q hq =>
      hall q (horder.mem_iff.mp hq)
    have hapart' : order.Pairwise (Apart s) := horder.symm.pairwise hapart fun h => h.symm
    refine ⟨g, stop, hg, ?_⟩
    rw [Bool.eq_iff_iff, met_iff_of_apart hapart' hg, met_iff_of_apart hapart h]
    simp only [horder.mem_iff]

/-- Two groups that list all courses they ask for and share one of them, and a counting group. -/
def apartGroups : List Requirement :=
  [.pick .every (.listing ["MATH 135", "MATH 137"] none),
    .pick .every (.listing ["MATH 138", "MATH 135"] none), csCount]

theorem choice_met_in_place_apart :
    ∃ f used', audit csStudent (.oneGroup (.listing [] none) apartGroups) ["ENGL109"] =
        (.ok f, used') ∧
      f.groups.map Finding.complete = [false, false, true] ∧
      apartGroups.Pairwise (Apart csStudent) ∧
      (∃ r ∈ apartGroups, CompleteFrom csStudent ["ENGL109"] r) ∧ f.met = true ∧
      ∃ g stop, audit csStudent (.oneGroup (.listing [] none) apartGroups.reverse) ["ENGL109"] =
        (.ok g, stop) ∧ g.met = f.met := by
  have hpairs : apartGroups.Pairwise fun r q =>
      (∀ k ∈ footprint csStudent r, k ∉ limited csStudent q) ∧
        ∀ k ∈ footprint csStudent q, k ∉ limited csStudent r := by
    decide +kernel
  have hapart : apartGroups.Pairwise (Apart csStudent) := hpairs.imp fun h =>
    ⟨List.disjoint_left.mpr h.1, List.disjoint_left.mpr h.2⟩
  obtain ⟨-, hchoice⟩ :=
    choice_met_in_place csStudent (.listing [] none) apartGroups ["ENGL109"]
  obtain ⟨-, hown, -, -, horders⟩ := hchoice _ _ rfl
  obtain ⟨-, hreorder⟩ := horders hapart
  exact ⟨_, _, rfl, by decide +kernel, hapart, hown rfl, rfl, hreorder _ (List.reverse_perm _)⟩

/-- A group that lists two courses, and a group that asks for the first of them. -/
def spoilingGroups : List Requirement :=
  [.pick .every (.listing ["MATH 135", "MATH 136"] none), .pick .one (.listing ["MATH 135"] none)]

/-- The first group takes the course that the second one needs, and is not complete with it. So the
choice is not met, though the second group is complete on its own and though the choice is met with
the groups in the other order. -/
theorem group_spoiled_by_earlier_group :
    ∃ f used' g stop,
      audit (studentOf ["MATH135"]) (.oneGroup (.listing [] none) spoilingGroups) [] =
        (.ok f, used') ∧
      f.met = false ∧ (∃ r ∈ spoilingGroups, CompleteFrom (studentOf ["MATH135"]) [] r) ∧
      spoilingGroups.reverse.Perm spoilingGroups ∧
      audit (studentOf ["MATH135"]) (.oneGroup (.listing [] none) spoilingGroups.reverse) [] =
        (.ok g, stop) ∧
      g.met = true :=
  ⟨_, _, _, _, rfl, rfl,
    ⟨_, List.mem_cons_of_mem _ List.mem_cons_self, _, _, rfl, rfl, rfl⟩,
    List.reverse_perm _, rfl, rfl⟩

end Requirement

end DegreeAudit
