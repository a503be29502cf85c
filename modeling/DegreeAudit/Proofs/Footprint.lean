import DegreeAudit.Proofs.Blame
import DegreeAudit.Proofs.Derivation
import DegreeAudit.Proofs.Walk
import DegreeAudit.Proofs.WellFormed

/-!
# Footprints

The *footprint* of a requirement are the keys of the candidates of its leaves, at every depth. An
audit stays within the footprint: of the used keys it sees no others, and it adds no others.

**Frames.** If two lists of used keys agree on the footprint, then the two audits have the same
outcome and add the same keys (`exists_audit_within`). This holds of the audits that fault as well:
they add the keys of what was audited before the fault.

**Independence.** Requirements with disjoint footprints do not see each other. So neighbours can
change places, and used keys outside all footprints are carried along untouched
(`independent_requirements_commute`).
-/

namespace DegreeAudit

namespace Requirement

variable {s : Student}

/-! ## Footprints -/

/-- The keys of the candidates of a leaf. A leaf has none if its candidates cannot be read, and a
node that is no leaf has none of its own. -/
def leafKeys (s : Student) : Requirement → List Key
  | pick how t =>
    match t.candidates how s.catalog s.excluded with
    | .ok valid => valid.map Course.key
    | .error _ => []
  | oneGroup _ _ | bothLists _ _ => []

/-- The keys of the candidates of all leaves of a requirement. -/
def footprint (s : Student) (r : Requirement) : List Key := r.nodes.flatMap (leafKeys s)

/-- The keys of the candidates of all leaves of requirements. -/
def footprintAll (s : Student) (items : List Requirement) : List Key :=
  (nodesAll items).flatMap (leafKeys s)

theorem leafKeys_of_candidates {how : Pick} {t : Terms} {valid : List Course}
    (h : t.candidates how s.catalog s.excluded = .ok valid) :
    leafKeys s (.pick how t) = valid.map Course.key := by
  rw [leafKeys, h]

theorem footprint_pick (how : Pick) (t : Terms) :
    footprint s (.pick how t) = leafKeys s (.pick how t) := by
  rw [footprint, nodes, List.flatMap_singleton]

theorem footprint_oneGroup (t : Terms) (groups : List Requirement) :
    footprint s (.oneGroup t groups) = footprintAll s groups := by
  rw [footprint, nodes, List.flatMap_cons, leafKeys, List.nil_append, footprintAll]

theorem footprint_bothLists (t : Terms) (parts : List Requirement) :
    footprint s (.bothLists t parts) = footprintAll s parts := by
  rw [footprint, nodes, List.flatMap_cons, leafKeys, List.nil_append, footprintAll]

theorem footprintAll_cons (r : Requirement) (rest : List Requirement) :
    footprintAll s (r :: rest) = footprint s r ++ footprintAll s rest := by
  rw [footprintAll, nodesAll, List.flatMap_append, footprint, footprintAll]

theorem mem_footprintAll {items : List Requirement} {k : Key} :
    k ∈ footprintAll s items ↔ ∃ r ∈ items, k ∈ footprint s r := by
  induction items with
  | nil => simp [footprintAll, nodesAll]
  | cons r rest ih => simp [footprintAll_cons, ih]

/-! ## Frames -/

/-- Two lists of used keys have the same keys among some. -/
def SameWithin (keys used used' : List Key) : Prop := ∀ k ∈ keys, k ∈ used ↔ k ∈ used'

theorem SameWithin.mono {keys keys' used used' : List Key} (h : SameWithin keys used used')
    (hsub : keys' ⊆ keys) : SameWithin keys' used used' := fun k hk => h k (hsub hk)

theorem SameWithin.append {keys used used' : List Key} (h : SameWithin keys used used')
    (added : List Key) : SameWithin keys (used ++ added) (used' ++ added) := by
  intro k hk
  rw [List.mem_append, List.mem_append, h k hk]

theorem SameWithin.refl (keys used : List Key) : SameWithin keys used used := fun _ _ => Iff.rfl

theorem freeOf_of_sameWithin {taken used used' : List Key} {valid : List Course}
    (h : SameWithin (valid.map Course.key) used used') :
    freeOf taken used valid = freeOf taken used' valid := by
  refine List.filter_congr fun c hc => ?_
  rw [decide_eq_decide.mpr (not_congr (h c.key (List.mem_map_of_mem hc)))]

theorem creditedKeys_subset (how : Pick) (t : Terms) (taken used : List Key)
    {valid : List Course} (hnodup : (valid.map Course.key).Nodup) :
    how.creditedKeys t (freeOf taken used valid) ⊆ valid.map Course.key := by
  intro k hk
  have hreport := (how.mem_creditedKeys t (nodup_freeOf hnodup taken used) k).mp hk
  obtain ⟨c, hc, rfl⟩ := List.mem_map.mp hreport
  exact List.mem_map_of_mem (mem_freeOf.mp ((how.credit_sublist t _).subset hc)).1

mutual

/-- **Frames.** Used keys that agree on the footprint give the same outcome, and the same keys of
the footprint are added to them. -/
theorem exists_audit_within (s : Student) : ∀ (r : Requirement) (used : List Key),
    ∃ x added, added ⊆ footprint s r ∧
      ∀ used', SameWithin (footprint s r) used used' → audit s r used' = (x, used' ++ added)
  | .pick how t, used => by
    rw [footprint_pick]
    cases hvalid : t.candidates how s.catalog s.excluded with
    | error e => exact ⟨.error e, [], List.nil_subset _, fun used' _ => by simp [audit, hvalid]⟩
    | ok valid =>
      rw [leafKeys_of_candidates hvalid]
      refine ⟨.ok (pickFinding how t s.taken used valid),
        how.creditedKeys t (freeOf s.taken used valid),
        creditedKeys_subset how t s.taken used (Terms.nodup_of_candidates hvalid),
        fun used' hsame => ?_⟩
      rw [audit, hvalid]
      simp only [pickFinding, freeOf_of_sameWithin hsame]
  | .oneGroup t groups, used => by
    obtain ⟨x, added, hsub, hgroups⟩ := exists_auditAll_within s groups used
    rw [footprint_oneGroup]
    cases x with
    | error e =>
      exact ⟨.error e, added, hsub, fun used' hsame => by rw [audit, hgroups used' hsame]⟩
    | ok fs => exact ⟨_, added, hsub, fun used' hsame => by rw [audit, hgroups used' hsame]⟩
  | .bothLists t parts, used => by
    obtain ⟨x, added, hsub, hparts⟩ := exists_auditAll_within s parts used
    rw [footprint_bothLists]
    cases x with
    | error e =>
      exact ⟨.error e, added, hsub, fun used' hsame => by rw [audit, hparts used' hsame]⟩
    | ok fs => exact ⟨_, added, hsub, fun used' hsame => by rw [audit, hparts used' hsame]⟩

theorem exists_auditAll_within (s : Student) : ∀ (items : List Requirement) (used : List Key),
    ∃ x added, added ⊆ footprintAll s items ∧
      ∀ used', SameWithin (footprintAll s items) used used' →
        auditAll s items used' = (x, used' ++ added)
  | [], used => ⟨.ok [], [], List.nil_subset _, fun used' _ => by simp [auditAll]⟩
  | r :: rest, used => by
    obtain ⟨x, added, hsub, hfirst⟩ := exists_audit_within s r used
    obtain ⟨y, added', hsub', hrest⟩ := exists_auditAll_within s rest (used ++ added)
    rw [footprintAll_cons]
    have hleft := List.subset_append_left (footprint s r) (footprintAll s rest)
    have hright := List.subset_append_right (footprint s r) (footprintAll s rest)
    cases x with
    | error e =>
      refine ⟨.error e, added, List.Subset.trans hsub hleft, fun used' hsame => ?_⟩
      rw [auditAll, hfirst used' (hsame.mono hleft)]
    | ok f =>
      have hall : ∀ used', SameWithin (footprint s r ++ footprintAll s rest) used used' →
          auditAll s rest (used' ++ added) = (y, used' ++ (added ++ added')) := by
        intro used' hsame
        rw [hrest _ ((hsame.mono hright).append added), List.append_assoc]
      have hadded := List.append_subset.mpr
        ⟨List.Subset.trans hsub hleft, List.Subset.trans hsub' hright⟩
      cases y with
      | error e =>
        refine ⟨.error e, added ++ added', hadded, fun used' hsame => ?_⟩
        rw [auditAll, hfirst used' (hsame.mono hleft)]
        simp only [hall used' hsame]
      | ok fs =>
        refine ⟨.ok (f :: fs), added ++ added', hadded, fun used' hsame => ?_⟩
        rw [auditAll, hfirst used' (hsame.mono hleft)]
        simp only [hall used' hsame]

end

/-- The frame of requirements of which findings are known. -/
theorem exists_added_of_auditAll {items : List Requirement} {used used' : List Key}
    {fs : List Finding} (h : auditAll s items used = (.ok fs, used')) :
    ∃ added, used' = used ++ added ∧ added ⊆ footprintAll s items ∧
      ∀ start, SameWithin (footprintAll s items) used start →
        auditAll s items start = (.ok fs, start ++ added) := by
  obtain ⟨x, added, hsub, hall⟩ := exists_auditAll_within s items used
  obtain ⟨rfl, rfl⟩ := Prod.mk.inj (h.symm.trans (hall used (.refl _ used)))
  exact ⟨added, rfl, hsub, hall⟩

/-- The frame of a requirement of which the finding is known. -/
theorem exists_added_of_audit {r : Requirement} {used used' : List Key} {f : Finding}
    (h : audit s r used = (.ok f, used')) :
    ∃ added, used' = used ++ added ∧ added ⊆ footprint s r ∧
      ∀ start, SameWithin (footprint s r) used start →
        audit s r start = (.ok f, start ++ added) := by
  obtain ⟨x, added, hsub, hall⟩ := exists_audit_within s r used
  obtain ⟨rfl, rfl⟩ := Prod.mk.inj (h.symm.trans (hall used (.refl _ used)))
  exact ⟨added, rfl, hsub, hall⟩

/-! ## Independence -/

theorem sameWithin_append_of_disjoint {keys added : List Key} (used : List Key)
    (h : keys.Disjoint added) : SameWithin keys used (used ++ added) := by
  intro k hk
  rw [List.mem_append, or_iff_left (h hk)]

/-- **Neighbours with disjoint footprints change places.** -/
theorem auditAll_swap {r q : Requirement} (h : (footprint s r).Disjoint (footprint s q))
    {before after : List Requirement} {used used' : List Key} {fs : List Finding}
    (haudit : auditAll s (before ++ r :: q :: after) used = (.ok fs, used')) :
    ∃ fs₁ f g fs₂ stop, fs = fs₁ ++ f :: g :: fs₂ ∧ fs₁.length = before.length ∧
      auditAll s (before ++ q :: r :: after) used = (.ok (fs₁ ++ g :: f :: fs₂), stop) ∧
      ∀ k, k ∈ stop ↔ k ∈ used' := by
  obtain ⟨fs₁, _, used₁, hbefore, hboth, rfl⟩ := auditAll_append_eq_ok_iff.mp haudit
  obtain ⟨f, _, used₂, hr, hlast, rfl⟩ := auditAll_cons_eq_ok_iff.mp hboth
  obtain ⟨g, fs₂, used₃, hq, hafter, rfl⟩ := auditAll_cons_eq_ok_iff.mp hlast
  obtain ⟨addedR, rfl, hsubR, hframeR⟩ := exists_added_of_audit hr
  obtain ⟨addedQ, rfl, hsubQ, hframeQ⟩ := exists_added_of_audit hq
  obtain ⟨addedAfter, rfl, -, hframeAfter⟩ := exists_added_of_auditAll hafter
  -- The second one does not see what the first one added, and the other way round.
  have hq' : audit s q used₁ = (.ok g, used₁ ++ addedQ) := by
    refine hframeQ used₁ fun k hk => (sameWithin_append_of_disjoint used₁ ?_ k hk).symm
    exact fun k hkq hkr => h (hsubR hkr) hkq
  have hr' : audit s r (used₁ ++ addedQ) = (.ok f, used₁ ++ addedQ ++ addedR) :=
    hframeR _ (sameWithin_append_of_disjoint used₁ fun k hkr hkq => h hkr (hsubQ hkq))
  have hmem : ∀ k, k ∈ used₁ ++ addedR ++ addedQ ↔ k ∈ used₁ ++ addedQ ++ addedR := by
    intro k
    simp only [List.mem_append]
    tauto
  have hafter' := hframeAfter (used₁ ++ addedQ ++ addedR) fun k _ => hmem k
  have hswapped : auditAll s (before ++ q :: r :: after) used =
      (.ok (fs₁ ++ g :: f :: fs₂), used₁ ++ addedQ ++ addedR ++ addedAfter) :=
    auditAll_append_eq_ok_iff.mpr ⟨fs₁, _, used₁, hbefore,
      auditAll_cons_eq_ok_iff.mpr ⟨g, _, _, hq',
        auditAll_cons_eq_ok_iff.mpr ⟨f, fs₂, _, hr', hafter', rfl⟩, rfl⟩, rfl⟩
  refine ⟨fs₁, f, g, fs₂, _, rfl, (auditAll_eq_ok_iff.mp hbefore).length_eq, hswapped, fun k => ?_⟩
  exact List.mem_append.trans ((or_congr_left (hmem k).symm).trans List.mem_append.symm)

/-- **Independent requirements commute.** If two neighbours have disjoint footprints and the audit
gives findings, then the audit with the two swapped gives every requirement the same finding, and
the same keys are used in the end. If the audit has a fault, the other one has the same. Moreover,
used keys outside the footprints of all requirements leave the outcome of an audit as it is, and are
the only ones by which the keys used in the end become more. -/
theorem independent_requirements_commute (s : Student) :
    (∀ (before after : List Requirement) (r q : Requirement) (used : List Key),
      (footprint s r).Disjoint (footprint s q) →
        (∀ fs used', auditAll s (before ++ r :: q :: after) used = (.ok fs, used') →
          ∃ fs₁ f g fs₂ stop, fs = fs₁ ++ f :: g :: fs₂ ∧ fs₁.length = before.length ∧
            auditAll s (before ++ q :: r :: after) used = (.ok (fs₁ ++ g :: f :: fs₂), stop) ∧
            ∀ k, k ∈ stop ↔ k ∈ used') ∧
        ∀ e, (auditAll s (before ++ r :: q :: after) used).1 = .error e →
          (auditAll s (before ++ q :: r :: after) used).1 = .error e) ∧
    ∀ (items : List Requirement) (used extra start : List Key),
      (∀ r ∈ items, extra.Disjoint (footprint s r)) →
      (∀ k, k ∈ start ↔ k ∈ used ∨ k ∈ extra) →
        (auditAll s items start).1 = (auditAll s items used).1 ∧
        ∀ k, k ∈ (auditAll s items start).2 ↔ k ∈ (auditAll s items used).2 ∨ k ∈ extra := by
  constructor
  · intro before after r q used hdisjoint
    refine ⟨fun fs used' haudit => auditAll_swap hdisjoint haudit, fun e he => ?_⟩
    rcases hswapped : auditAll s (before ++ q :: r :: after) used with ⟨e' | fs, stop⟩
    · -- There is one fault only.
      rw [auditAll_numeric s _ used e he]
      have he' := auditAll_numeric s (before ++ q :: r :: after) used e' (by rw [hswapped])
      rw [he']
    · obtain ⟨fs₁, f, g, fs₂, stop', -, -, hback, -⟩ :=
        auditAll_swap (List.disjoint_symm hdisjoint) hswapped
      rw [hback] at he
      cases he
  · intro items used extra start hextra hstart
    obtain ⟨x, added, -, hframe⟩ := exists_auditAll_within s items used
    have hsame : SameWithin (footprintAll s items) used start := by
      intro k hk
      obtain ⟨r, hr, hkr⟩ := mem_footprintAll.mp hk
      rw [hstart, or_iff_left fun hke => hextra r hr hke hkr]
    rw [hframe used (.refl _ used), hframe start hsame]
    refine ⟨rfl, fun k => ?_⟩
    rw [List.mem_append, List.mem_append, hstart, or_right_comm]

def mathChoice : Requirement :=
  .oneGroup (.listing [] none)
    [.pick .every (.listing ["MATH 135", "MATH 136"] none), .pick .one (.listing ["MATH 136"] none)]

def csCount : Requirement :=
  .pick .several { Terms.listing ["CS 115", "CS 135"] (some 2) with required := ["CS 136"] }

/-- A student of both, whose major excludes a course. -/
def csStudent : Student :=
  ⟨.ofCourses [], ["MATH135", "MATH136", "CS115", "CS135", "CS136"], ["CS115"]⟩

theorem independent_requirements_commute_choice :
    (footprint csStudent mathChoice).Disjoint (footprint csStudent csCount) ∧
    (∃ fs used', auditAll csStudent ([] ++ mathChoice :: csCount ::
        [.pick .every (.listing ["MATH 135", "CS 135"] none)]) [] = (.ok fs, used') ∧
      fs.map Finding.takenKeys =
        ([["MATH135", "MATH136"], ["CS135", "CS136"], []] : List (List Key)) ∧
      ∃ fs₁ f g fs₂ stop, fs = fs₁ ++ f :: g :: fs₂ ∧ fs₁.length = 0 ∧
        auditAll csStudent ([] ++ csCount :: mathChoice ::
          [.pick .every (.listing ["MATH 135", "CS 135"] none)]) [] =
            (.ok (fs₁ ++ g :: f :: fs₂), stop) ∧
        ∀ k, k ∈ stop ↔ k ∈ used') ∧
    (∀ r ∈ [mathChoice, csCount],
      (["CS115", "ENGL109"] : List Key).Disjoint (footprint csStudent r)) ∧
    (auditAll csStudent [mathChoice, csCount] ["CS115", "ENGL109"]).1 =
      (auditAll csStudent [mathChoice, csCount] []).1 := by
  have hapart : ∀ k ∈ footprint csStudent mathChoice, k ∉ footprint csStudent csCount := by
    decide +kernel
  have houtside : ∀ r ∈ [mathChoice, csCount], ∀ k ∈ (["CS115", "ENGL109"] : List Key),
      k ∉ footprint csStudent r := by
    decide +kernel
  have hdisjoint := List.disjoint_left.mpr hapart
  have hextra := fun r hr => List.disjoint_left.mpr (houtside r hr)
  obtain ⟨hcommute, hframe⟩ := independent_requirements_commute csStudent
  exact ⟨hdisjoint,
    ⟨_, _, rfl, by decide +kernel, (hcommute [] _ mathChoice csCount [] hdisjoint).1 _ _ rfl⟩,
    hextra, (hframe [mathChoice, csCount] [] ["CS115", "ENGL109"] ["CS115", "ENGL109"] hextra
      (by simp)).1⟩

end Requirement

end DegreeAudit
