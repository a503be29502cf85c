import DegreeAudit.Proofs.Crediting

/-!
# Audits as derivations

`Audited s items used fs used'` says that auditing the requirements `items` from the used keys
`used` gives the findings `fs` and leaves the keys `used'`. It has one rule for the empty list and
one for each kind of requirement at the head of a list; the groups and parts of a node are audited
first, and from the same keys.

**Agreement.** The audit gives findings exactly if there is a derivation (`auditAll_eq_ok_iff`). So
what holds of every audit, whatever the nesting, is proved by induction on derivations.

**Faults.** Whether there is a derivation depends on the catalog and on the excluded courses only,
neither on the used keys nor on the courses taken (`Audited.exists_of_same_rules`). So requirements
have findings together exactly if each of them has one on its own (`exists_auditAll_iff`).
-/

namespace DegreeAudit

namespace Requirement

variable {s s' : Student}

/-! ## Derivations -/

/-- The audit of requirements in order, as rules. -/
inductive Audited (s : Student) :
    List Requirement → List Key → List Finding → List Key → Prop
  | nil (used : List Key) : Audited s [] used [] used
  | pick {how : Pick} {t : Terms} {rest : List Requirement} {used used' : List Key}
      {valid : List Course} {fs : List Finding}
      (hvalid : t.candidates how s.catalog s.excluded = .ok valid)
      (hrest : Audited s rest (used ++ how.creditedKeys t (freeOf s.taken used valid)) fs used') :
      Audited s (.pick how t :: rest) used (pickFinding how t s.taken used valid :: fs) used'
  | oneGroup {t : Terms} {groups rest : List Requirement} {used used₁ used' : List Key}
      {gs fs : List Finding} (hgroups : Audited s groups used gs used₁)
      (hrest : Audited s rest used₁ fs used') :
      Audited s (.oneGroup t groups :: rest) used
        (groupFinding (describe (.oneGroup t groups)) gs :: fs) used'
  | bothLists {t : Terms} {parts rest : List Requirement} {used used₁ used' : List Key}
      {gs fs : List Finding} (hparts : Audited s parts used gs used₁)
      (hrest : Audited s rest used₁ fs used') :
      Audited s (.bothLists t parts :: rest) used
        (partsFinding (describe (.bothLists t parts)) gs :: fs) used'

theorem auditAll_cons_eq_ok_iff {r : Requirement} {rest : List Requirement}
    {used used' : List Key} {fs : List Finding} :
    auditAll s (r :: rest) used = (.ok fs, used') ↔
      ∃ f fs' used₁, audit s r used = (.ok f, used₁) ∧
        auditAll s rest used₁ = (.ok fs', used') ∧ fs = f :: fs' := by
  rw [auditAll]
  rcases audit s r used with ⟨e | f, used₁⟩
  · simp
  · rcases h : auditAll s rest used₁ with ⟨e | gs, used₂⟩
    · simp [h]
    · simp [h, and_comm, eq_comm]

theorem auditAll_append_eq_ok_iff {items rest : List Requirement} {used used' : List Key}
    {fs : List Finding} :
    auditAll s (items ++ rest) used = (.ok fs, used') ↔
      ∃ fs₁ fs₂ used₁, auditAll s items used = (.ok fs₁, used₁) ∧
        auditAll s rest used₁ = (.ok fs₂, used') ∧ fs = fs₁ ++ fs₂ := by
  induction items generalizing used fs with
  | nil =>
    simp only [List.nil_append, auditAll, Prod.mk.injEq, Except.ok.injEq]
    constructor
    · intro h
      exact ⟨[], fs, used, ⟨rfl, rfl⟩, h, rfl⟩
    · rintro ⟨fs₁, fs₂, used₁, ⟨rfl, rfl⟩, h, rfl⟩
      exact h
  | cons r items ih =>
    rw [List.cons_append, auditAll_cons_eq_ok_iff]
    simp only [ih, auditAll_cons_eq_ok_iff]
    constructor
    · rintro ⟨f, -, used₁, hr, ⟨fs₁, fs₂, used₂, hitems, hrest, rfl⟩, rfl⟩
      exact ⟨f :: fs₁, fs₂, used₂, ⟨f, fs₁, used₁, hr, hitems, rfl⟩, hrest, rfl⟩
    · rintro ⟨-, fs₂, used₂, ⟨f, fs₁, used₁, hr, hitems, rfl⟩, hrest, rfl⟩
      exact ⟨f, fs₁ ++ fs₂, used₁, hr, ⟨fs₁, fs₂, used₂, hitems, hrest, rfl⟩, rfl⟩

/-! ## Agreement -/

mutual

theorem Audited.cons_of_audit : ∀ (r : Requirement) {used used₁ : List Key} {f : Finding},
    audit s r used = (.ok f, used₁) → ∀ {rest : List Requirement} {fs : List Finding}
    {used' : List Key}, Audited s rest used₁ fs used' → Audited s (r :: rest) used (f :: fs) used'
  | .pick how t, used, used₁, f, h, rest, fs, used', hrest => by
    rw [audit] at h
    split at h
    · simp at h
    · next valid hvalid =>
      simp only [Prod.mk.injEq, Except.ok.injEq] at h
      obtain ⟨rfl, rfl⟩ := h
      exact .pick hvalid hrest
  | .oneGroup t groups, used, used₁, f, h, rest, fs, used', hrest => by
    rw [audit] at h
    split at h
    · simp at h
    · next gs used₂ hgroups =>
      simp only [Prod.mk.injEq, Except.ok.injEq] at h
      obtain ⟨rfl, rfl⟩ := h
      exact .oneGroup (Audited.of_auditAll groups hgroups) hrest
  | .bothLists t parts, used, used₁, f, h, rest, fs, used', hrest => by
    rw [audit] at h
    split at h
    · simp at h
    · next gs used₂ hparts =>
      simp only [Prod.mk.injEq, Except.ok.injEq] at h
      obtain ⟨rfl, rfl⟩ := h
      exact .bothLists (Audited.of_auditAll parts hparts) hrest

theorem Audited.of_auditAll : ∀ (items : List Requirement) {used used' : List Key}
    {fs : List Finding}, auditAll s items used = (.ok fs, used') → Audited s items used fs used'
  | [], used, used', fs, h => by
    simp only [auditAll, Prod.mk.injEq, Except.ok.injEq] at h
    obtain ⟨rfl, rfl⟩ := h
    exact .nil used
  | r :: rest, used, used', fs, h => by
    obtain ⟨f, fs', used₁, hr, hrest, rfl⟩ := auditAll_cons_eq_ok_iff.mp h
    exact Audited.cons_of_audit r hr (Audited.of_auditAll rest hrest)

end

/-- **Agreement.** An audit gives findings exactly if they can be derived. -/
theorem auditAll_eq_ok_iff {items : List Requirement} {used used' : List Key}
    {fs : List Finding} :
    auditAll s items used = (.ok fs, used') ↔ Audited s items used fs used' := by
  refine ⟨Audited.of_auditAll items, fun h => ?_⟩
  induction h with
  | nil used => rw [auditAll]
  | pick hvalid hrest ih =>
    exact auditAll_cons_eq_ok_iff.mpr ⟨_, _, _, by rw [audit, hvalid], ih, rfl⟩
  | oneGroup hgroups hrest ihgroups ih =>
    exact auditAll_cons_eq_ok_iff.mpr ⟨_, _, _, by rw [audit, ihgroups], ih, rfl⟩
  | bothLists hparts hrest ihparts ih =>
    exact auditAll_cons_eq_ok_iff.mpr ⟨_, _, _, by rw [audit, ihparts], ih, rfl⟩

theorem Audited.length_eq {items : List Requirement} {used used' : List Key} {fs : List Finding}
    (h : Audited s items used fs used') : fs.length = items.length := by
  induction h with
  | nil used => rfl
  | pick _ _ ih => rw [List.length_cons, List.length_cons, ih]
  | oneGroup _ _ _ ih => rw [List.length_cons, List.length_cons, ih]
  | bothLists _ _ _ ih => rw [List.length_cons, List.length_cons, ih]

/-- **Faults.** Students with one catalog and one list of excluded courses fare alike: if one of
them gets findings, so does the other, from any used keys. -/
theorem Audited.exists_of_same_rules (hcat : s'.catalog = s.catalog)
    (hex : s'.excluded = s.excluded) {items : List Requirement} {used used' : List Key}
    {fs : List Finding} (h : Audited s items used fs used') (start : List Key) :
    ∃ fs' stop, Audited s' items start fs' stop := by
  induction h generalizing start with
  | nil used => exact ⟨[], start, .nil start⟩
  | pick hvalid hrest ih =>
    obtain ⟨fs', stop, h'⟩ := ih _
    exact ⟨_, stop, .pick (by rwa [hcat, hex]) h'⟩
  | oneGroup hgroups hrest ihgroups ih =>
    obtain ⟨gs', middle, hgs⟩ := ihgroups start
    obtain ⟨fs', stop, h'⟩ := ih middle
    exact ⟨_, stop, .oneGroup hgs h'⟩
  | bothLists hparts hrest ihparts ih =>
    obtain ⟨gs', middle, hgs⟩ := ihparts start
    obtain ⟨fs', stop, h'⟩ := ih middle
    exact ⟨_, stop, .bothLists hgs h'⟩

theorem audited_singleton_iff {r : Requirement} {used used' : List Key} {fs : List Finding} :
    Audited s [r] used fs used' ↔ ∃ f, audit s r used = (.ok f, used') ∧ fs = [f] := by
  rw [← auditAll_eq_ok_iff, auditAll_cons_eq_ok_iff]
  simp only [auditAll, Prod.mk.injEq, Except.ok.injEq]
  constructor
  · rintro ⟨f, fs', used₁, hr, ⟨rfl, rfl⟩, rfl⟩
    exact ⟨f, hr, rfl⟩
  · rintro ⟨f, hr, rfl⟩
    exact ⟨f, [], used', hr, ⟨rfl, rfl⟩, rfl⟩

theorem exists_audit_of_audit {r : Requirement} {used used' : List Key} {f : Finding}
    (h : audit s r used = (.ok f, used')) (start : List Key) :
    ∃ g stop, audit s r start = (.ok g, stop) := by
  obtain ⟨gs, stop, hgs⟩ :=
    (audited_singleton_iff.mpr ⟨f, h, rfl⟩).exists_of_same_rules rfl rfl start
  obtain ⟨g, hg, -⟩ := audited_singleton_iff.mp hgs
  exact ⟨g, stop, hg⟩

/-- Requirements have findings exactly if each of them has one on its own. -/
theorem exists_auditAll_iff {items : List Requirement} {used : List Key} :
    (∃ fs used', auditAll s items used = (.ok fs, used')) ↔
      ∀ r ∈ items, ∃ f used', audit s r used = (.ok f, used') := by
  induction items generalizing used with
  | nil => simp [auditAll]
  | cons r rest ih =>
    rw [List.forall_mem_cons]
    constructor
    · rintro ⟨fs, used', h⟩
      obtain ⟨f, fs', used₁, hr, hrest, rfl⟩ := auditAll_cons_eq_ok_iff.mp h
      refine ⟨⟨f, used₁, hr⟩, fun q hq => ?_⟩
      obtain ⟨g, stop, hg⟩ := ih.mp ⟨fs', used', hrest⟩ q hq
      exact exists_audit_of_audit hg used
    · rintro ⟨⟨f, used₁, hr⟩, hrest⟩
      obtain ⟨fs, used', hfs⟩ := ih.mpr fun q hq => by
        obtain ⟨g, stop, hg⟩ := hrest q hq
        exact exists_audit_of_audit hg used₁
      exact ⟨f :: fs, used', auditAll_cons_eq_ok_iff.mpr ⟨f, fs, used₁, hr, hfs, rfl⟩⟩

end Requirement

end DegreeAudit
