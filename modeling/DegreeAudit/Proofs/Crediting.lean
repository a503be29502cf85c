import DegreeAudit.Audit.Requirement
import DegreeAudit.Proofs.FirstOfKey
import Mathlib.Data.List.Nodup

/-!
# Crediting

What a single leaf does with its candidates. The candidates of a leaf are a deduplicated list, so
they are known by their keys. Out of them the *free* ones can be credited, and a leaf credits keys
and reports courses.

* `mem_creditedKeys`: the keys credited are exactly the keys of the courses reported.
* `fill_eq`: a counting leaf credits the required keys that are free, and then the first other free
  keys up to the number needed.
* `mem_creditedKeys_of_sublist`: a course that stays free does not lose its place to others. If a
  longer list of free courses credits it, then so does every shorter list that has it.
-/

namespace DegreeAudit

/-! ## Candidates -/

namespace Terms

/-- The candidates of a leaf are a list of courses, deduplicated and without the excluded ones. -/
theorem exists_dedupe_of_candidates {t : Terms} {how : Pick} {catalog : Catalog}
    {excluded : List Key} {valid : List Course}
    (h : t.candidates how catalog excluded = .ok valid) :
    ∃ courses, valid = Course.dedupe excluded courses := by
  unfold candidates at h
  split at h
  · cases hsel : catalog.select excluded t with
    | error e => simp [hsel, bind, Except.bind] at h
    | ok selected =>
      simp only [hsel, bind, Except.bind, pure, Except.pure, Except.ok.injEq] at h
      exact ⟨_, h.symm⟩
  · exact ⟨_, (Except.ok.inj h).symm⟩

theorem nodup_of_candidates {t : Terms} {how : Pick} {catalog : Catalog} {excluded : List Key}
    {valid : List Course} (h : t.candidates how catalog excluded = .ok valid) :
    (valid.map Course.key).Nodup := by
  obtain ⟨courses, rfl⟩ := exists_dedupe_of_candidates h
  exact Course.nodup_key_dedupe excluded courses

theorem not_mem_excluded_of_candidates {t : Terms} {how : Pick} {catalog : Catalog}
    {excluded : List Key} {valid : List Course}
    (h : t.candidates how catalog excluded = .ok valid) {c : Course} (hc : c ∈ valid) :
    c.key ∉ excluded := by
  obtain ⟨courses, rfl⟩ := exists_dedupe_of_candidates h
  exact Course.not_mem_excluded_of_mem_dedupe hc

end Terms

namespace Requirement

theorem mem_freeOf {taken used : List Key} {valid : List Course} {c : Course} :
    c ∈ freeOf taken used valid ↔ c ∈ valid ∧ c.key ∈ taken ∧ c.key ∉ used := by
  simp [freeOf]

theorem freeOf_sublist (taken used : List Key) (valid : List Course) :
    (freeOf taken used valid).Sublist valid := List.filter_sublist

theorem nodup_freeOf {valid : List Course} (h : (valid.map Course.key).Nodup)
    (taken used : List Key) : ((freeOf taken used valid).map Course.key).Nodup :=
  h.sublist ((freeOf_sublist taken used valid).map Course.key)

theorem freeOf_sublist_freeOf {taken taken' used used' : List Key}
    (h : ∀ k ∈ taken, k ∉ used → k ∈ taken' ∧ k ∉ used') (valid : List Course) :
    (freeOf taken used valid).Sublist (freeOf taken' used' valid) := by
  refine List.monotone_filter_right valid fun c hc => ?_
  simp only [Bool.and_eq_true, decide_eq_true_eq] at hc ⊢
  exact h c.key hc.1 hc.2

end Requirement

/-! ## Filling up -/

namespace Terms

/-- The required keys that are free. -/
def requiredFree (t : Terms) (free : List Course) : List Key :=
  t.requiredKeys.filter (· ∈ free.map Course.key)

/-- The free keys that are not required, in order. -/
def otherFree (t : Terms) (free : List Course) : List Key :=
  (free.map Course.key).filter (· ∉ t.requiredKeys)

theorem fill_eq (needed : Int) (credited : List Key) (courses : List Course)
    (hnodup : (courses.map Course.key).Nodup) :
    fill needed credited courses = credited ++
      ((courses.map Course.key).filter (· ∉ credited)).take (needed - credited.length).toNat := by
  induction courses generalizing credited with
  | nil => simp [fill]
  | cons c rest ih =>
    rw [List.map_cons, List.nodup_cons] at hnodup
    unfold fill
    split
    · next hfull =>
      have hzero : (needed - credited.length).toNat = 0 := by omega
      simp [hzero]
    · next hmore =>
      split
      · next hc =>
        rw [ih credited hnodup.2]
        simp [hc]
      · next hc =>
        rw [ih (credited ++ [c.key]) hnodup.2, List.append_assoc]
        congr 1
        have hsucc : (needed - credited.length).toNat =
            (needed - (credited ++ [c.key]).length).toNat + 1 := by
          simp only [List.length_append, List.length_singleton]
          omega
        -- The key just credited does not come again, so leaving it out changes nothing.
        have hrest : (rest.map Course.key).filter (· ∉ credited ++ [c.key]) =
            (rest.map Course.key).filter (· ∉ credited) := by
          refine List.filter_congr fun k hk => ?_
          have hne : k ≠ c.key := fun h => hnodup.1 (h ▸ hk)
          simp [hne]
        rw [List.map_cons, List.filter_cons_of_pos (by simpa using hc), hsucc, List.take_succ_cons,
          hrest]
        rfl

/-- **The keys of a counting leaf.** They are the required free keys, and the first other free keys
as far as courses are still needed. -/
theorem countedKeys_eq (t : Terms) {free : List Course} (hnodup : (free.map Course.key).Nodup) :
    t.countedKeys free = t.requiredFree free ++
      (t.otherFree free).take (t.needed - (t.requiredFree free).length).toNat := by
  unfold countedKeys
  rw [fill_eq _ _ free hnodup]
  congr 2
  refine List.filter_congr fun k hk => ?_
  simp only [List.mem_filter, hk, decide_true, and_true]

theorem mem_countedKeys {t : Terms} {free : List Course} (hnodup : (free.map Course.key).Nodup)
    {k : Key} (hk : k ∈ t.countedKeys free) : k ∈ free.map Course.key := by
  rw [countedKeys_eq t hnodup] at hk
  rcases List.mem_append.mp hk with hk | hk
  · simpa using (List.mem_filter.mp hk).2
  · exact (List.mem_filter.mp (List.mem_of_mem_take hk)).1

end Terms

/-! ## What a leaf credits -/

theorem mem_take_of_sublist {α : Type} {xs ys : List α} (h : xs.Sublist ys) (hnodup : ys.Nodup)
    {m n : Nat} (hmn : m ≤ n) {a : α} (ha : a ∈ xs) (htake : a ∈ ys.take m) : a ∈ xs.take n := by
  induction h generalizing m n with
  | slnil => simp at ha
  | @cons xs ys b hsub ih =>
    rw [List.nodup_cons] at hnodup
    cases m with
    | zero => simp at htake
    | succ m =>
      rw [List.take_succ_cons, List.mem_cons] at htake
      rcases htake with rfl | htake
      · exact absurd (hsub.subset ha) hnodup.1
      · exact ih hnodup.2 (Nat.le_of_succ_le hmn) ha htake
  | @cons_cons xs ys b hsub ih =>
    rw [List.nodup_cons] at hnodup
    cases m with
    | zero => simp at htake
    | succ m =>
      obtain ⟨n, rfl⟩ : ∃ j, n = j + 1 := ⟨n - 1, by omega⟩
      rw [List.take_succ_cons, List.mem_cons] at htake ⊢
      rcases htake with rfl | htake
      · exact .inl rfl
      · rcases List.mem_cons.mp ha with rfl | ha
        · exact .inl rfl
        · exact .inr (ih hnodup.2 (Nat.le_of_succ_le_succ hmn) ha htake)

namespace Pick

theorem credit_sublist (how : Pick) (t : Terms) (free : List Course) :
    (how.credit t free).Sublist free := by
  cases how with
  | every => exact List.Sublist.refl free
  | one | listOne => exact List.take_sublist _ free
  | ranged | several => exact List.filter_sublist

/-- **Credit and report agree.** A leaf credits exactly the keys of the courses that it reports. -/
theorem mem_creditedKeys (how : Pick) (t : Terms) {free : List Course}
    (hnodup : (free.map Course.key).Nodup) (k : Key) :
    k ∈ how.creditedKeys t free ↔ k ∈ (how.credit t free).map Course.key := by
  cases how with
  | every | one | listOne => rfl
  | ranged | several =>
    simp only [creditedKeys, credit, List.mem_map, List.mem_filter, decide_eq_true_eq]
    constructor
    · intro hk
      obtain ⟨c, hc, rfl⟩ := List.mem_map.mp (Terms.mem_countedKeys hnodup hk)
      exact ⟨c, ⟨hc, hk⟩, rfl⟩
    · rintro ⟨c, ⟨-, hc⟩, rfl⟩
      exact hc

theorem mem_countedKeys_of_sublist {t : Terms} {free free' : List Course}
    (hsub : free.Sublist free') (hnodup : (free'.map Course.key).Nodup) {k : Key}
    (hk : k ∈ free.map Course.key) (hcred : k ∈ t.countedKeys free') : k ∈ t.countedKeys free := by
  have hkeys : (free.map Course.key).Sublist (free'.map Course.key) := hsub.map Course.key
  rw [Terms.countedKeys_eq t hnodup] at hcred
  rw [Terms.countedKeys_eq t (hnodup.sublist hkeys)]
  have hreq : (t.requiredFree free).Sublist (t.requiredFree free') :=
    List.monotone_filter_right _ fun j hj => by simpa using hkeys.subset (by simpa using hj)
  have hother : (t.otherFree free).Sublist (t.otherFree free') := hkeys.filter _
  rcases List.mem_append.mp hcred with h | h
  · have hmem : k ∈ t.requiredFree free :=
      List.mem_filter.mpr ⟨(List.mem_filter.mp h).1, by simpa using hk⟩
    exact List.mem_append_left _ hmem
  · have hnot : k ∈ t.otherFree free :=
      List.mem_filter.mpr ⟨hk, (List.mem_filter.mp (List.mem_of_mem_take h)).2⟩
    -- Fewer required keys are free, so more places are left for the others.
    have hplaces : (t.needed - (t.requiredFree free').length).toNat ≤
        (t.needed - (t.requiredFree free).length).toNat := by
      have := hreq.length_le
      omega
    exact List.mem_append_right _
      (mem_take_of_sublist hother (hnodup.filter _) hplaces hnot h)

/-- **No free course is crowded out.** What is credited out of more free courses is credited out of
fewer ones as well, as long as it is among them. -/
theorem mem_creditedKeys_of_sublist (how : Pick) {t : Terms} {free free' : List Course}
    (hsub : free.Sublist free') (hnodup : (free'.map Course.key).Nodup) {k : Key}
    (hk : k ∈ free.map Course.key) (hcred : k ∈ how.creditedKeys t free') :
    k ∈ how.creditedKeys t free := by
  have hkeys : (free.map Course.key).Sublist (free'.map Course.key) := hsub.map Course.key
  cases how with
  | every => exact hk
  | one | listOne =>
    simp only [creditedKeys, List.map_take] at hcred ⊢
    exact mem_take_of_sublist hkeys hnodup (Nat.le_refl _) hk hcred
  | ranged | several => exact mem_countedKeys_of_sublist hsub hnodup hk hcred

theorem isMet_of_sublist {how : Pick} {t : Terms} {free free' remaining remaining' : List Course}
    (hfree : free.Sublist free') (hrem : remaining'.Sublist remaining)
    (h : how.isMet t free remaining = true) : how.isMet t free' remaining' = true := by
  have hlen := hfree.length_le
  cases how with
  | every =>
    have hnil : remaining = [] := by simpa [isMet] using h
    subst hnil
    simp [isMet, List.sublist_nil.mp hrem]
  | one | listOne | ranged =>
    simp only [isMet, decide_eq_true_eq] at h ⊢
    omega
  | several =>
    simp only [isMet, Bool.and_eq_true, decide_eq_true_eq, List.all_eq_true] at h ⊢
    exact ⟨by omega, fun k hk => (hfree.map Course.key).subset (h.2 k hk)⟩

end Pick

end DegreeAudit
