import DegreeAudit.Proofs.Blame
import DegreeAudit.Proofs.Consumption
import Mathlib.Data.List.Dedup
import Mathlib.Data.List.Perm.Subperm

/-!
# How far a counting requirement is filled

A counting requirement asks for a number of courses out of its candidates and may name codes that
must be among them. Out of its free candidates it is credited with those that it names
(`Terms.named`) and, as far as places are left, with the first others (`Terms.others`).

**Places.** Every mention of a named code that is free takes a place. A code mentioned twice, in one
spelling or two, takes a second place and fills none, so the place is left empty though another free
course could have it. `perm_credit` says which courses are credited and `length_credit` how many.

**Filled up.** A requirement that asks for at least as many courses as it names distinct codes is
credited with as many as it needs, or with all free ones if they are fewer, exactly if no free code
is mentioned twice, or no place is left by the named courses, or the others find a place each
(`length_credit_eq_iff`).
-/

namespace DegreeAudit

namespace Terms

variable (t : Terms) (free : List Course)

/-- The free courses that the terms name. -/
def named : List Course := free.filter fun c => c.key ∈ t.requiredKeys

/-- The free courses that the terms do not name. -/
def others : List Course := free.filter fun c => c.key ∉ t.requiredKeys

/-- The places that the mentions of named free codes leave to others. -/
def places : Nat := (t.needed - (t.requiredFree free).length).toNat

theorem map_key_others : (t.others free).map Course.key = t.otherFree free := by
  rw [others, otherFree, List.filter_map]
  rfl

theorem length_named_add_length_others :
    (t.named free).length + (t.others free).length = free.length := by
  have hperm := List.filter_append_perm (fun c : Course => decide (c.key ∈ t.requiredKeys)) free
  rw [← hperm.length_eq, List.length_append, named, others]
  simp

variable {t free}

/-! ## Mentions -/

theorem mem_map_key_named {k : Key} :
    k ∈ (t.named free).map Course.key ↔ k ∈ t.requiredFree free := by
  simp only [named, requiredFree, List.mem_map, List.mem_filter, decide_eq_true_eq]
  constructor
  · rintro ⟨c, ⟨hc, hrequired⟩, rfl⟩
    exact ⟨hrequired, c, hc, rfl⟩
  · rintro ⟨hrequired, c, hc, rfl⟩
    exact ⟨c, ⟨hc, hrequired⟩, rfl⟩

theorem nodup_map_key_named (hnodup : (free.map Course.key).Nodup) :
    ((t.named free).map Course.key).Nodup :=
  hnodup.sublist (List.filter_sublist.map Course.key)

/-- There are as many named free courses as distinct codes mentioned among the free ones. -/
theorem length_named (hnodup : (free.map Course.key).Nodup) :
    (t.named free).length = (t.requiredFree free).dedup.length := by
  have hperm : ((t.named free).map Course.key).Perm (t.requiredFree free).dedup := by
    refine (List.perm_ext_iff_of_nodup (nodup_map_key_named hnodup) (List.nodup_dedup _)).mpr ?_
    intro k
    rw [List.mem_dedup, mem_map_key_named]
  rw [← hperm.length_eq, List.length_map]

theorem length_named_le (hnodup : (free.map Course.key).Nodup) :
    (t.named free).length ≤ (t.requiredFree free).length := by
  rw [length_named hnodup]
  exact (List.dedup_sublist _).length_le

theorem length_named_eq_iff (hnodup : (free.map Course.key).Nodup) :
    (t.named free).length = (t.requiredFree free).length ↔ (t.requiredFree free).Nodup := by
  rw [length_named hnodup, ← List.dedup_eq_self]
  constructor
  · exact (List.dedup_sublist _).eq_of_length
  · intro h
    rw [h]

/-- No more free courses are named than the terms have distinct codes. -/
theorem length_named_le_dedup (hnodup : (free.map Course.key).Nodup) :
    (t.named free).length ≤ t.requiredKeys.dedup.length := by
  have hsub : (t.named free).map Course.key ⊆ t.requiredKeys.dedup := by
    intro k hk
    rw [List.mem_dedup]
    exact (List.mem_filter.mp (mem_map_key_named.mp hk)).1
  have hle := ((nodup_map_key_named hnodup).subperm hsub).length_le
  rwa [List.length_map] at hle

end Terms

/-! ## What is credited -/

namespace Pick

variable {how : Pick} {t : Terms} {free : List Course}

theorem credit_of_counts (hcounts : how.counts = true) :
    how.credit t free = free.filter fun c => c.key ∈ t.countedKeys free := by
  cases how with
  | ranged | several => rfl
  | every | one | listOne => cases hcounts

/-- A free course is credited if it is named, or one of the first others. -/
theorem mem_countedKeys_iff (hnodup : (free.map Course.key).Nodup) {c : Course} (hc : c ∈ free) :
    c.key ∈ t.countedKeys free ↔
      c ∈ t.named free ∨ c ∈ (t.others free).take (t.places free) := by
  rw [Terms.countedKeys_eq t hnodup, List.mem_append, ← Terms.map_key_others, ← List.map_take]
  refine or_congr ?_ ?_
  · have hkey : c.key ∈ free.map Course.key := List.mem_map_of_mem hc
    simp only [Terms.requiredFree, Terms.named, List.mem_filter, decide_eq_true_eq, hc, hkey,
      and_true, true_and]
  · constructor
    · intro hkey
      obtain ⟨d, hd, hdc⟩ := List.mem_map.mp hkey
      have hdfree : d ∈ free := (List.mem_filter.mp (List.mem_of_mem_take hd)).1
      rwa [← List.inj_on_of_nodup_map hnodup hdfree hc hdc]
    · exact List.mem_map_of_mem

/-- **What is credited.** The named free courses, and the first others as far as places are left. -/
theorem perm_credit (hcounts : how.counts = true) (hnodup : (free.map Course.key).Nodup) :
    (how.credit t free).Perm
      (t.named free ++ (t.others free).take (t.places free)) := by
  have hfree : free.Nodup := hnodup.of_map Course.key
  have hapart : (t.named free).Disjoint ((t.others free).take (t.places free)) := by
    intro c hnamed hother
    have hrequired := (List.mem_filter.mp hnamed).2
    have hnot := (List.mem_filter.mp (List.mem_of_mem_take hother)).2
    simp only [decide_eq_true_eq] at hrequired hnot
    exact hnot hrequired
  have hright : (t.named free ++ (t.others free).take (t.places free)).Nodup :=
    (hfree.filter _).append ((hfree.filter _).sublist (List.take_sublist _ _)) hapart
  rw [credit_of_counts hcounts]
  refine (List.perm_ext_iff_of_nodup (hfree.filter _) hright).mpr fun c => ?_
  rw [List.mem_filter, List.mem_append, decide_eq_true_eq]
  constructor
  · rintro ⟨hc, hkey⟩
    exact (mem_countedKeys_iff hnodup hc).mp hkey
  · intro h
    have hc : c ∈ free := by
      rcases h with h | h
      · exact (List.mem_filter.mp h).1
      · exact (List.mem_filter.mp (List.mem_of_mem_take h)).1
    exact ⟨hc, (mem_countedKeys_iff hnodup hc).mpr h⟩

theorem length_credit (hcounts : how.counts = true) (hnodup : (free.map Course.key).Nodup) :
    (how.credit t free).length =
      (t.named free).length + min (t.places free) (t.others free).length := by
  rw [(perm_credit hcounts hnodup).length_eq, List.length_append, List.length_take]

/-- **Filled up.** As many courses as needed are credited, or all free ones if they are fewer,
exactly if no mention of a named code leaves a place empty that another course could have. -/
theorem length_credit_eq_iff (hcounts : how.counts = true)
    (hnodup : (free.map Course.key).Nodup)
    (hneeded : (t.requiredKeys.dedup.length : Int) ≤ t.needed) :
    ((how.credit t free).length : Int) = min t.needed free.length ↔
      (t.requiredFree free).Nodup ∨ t.needed = (t.named free).length ∨
        (t.others free).length ≤ t.places free := by
  have hlength := length_credit (t := t) hcounts hnodup
  have hsum := t.length_named_add_length_others free
  have hmentions := Terms.length_named_le (t := t) hnodup
  have hdistinct := Terms.length_named_le_dedup (t := t) hnodup
  rw [← Terms.length_named_eq_iff hnodup]
  unfold Terms.places at hlength ⊢
  omega

theorem needed_le_of_isMet (hcounts : how.counts = true) {remaining : List Course}
    (h : how.isMet t free remaining = true) : t.needed ≤ free.length := by
  cases how with
  | ranged =>
    simpa [isMet] using h
  | several =>
    simp only [isMet, Bool.and_eq_true, decide_eq_true_eq] at h
    exact h.1
  | every | one | listOne => cases hcounts

end Pick

/-! ## Auditing a counting requirement -/

/-- **How a counting requirement is filled.** Let it need at least as many courses as it names
distinct codes. If it has candidates, then out of the free ones, and in their order, it is credited
with the named ones and the first others as far as places are left, and uses exactly their keys.
These are as many as it needs, or all free ones if they are fewer, exactly if no mention of a named
code leaves a place empty. So it is where no free code is mentioned twice, and there a requirement
that is met is credited with exactly as many as it needs. Its one fault is a number that cannot be
read, which leaves the used keys as they are. -/
theorem counting_requirement_filled (s : Student) (how : Pick) (t : Terms) (used : List Key)
    (hcounts : how.counts = true) (hneeded : (t.requiredKeys.dedup.length : Int) ≤ t.needed) :
    (∀ e, t.candidates how s.catalog s.excluded = .error e →
      e = .notANumeral ∧ Requirement.audit s (.pick how t) used = (.error e, used)) ∧
    ∀ valid, t.candidates how s.catalog s.excluded = .ok valid →
      ∀ free, free = Requirement.freeOf s.taken used valid →
        ∃ f used', Requirement.audit s (.pick how t) used = (.ok f, used') ∧
          f.taken.Sublist free ∧
          f.taken.Perm (t.named free ++ (t.others free).take (t.places free)) ∧
          Credits s.taken used f.takenKeys used' ∧
          ((f.taken.length : Int) = min t.needed free.length ↔
            (t.requiredFree free).Nodup ∨ t.needed = (t.named free).length ∨
              (t.others free).length ≤ t.places free) ∧
          ((t.requiredFree free).Nodup →
            (t.places free : Int) = t.needed - (t.named free).length ∧
            (f.taken.length : Int) = min t.needed free.length ∧
            (f.met = true → (f.taken.length : Int) = t.needed)) := by
  refine ⟨fun e he => ⟨t.candidates_numeric how s.catalog s.excluded e he, ?_⟩, ?_⟩
  · rw [Requirement.audit, he]
  · rintro valid hvalid free rfl
    have hcandidates := Terms.nodup_of_candidates hvalid
    have hnodup := Requirement.nodup_freeOf hcandidates s.taken used
    have hiff := Pick.length_credit_eq_iff (t := t) hcounts hnodup hneeded
    refine ⟨_, _, by rw [Requirement.audit, hvalid], how.credit_sublist t _,
      Pick.perm_credit hcounts hnodup, Requirement.credits_leaf how t s.taken used hcandidates,
      hiff, fun hmentions => ?_⟩
    have hlength := hiff.mpr (.inl hmentions)
    refine ⟨?_, hlength, fun hmet => ?_⟩
    · have hnamed := (Terms.length_named_eq_iff hnodup).mpr hmentions
      have hdistinct := Terms.length_named_le_dedup (t := t) hnodup
      unfold Terms.places
      omega
    · have henough := Pick.needed_le_of_isMet hcounts hmet
      exact hlength.trans (Int.min_eq_left henough)

/-- Terms that list three courses, name the second of them and ask for two. -/
def namingTerms : Terms :=
  { Terms.listing ["MATH 135", "CS 135", "CS 136"] (some 2) with required := ["cs135"] }

/-- Terms that list two courses, ask for two, and name the first of them in two spellings. -/
def repeatingTerms : Terms :=
  { Terms.listing ["MATH 135", "MATH 136"] (some 2) with required := ["MATH 135", "MATH135"] }

def studentOf (taken : List Key) : Student := ⟨.ofCourses [], taken, []⟩

theorem counting_requirement_filled_named :
    ∃ f used', Requirement.audit (studentOf ["MATH135", "CS135", "CS136"])
        (.pick .several namingTerms) ["CS136"] = (.ok f, used') ∧
      f.takenKeys = (["MATH135", "CS135"] : List Key) ∧
      Credits ["MATH135", "CS135", "CS136"] ["CS136"] f.takenKeys used' ∧
      (f.taken.length : Int) = namingTerms.needed := by
  obtain ⟨f, used', haudit, -, -, hcredits, -, hfilled⟩ :=
    (counting_requirement_filled (studentOf ["MATH135", "CS135", "CS136"]) .several namingTerms
      ["CS136"] rfl (by decide +kernel)).2 _ rfl _ rfl
  obtain ⟨hfinding, rfl⟩ := Prod.mk.inj haudit
  obtain rfl := Except.ok.inj hfinding
  exact ⟨_, _, rfl, by decide +kernel, hcredits, (hfilled (by decide +kernel)).2.2 rfl⟩

/-- A code mentioned twice takes the place of a free course: two courses are needed and two are
free, the requirement is met, and only one is credited and used. -/
theorem place_left_empty :
    ((repeatingTerms.requiredKeys.dedup.length : Int) ≤ repeatingTerms.needed ∧
      repeatingTerms.needed = 2) ∧
    ∃ f used', Requirement.audit (studentOf ["MATH135", "MATH136"])
        (.pick .several repeatingTerms) [] = (.ok f, used') ∧
      (Requirement.freeOf ["MATH135", "MATH136"] [] repeatingTerms.courses).length = 2 ∧
      f.met = true ∧ f.takenKeys = (["MATH135"] : List Key) ∧ ("MATH136" : Key) ∉ used' := by
  refine ⟨by decide +kernel, _, _, rfl, ?_⟩
  decide +kernel

end DegreeAudit
