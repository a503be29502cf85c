import DegreeAudit.Audit.Communication
import DegreeAudit.Proofs.Filling
import DegreeAudit.Proofs.Selection
import Mathlib.Algebra.BigOperators.Group.Finset.Sigma
import Mathlib.Algebra.Order.BigOperators.Group.Finset
import Mathlib.Combinatorics.Hall.Basic

/-!
# One course for two lists

An option of a communication rule asks for courses of several lists, and lists may share courses.
The option is decided list by list, so a course that stands in two lists counts for both.

**Choices.** What an option asks for can be chosen, list by list (`CommunicationOption.IsChoice`).
The option is met exactly if there is a choice, because each entry is served on its own
(`CommunicationOption.exists_choice_iff`).

**Distinct courses.** A choice that takes no course twice is more. By the marriage theorem there is
one exactly if any number of entries together ask for no more courses than their lists together have
taken ones (`CommunicationOption.exists_apart_choice_iff`); an option that is met has this of every
single entry. So both are the same where no taken course stands in two of the lists.

**The older form** asks for the courses of each list by a requirement of its own, and these credit
every course once. So if it is met, what it credits can be chosen without taking a course twice
(`Requirement.exists_apart_choice_of_met`). The main statement is `options_met_list_by_list`.
-/

namespace DegreeAudit

/-! ## Disjoint subsets of given sizes -/

section

variable {ι α : Type} [DecidableEq α] {sets : ι → Finset α} {size : ι → ℕ}

theorem sum_le_card_of_disjoint {chosen : ι → Finset α}
    (hchosen : ∀ i, chosen i ⊆ sets i ∧ (chosen i).card = size i)
    (hapart : Pairwise (Function.onFun Disjoint chosen)) (J : Finset ι) :
    ∑ i ∈ J, size i ≤ (J.biUnion sets).card :=
  calc ∑ i ∈ J, size i = ∑ i ∈ J, (chosen i).card :=
        Finset.sum_congr rfl fun i _ => (hchosen i).2.symm
    _ = (J.biUnion chosen).card :=
        (Finset.card_biUnion fun _ _ _ _ hij => hapart hij).symm
    _ ≤ (J.biUnion sets).card :=
        Finset.card_le_card (Finset.biUnion_mono fun i _ => (hchosen i).1)

variable [DecidableEq ι]

/-- Every set has as many places as its subset is to have elements, and every place is married to an
element of the set. -/
theorem exists_married_places (h : ∀ J : Finset ι, ∑ i ∈ J, size i ≤ (J.biUnion sets).card) :
    ∃ f : (Σ i, Fin (size i)) → α, Function.Injective f ∧ ∀ p, f p ∈ sets p.1 := by
  refine (Finset.all_card_le_biUnion_card_iff_exists_injective
    fun p : Σ i, Fin (size i) => sets p.1).mp fun places => ?_
  have hsub : places ⊆ (places.image Sigma.fst).sigma fun i => Finset.univ := fun p hp =>
    Finset.mem_sigma.mpr ⟨Finset.mem_image_of_mem _ hp, Finset.mem_univ _⟩
  calc places.card ≤ ((places.image Sigma.fst).sigma fun i => Finset.univ).card :=
        Finset.card_le_card hsub
    _ = ∑ i ∈ places.image Sigma.fst, size i := by simp [Finset.card_sigma]
    _ ≤ ((places.image Sigma.fst).biUnion sets).card := h _
    _ = (places.biUnion fun p => sets p.1).card := by rw [Finset.image_biUnion]

/-- Disjoint subsets of given sizes exist exactly if any number of the sets together have as many
elements as their subsets together. -/
theorem exists_disjoint_subsets_iff :
    (∃ chosen : ι → Finset α, (∀ i, chosen i ⊆ sets i ∧ (chosen i).card = size i) ∧
      Pairwise (Function.onFun Disjoint chosen)) ↔
      ∀ J : Finset ι, ∑ i ∈ J, size i ≤ (J.biUnion sets).card := by
  refine ⟨fun ⟨_, hchosen, hapart⟩ => sum_le_card_of_disjoint hchosen hapart, fun h => ?_⟩
  obtain ⟨f, hinjective, hf⟩ := exists_married_places h
  refine ⟨fun i => Finset.univ.image fun j => f ⟨i, j⟩, fun i => ⟨fun a ha => ?_, ?_⟩,
    fun i i' hne => Finset.disjoint_left.mpr fun a ha ha' => ?_⟩
  · obtain ⟨j, -, rfl⟩ := Finset.mem_image.mp ha
    exact hf ⟨i, j⟩
  · rw [Finset.card_image_of_injective, Finset.card_univ, Fintype.card_fin]
    exact fun j j' h => by simpa using hinjective h
  · obtain ⟨j, -, rfl⟩ := Finset.mem_image.mp ha
    obtain ⟨j', -, heq⟩ := Finset.mem_image.mp ha'
    exact hne (congrArg Sigma.fst (hinjective heq)).symm

end

/-! ## Choices -/

namespace CommunicationRule

def coursesOf (rule : CommunicationRule) (name : Text) : List Course :=
  ((rule.lists.find? fun l => l.name == name).map (·.courses)).getD []

/-- The keys of the list with a name that are taken and not excluded. -/
def takenKeys (rule : CommunicationRule) (taken excluded : List Key) (name : Text) : Finset Key :=
  (((rule.coursesOf name).map Course.key).filter fun k => k ∈ taken ∧ k ∉ excluded).toFinset

variable {rule : CommunicationRule} {taken excluded : List Key} {name : Text}

theorem mem_takenKeys {k : Key} : k ∈ rule.takenKeys taken excluded name ↔
    k ∈ (rule.coursesOf name).map Course.key ∧ k ∈ taken ∧ k ∉ excluded := by
  rw [takenKeys, List.mem_toFinset, List.mem_filter, decide_eq_true_eq]

/-- The courses of a list that are reported as taken have these keys, each once. -/
theorem card_takenKeys : (rule.takenKeys taken excluded name).card =
    ((Course.dedupe excluded (rule.coursesOf name)).filter fun c => c.key ∈ taken).length := by
  have hnodup : (((Course.dedupe excluded (rule.coursesOf name)).filter fun c =>
      c.key ∈ taken).map Course.key).Nodup :=
    (Course.nodup_key_dedupe ..).sublist (List.filter_sublist.map Course.key)
  rw [← List.length_map Course.key, ← List.toFinset_card_of_nodup hnodup]
  congr 1
  ext k
  rw [mem_takenKeys, List.mem_toFinset]
  constructor
  · rintro ⟨hk, htaken, hex⟩
    obtain ⟨c, hc, rfl⟩ := List.mem_map.mp (Course.mem_keys_dedupe.mpr ⟨hk, hex⟩)
    exact List.mem_map_of_mem (List.mem_filter.mpr ⟨hc, decide_eq_true htaken⟩)
  · intro hk
    obtain ⟨c, hc, rfl⟩ := List.mem_map.mp hk
    obtain ⟨hc, htaken⟩ := List.mem_filter.mp hc
    obtain ⟨hkey, hex⟩ := Course.mem_keys_dedupe.mp (List.mem_map_of_mem hc)
    exact ⟨hkey, of_decide_eq_true htaken, hex⟩

theorem takenOf_eq_card (rule : CommunicationRule) (taken excluded : List Key) (name : Text) :
    CommunicationFinding.takenOf (rule.lists.map (·.audit taken excluded)) name =
      (rule.takenKeys taken excluded name).card := by
  have hfind : (rule.lists.map (·.audit taken excluded)).find? (fun l => l.name == name) =
      (rule.lists.find? fun l => l.name == name).map (·.audit taken excluded) := List.find?_map ..
  rw [CommunicationFinding.takenOf, hfind, card_takenKeys, coursesOf]
  cases rule.lists.find? fun l => l.name == name with
  | none => rfl
  | some l => rfl

theorem options_audit (rule : CommunicationRule) (taken excluded : List Key) :
    (rule.audit taken excluded).options = rule.options.map fun o =>
      (o.description,
        o.requires.all fun r => decide (r.2 ≤ (rule.takenKeys taken excluded r.1).card)) := by
  simp only [audit, takenOf_eq_card]

end CommunicationRule

namespace CommunicationOption

variable {o : CommunicationOption} {rule : CommunicationRule} {taken excluded : List Key}

/-- A choice for an option: for each of its entries as many keys as the entry asks for, out of the
taken ones of the list that the entry names. -/
def IsChoice (o : CommunicationOption) (rule : CommunicationRule) (taken excluded : List Key)
    (chosen : Fin o.requires.length → Finset Key) : Prop :=
  ∀ i, chosen i ⊆ rule.takenKeys taken excluded o.requires[i].1 ∧
    (chosen i).card = o.requires[i].2.toNat

/-- Whether no key is chosen for two entries. -/
def IsApart (chosen : Fin o.requires.length → Finset Key) : Prop :=
  Pairwise (Function.onFun Disjoint chosen)

/-- There is a choice exactly if each list alone has as many taken courses as it is asked for. -/
theorem exists_choice_iff :
    (∃ chosen, o.IsChoice rule taken excluded chosen) ↔
      ∀ r ∈ o.requires, r.2 ≤ (rule.takenKeys taken excluded r.1).card := by
  constructor
  · rintro ⟨chosen, hchosen⟩ r hr
    obtain ⟨i, hi, rfl⟩ := List.getElem_of_mem hr
    obtain ⟨hsub, hcard⟩ := hchosen ⟨i, hi⟩
    have hle := Finset.card_le_card hsub
    rw [hcard] at hle
    exact Int.toNat_le.mp hle
  · intro h
    have hsome : ∀ i : Fin o.requires.length, ∃ chosen,
        chosen ⊆ rule.takenKeys taken excluded o.requires[i].1 ∧
          chosen.card = o.requires[i].2.toNat := fun i =>
      Finset.exists_subset_card_eq (Int.toNat_le.mpr (h _ (List.getElem_mem i.isLt)))
    choose chosen hchosen using hsome
    exact ⟨chosen, hchosen⟩

/-- **A choice of distinct courses** exists exactly if any number of entries together ask for no
more courses than their lists together have taken ones. -/
theorem exists_apart_choice_iff :
    (∃ chosen, o.IsChoice rule taken excluded chosen ∧ IsApart chosen) ↔
      ∀ J : Finset (Fin o.requires.length), ∑ i ∈ J, o.requires[i].2.toNat ≤
        (J.biUnion fun i => rule.takenKeys taken excluded o.requires[i].1).card :=
  exists_disjoint_subsets_iff

/-- Whether no course that is taken stands in the lists of two entries. -/
def SharesNothing (o : CommunicationOption) (rule : CommunicationRule)
    (taken excluded : List Key) : Prop :=
  IsApart fun i : Fin o.requires.length => rule.takenKeys taken excluded o.requires[i].1

theorem IsChoice.isApart {chosen : Fin o.requires.length → Finset Key}
    (h : o.IsChoice rule taken excluded chosen) (hshares : o.SharesNothing rule taken excluded) :
    IsApart chosen :=
  fun i j hij => (hshares hij).mono (h i).1 (h j).1

/-- Keys that are reported entry by entry, and none of them twice, can be chosen. -/
theorem exists_apart_choice_of_reported {reported : List (List Key)}
    (h : List.Forall₂ (fun keys r => keys.toFinset ⊆ rule.takenKeys taken excluded r.1 ∧
      r.2 ≤ keys.length) reported o.requires) (hnodup : reported.flatten.Nodup) :
    ∃ chosen, o.IsChoice rule taken excluded chosen ∧ IsApart chosen := by
  obtain ⟨hnodup, hapart⟩ := List.nodup_flatten.mp hnodup
  rw [List.pairwise_iff_get] at hapart
  have hlt : ∀ i : Fin o.requires.length, i < reported.length := fun i => by
    rw [h.length_eq]
    exact i.isLt
  have hsome : ∀ i : Fin o.requires.length, ∃ chosen,
      chosen ⊆ (reported.get ⟨i, hlt i⟩).toFinset ∧ chosen.card = o.requires[i].2.toNat := by
    intro i
    refine Finset.exists_subset_card_eq ?_
    rw [List.toFinset_card_of_nodup (hnodup _ (List.get_mem ..))]
    exact Int.toNat_le.mpr (h.get (hlt i) i.isLt).2
  choose chosen hchosen using hsome
  refine ⟨chosen, fun i => ⟨(hchosen i).1.trans (h.get (hlt i) i.isLt).1, (hchosen i).2⟩,
    fun i j hij => Finset.disjoint_left.mpr fun k hi hj => ?_⟩
  have hki := List.mem_toFinset.mp ((hchosen i).1 hi)
  have hkj := List.mem_toFinset.mp ((hchosen j).1 hj)
  rcases Nat.lt_or_gt_of_ne (Fin.val_ne_of_ne hij) with hbefore | hbehind
  · exact hapart ⟨i, hlt i⟩ ⟨j, hlt j⟩ hbefore hki hkj
  · exact hapart ⟨j, hlt j⟩ ⟨i, hlt i⟩ hbehind hkj hki

end CommunicationOption

/-! ## The older form -/

namespace Requirement

open CommunicationRule

/-- A leaf that asks for a number of courses of a list, and of no others. -/
inductive AsksFor (courses : List Course) : Requirement → Int → Prop
  | one {t : Terms} (h : t.courses = courses) : AsksFor courses (.pick .one t) 1
  | two {t : Terms} (h : t.courses = courses) : AsksFor courses (.pick .listOne t) 2
  | counted {how : Pick} {t : Terms} (hcounts : how.counts = true) (h : t.courses = courses)
      (htokens : t.tokens = []) (hrequired : t.required = []) :
      AsksFor courses (.pick how t) t.needed

variable {s : Student} {courses : List Course} {how : Pick} {t : Terms} {n : Int}

theorem AsksFor.mem_candidates (h : AsksFor courses (.pick how t) n) {valid : List Course}
    (hvalid : t.candidates how s.catalog s.excluded = .ok valid) {c : Course} (hc : c ∈ valid) :
    c.key ∈ courses.map Course.key ∧ c.key ∉ s.excluded := by
  have hlisted : ∀ others : List Course, others ⊆ t.courses →
      c ∈ Course.dedupe s.excluded (t.courses ++ others) → c.key ∈ t.courses.map Course.key := by
    intro others hothers hc
    have hmem := (Course.dedupe_sublist ..).subset hc
    exact List.mem_map_of_mem ((List.mem_append.mp hmem).elim id fun h => hothers h)
  refine ⟨?_, Terms.not_mem_excluded_of_candidates hvalid hc⟩
  cases h with
  | one h | two h =>
    subst h
    obtain rfl := Except.ok.inj hvalid
    exact hlisted [] (List.nil_subset _) (by rwa [List.append_nil])
  | counted hcounts h htokens hrequired =>
    subst h
    rw [Terms.candidates, if_pos hcounts] at hvalid
    cases hselect : s.catalog.select s.excluded t with
    | error e =>
      rw [hselect] at hvalid
      cases hvalid
    | ok selected =>
      have hselected := s.catalog.select_yields s.excluded t selected hselect
      rw [htokens] at hselected
      rw [hselect, hrequired] at hvalid
      obtain rfl := Except.ok.inj hvalid
      refine hlisted selected ?_ (by simpa using hc)
      rw [hselected]
      exact (Course.dedupe_sublist s.excluded t.courses).subset

theorem AsksFor.le_length_credit (h : AsksFor courses (.pick how t) n)
    {free remaining : List Course} (hfree : (free.map Course.key).Nodup)
    (hmet : how.isMet t free remaining = true) :
    n ≤ (how.credit t free).length := by
  cases h with
  | one h =>
    have hlength := of_decide_eq_true hmet
    rw [Pick.credit, List.length_take]
    omega
  | two h =>
    have hlength := of_decide_eq_true hmet
    rw [Pick.credit, List.length_take]
    omega
  | counted hcounts h htokens hrequired =>
    have hnamed : t.named free = [] := List.filter_eq_nil_iff.mpr fun c _ => by
      simp [Terms.requiredKeys, hrequired]
    have hsum := t.length_named_add_length_others free
    have hneeded := Pick.needed_le_of_isMet hcounts hmet
    have hplaces : t.places free = t.needed.toNat := by
      simp [Terms.places, Terms.requiredFree, Terms.requiredKeys, hrequired]
    rw [Pick.length_credit hcounts hfree, hplaces]
    rw [hnamed] at hsum ⊢
    simp only [List.length_nil] at hsum ⊢
    omega

/-- Leaves that are met report enough taken courses of the lists that they ask for. -/
theorem Audited.serves {rule : CommunicationRule} {requires : List (Text × Int)}
    {parts : List Requirement} {used used' : List Key} {gs : List Finding}
    (hparts : List.Forall₂ (fun part r => AsksFor (rule.coursesOf r.1) part r.2) parts requires)
    (h : Audited s parts used gs used') (hmet : ∀ g ∈ gs, g.met = true) :
    List.Forall₂ (fun keys r => keys.toFinset ⊆ rule.takenKeys s.taken s.excluded r.1 ∧
      r.2 ≤ keys.length) (gs.map Finding.takenKeys) requires := by
  induction hparts generalizing used gs with
  | nil =>
    cases h
    exact .nil
  | @cons part r parts requires hpart _ ih =>
    cases h with
    | @pick how t _ _ _ valid fs hvalid hrest =>
      rw [List.forall_mem_cons] at hmet
      have hfree := nodup_freeOf (Terms.nodup_of_candidates hvalid) s.taken used
      refine .cons ⟨fun k hk => ?_, ?_⟩ (ih hrest hmet.2)
      · obtain ⟨c, hc, rfl⟩ := List.mem_map.mp (List.mem_toFinset.mp hk)
        obtain ⟨hc, htaken, -⟩ := mem_freeOf.mp ((how.credit_sublist t _).subset hc)
        obtain ⟨hlisted, hex⟩ := hpart.mem_candidates hvalid hc
        exact CommunicationRule.mem_takenKeys.mpr ⟨hlisted, htaken, hex⟩
      · rw [Finding.takenKeys, List.length_map]
        exact hpart.le_length_credit hfree hmet.1
    | oneGroup => cases hpart
    | bothLists => cases hpart

/-- **The older form** is met only if there is a choice of distinct courses: what it credits. -/
theorem exists_apart_choice_of_met {rule : CommunicationRule} {o : CommunicationOption}
    {parts : List Requirement} {used used' : List Key} {f : Finding}
    (hparts : List.Forall₂ (fun part r => AsksFor (rule.coursesOf r.1) part r.2) parts o.requires)
    (h : audit s (.bothLists t parts) used = (.ok f, used')) (hmet : f.met = true) :
    ∃ chosen, o.IsChoice rule s.taken s.excluded chosen ∧ CommunicationOption.IsApart chosen := by
  rw [audit] at h
  cases hall : auditAll s parts used with
  | mk result used₁ =>
    rw [hall] at h
    cases result with
    | error e => cases (Prod.mk.inj h).1
    | ok gs =>
      obtain rfl := Except.ok.inj (Prod.mk.inj h).1
      have haudited := auditAll_eq_ok_iff.mp hall
      exact CommunicationOption.exists_apart_choice_of_reported
        (haudited.serves hparts (List.all_eq_true.mp hmet)) haudited.credits.nodup

end Requirement

/-! ## Options list by list -/

open CommunicationOption in
/-- **Options are decided list by list.** For every rule and whatever is taken or excluded, an
option is met exactly if there is a choice for it, in which a course may be chosen from several
lists. A choice of distinct courses is more: there is one exactly if any number of entries together
ask for no more courses than their lists together have taken ones. Where no taken course stands in
two of the lists, the option is met exactly if there is one. The older form, in which leaves ask for
the courses of each list, credits every course once: if it is met, there is one as well. -/
theorem options_met_list_by_list (rule : CommunicationRule) (taken excluded : List Key) :
    List.Forall₂ (fun o p => p.1 = o.description ∧
      (p.2 = true ↔ ∃ chosen, o.IsChoice rule taken excluded chosen) ∧
      ((∃ chosen, o.IsChoice rule taken excluded chosen ∧ IsApart chosen) ↔
        ∀ J : Finset (Fin o.requires.length), ∑ i ∈ J, o.requires[i].2.toNat ≤
          (J.biUnion fun i => rule.takenKeys taken excluded o.requires[i].1).card) ∧
      (o.SharesNothing rule taken excluded →
        (p.2 = true ↔ ∃ chosen, o.IsChoice rule taken excluded chosen ∧ IsApart chosen)) ∧
      ∀ (catalog : Catalog) (t : Terms) (parts : List Requirement) (used used' : List Key)
        (f : Finding),
        List.Forall₂ (fun part r => Requirement.AsksFor (rule.coursesOf r.1) part r.2)
          parts o.requires →
        Requirement.audit ⟨catalog, taken, excluded⟩ (.bothLists t parts) used = (.ok f, used') →
        f.met = true →
          p.2 = true ∧ ∃ chosen, o.IsChoice rule taken excluded chosen ∧ IsApart chosen)
      rule.options (rule.audit taken excluded).options := by
  rw [rule.options_audit, List.forall₂_map_right_iff, List.forall₂_same]
  intro o _
  have hmet : (o.requires.all fun r => decide (r.2 ≤ (rule.takenKeys taken excluded r.1).card)) =
      true ↔ ∃ chosen, o.IsChoice rule taken excluded chosen := by
    rw [exists_choice_iff, List.all_eq_true]
    simp only [decide_eq_true_eq]
  refine ⟨rfl, hmet, exists_apart_choice_iff, fun hshares => ?_,
    fun catalog t parts used used' f hparts haudit hf => ?_⟩
  · rw [hmet]
    exact ⟨fun ⟨chosen, hchosen⟩ => ⟨chosen, hchosen, hchosen.isApart hshares⟩,
      fun ⟨chosen, hchosen, _⟩ => ⟨chosen, hchosen⟩⟩
  · obtain ⟨chosen, hchosen, hapart⟩ := Requirement.exists_apart_choice_of_met hparts haudit hf
    exact ⟨hmet.mpr ⟨chosen, hchosen⟩, chosen, hchosen, hapart⟩

/-- An option that asks for one course of each of two lists. -/
def sharingOption : CommunicationOption where
  description := .text "One course of each list"
  requires := [("list1", 1), ("list2", 1)]

/-- A rule with such an option, in which the second list has one course. -/
def sharingRule (first : List Text) : CommunicationRule where
  lists := [⟨"list1", .text "List I", first.map Course.untitled⟩,
    ⟨"list2", .text "List II", [Course.untitled "ENGL 109"]⟩]
  options := [sharingOption]

/-- What the option asks for in the older form, list by list. -/
def sharingParts (first : List Text) : List Requirement :=
  [.pick .one (.listing first none), .pick .one (.listing ["ENGL 109"] none)]

theorem options_met_list_by_list_sharing :
    ((sharingRule ["COMMST 100", "ENGL 109"]).audit ["COMMST100", "ENGL109"] []).options.map
        (·.2) = [true] ∧
      ∃ chosen, sharingOption.IsChoice (sharingRule ["COMMST 100", "ENGL 109"])
        ["COMMST100", "ENGL109"] [] chosen ∧ CommunicationOption.IsApart chosen := by
  have hparts : List.Forall₂ (fun part r => Requirement.AsksFor
      ((sharingRule ["COMMST 100", "ENGL 109"]).coursesOf r.1) part r.2)
      (sharingParts ["COMMST 100", "ENGL 109"]) sharingOption.requires :=
    .cons (.one rfl) (.cons (.one rfl) .nil)
  have hmet : (Requirement.audit (studentOf ["COMMST100", "ENGL109"]) (.bothLists (.listing [] none)
      (sharingParts ["COMMST 100", "ENGL 109"])) []).1.toOption.map (·.met) = some true := by
    decide +kernel
  cases h : Requirement.audit (studentOf ["COMMST100", "ENGL109"]) (.bothLists (.listing [] none)
      (sharingParts ["COMMST 100", "ENGL 109"])) [] with
  | mk result used' =>
    rw [h] at hmet
    cases result with
    | error e => cases hmet
    | ok f =>
      have hall := options_met_list_by_list (sharingRule ["COMMST 100", "ENGL 109"])
        ["COMMST100", "ENGL109"] []
      obtain ⟨-, -, -, -, holder⟩ := (List.forall₂_cons.mp hall).1
      obtain ⟨hoption, hchoice⟩ := holder _ _ _ _ _ _ hparts h (Option.some.inj hmet)
      exact ⟨congrArg (fun b => [b]) hoption, hchoice⟩

/-- **One course for two lists.** An option that asks for one course of each list is met by a course
that stands in both, though no two courses can be chosen. The older form is not met by it. -/
theorem one_course_meets_two_lists :
    ((sharingRule ["ENGL 109"]).audit ["ENGL109"] []).options.map (·.2) = [true] ∧
      (¬∃ chosen, sharingOption.IsChoice (sharingRule ["ENGL 109"]) ["ENGL109"] [] chosen ∧
        CommunicationOption.IsApart chosen) ∧
      (Requirement.audit (studentOf ["ENGL109"])
        (.bothLists (.listing [] none) (sharingParts ["ENGL 109"])) []).1.toOption.map (·.met) =
          some false := by
  refine ⟨by decide +kernel, ?_, by decide +kernel⟩
  rw [CommunicationOption.exists_apart_choice_iff]
  intro h
  exact absurd (h Finset.univ) (by decide +kernel)

end DegreeAudit
