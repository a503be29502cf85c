import DegreeAudit.Depth
import DegreeAudit.Proofs.Counting
import Mathlib.Data.List.Induction

/-!
# Searching for depth

The groups of the countable courses are the courses of one subject each (`mem_groups`). Depth is
found if some eligible group *qualifies*, by enough courses and one at the level needed, or if some
eligible group has a chain.

**Completeness.** The search stops at its first find, and faults on a level that cannot be read.
But when it ends, it has found depth exactly if there is any (`ok_iff_of_analyze`): a group is
passed over only after all its levels were read, and a chain only after all ways to go on.

**Growth.** A larger group qualifies and has a chain if a smaller one does
(`ok_of_analyze_of_subset`).
-/

namespace DegreeAudit

namespace Depth

/-! ## Groups -/

def ofSubject (codes : List Text) (subject : Text) : List Text :=
  codes.filter fun code => Code.subject code = subject

/-- The subjects of courses, each once and in the order they are first met. -/
def firstSubjects (codes : List Text) : List Text := distinctTexts [] (codes.map Code.subject)

theorem distinctTexts_append_singleton (seen texts : List Text) (s : Text) :
    distinctTexts seen (texts ++ [s]) =
      distinctTexts seen texts ++ if s ∈ seen ∨ s ∈ texts then [] else [s] := by
  induction texts generalizing seen with
  | nil => by_cases hs : s ∈ seen <;> simp [distinctTexts, hs]
  | cons t rest ih =>
    rw [List.cons_append]
    unfold distinctTexts
    split
    · next ht =>
      rw [ih]
      congr 1
      by_cases hs : s = t
      · simp [hs, ht]
      · simp [hs]
    · rw [ih, List.cons_append]
      congr 2
      simp only [List.mem_cons]
      split <;> split <;> first | rfl | (exfalso; tauto)

theorem addToGroup_of_mem (f : Text → List Text) {subjects : List Text} {subject : Text}
    (hnodup : subjects.Nodup) (hmem : subject ∈ subjects) (code : Text) :
    addToGroup subject code (subjects.map fun s => (s, f s)) =
      subjects.map fun s => (s, if s = subject then f s ++ [code] else f s) := by
  induction subjects with
  | nil => simp at hmem
  | cons s rest ih =>
    rw [List.nodup_cons] at hnodup
    rw [List.map_cons, addToGroup, List.map_cons]
    by_cases hs : s = subject
    · subst hs
      rw [if_pos rfl, if_pos rfl]
      congr 1
      refine List.map_congr_left fun t ht => ?_
      have hts : t ≠ s := fun heq => hnodup.1 (heq ▸ ht)
      rw [if_neg hts]
    · rw [if_neg hs, if_neg hs, ih hnodup.2 ((List.mem_cons.mp hmem).resolve_left (Ne.symm hs))]

theorem addToGroup_of_not_mem {gs : List (Text × List Text)} {subject : Text}
    (hnew : subject ∉ gs.map Prod.fst) (code : Text) :
    addToGroup subject code gs = gs ++ [(subject, [code])] := by
  induction gs with
  | nil => rfl
  | cons g rest ih =>
    rw [List.map_cons, List.mem_cons, not_or] at hnew
    rw [addToGroup, if_neg (Ne.symm hnew.1), ih hnew.2, List.cons_append]

/-- **The groups** are the subjects in the order they are first met, each with its courses. -/
theorem groups_eq (codes : List Text) :
    groups codes = (firstSubjects codes).map fun s => (s, ofSubject codes s) := by
  induction codes using List.reverseRecOn with
  | nil => rfl
  | append_singleton codes code ih =>
    have hstep : groups (codes ++ [code]) = addToGroup (Code.subject code) code (groups codes) := by
      simp [groups]
    have hof : ∀ s, ofSubject (codes ++ [code]) s =
        if s = Code.subject code then ofSubject codes s ++ [code] else ofSubject codes s := by
      intro s
      by_cases hs : s = Code.subject code
      · simp [ofSubject, hs]
      · simp [ofSubject, hs, Ne.symm hs]
    have hsubjects : firstSubjects (codes ++ [code]) = firstSubjects codes ++
        if Code.subject code ∈ codes.map Code.subject then [] else [Code.subject code] := by
      simp [firstSubjects, distinctTexts_append_singleton]
    rw [hstep, ih, hsubjects]
    simp only [hof]
    by_cases hold : Code.subject code ∈ codes.map Code.subject
    · rw [if_pos hold, List.append_nil]
      exact addToGroup_of_mem (ofSubject codes) (nodup_distinctTexts _ _)
        (mem_distinctTexts.mpr ⟨hold, List.not_mem_nil⟩) code
    · have hnew : Code.subject code ∉ firstSubjects codes :=
        fun h => hold (mem_distinctTexts.mp h).1
      have hempty : ofSubject codes (Code.subject code) = [] := by
        refine List.filter_eq_nil_iff.mpr fun c hc heq => hold ?_
        exact List.mem_map.mpr ⟨c, hc, by simpa using heq⟩
      rw [if_neg hold, List.map_append, List.map_singleton, if_pos rfl, hempty, List.nil_append,
        addToGroup_of_not_mem (by simpa [Function.comp_def] using hnew)]
      congr 1
      refine List.map_congr_left fun s hs => ?_
      have hne : s ≠ Code.subject code := fun heq => hnew (heq ▸ hs)
      rw [if_neg hne]

theorem mem_groups {codes : List Text} {g : Text × List Text} :
    g ∈ groups codes ↔ g.1 ∈ codes.map Code.subject ∧ g.2 = ofSubject codes g.1 := by
  rw [groups_eq, List.mem_map]
  constructor
  · rintro ⟨s, hs, rfl⟩
    exact ⟨(mem_distinctTexts.mp hs).1, rfl⟩
  · rintro ⟨hs, hcodes⟩
    exact ⟨g.1, mem_distinctTexts.mpr ⟨hs, List.not_mem_nil⟩, Prod.ext rfl hcodes.symm⟩

theorem mem_eligibleGroups {p : BreadthPolicy} {codes : List Text} {g : Text × List Text} :
    g ∈ eligibleGroups p codes ↔
      g.1 ∈ p.eligible ∧ g.1 ∈ (countable p.excludedSubjects codes).map Code.subject ∧
        g.2 = ofSubject (countable p.excludedSubjects codes) g.1 := by
  rw [eligibleGroups, List.mem_filter, mem_groups, and_comm]
  simp

/-! ## Counted groups -/

/-- Whether a list of courses shows depth by number and level. -/
def Qualifies (codes : List Text) : Prop :=
  minCourses ≤ codes.length ∧ ∃ code ∈ codes, ∃ n, Code.level? code = some n ∧ minLevel ≤ n

theorem anyHigh_eq_ok {codes : List Text} {b : Bool} (h : anyHigh codes = .ok b) :
    b = true ↔ ∃ code ∈ codes, ∃ n, Code.level? code = some n ∧ minLevel ≤ n := by
  induction codes with
  | nil =>
    obtain rfl := Except.ok.inj h
    simp
  | cons code rest ih =>
    unfold anyHigh at h
    cases hlevel : Code.level? code with
    | none => simp [hlevel] at h
    | some n =>
      simp only [hlevel] at h
      split at h
      · next hn =>
        obtain rfl := Except.ok.inj h
        simp [hlevel, hn]
      · next hn =>
        rw [ih h]
        simp [hlevel, hn]

/-- If the search for a counted group ends, it has taken the first group, or passed over it and gone
on. -/
theorem firstCounted_cons_eq_ok {g : Text × List Text} {rest : List (Text × List Text)}
    {w : Option DepthWitness} (h : firstCounted (g :: rest) = .ok w) :
    (Qualifies g.2 ∧ w = some (.courses g.1 g.2)) ∨
      (¬Qualifies g.2 ∧ firstCounted rest = .ok w) := by
  unfold firstCounted at h
  split at h
  · next hlen =>
    cases hhigh : anyHigh g.2 with
    | error e => simp [hhigh, bind, Except.bind] at h
    | ok b =>
      simp only [hhigh, bind, Except.bind] at h
      have hb := anyHigh_eq_ok hhigh
      cases b with
      | true =>
        obtain rfl := Except.ok.inj h
        exact .inl ⟨⟨hlen, hb.mp rfl⟩, rfl⟩
      | false => exact .inr ⟨fun hq => Bool.false_ne_true (hb.mpr hq.2), h⟩
  · next hlen => exact .inr ⟨fun hq => hlen hq.1, h⟩

/-- If the search for a counted group ends, it has found one exactly if there is one. -/
theorem firstCounted_eq_ok {gs : List (Text × List Text)} {w : Option DepthWitness}
    (h : firstCounted gs = .ok w) : w.isSome = true ↔ ∃ g ∈ gs, Qualifies g.2 := by
  induction gs with
  | nil =>
    obtain rfl := Except.ok.inj h
    simp
  | cons g rest ih =>
    rcases firstCounted_cons_eq_ok h with ⟨hq, rfl⟩ | ⟨hlow, hrest⟩
    · simp [hq]
    · simp [ih hrest, hlow]

/-- A counted group that is found is the first one that qualifies. -/
theorem exists_first_of_firstCounted {gs : List (Text × List Text)} {w : DepthWitness}
    (h : firstCounted gs = .ok (some w)) :
    ∃ before g after, gs = before ++ g :: after ∧ (∀ g' ∈ before, ¬Qualifies g'.2) ∧
      Qualifies g.2 ∧ w = .courses g.1 g.2 := by
  induction gs with
  | nil => simp [firstCounted] at h
  | cons g rest ih =>
    rcases firstCounted_cons_eq_ok h with ⟨hg, hw⟩ | ⟨hlow, hrest⟩
    · exact ⟨[], g, rest, rfl, by simp, hg, Option.some.inj hw⟩
    · obtain ⟨before, g', after, rfl, hbefore, hg', hw⟩ := ih hrest
      exact ⟨g :: before, g', after, rfl, List.forall_mem_cons.mpr ⟨hlow, hbefore⟩, hg', hw⟩

theorem exists_group_of_firstCounted {gs : List (Text × List Text)} {w : DepthWitness}
    (h : firstCounted gs = .ok (some w)) : ∃ g ∈ gs, w = .courses g.1 g.2 := by
  obtain ⟨before, g, after, rfl, -, -, hw⟩ := exists_first_of_firstCounted h
  exact ⟨g, by simp, hw⟩

theorem Qualifies.of_subset {codes codes' : List Text} (h : Qualifies codes)
    (hnodup : codes.Nodup) (hsub : codes ⊆ codes') : Qualifies codes' := by
  obtain ⟨hlen, code, hcode, hlevel⟩ := h
  exact ⟨Nat.le_trans hlen (hnodup.subperm hsub).length_le, code, hsub hcode, hlevel⟩

/-! ## Chains -/

theorem exists_group_of_firstChained {graph : PrereqGraph} {gs : List (Text × List Text)}
    {w : DepthWitness} (h : firstChained graph gs = some w) :
    ∃ g ∈ gs, ∃ chain, findChain graph g.2 = some chain ∧ w = .chain g.1 chain := by
  obtain ⟨g, hg, hfound⟩ := List.exists_of_findSome?_eq_some h
  obtain ⟨chain, hchain, rfl⟩ := Option.map_eq_some_iff.mp hfound
  exact ⟨g, hg, chain, hchain, rfl⟩

theorem subset_of_extend {graph : PrereqGraph} {group : List Key} {n : Nat} {path chain : List Key}
    (h : extend graph group n path = some chain) : chain ⊆ path ++ group := by
  induction n generalizing path with
  | zero =>
    obtain rfl := Option.some.inj h
    intro k hk
    exact List.mem_append_left _ (List.mem_reverse.mp hk)
  | succ n ih =>
    cases path with
    | nil => simp [extend] at h
    | cons last rest =>
      rw [extend] at h
      obtain ⟨pre, -, hfound⟩ := List.exists_of_findSome?_eq_some h
      obtain ⟨⟨hgroup, -⟩, hfound⟩ := Option.ite_none_right_eq_some.mp hfound
      intro k hk
      have hmem := ih hfound hk
      rw [List.cons_append, List.mem_cons] at hmem
      rcases hmem with rfl | hmem
      · exact List.mem_append_right _ hgroup
      · exact hmem

theorem subset_of_findChain {graph : PrereqGraph} {codes : List Text} {chain : List Key}
    (h : findChain graph codes = some chain) : chain ⊆ codes.map Code.key := by
  obtain ⟨start, hstart, hfound⟩ := List.exists_of_findSome?_eq_some h
  intro k hk
  have hmem := subset_of_extend hfound hk
  rw [List.singleton_append, List.mem_cons] at hmem
  rcases hmem with rfl | hmem
  · exact hstart
  · exact hmem

theorem extend_isSome_of_subset {graph : PrereqGraph} {group group' : List Key}
    (hsub : group ⊆ group') {n : Nat} {path : List Key}
    (h : (extend graph group n path).isSome = true) :
    (extend graph group' n path).isSome = true := by
  induction n generalizing path with
  | zero => rfl
  | succ n ih =>
    cases path with
    | nil => simp [extend] at h
    | cons last rest =>
      simp only [extend, List.findSome?_isSome_iff] at h ⊢
      obtain ⟨pre, hpre, hfound⟩ := h
      split at hfound
      · next hin => exact ⟨pre, hpre, by rw [if_pos ⟨hsub hin.1, hin.2⟩]; exact ih hfound⟩
      · simp at hfound

theorem findChain_isSome_of_subset {graph : PrereqGraph} {codes codes' : List Text}
    (hsub : codes ⊆ codes') (h : (findChain graph codes).isSome = true) :
    (findChain graph codes').isSome = true := by
  simp only [findChain, List.findSome?_isSome_iff] at h ⊢
  obtain ⟨start, hstart, hfound⟩ := h
  exact ⟨start, List.map_subset _ hsub hstart,
    extend_isSome_of_subset (List.map_subset _ hsub) hfound⟩

theorem firstChained_isSome {graph : PrereqGraph} {gs : List (Text × List Text)} :
    (firstChained graph gs).isSome = true ↔ ∃ g ∈ gs, (findChain graph g.2).isSome = true := by
  simp [firstChained, List.findSome?_isSome_iff]

/-! ## The search -/

/-- The search for depth ends with what the search for counted groups finds, or else with what the
search for chains finds. -/
theorem analyze_eq_ok_iff {p : BreadthPolicy} {graph : PrereqGraph} {codes : List Text}
    {f : DepthFinding} :
    analyze p graph codes = .ok f ↔
      ∃ w, firstCounted (eligibleGroups p codes) = .ok w ∧
        f = ⟨w.or (firstChained graph (eligibleGroups p codes)), ""⟩ := by
  unfold analyze
  dsimp only
  cases firstCounted (eligibleGroups p codes) with
  | error e => simp [bind, Except.bind]
  | ok w => cases w <;> simp [bind, Except.bind, pure, Except.pure, eq_comm]

/-- **Completeness.** If the search for depth ends, it has found depth exactly if some eligible
group qualifies or has a chain. -/
theorem ok_iff_of_analyze {p : BreadthPolicy} {graph : PrereqGraph} {codes : List Text}
    {f : DepthFinding} (h : analyze p graph codes = .ok f) :
    f.ok = true ↔ ∃ g ∈ eligibleGroups p codes,
      Qualifies g.2 ∨ (findChain graph g.2).isSome = true := by
  obtain ⟨w, hfirst, rfl⟩ := analyze_eq_ok_iff.mp h
  have hcounted := firstCounted_eq_ok hfirst
  simp only [and_or_left, exists_or, ← hcounted, ← firstChained_isSome]
  simp [DepthFinding.ok, Option.isSome_or]

/-- What an eligible group of some courses shows, one of more courses shows as well, if adding
courses to a group keeps it. -/
theorem exists_eligibleGroup_of_subset {p : BreadthPolicy} {codes codes' : List Text}
    {P : List Text → Prop} (hP : ∀ {xs ys : List Text}, xs.Nodup → xs ⊆ ys → P xs → P ys)
    (hsub : codes ⊆ codes') (h : ∃ g ∈ eligibleGroups p codes, P g.2) :
    ∃ g ∈ eligibleGroups p codes', P g.2 := by
  obtain ⟨g, hg, hshown⟩ := h
  obtain ⟨heligible, hsubject, hcodes⟩ := mem_eligibleGroups.mp hg
  have hcount := countable_subset p.excludedSubjects hsub
  have hgroup : g.2 ⊆ ofSubject (countable p.excludedSubjects codes') g.1 := by
    rw [hcodes]
    exact List.filter_subset _ hcount
  have hnodup : g.2.Nodup := by
    rw [hcodes]
    exact (nodup_countable p.excludedSubjects codes).filter _
  exact ⟨(g.1, ofSubject (countable p.excludedSubjects codes') g.1),
    mem_eligibleGroups.mpr ⟨heligible, List.map_subset _ hcount hsubject, rfl⟩,
    hP hnodup hgroup hshown⟩

/-- **Growth.** Depth shown by some courses is shown by more courses. -/
theorem ok_of_analyze_of_subset {p : BreadthPolicy} {graph : PrereqGraph}
    {codes codes' : List Text} {f f' : DepthFinding} (hsub : codes ⊆ codes')
    (h : analyze p graph codes = .ok f) (h' : analyze p graph codes' = .ok f')
    (hok : f.ok = true) : f'.ok = true := by
  refine (ok_iff_of_analyze h').mpr (exists_eligibleGroup_of_subset
    (P := fun g => Qualifies g ∨ (findChain graph g).isSome = true) ?_ hsub
    ((ok_iff_of_analyze h).mp hok))
  intro xs ys hnodup hgroup hshown
  exact hshown.imp (fun hq => hq.of_subset hnodup hgroup) (findChain_isSome_of_subset hgroup)

end Depth

end DegreeAudit
