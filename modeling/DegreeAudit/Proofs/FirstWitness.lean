import DegreeAudit.Proofs.Blame
import DegreeAudit.Proofs.DepthSearch

/-!
# The first witness of depth

The search for depth is greedy: it takes the first witness it comes to. This module says which one
that is, in terms of groups and places only (`FirstWitness`), and shows that the search finds it
(`depth_first_witness`).

**Counted groups** come first. A group that qualifies is taken even if an earlier group has a chain.

**Chains.** A chain has a place: where its first course stands in the group, and where each next one
stands in the list of prerequisites of the one before. A search of any depth finds the extension of
a path whose places are lexicographically first (`exists_extension_of_extend`), and finds none only
if there is none (`not_extension_of_extend`). The induction is on the number of courses to add, so
cycles and repetitions in the graph do no harm.
-/

namespace DegreeAudit

namespace Depth

variable {graph : PrereqGraph} {group : List Key}

/-! ## Extensions of a path -/

/-- A path, its last course first, is extended within a group to a chain. The places say where each
new course stands in the list of prerequisites of the one before. -/
inductive Extension (graph : PrereqGraph) (group : List Key) :
    List Key → List Nat → List Key → Prop
  | done (path : List Key) : Extension graph group path [] path.reverse
  | step {last pre : Key} {path : List Key} {j : Nat} {places : List Nat} {chain : List Key}
      (hlisted : (graph.prereqs last)[j]? = some pre) (hgroup : pre ∈ group)
      (hnew : pre ∉ last :: path)
      (hrest : Extension graph group (pre :: last :: path) places chain) :
      Extension graph group (last :: path) (j :: places) chain

/-- A search through a list stops at the first place at which it finds something. -/
theorem exists_place_of_findSome? {α β : Type} {l : List α} {f : α → Option β} {b : β}
    (h : l.findSome? f = some b) :
    ∃ (i : Nat) (a : α), l[i]? = some a ∧ f a = some b ∧
      ∀ (i' : Nat) (a' : α), i' < i → l[i']? = some a' → f a' = none := by
  obtain ⟨before, a, after, rfl, hfound, hnone⟩ := List.findSome?_eq_some_iff.mp h
  refine ⟨before.length, a, by simp, hfound, fun i' a' hlt ha' => hnone a' ?_⟩
  rw [List.getElem?_append_left hlt] at ha'
  exact List.mem_of_getElem? ha'

/-- **Completeness.** A search that ends without a chain has missed none. -/
theorem not_extension_of_extend {path : List Key} {places : List Nat} {chain : List Key}
    (h : extend graph group places.length path = none) :
    ¬Extension graph group path places chain := by
  intro hext
  induction hext with
  | done path => simp [extend] at h
  | @step last pre path j places chain hlisted hgroup hnew _ ih =>
    rw [List.length_cons, extend, List.findSome?_eq_none_iff] at h
    have hpre := h pre (List.mem_of_getElem? hlisted)
    rw [if_pos ⟨hgroup, hnew⟩] at hpre
    exact ih hpre

/-- **The first extension.** A search that finds a chain has found the one with the
lexicographically first places. -/
theorem exists_extension_of_extend {n : Nat} {path chain : List Key}
    (h : extend graph group n path = some chain) :
    ∃ places, places.length = n ∧ Extension graph group path places chain ∧
      ∀ places' chain', places'.length = n → Extension graph group path places' chain' →
        ¬List.Lex (· < ·) places' places := by
  induction n generalizing path with
  | zero =>
    obtain rfl := Option.some.inj h
    exact ⟨[], rfl, .done path, fun places' _ _ _ => List.not_lex_nil⟩
  | succ n ih =>
    cases path with
    | nil => simp [extend] at h
    | cons last path =>
      rw [extend] at h
      obtain ⟨j, pre, hlisted, hfound, hbefore⟩ := exists_place_of_findSome? h
      obtain ⟨⟨hgroup, hnew⟩, hfound⟩ := Option.ite_none_right_eq_some.mp hfound
      obtain ⟨places, hlength, hext, hfirst⟩ := ih hfound
      refine ⟨j :: places, by rw [List.length_cons, hlength], .step hlisted hgroup hnew hext, ?_⟩
      intro places' chain' hlength' hext' hlex
      cases hext' with
      | done => cases hlength'
      | @step _ pre' _ j' places' _ hlisted' hgroup' hnew' hrest' =>
        have hrest : places'.length = n := Nat.succ.inj hlength'
        cases hlex with
        | cons hlex =>
          obtain rfl := Option.some.inj (hlisted.symm.trans hlisted')
          exact hfirst places' chain' hrest hrest' hlex
        | rel hlt =>
          -- An earlier course was passed over, so there was no way to go on from it.
          have hnone := hbefore j' pre' hlt hlisted'
          rw [if_pos ⟨hgroup', hnew'⟩, ← hrest] at hnone
          exact not_extension_of_extend hnone hrest'

/-! ## Chains -/

/-- Three distinct courses of a group, each next one a listed prerequisite of the one before, with
the places of the first one in the group and of the others in the lists of prerequisites. -/
structure ChainAt (graph : PrereqGraph) (group : List Key) (i j k : Nat) (a b c : Key) :
    Prop where
  first : group[i]? = some a
  second : (graph.prereqs a)[j]? = some b
  third : (graph.prereqs b)[k]? = some c
  within : b ∈ group ∧ c ∈ group
  distinct : a ≠ b ∧ a ≠ c ∧ b ≠ c

/-- Whether a group has a chain. -/
def HasChain (graph : PrereqGraph) (group : List Key) : Prop :=
  ∃ i j k a b c, ChainAt graph group i j k a b c

/-- The chain of a group whose places are lexicographically first. -/
def IsFirstChain (graph : PrereqGraph) (group chain : List Key) : Prop :=
  ∃ i j k a b c, chain = [a, b, c] ∧ ChainAt graph group i j k a b c ∧
    ∀ i' j' k' a' b' c', ChainAt graph group i' j' k' a' b' c' →
      ¬List.Lex (· < ·) [i', j', k'] [i, j, k]

theorem extension_two_iff {a : Key} {places : List Nat} {chain : List Key}
    (hlength : places.length = 2) :
    Extension graph group [a] places chain ↔
      ∃ j k b c, places = [j, k] ∧ chain = [a, b, c] ∧ (graph.prereqs a)[j]? = some b ∧
        (graph.prereqs b)[k]? = some c ∧ (b ∈ group ∧ c ∈ group) ∧ a ≠ b ∧ a ≠ c ∧ b ≠ c := by
  constructor
  · intro h
    cases h with
    | done => cases hlength
    | step hb hgroup hnew hrest =>
      cases hrest with
      | done => cases hlength
      | step hc hgroup' hnew' hrest' =>
        cases hrest' with
        | done =>
          simp only [List.mem_cons, List.not_mem_nil, or_false, not_or] at hnew hnew'
          exact ⟨_, _, _, _, rfl, rfl, hb, hc, ⟨hgroup, hgroup'⟩, Ne.symm hnew,
            Ne.symm hnew'.2, Ne.symm hnew'.1⟩
        | step => cases hlength
  · rintro ⟨j, k, b, c, rfl, rfl, hb, hc, ⟨hgroup, hgroup'⟩, hab, hac, hbc⟩
    exact .step hb hgroup (by simp [hab.symm])
      (.step hc hgroup' (by simp [hac.symm, hbc.symm]) (.done [c, b, a]))

theorem chainAt_iff {i j k : Nat} {a b c : Key} :
    ChainAt graph group i j k a b c ↔
      group[i]? = some a ∧ Extension graph group [a] [j, k] [a, b, c] := by
  rw [extension_two_iff rfl]
  constructor
  · rintro ⟨ha, hb, hc, hwithin, hdistinct⟩
    exact ⟨ha, j, k, b, c, rfl, rfl, hb, hc, hwithin, hdistinct⟩
  · rintro ⟨ha, j', k', b', c', hplaces, hchain, hb, hc, hwithin, hdistinct⟩
    obtain ⟨rfl, rfl⟩ : j = j' ∧ k = k' := by simpa using hplaces
    obtain ⟨rfl, rfl⟩ : b = b' ∧ c = c' := by simpa using hchain
    exact ⟨ha, hb, hc, hwithin, hdistinct⟩

theorem not_hasChain_of_findChain {codes : List Text} (h : findChain graph codes = none) :
    ¬HasChain graph (codes.map Code.key) := by
  rintro ⟨i, j, k, a, b, c, hchain⟩
  obtain ⟨ha, hext⟩ := chainAt_iff.mp hchain
  exact not_extension_of_extend (List.findSome?_eq_none_iff.mp h a (List.mem_of_getElem? ha)) hext

theorem isFirstChain_of_findChain {codes : List Text} {chain : List Key}
    (h : findChain graph codes = some chain) :
    IsFirstChain graph (codes.map Code.key) chain := by
  obtain ⟨i, a, ha, hfound, hbefore⟩ := exists_place_of_findSome? h
  obtain ⟨places, hlength, hext, hfirst⟩ := exists_extension_of_extend hfound
  obtain ⟨j, k, b, c, rfl, rfl, -⟩ := (extension_two_iff hlength).mp hext
  refine ⟨i, j, k, a, b, c, rfl, chainAt_iff.mpr ⟨ha, hext⟩, ?_⟩
  intro i' j' k' a' b' c' hchain' hlex
  obtain ⟨ha', hext'⟩ := chainAt_iff.mp hchain'
  cases hlex with
  | cons hlex =>
    obtain rfl := Option.some.inj (ha.symm.trans ha')
    exact hfirst [j', k'] _ rfl hext' hlex
  | rel hlt => exact not_extension_of_extend (hbefore i' a' hlt ha') hext'

theorem HasChain.of_isFirstChain {chain : List Key} (h : IsFirstChain graph group chain) :
    HasChain graph group := by
  obtain ⟨i, j, k, a, b, c, -, hchain, -⟩ := h
  exact ⟨i, j, k, a, b, c, hchain⟩

/-! ## The first witness -/

/-- The groups that can show depth: the subjects of the countable courses in the order they are
first met, as far as they are eligible, each with its courses. -/
def subjectGroups (p : BreadthPolicy) (codes : List Text) : List (Text × List Text) :=
  let counted := countable p.excludedSubjects codes
  ((firstSubjects counted).filter (· ∈ p.eligible)).map fun s => (s, ofSubject counted s)

theorem eligibleGroups_eq_subjectGroups (p : BreadthPolicy) (codes : List Text) :
    eligibleGroups p codes = subjectGroups p codes := by
  rw [eligibleGroups, groups_eq, List.filter_map]
  rfl

/-- The first witness of depth that groups show: the first group that qualifies; the first chain of
the first group that has one, if no group qualifies; and nothing, if no group does either. -/
inductive FirstWitness (graph : PrereqGraph) (gs : List (Text × List Text)) :
    Option DepthWitness → Prop
  | counted {before after : List (Text × List Text)} {g : Text × List Text}
      (hgs : gs = before ++ g :: after) (hbefore : ∀ g' ∈ before, ¬Qualifies g'.2)
      (hg : Qualifies g.2) : FirstWitness graph gs (some (.courses g.1 g.2))
  | chained {before after : List (Text × List Text)} {g : Text × List Text} {chain : List Key}
      (hlow : ∀ g' ∈ gs, ¬Qualifies g'.2) (hgs : gs = before ++ g :: after)
      (hbefore : ∀ g' ∈ before, ¬HasChain graph (g'.2.map Code.key))
      (hchain : IsFirstChain graph (g.2.map Code.key) chain) :
      FirstWitness graph gs (some (.chain g.1 chain))
  | nothing (hlow : ∀ g' ∈ gs, ¬Qualifies g'.2)
      (hbroken : ∀ g' ∈ gs, ¬HasChain graph (g'.2.map Code.key)) : FirstWitness graph gs none

theorem firstWitness_firstChained {gs : List (Text × List Text)}
    (hlow : ∀ g ∈ gs, ¬Qualifies g.2) : FirstWitness graph gs (firstChained graph gs) := by
  cases h : firstChained graph gs with
  | none =>
    refine .nothing hlow fun g hg => not_hasChain_of_findChain ?_
    exact Option.map_eq_none_iff.mp (List.findSome?_eq_none_iff.mp h g hg)
  | some w =>
    obtain ⟨before, g, after, hgs, hfound, hnone⟩ := List.findSome?_eq_some_iff.mp h
    obtain ⟨chain, hchain, rfl⟩ := Option.map_eq_some_iff.mp hfound
    refine .chained hlow hgs (fun g' hg' => not_hasChain_of_findChain ?_)
      (isFirstChain_of_findChain hchain)
    exact Option.map_eq_none_iff.mp (hnone g' hg')

/-- The two searches, one after the other, find the first witness. -/
theorem firstWitness_of_firstCounted {gs : List (Text × List Text)} {w : Option DepthWitness}
    (h : firstCounted gs = .ok w) : FirstWitness graph gs (w.or (firstChained graph gs)) := by
  cases w with
  | some witness =>
    obtain ⟨before, g, after, hgs, hbefore, hg, rfl⟩ := exists_first_of_firstCounted h
    exact .counted hgs hbefore hg
  | none =>
    have hlow := (firstCounted_eq_ok h).not.mp (by simp)
    exact firstWitness_firstChained fun g hg hq => hlow ⟨g, hg, hq⟩

theorem FirstWitness.eq_none_iff {gs : List (Text × List Text)} {w : Option DepthWitness}
    (h : FirstWitness graph gs w) :
    w = none ↔ ∀ g ∈ gs, ¬Qualifies g.2 ∧ ¬HasChain graph (g.2.map Code.key) := by
  cases h with
  | @counted _ _ g hgs _ hg =>
    subst hgs
    exact iff_of_false (by simp) fun hnone => (hnone g (by simp)).1 hg
  | @chained _ _ g _ _ hgs _ hchain =>
    subst hgs
    exact iff_of_false (by simp) fun hnone => (hnone g (by simp)).2 (.of_isFirstChain hchain)
  | nothing hlow hbroken =>
    exact iff_of_true rfl fun g hg => ⟨hlow g hg, hbroken g hg⟩

theorem exists_unreadable_of_anyHigh {codes : List Text} {e : Fault}
    (h : anyHigh codes = .error e) : ∃ code ∈ codes, Code.level? code = none := by
  induction codes with
  | nil => simp [anyHigh] at h
  | cons code rest ih =>
    rw [anyHigh] at h
    cases hlevel : Code.level? code with
    | none => exact ⟨code, List.mem_cons_self, hlevel⟩
    | some n =>
      simp only [hlevel] at h
      split at h
      · simp at h
      · obtain ⟨c, hc, hc'⟩ := ih h
        exact ⟨c, List.mem_cons_of_mem _ hc, hc'⟩

/-- The search for a counted group ends, unless a course of a group with enough courses has a level
that cannot be read. -/
theorem exists_unreadable_of_firstCounted {gs : List (Text × List Text)} {e : Fault}
    (h : firstCounted gs = .error e) :
    ∃ g ∈ gs, minCourses ≤ g.2.length ∧ ∃ code ∈ g.2, Code.level? code = none := by
  induction gs with
  | nil => simp [firstCounted] at h
  | cons g rest ih =>
    have hlater : firstCounted rest = .error e →
        ∃ g' ∈ g :: rest, minCourses ≤ g'.2.length ∧ ∃ code ∈ g'.2, Code.level? code = none := by
      intro hrest
      obtain ⟨g', hg', hunreadable⟩ := ih hrest
      exact ⟨g', List.mem_cons_of_mem _ hg', hunreadable⟩
    unfold firstCounted at h
    split at h
    · next hlen =>
      cases hhigh : anyHigh g.2 with
      | error e' =>
        exact ⟨g, List.mem_cons_self, hlen, exists_unreadable_of_anyHigh hhigh⟩
      | ok high =>
        simp only [hhigh, bind, Except.bind] at h
        cases high with
        | true => simp [pure, Except.pure] at h
        | false => exact hlater h
    · exact hlater h

/-- **Depth is shown by the first witness.** The analysis of depth ends with the first witness that
the groups show, and without one exactly if no group qualifies and none has a chain. Otherwise it
has met, in a group with enough courses, one with a level that cannot be read. -/
theorem depth_first_witness (p : BreadthPolicy) (graph : PrereqGraph) (codes : List Text) :
    (∃ f, analyze p graph codes = .ok f ∧
      FirstWitness graph (subjectGroups p codes) f.witness ∧ f.note = "" ∧
      (f.ok = false ↔ ∀ g ∈ subjectGroups p codes,
        ¬Qualifies g.2 ∧ ¬HasChain graph (g.2.map Code.key))) ∨
    (analyze p graph codes = .error .notANumeral ∧
      ∃ g ∈ subjectGroups p codes, minCourses ≤ g.2.length ∧
        ∃ code ∈ g.2, Code.level? code = none) := by
  rw [← eligibleGroups_eq_subjectGroups]
  cases h : analyze p graph codes with
  | ok f =>
    obtain ⟨w, hcounted, rfl⟩ := analyze_eq_ok_iff.mp h
    have hfirst : FirstWitness graph _ _ := firstWitness_of_firstCounted hcounted
    refine .inl ⟨_, rfl, hfirst, rfl, ?_⟩
    rw [← hfirst.eq_none_iff]
    exact Option.isSome_eq_false_iff.trans Option.isNone_iff_eq_none
  | error e =>
    obtain rfl := analyze_numeric p graph codes e h
    refine .inr ⟨rfl, ?_⟩
    cases hcounted : firstCounted (eligibleGroups p codes) with
    | error e => exact exists_unreadable_of_firstCounted hcounted
    | ok w =>
      obtain ⟨f, hok⟩ : ∃ f, analyze p graph codes = .ok f :=
        ⟨_, analyze_eq_ok_iff.mpr ⟨w, hcounted, rfl⟩⟩
      exact absurd (hok.symm.trans h) (by simp)

/-- A policy in which physics and mathematics are pure sciences. -/
def sciencePolicy : BreadthPolicy where
  subjects
    | .pureSciences => ["PHYS", "MATH"]
    | _ => []
  excludedSubjects := []
  needed := Category.defaultNeeded

/-- A graph with a loop, a course that nobody has taken, a repetition and a cycle. -/
def tangledGraph : PrereqGraph :=
  [("MATH237", ["MATH237", "MATH119", "MATH136", "MATH136"]), ("MATH136", ["MATH237", "MATH106"])]

/-- Physics has no chain, and mathematics has one that only its last course starts. -/
theorem depth_first_witness_tangled :
    ∃ f, analyze sciencePolicy tangledGraph
        ["PHYS 121", "MATH 106", "math136", "MATH 136", "MATH 237"] = .ok f ∧
      FirstWitness tangledGraph
        [("PHYS", ["PHYS 121"]), ("MATH", ["MATH 106", "MATH 136", "MATH 237"])] f.witness ∧
      f.witness = some (.chain "MATH" ["MATH237", "MATH136", "MATH106"]) ∧ f.ok = true := by
  rcases depth_first_witness sciencePolicy tangledGraph
      ["PHYS 121", "MATH 106", "math136", "MATH 136", "MATH 237"] with
    ⟨f, hanalyze, hfirst, -, -⟩ | ⟨hfault, -⟩
  · obtain rfl : _ = f := Except.ok.inj (.trans (by rfl) hanalyze)
    exact ⟨_, hanalyze, hfirst, rfl, rfl⟩
  · cases hfault

end Depth

end DegreeAudit
