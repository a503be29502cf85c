import DegreeAudit.Proofs.Tokens
import DegreeAudit.Proofs.WellFormed

/-!
# The order of a selection

A requirement writes its selectors as tokens, and gets the courses that they select. What it gets is
in a definite order, however the selectors overlap.

**One list of tokens.** The four fields of selectors are read one after the other (`Terms.tokens`),
and a selection depends on the tokens that are well-shaped only (`Catalog.select_congr`).

**Collecting.** Where no number is too long, each token collects from the catalog what it picks
(`Catalog.collected`), and of each key the first course is kept. So a course of the catalog stands
where the first token that picks it has put it, its `turn`. The order is by turn and then by place
in the catalog: by induction on the tokens, where what a token collects stands before the courses
that it does not pick, and the turns of those are one later than among the other tokens
(`Catalog.pairwise_dedupe_collected`).

**Listed courses** come behind, if no token picks a course of the catalog with their key. The main
statement is `selection_in_order`.
-/

namespace DegreeAudit

open Text

/-! ## Picks -/

namespace Selector

/-- Whether a selector selects a course. Where a number is too long it picks nothing, but then there
is no selection either. -/
def picks (s : Selector) (c : Course) : Bool :=
  match s.selects c with
  | .ok selected => selected
  | .error _ => false

theorem filterCourses_yields (s : Selector) (courses : List Course) :
    Yields (s.filterCourses courses) (· = courses.filter s.picks) := by
  induction courses with
  | nil => exact yields_ok rfl
  | cons c rest ih =>
    have hselects : Yields (s.selects c) (· = s.picks c) := fun b hb => by rw [picks, hb]
    refine hselects.bind fun selected hselected => ih.bind fun others hothers => yields_ok ?_
    rw [List.filter_cons, ← hselected, hothers]

/-! ## One list of tokens -/

/-- The selectors that some tokens write, in order. -/
def ofTokens : List Token → Except Fault (List Selector)
  | [] => .ok []
  | token :: rest => do
    let selector ← token.selector?
    let others ← ofTokens rest
    return selector.toList ++ others

theorem ofTokens_append (xs ys : List Token) : ofTokens (xs ++ ys) = do
    let first ← ofTokens xs
    let others ← ofTokens ys
    return first ++ others := by
  induction xs with
  | nil => cases h : ofTokens ys <;> simp [ofTokens, h] <;> rfl
  | cons token rest ih =>
    rw [List.cons_append, ofTokens, ofTokens, ih]
    cases token.selector? with
    | error e => rfl
    | ok selector =>
      cases ofTokens rest with
      | error e => rfl
      | ok first =>
        cases ofTokens ys with
        | error e => rfl
        | ok others =>
          exact congrArg Except.ok (List.append_assoc selector.toList first others).symm

theorem ofTokens_map (read : Text → Option Selector) (write : Text → Token)
    (h : ∀ s, (write s).selector? = .ok (read s)) (tokens : List Text) :
    ofTokens (tokens.map write) = .ok (tokens.filterMap read) := by
  induction tokens with
  | nil => rfl
  | cons s rest ih =>
    rw [List.map_cons, ofTokens, ih, h, List.filterMap_cons]
    cases read s <;> rfl

theorem ofRanges_eq (tokens : List Text) : ofRanges tokens = ofTokens (tokens.map .range) := by
  induction tokens with
  | nil => rfl
  | cons s rest ih => rw [ofRanges, List.map_cons, ofTokens, ih, Token.selector?]

/-- A token of another shape is as good as none. -/
theorem ofTokens_filter (tokens : List Token) :
    ofTokens (tokens.filter (·.WellShaped)) = ofTokens tokens := by
  induction tokens with
  | nil => rfl
  | cons token rest ih =>
    rw [List.filter_cons]
    split
    · rw [ofTokens, ofTokens, ih]
    · next hshape =>
      rw [decide_eq_true_eq] at hshape
      rw [ih, ofTokens, Token.selector?_eq_none_iff.mpr hshape]
      cases ofTokens rest <;> rfl

end Selector

/-! ## Turns -/

namespace Token

/-- Whether a token picks a course: it writes a selector that selects the course. -/
def picks (token : Token) (c : Course) : Bool :=
  match token.selector? with
  | .ok (some s) => s.picks c
  | _ => false

theorem picks_of_not_wellShaped {token : Token} (h : ¬token.WellShaped) (c : Course) :
    token.picks c = false := by
  rw [picks, selector?_eq_none_iff.mpr h]

/-- The number of the first token that picks a course. -/
def turn (tokens : List Token) (c : Course) : Nat := tokens.findIdx (·.picks c)

theorem turn_cons (token : Token) (rest : List Token) (c : Course) :
    turn (token :: rest) c = if token.picks c then 0 else turn rest c + 1 := by
  rw [turn, List.findIdx_cons, turn]
  cases token.picks c <;> rfl

end Token

namespace Terms

/-- The tokens of a requirement, in the order in which they are read. -/
def tokens (t : Terms) : List Token :=
  t.range.map .range ++ (t.levelRanges ++ t.patterns).map .level ++ t.categoryRanges.map .category

def Picks (t : Terms) (c : Course) : Prop := ∃ token ∈ t.tokens, token.picks c = true

end Terms

theorem Selector.ofTerms_eq (t : Terms) : ofTerms t = ofTokens t.tokens := by
  rw [ofTerms, ofRanges_eq, Terms.tokens, List.append_assoc, ofTokens_append, ofTokens_append,
    ofTokens_map ofLevel? .level (fun _ => rfl), ofTokens_map ofCategory? .category (fun _ => rfl)]
  cases ofTokens (t.range.map .range) with
  | error e => rfl
  | ok ranges => exact congrArg Except.ok (List.append_assoc ..)

namespace Catalog

variable {catalog : Catalog} {tokens : List Token} {c : Course}

/-! ## Collecting -/

/-- What some tokens pick from the catalog, one token after the other. -/
def collected (catalog : Catalog) (tokens : List Token) : List Course :=
  tokens.flatMap fun token => catalog.courses.filter token.picks

theorem mem_collected : c ∈ catalog.collected tokens ↔
    c ∈ catalog.courses ∧ ∃ token ∈ tokens, token.picks c = true := by
  simp only [collected, List.mem_flatMap, List.mem_filter]
  exact ⟨fun ⟨token, htoken, hc, hpicks⟩ => ⟨hc, token, htoken, hpicks⟩,
    fun ⟨hc, token, htoken, hpicks⟩ => ⟨token, htoken, hc, hpicks⟩⟩

theorem mem_keys_collected {k : Key} : k ∈ (catalog.collected tokens).map Course.key ↔
    ∃ c ∈ catalog.courses, c.key = k ∧ ∃ token ∈ tokens, token.picks c = true := by
  simp only [List.mem_map, mem_collected]
  exact ⟨fun ⟨c, ⟨hc, hpicked⟩, hkey⟩ => ⟨c, hc, hkey, hpicked⟩,
    fun ⟨c, hc, hkey, hpicked⟩ => ⟨c, ⟨hc, hpicked⟩, hkey⟩⟩

theorem matching_yields (catalog : Catalog) (selectors : List Selector) :
    Yields (catalog.matching selectors)
      (· = selectors.flatMap fun s => catalog.courses.filter s.picks) := by
  induction selectors with
  | nil => exact yields_ok rfl
  | cons s rest ih =>
    refine (s.filterCourses_yields _).bind fun first hfirst => ih.bind fun others hothers => ?_
    refine yields_ok ?_
    rw [hfirst, hothers, List.flatMap_cons]

theorem ofTokens_yields (catalog : Catalog) (tokens : List Token) :
    Yields (Selector.ofTokens tokens) fun selectors =>
      (selectors.flatMap fun s => catalog.courses.filter s.picks) = catalog.collected tokens := by
  induction tokens with
  | nil => exact yields_ok rfl
  | cons token rest ih =>
    have hpicks : Yields token.selector? fun selector =>
        (selector.toList.flatMap fun s => catalog.courses.filter s.picks) =
          catalog.courses.filter token.picks := by
      intro selector hselector
      cases selector with
      | none =>
        have hnone : token.picks = fun _ => false := funext fun c => by rw [Token.picks, hselector]
        rw [hnone, List.filter_false]
        rfl
      | some s =>
        have hsome : token.picks = s.picks := funext fun c => by rw [Token.picks, hselector]
        rw [hsome, Option.toList_some, List.flatMap_singleton]
    refine hpicks.bind fun selector hselector => ih.bind fun others hothers => yields_ok ?_
    rw [List.flatMap_append, hselector, hothers, collected, collected, List.flatMap_cons]

/-- A selection keeps of each key the first course among what is collected and what is listed. -/
theorem select_yields (catalog : Catalog) (excluded : List Key) (t : Terms) :
    Yields (catalog.select excluded t)
      (· = Course.dedupe excluded (catalog.collected t.tokens ++ t.courses)) := by
  rw [select, Selector.ofTerms_eq]
  refine (catalog.ofTokens_yields t.tokens).bind fun selectors hselectors => ?_
  refine (catalog.matching_yields selectors).bind fun selected hselected => yields_ok ?_
  rw [hselected, hselectors]

theorem select_congr (catalog : Catalog) (excluded : List Key) {t t' : Terms}
    (hcourses : t'.courses = t.courses)
    (htokens : t'.tokens.filter (·.WellShaped) = t.tokens.filter (·.WellShaped)) :
    catalog.select excluded t' = catalog.select excluded t := by
  rw [select, select, Selector.ofTerms_eq, Selector.ofTerms_eq, hcourses,
    ← Selector.ofTokens_filter t'.tokens, htokens, Selector.ofTokens_filter]

/-! ## Order -/

/-- Whether a course stands before another one: it has an earlier turn, or the same turn and an
earlier place in the catalog. -/
def Before (catalog : Catalog) (tokens : List Token) (c d : Course) : Prop :=
  Token.turn tokens c < Token.turn tokens d ∨
    Token.turn tokens c = Token.turn tokens d ∧
      Course.placeIn catalog.courses c < Course.placeIn catalog.courses d

/-- The first course of each key that is collected is any that is collected. -/
theorem mem_dedupe_collected {excluded : List Key} :
    c ∈ Course.dedupe excluded (catalog.collected tokens) ↔
      c ∈ catalog.collected tokens ∧ c.key ∉ excluded := by
  refine ⟨fun h => ⟨(Course.dedupe_sublist ..).subset h, Course.not_mem_excluded_of_mem_dedupe h⟩,
    fun ⟨hc, hkey⟩ => ?_⟩
  obtain ⟨d, hd, hdc⟩ := List.mem_map.mp (Course.mem_keys_dedupe.mpr ⟨List.mem_map_of_mem hc, hkey⟩)
  have hd' := (mem_collected.mp ((Course.dedupe_sublist ..).subset hd)).1
  have heq : d = c := List.inj_on_of_nodup_map catalog.nodup hd' (mem_collected.mp hc).1 hdc
  exact heq ▸ hd

/-- **The collected courses** stand by turn and then by place. -/
theorem pairwise_dedupe_collected (catalog : Catalog) (tokens : List Token) (excluded : List Key) :
    (Course.dedupe excluded (catalog.collected tokens)).Pairwise (catalog.Before tokens) := by
  induction tokens generalizing excluded with
  | nil => exact .nil
  | cons token rest ih =>
    have hcollected : catalog.collected (token :: rest) =
        catalog.courses.filter token.picks ++ catalog.collected rest := List.flatMap_cons
    -- What the first token picks is not collected again.
    have hfirst : ∀ c ∈ Course.dedupe excluded (catalog.courses.filter token.picks),
        Token.turn (token :: rest) c = 0 := by
      intro c hc
      have hpicks := (List.mem_filter.mp ((Course.dedupe_sublist ..).subset hc)).2
      rw [Token.turn_cons, if_pos hpicks]
    have hlater : ∀ c ∈ Course.dedupe
        ((catalog.courses.filter token.picks).map Course.key ++ excluded) (catalog.collected rest),
        Token.turn (token :: rest) c = Token.turn rest c + 1 := by
      intro c hc
      obtain ⟨hcollected, hkey⟩ := mem_dedupe_collected.mp hc
      refine (Token.turn_cons ..).trans (if_neg fun hpicks => hkey (List.mem_append_left _ ?_))
      exact List.mem_map_of_mem (List.mem_filter.mpr ⟨(mem_collected.mp hcollected).1, hpicks⟩)
    rw [hcollected, Course.dedupe_append, List.pairwise_append]
    refine ⟨?_, (ih _).imp_of_mem fun {c d} hc hd hbefore => ?_, fun c hc d hd => .inl ?_⟩
    · have hsub := (Course.dedupe_sublist excluded (catalog.courses.filter token.picks)).trans
        List.filter_sublist
      have hplaces := (Course.pairwise_placeIn_of_nodup catalog.nodup).sublist hsub
      refine hplaces.imp_of_mem fun {c d} hc hd hlt => .inr ⟨?_, hlt⟩
      rw [hfirst c hc, hfirst d hd]
    · rw [Before, hlater c hc, hlater d hd]
      exact hbefore.imp Nat.succ_lt_succ (And.imp_left (congrArg Nat.succ))
    · rw [hfirst c hc, hlater d hd]
      exact Nat.succ_pos _

end Catalog

/-! ## The selection -/

/-- **A selection is in order.** Its keys are distinct. They are those of the picked courses and of
the listed ones, without the excluded ones. First come the picked courses of the catalog, by turn
and then by place; then the listed courses whose keys no picked course has, by first occurrence.
Tokens of another shape pick nothing, and any number of them can be added or left out anywhere. -/
theorem selection_in_order {catalog : Catalog} {t : Terms} {excluded : List Text}
    {courses : List Course} (h : catalog.select (excluded.map Code.key) t = .ok courses) :
    (courses.map Course.key).Nodup ∧
    (∀ k, k ∈ courses.map Course.key ↔
      ((∃ c ∈ catalog.courses, c.key = k ∧ t.Picks c) ∨ k ∈ t.courses.map Course.key) ∧
        k ∉ excluded.map Code.key) ∧
    (∃ front back, courses = front ++ back ∧
      (∀ c, c ∈ front ↔ c ∈ catalog.courses ∧ t.Picks c ∧ c.key ∉ excluded.map Code.key) ∧
      front.Pairwise (catalog.Before t.tokens) ∧
      (∀ c, c ∈ back ↔ t.courses.find? (fun d => d.key == c.key) = some c ∧
        (∀ d ∈ catalog.courses, d.key = c.key → ¬t.Picks d) ∧ c.key ∉ excluded.map Code.key) ∧
      back.Pairwise fun c d => Course.placeIn t.courses c < Course.placeIn t.courses d) ∧
    (∀ token : Token, ¬token.WellShaped → ∀ c, token.picks c = false) ∧
    ∀ t' : Terms, t'.courses = t.courses →
      t'.tokens.filter (·.WellShaped) = t.tokens.filter (·.WellShaped) →
        catalog.select (excluded.map Code.key) t' = .ok courses := by
  obtain rfl := catalog.select_yields _ t courses h
  refine ⟨Course.nodup_key_dedupe .., fun k => ?_, ⟨_, _, Course.dedupe_append .., fun c => ?_,
    catalog.pairwise_dedupe_collected .., fun c => ?_, Course.pairwise_placeIn_dedupe ..⟩,
    fun token => token.picks_of_not_wellShaped, fun t' hcourses htokens => ?_⟩
  · rw [Course.mem_keys_dedupe, List.map_append, List.mem_append, Catalog.mem_keys_collected]
    rfl
  · rw [Catalog.mem_dedupe_collected, Catalog.mem_collected, and_assoc, Terms.Picks]
  · rw [Course.mem_dedupe_iff, List.mem_append, not_or, Catalog.mem_keys_collected]
    simp only [not_exists, not_and, Terms.Picks]
  · rw [catalog.select_congr _ hcourses htokens, h]

/-- A catalog of which the selectors below pick some courses more than once. -/
def overlappingCatalog : Catalog :=
  Catalog.ofCourses [⟨"CS 245", .text "Logic"⟩, ⟨"CS 135", .text "Designs"⟩,
    ⟨"CS 136L", .text "Tools"⟩, ⟨"CSE 101", .text "Systems"⟩, ⟨"MATH 135", .text "Algebra"⟩]

/-- Terms with selectors that overlap, and with three tokens that write none. -/
def overlappingTerms : Terms where
  description := none
  courses := [.untitled "stat230", .untitled "math135", .untitled "STAT 230", .untitled "CO 250"]
  count := none
  required := []
  range := ["MATH135", "CS-", "cs101-136"]
  levelRanges := ["CS1", "12"]
  categoryRanges := ["M1", "CS"]
  patterns := ["CS"]

/-- Two of the courses that the terms select, in other spellings. -/
def overlappingExcluded : List Text := ["cs 136l", "co250"]

/-- Codes and titles of the courses that are selected then. -/
def overlappingSelection : List (Text × Json) :=
  [("MATH 135", .text "Algebra"), ("CS 135", .text "Designs"), ("CSE 101", .text "Systems"),
    ("CS 245", .text "Logic"), ("stat230", .text "")]

theorem selection_in_order_overlapping : ∃ courses,
    overlappingCatalog.select (overlappingExcluded.map Code.key) overlappingTerms = .ok courses ∧
      courses.map (fun c => (c.code, c.title)) = overlappingSelection ∧
      (courses.map Course.key).Nodup ∧
      overlappingCatalog.select (overlappingExcluded.map Code.key)
        { overlappingTerms with range := ["MATH135", "cs101-136"], levelRanges := ["CS1"] } =
          .ok courses := by
  have hshown : (overlappingCatalog.select (overlappingExcluded.map Code.key)
      overlappingTerms).toOption.map (·.map fun c => (c.code, c.title)) =
        some overlappingSelection := by
    decide +kernel
  cases h : overlappingCatalog.select (overlappingExcluded.map Code.key) overlappingTerms with
  | error e =>
    rw [h] at hshown
    cases hshown
  | ok courses =>
    rw [h] at hshown
    obtain ⟨hnodup, -, -, -, hsame⟩ := selection_in_order h
    exact ⟨courses, rfl, Option.some.inj hshown, hnodup, hsame _ rfl (by decide +kernel)⟩

end DegreeAudit
