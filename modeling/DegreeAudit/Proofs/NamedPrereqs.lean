import DegreeAudit.Prereq.Graph
import DegreeAudit.Proofs.Mentions

/-!
# Prerequisites that a text names

The graph takes the prerequisites of a course from a text if none are recorded. Then it lists what
the text mentions, without the course itself.

**One entry** changes the prerequisites of its own course only (`PrereqGraph.addEntry_eq_ok`), so a
course has those of the last entry with its key (`PrereqGraph.mem_prereqs_of_told`).

**What is read back.** A code in canonical form that stands in the text as a word is listed exactly
if it is short (`codes_read_back`). A longer subject or suffix is part of a canonical form, but no
mention has one, so a course such as `COMMST 100` is never anyone's prerequisite
(`long_codes_unread`).
-/

namespace DegreeAudit

open Text

namespace PrereqGraph

/-! ## Entries -/

theorem prereqs_put (graph : PrereqGraph) (course k : Key) (pres : List Key) :
    (graph.put course pres).prereqs k = if k = course then pres else graph.prereqs k := by
  have hlookup : (graph.put course pres).lookup k =
      if k = course then some pres else graph.lookup k := by
    induction graph with
    | nil =>
      rw [put, List.lookup_cons]
      by_cases hk : k = course
      · rw [if_pos hk, beq_iff_eq.mpr hk]
      · rw [if_neg hk, beq_false_of_ne hk]
    | cons e rest ih =>
      obtain ⟨first, ps⟩ := e
      unfold put
      by_cases hfirst : first = course
      · rw [if_pos hfirst, hfirst, List.lookup_cons, List.lookup_cons]
        by_cases hk : k = course
        · rw [if_pos hk, beq_iff_eq.mpr hk]
        · rw [if_neg hk, beq_false_of_ne hk]
      · rw [if_neg hfirst, List.lookup_cons, ih, List.lookup_cons]
        by_cases hk : k = first
        · have hne : k ≠ course := fun h => hfirst (hk.symm.trans h)
          rw [beq_iff_eq.mpr hk]
          exact (if_neg hne).symm
        · rw [beq_false_of_ne hk]
  rw [prereqs, hlookup, apply_ite (Option.getD · []), prereqs]
  rfl

/-- **One entry.** An entry that is added changes nothing, or it sets the prerequisites of its own
course to the keys that it gives, each once. -/
theorem addEntry_eq_ok {graph graph' : PrereqGraph} {code : Text} {entry : Json}
    (h : graph.addEntry code entry = .ok graph') :
    graph' = graph ∨ ∃ fields keys, Code.key code ≠ "" ∧ entryKeys code fields = .ok keys ∧
      graph' = graph.put (Code.key code) (distinctKeys ["", Code.key code] keys) := by
  unfold addEntry at h
  dsimp only at h
  split at h
  · exact .inl (Except.ok.inj h).symm
  · next hcode =>
    split at h
    · next fields =>
      cases hkeys : entryKeys code fields with
      | error e => simp [hkeys, bind, Except.bind] at h
      | ok keys =>
        rw [hkeys] at h
        exact .inr ⟨fields, keys, hcode, hkeys, (Except.ok.inj h).symm⟩
    · exact .inl (Except.ok.inj h).symm

theorem foldlM_append_eq_ok {α β ε : Type} {f : β → α → Except ε β} {xs ys : List α} {a c : β} :
    (xs ++ ys).foldlM f a = .ok c ↔ ∃ b, xs.foldlM f a = .ok b ∧ ys.foldlM f b = .ok c := by
  rw [List.foldlM_append]
  cases xs.foldlM f a <;> simp [bind, Except.bind]

/-- Entries of other courses leave the prerequisites of a course as they are. -/
theorem prereqs_of_others {entries : Fields} {graph graph' : PrereqGraph} {course : Key}
    (h : entries.foldlM (fun graph e => graph.addEntry e.1 e.2) graph = .ok graph')
    (hothers : ∀ e ∈ entries, Code.key e.1 ≠ course) :
    graph'.prereqs course = graph.prereqs course := by
  induction entries generalizing graph with
  | nil => rw [Except.ok.inj h]
  | cons e rest ih =>
    rw [List.foldlM_cons] at h
    cases hfirst : graph.addEntry e.1 e.2 with
    | error fault => simp [hfirst, bind, Except.bind] at h
    | ok graph₁ =>
      rw [hfirst] at h
      rw [ih h fun e' he' => hothers e' (List.mem_cons_of_mem e he')]
      rcases addEntry_eq_ok hfirst with rfl | ⟨-, -, -, -, rfl⟩
      · rfl
      · rw [prereqs_put, if_neg (Ne.symm (hothers e List.mem_cons_self))]

/-! ## Entries with a text -/

/-- Whether an entry records no prerequisites but has a text that tells them. -/
def IsTold (entry : Json) (text : Text) : Prop :=
  ∃ fields, entry = .object fields ∧ Fields.get fields "prereq_codes" = .null ∧
    Fields.get fields "prereq_text" = .text text

theorem IsTold.addEntry {entry : Json} {text : Text} (h : IsTold entry text) (graph : PrereqGraph)
    (code : Text) : graph.addEntry code entry = .ok
      (if Code.key code = "" then graph
      else graph.put (Code.key code) (distinctKeys ["", Code.key code]
        ((Prereq.mentioned text (some code)).map Code.key))) := by
  obtain ⟨fields, rfl, hcodes, htext⟩ := h
  have hkeys : entryKeys code fields = .ok ((Prereq.mentioned text (some code)).map Code.key) := by
    rw [entryKeys, hcodes, htext]
  unfold PrereqGraph.addEntry
  dsimp only
  split
  · rfl
  · rw [hkeys]
    rfl

theorem exists_ofFields_of_told {entries : Fields} (h : ∀ e ∈ entries, ∃ text, IsTold e.2 text) :
    ∃ graph, ofFields entries = .ok graph := by
  suffices hfold : ∀ start : PrereqGraph, ∃ graph,
      entries.foldlM (fun graph e => graph.addEntry e.1 e.2) start = .ok graph from hfold []
  induction entries with
  | nil => exact fun start => ⟨start, rfl⟩
  | cons e rest ih =>
    intro start
    obtain ⟨text, htext⟩ := h e List.mem_cons_self
    obtain ⟨graph, hgraph⟩ := ih (fun e' he' => h e' (List.mem_cons_of_mem e he')) _
    refine ⟨graph, ?_⟩
    rw [List.foldlM_cons, htext.addEntry]
    exact hgraph

/-- A course has the prerequisites that the text of its last entry mentions, without itself. -/
theorem mem_prereqs_of_told {before after : Fields} {code text : Text} {entry : Json}
    {graph : PrereqGraph} (h : ofFields (before ++ (code, entry) :: after) = .ok graph)
    (hcode : Code.key code ≠ "") (hlast : ∀ e ∈ after, Code.key e.1 ≠ Code.key code)
    (htold : IsTold entry text) {k : Key} :
    k ∈ graph.prereqs (Code.key code) ↔
      k ∈ (Prereq.mentioned text (some code)).map Code.key ∧ k ≠ "" ∧ k ≠ Code.key code := by
  obtain ⟨graph₁, -, hrest⟩ := foldlM_append_eq_ok.mp h
  rw [List.foldlM_cons, htold.addEntry, if_neg hcode] at hrest
  rw [prereqs_of_others hrest hlast, prereqs_put, if_pos rfl, mem_distinctKeys]
  simp

end PrereqGraph

/-! ## What is read back -/

open PrereqGraph Prereq in
/-- **Codes read back.** Distinct codes in canonical form that are joined by a comma or by a word
are read back in their order, but for those that are not short. So they are all read back exactly if
all of them are short.

A graph of entries with texts always exists. In any graph a course that has an entry with a text
has, of the other codes that the text names in canonical form, exactly the short ones as
prerequisites. -/
theorem codes_read_back {codes : List Text} (hnodup : codes.Nodup)
    (hcodes : ∀ code ∈ codes, Code.IsCanonical code) :
    (∀ sep ∈ ([", ", " or "] : List Text),
      mentioned (join sep codes) none = codes.filter (IsShort ·) ∧
        (mentioned (join sep codes) none = codes ↔ ∀ code ∈ codes, IsShort code)) ∧
    (∀ entries : Fields, (∀ e ∈ entries, ∃ text, IsTold e.2 text) →
      ∃ graph, ofFields entries = .ok graph) ∧
    ∀ (before after : Fields) (course text : Text) (entry : Json) (graph : PrereqGraph),
      ofFields (before ++ (course, entry) :: after) = .ok graph → Code.key course ≠ "" →
      (∀ e ∈ after, Code.key e.1 ≠ Code.key course) → IsTold entry text →
        ∀ code ∈ codes, Names text code → Code.key code ≠ Code.key course →
          (Code.key code ∈ graph.prereqs (Code.key course) ↔ IsShort code) := by
  refine ⟨?_, fun entries => exists_ofFields_of_told, ?_⟩
  · intro sep hsep
    have hseps : ∀ sep ∈ ([", ", " or "] : List Text), upper sep ≠ [] ∧ Bounded (upper sep) ∧
        Closed (upper sep) ∧ scan true 0 (upper sep) = [] := by
      decide +kernel
    obtain ⟨hne, hopen, hclosed, hnone⟩ := hseps sep hsep
    have hread := mentioned_join hcodes hnodup hne hopen hclosed hnone
    refine ⟨hread, ?_⟩
    rw [hread, List.filter_eq_self]
    simp only [decide_eq_true_eq]
  · intro before after course text entry graph hgraph hcourse hlast htold code hmem hnames hother
    have hcode := hcodes code hmem
    have hexclude : ∀ e ∈ some course, Code.key e ≠ Code.key code := by
      rintro e ⟨⟩
      exact Ne.symm hother
    rw [mem_prereqs_of_told hgraph hcourse hlast htold,
      mem_mentioned_iff_of_names hnames hcode hexclude]
    exact ⟨fun h => h.1, fun h => ⟨h, hcode.key_ne, hother⟩⟩

/-- An entry with a text that names two courses. -/
def toldEntry : Json :=
  .object [("prereq_text", .text "Prereq: COMMST 100 or MATH 237."), ("prereq_codes", .null)]

theorem isTold_toldEntry : PrereqGraph.IsTold toldEntry "Prereq: COMMST 100 or MATH 237." :=
  ⟨_, rfl, rfl, rfl⟩

theorem codes_read_back_math :
    Prereq.mentioned (join ", " ["MATH 237", "COMMST 100", "CS 116"]) none =
        ["MATH 237", "CS 116"] ∧
      Prereq.mentioned (join " or " ["MATH 237", "CS 116"]) none = ["MATH 237", "CS 116"] ∧
      ∃ graph, PrereqGraph.ofFields [("ENGL 210F", toldEntry)] = .ok graph ∧
        Code.key "MATH 237" ∈ graph.prereqs (Code.key "ENGL 210F") ∧
        Code.key "COMMST 100" ∉ graph.prereqs (Code.key "ENGL 210F") := by
  have hnodup : (["MATH 237", "COMMST 100", "CS 116"] : List Text).Nodup := by decide +kernel
  obtain ⟨hlists, hgraphs, hnamed⟩ := codes_read_back hnodup (by decide +kernel)
  obtain ⟨graph, hgraph⟩ := hgraphs [("ENGL 210F", toldEntry)] fun e he => by
    obtain rfl := List.mem_singleton.mp he
    exact ⟨_, isTold_toldEntry⟩
  have hnames := hnamed [] [] "ENGL 210F" _ toldEntry graph hgraph (by decide +kernel)
    (fun _ h => absurd h List.not_mem_nil) isTold_toldEntry
  refine ⟨?_, ?_, graph, hgraph, ?_, ?_⟩
  · rw [(hlists _ (by decide +kernel)).1]
    decide +kernel
  · exact ((codes_read_back (by decide +kernel) (by decide +kernel)).1 _ (by decide +kernel)).2.mpr
      (by decide +kernel)
  · exact (hnames "MATH 237" (by decide +kernel) ⟨"PREREQ: COMMST 100 OR ", ".", by decide +kernel,
      by decide +kernel, by decide +kernel⟩ (by decide +kernel)).mpr (by decide +kernel)
  · exact fun h => absurd ((hnames "COMMST 100" (by decide +kernel) ⟨"PREREQ: ", " OR MATH 237.",
      by decide +kernel, by decide +kernel, by decide +kernel⟩ (by decide +kernel)).mp h)
      (by decide +kernel)

/-- A code with a long subject or a long suffix is lost, in the list and in the graph. -/
theorem long_codes_unread :
    (["COMMST 100", "MATH 237AB", "ENGL 109"] : List Text).Nodup ∧
      (∀ code ∈ (["COMMST 100", "MATH 237AB", "ENGL 109"] : List Text), Code.IsCanonical code) ∧
      Prereq.mentioned (join ", " ["COMMST 100", "MATH 237AB", "ENGL 109"]) none = ["ENGL 109"] ∧
      PrereqGraph.IsTold toldEntry "Prereq: COMMST 100 or MATH 237." ∧
      PrereqGraph.ofFields [("ENGL 210F", toldEntry)] =
        .ok [(Code.key "ENGL 210F", [Code.key "MATH 237"])] := by
  refine ⟨by decide +kernel, by decide +kernel, by decide +kernel, isTold_toldEntry, ?_⟩
  rw [PrereqGraph.ofFields, List.foldlM_cons, isTold_toldEntry.addEntry, if_neg (by decide +kernel)]
  refine congrArg Except.ok ?_
  decide +kernel

end DegreeAudit
