import DegreeAudit.Fault
import DegreeAudit.Prereq.Mention

/-!
# The prerequisite graph

The graph lists under the key of a course the keys of its prerequisites. A course that was never
collected has no entry, which says no more than that nothing is known of it.
-/

namespace DegreeAudit

/-- Courses with their prerequisites, in the order they were first met. -/
abbrev PrereqGraph := List (Key × List Key)

namespace PrereqGraph

/-- The prerequisites of a course, none if it has no entry. -/
def prereqs (graph : PrereqGraph) (course : Key) : List Key := (graph.lookup course).getD []

/-- Sets the prerequisites of a course, in the place of its entry if it has one. -/
def put (graph : PrereqGraph) (course : Key) (pres : List Key) : PrereqGraph :=
  match graph with
  | [] => [(course, pres)]
  | (k, ps) :: rest => if k = course then (k, pres) :: rest else (k, ps) :: put rest course pres

/-- The keys that a course can have as prerequisites: distinct, not empty and not its own. -/
def distinctKeys (seen : List Key) : List Key → List Key
  | [] => []
  | k :: rest => if k ∈ seen then distinctKeys seen rest else k :: distinctKeys (k :: seen) rest

theorem mem_distinctKeys {seen keys : List Key} {k : Key} :
    k ∈ distinctKeys seen keys ↔ k ∈ keys ∧ k ∉ seen := by
  induction keys generalizing seen with
  | nil => simp [distinctKeys]
  | cons first rest ih =>
    unfold distinctKeys
    by_cases hfirst : first ∈ seen
    · rw [if_pos hfirst, ih, List.mem_cons]
      constructor
      · exact fun ⟨hmem, hk⟩ => ⟨.inr hmem, hk⟩
      · rintro ⟨rfl | hmem, hk⟩
        · exact absurd hfirst hk
        · exact ⟨hmem, hk⟩
    · rw [if_neg hfirst, List.mem_cons, ih, List.mem_cons, List.mem_cons, not_or]
      by_cases hk : k = first
      · simp [hk, hfirst]
      · simp [hk]

theorem nodup_distinctKeys (seen keys : List Key) : (distinctKeys seen keys).Nodup := by
  induction keys generalizing seen with
  | nil => exact List.nodup_nil
  | cons k rest ih =>
    rw [distinctKeys]
    split
    · exact ih seen
    · apply List.nodup_cons.mpr
      refine ⟨?_, ih _⟩
      intro hmem
      exact (mem_distinctKeys.mp hmem).2 List.mem_cons_self

/-- Nothing is dropped from distinct keys of other courses. -/
theorem distinctKeys_eq_self {seen keys : List Key} (hnodup : keys.Nodup)
    (hseen : ∀ k ∈ keys, k ∉ seen) : distinctKeys seen keys = keys := by
  induction keys generalizing seen with
  | nil => rfl
  | cons k rest ih =>
    rw [List.nodup_cons] at hnodup
    rw [distinctKeys, if_neg (hseen k List.mem_cons_self), ih hnodup.2]
    intro k' hk' hmem
    rcases List.mem_cons.mp hmem with rfl | hmem
    · exact hnodup.1 hk'
    · exact hseen k' (List.mem_cons_of_mem k hk') hmem

/-- Codes that are distinct by their keys have distinct keys. -/
theorem map_key_distinctCodes (seen : List Key) (codes : List Text) :
    (Prereq.distinctCodes seen codes).map Code.key = distinctKeys seen (codes.map Code.key) := by
  induction codes generalizing seen with
  | nil => rfl
  | cons code rest ih =>
    rw [Prereq.distinctCodes, List.map_cons, distinctKeys]
    split
    · exact ih seen
    · rw [List.map_cons, ih]

/-- The key of a recorded prerequisite; an entry that counts as absent has the empty key. -/
def recordedKey : Json → Except Fault Key
  | .text s => .ok (Code.key s)
  | v => if v.truthy then .error .wrongKind else .ok ""

/-- The items of a value that is gone through as a list: a text by character, an object by key. -/
def recordedItems : Json → Except Fault (List Json)
  | .list items => .ok items
  | .text s => .ok (s.map fun c => .text [c])
  | .object fields => .ok ((Fields.keys fields).map .text)
  | _ => .error .wrongKind

/-- The prerequisite keys of one collected entry: those recorded, or else those that its text
mentions. -/
def entryKeys (code : Text) (entry : Fields) : Except Fault (List Key) :=
  match entry.get "prereq_codes" with
  | .null =>
    match entry.get "prereq_text" with
    | .text s => .ok ((Prereq.mentioned s (some code)).map Code.key)
    | v => if v.truthy then .error .noFields else .ok []
  | recorded => do (← recordedItems recorded).mapM recordedKey

/-- Adds one collected entry. An entry that is no object, or that belongs to no course, is left
out. -/
def addEntry (graph : PrereqGraph) (code : Text) (entry : Json) : Except Fault PrereqGraph :=
  let course := Code.key code
  if course = "" then .ok graph
  else
    match entry with
    | .object fields => do
      let keys ← entryKeys code fields
      return graph.put course (distinctKeys ["", course] keys)
    | _ => .ok graph

/-- The graph of the collected entries. -/
def ofFields (entries : Fields) : Except Fault PrereqGraph :=
  entries.foldlM (fun graph e => graph.addEntry e.1 e.2) []

/-- The graph of a document of collected entries; one that counts as absent has none. -/
def ofJson : Json → Except Fault PrereqGraph
  | .object entries => ofFields entries
  | v => if v.truthy then .error .noFields else .ok []

end PrereqGraph

end DegreeAudit
