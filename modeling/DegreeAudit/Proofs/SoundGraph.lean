import DegreeAudit.Proofs.NamedPrereqs
import DegreeAudit.Proofs.WellFormed

/-!
# Sound graphs

A chain of prerequisites is followed from key to key, so the graph must hold nothing but keys: a
code in another spelling would be a course that nobody has. What was collected is no such thing. Its
codes come in any spelling, recorded or out of a text, two of them can be one course, and an entry
can be of any kind.

**Soundness.** A graph is *sound* if its courses have one entry each, and each entry lists keys of
other courses, each once (`PrereqGraph.Sound`). An empty graph is sound, and adding an entry keeps
it so, whatever the entry is (`Sound.addEntry`). So every graph that is built is sound.

**Built again.** A sound graph can be written as collected entries that record its prerequisites
(`PrereqGraph.toJson`). Nothing is left to be done with them: every key stays as it is, nothing is
listed twice, and each course comes last when its entry is added (`addEntry_record`). So the sound
graphs are exactly those that are built from themselves (`sound_iff`).
-/

namespace DegreeAudit

/-- Whether a text is the key of a course. -/
def Code.IsKey (k : Text) : Prop := k ≠ "" ∧ Code.key k = k

namespace PrereqGraph

/-! ## Soundness -/

/-- Whether keys can be the prerequisites of a course. -/
structure Admits (course : Key) (pres : List Key) : Prop where
  keys : ∀ k ∈ pres, Code.IsKey k
  nodup : pres.Nodup
  others : course ∉ pres

def courses (graph : PrereqGraph) : List Key := graph.map Prod.fst

/-- Whether the courses of a graph have one entry each, which lists keys of other courses. -/
structure Sound (graph : PrereqGraph) : Prop where
  nodup : graph.courses.Nodup
  keys : ∀ e ∈ graph, Code.IsKey e.1
  admits : ∀ e ∈ graph, Admits e.1 e.2

theorem sound_nil : Sound [] := ⟨List.nodup_nil, nofun, nofun⟩

/-! ## The keys of an entry -/

theorem recordedKey_yields (item : Json) : Yields (recordedKey item) fun k => Code.key k = k := by
  unfold recordedKey
  split
  · next s => exact yields_ok (Code.key_key s)
  · split
    · exact yields_error _
    · exact yields_ok rfl

/-- Whether prerequisites are recorded or told by a text, an entry gives keys. -/
theorem entryKeys_yields (code : Text) (fields : Fields) :
    Yields (entryKeys code fields) fun keys => ∀ k ∈ keys, Code.key k = k := by
  unfold entryKeys
  split
  · split
    · next s _ =>
      apply yields_ok
      intro k hk
      obtain ⟨mention, -, rfl⟩ := List.mem_map.mp hk
      exact Code.key_key mention
    · split
      · exact yields_error _
      · exact yields_ok nofun
  · refine (yields_true _).bind fun items _ => ?_
    have hkeys : Yields (items.mapM recordedKey) (List.Forall₂ (fun _ k => Code.key k = k) items) :=
      Yields.mapM fun item _ => recordedKey_yields item
    exact hkeys.mono fun keys h => forall_of_forall₂ h fun _ _ hk => hk

/-- What an entry lists for its course. -/
theorem admits_distinctKeys (course : Key) {keys : List Key} (h : ∀ k ∈ keys, Code.key k = k) :
    Admits course (distinctKeys ["", course] keys) where
  keys k hk := by
    obtain ⟨hmem, hseen⟩ := mem_distinctKeys.mp hk
    exact ⟨fun hempty => hseen (by simp [hempty]), h k hmem⟩
  nodup := nodup_distinctKeys _ _
  others hmem := (mem_distinctKeys.mp hmem).2 (by simp)

/-! ## Building keeps a graph sound -/

section

variable {graph : PrereqGraph} {course : Key} {pres : List Key}

theorem mem_put {e : Key × List Key} (h : e ∈ graph.put course pres) :
    e = (course, pres) ∨ e ∈ graph := by
  induction graph with
  | nil => exact .inl (List.mem_singleton.mp h)
  | cons first rest ih =>
    unfold put at h
    split at h
    · next hfirst =>
      rcases List.mem_cons.mp h with rfl | h
      · exact .inl (by rw [← hfirst])
      · exact .inr (List.mem_cons_of_mem _ h)
    · rcases List.mem_cons.mp h with rfl | h
      · exact .inr List.mem_cons_self
      · exact (ih h).imp id (List.mem_cons_of_mem _)

theorem put_of_not_mem (h : course ∉ graph.courses) :
    graph.put course pres = graph ++ [(course, pres)] := by
  induction graph with
  | nil => rfl
  | cons first rest ih =>
    simp only [courses, List.map_cons, List.mem_cons, not_or] at h
    rw [put, if_neg (Ne.symm h.1), ih h.2, List.cons_append]

theorem courses_put_of_mem (h : course ∈ graph.courses) :
    (graph.put course pres).courses = graph.courses := by
  induction graph with
  | nil => cases h
  | cons first rest ih =>
    unfold put
    split
    · rfl
    · next hne =>
      have hrest : course ∈ courses rest := (List.mem_cons.mp h).resolve_left (Ne.symm hne)
      exact congrArg (first.1 :: ·) (ih hrest)

theorem nodup_put (h : graph.courses.Nodup) : (graph.put course pres).courses.Nodup := by
  by_cases hmem : course ∈ graph.courses
  · rwa [courses_put_of_mem hmem]
  · rw [put_of_not_mem hmem]
    simpa [courses] using List.Nodup.concat hmem h

/-- **One entry** keeps a graph sound, whatever its code and its kind. -/
theorem Sound.addEntry {graph' : PrereqGraph} {code : Text} {entry : Json} (hsound : graph.Sound)
    (h : graph.addEntry code entry = .ok graph') : graph'.Sound := by
  rcases addEntry_eq_ok h with rfl | ⟨fields, keys, hcode, hkeys, rfl⟩
  · exact hsound
  · have hadmits := admits_distinctKeys (Code.key code) (entryKeys_yields code fields keys hkeys)
    refine ⟨nodup_put hsound.nodup, ?_, ?_⟩
    · intro e he
      rcases mem_put he with rfl | he
      · exact ⟨hcode, Code.key_key code⟩
      · exact hsound.keys e he
    · intro e he
      rcases mem_put he with rfl | he
      · exact hadmits
      · exact hsound.admits e he

/-- **All entries.** -/
theorem Sound.foldlM {graph' : PrereqGraph} {entries : Fields} (hsound : graph.Sound)
    (h : entries.foldlM (fun graph e => graph.addEntry e.1 e.2) graph = .ok graph') :
    graph'.Sound := by
  induction entries generalizing graph with
  | nil => exact Except.ok.inj h ▸ hsound
  | cons e rest ih =>
    rw [List.foldlM_cons] at h
    cases hfirst : graph.addEntry e.1 e.2 with
    | error fault => simp [hfirst, bind, Except.bind] at h
    | ok graph₁ =>
      rw [hfirst] at h
      exact ih (hsound.addEntry hfirst) h

end

theorem sound_of_ofJson {v : Json} {graph : PrereqGraph} (h : ofJson v = .ok graph) :
    graph.Sound := by
  unfold ofJson at h
  split at h
  · exact sound_nil.foldlM h
  · split at h
    · cases h
    · exact Except.ok.inj h ▸ sound_nil

/-! ## Building again -/

/-- The collected entry that records the prerequisites of a course. -/
def record (e : Key × List Key) : Text × Json := (e.1, .object [("prereq_codes", Json.ofTexts e.2)])

def toJson (graph : PrereqGraph) : Json := .object (graph.map record)

theorem mapM_recordedKey {keys : List Key} (h : ∀ k ∈ keys, Code.key k = k) :
    (keys.map Json.text).mapM recordedKey = .ok keys := by
  induction keys with
  | nil => rfl
  | cons k rest ih =>
    have hfirst : recordedKey (.text k) = .ok k := congrArg Except.ok (h k List.mem_cons_self)
    have hrest := ih fun k' hk' => h k' (List.mem_cons_of_mem k hk')
    rw [List.map_cons, List.mapM_cons, hfirst, hrest]
    rfl

theorem addEntry_record {graph : PrereqGraph} {e : Key × List Key} (hkey : Code.IsKey e.1)
    (hadmits : Admits e.1 e.2) (hnew : e.1 ∉ graph.courses) :
    graph.addEntry (record e).1 (record e).2 = .ok (graph ++ [e]) := by
  obtain ⟨course, pres⟩ := e
  obtain ⟨hne, hfixed⟩ := hkey
  dsimp only at hne hfixed hadmits hnew
  have hkeys : entryKeys course [("prereq_codes", Json.ofTexts pres)] = .ok pres := by
    show (pres.map Json.text).mapM recordedKey = .ok pres
    exact mapM_recordedKey fun k hk => (hadmits.keys k hk).2
  have hlisted : distinctKeys ["", course] pres = pres := by
    refine distinctKeys_eq_self hadmits.nodup fun k hk hmem => ?_
    simp only [List.mem_cons, List.not_mem_nil, or_false] at hmem
    rcases hmem with rfl | rfl
    · exact (hadmits.keys _ hk).1 rfl
    · exact hadmits.others hk
  simp only [record, PrereqGraph.addEntry, hfixed, if_neg hne, hkeys]
  show Except.ok (graph.put course (distinctKeys ["", course] pres)) = _
  rw [hlisted, put_of_not_mem hnew]

/-- Recorded entries of a sound graph are added one after the other. -/
theorem foldlM_record {done rest : PrereqGraph} (h : Sound (done ++ rest)) :
    (rest.map record).foldlM (fun graph e => graph.addEntry e.1 e.2) done = .ok (done ++ rest) := by
  induction rest generalizing done with
  | nil => rw [List.append_nil]; rfl
  | cons e rest ih =>
    have hmem : e ∈ done ++ e :: rest := List.mem_append_right _ List.mem_cons_self
    have hnew : e.1 ∉ done.courses := by
      have hnodup := h.nodup
      simp only [courses, List.map_append, List.map_cons] at hnodup
      intro hdone
      exact (List.nodup_append.mp hnodup).2.2 e.1 hdone e.1 List.mem_cons_self rfl
    have hassoc : done ++ e :: rest = done ++ [e] ++ rest := List.append_cons done e rest
    rw [List.map_cons, List.foldlM_cons, addEntry_record (h.keys e hmem) (h.admits e hmem) hnew]
    rw [hassoc] at h ⊢
    exact ih h

/-- **The sound graphs** are those that are built from themselves. -/
theorem sound_iff {graph : PrereqGraph} : graph.Sound ↔ ofJson graph.toJson = .ok graph :=
  ⟨fun h => @foldlM_record [] graph h, sound_of_ofJson⟩

end PrereqGraph

open PrereqGraph in
/-- **Graphs are sound and final.** If a document of collected entries has a graph, then the courses
of the graph have one entry each, with a key that is not empty. Each entry lists keys that are not
empty, each once, and not the course itself. The graph as a document of collected entries has the
same graph, with the same order. -/
theorem graph_built_again {entries : Json} {graph : PrereqGraph} (h : ofJson entries = .ok graph) :
    graph.courses.Nodup ∧
    (∀ e ∈ graph, (e.1 ≠ "" ∧ Code.key e.1 = e.1) ∧ (∀ k ∈ e.2, k ≠ "" ∧ Code.key k = k) ∧
      e.2.Nodup ∧ e.1 ∉ e.2) ∧
    ofJson graph.toJson = .ok graph := by
  have hsound := sound_of_ofJson h
  refine ⟨hsound.nodup, ?_, sound_iff.mp hsound⟩
  intro e he
  obtain ⟨hkeys, hnodup, hother⟩ := hsound.admits e he
  exact ⟨hsound.keys e he, hkeys, hnodup, hother⟩

/-- Collected entries of two courses, one of them in two spellings, with an entry of no course and
one that is no object. Prerequisites are recorded as a list or by the keys of an object, or told. -/
def mixedEntries : Fields :=
  [("math 237", .object [("prereq_codes", .list [.text "math136", .text "MATH\t237", .null])]),
    (" ", .object []), ("CS 1", .int 5),
    ("CS 115", .object [("prereq_text", .text "Prereq: CS 100 or cs115, CS100.")]),
    ("MATH237", .object [("prereq_codes", .object [("a b", .null), ("A", .null), ("aB", .null)])])]

/-- Their graph. The later entry of the first course stands in the place of the earlier one. -/
def mixedGraph : PrereqGraph := [("MATH237", ["AB", "A"]), ("CS115", ["CS100"])]

theorem graph_built_again_mixed :
    PrereqGraph.ofJson (.object mixedEntries) = .ok mixedGraph ∧ mixedGraph.courses.Nodup ∧
      ("CS115" : Text) ∉ (["CS100"] : List Key) ∧
      PrereqGraph.ofJson mixedGraph.toJson = .ok mixedGraph := by
  have hgraph : PrereqGraph.ofJson (.object mixedEntries) = .ok mixedGraph :=
    eq_ok_of_toOption (by decide +kernel)
  obtain ⟨hnodup, hentries, hagain⟩ := graph_built_again hgraph
  obtain ⟨-, -, -, hother⟩ := hentries ("CS115", ["CS100"]) (.tail _ (.head _))
  exact ⟨hgraph, hnodup, hother, hagain⟩

end DegreeAudit
