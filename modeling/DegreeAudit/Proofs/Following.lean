import DegreeAudit.Proofs.Needs

/-!
# Two audits side by side

The same audit is run from two registries. A result *follows* another one (`Follows`) if it is the
image of it under a map, or if both are faults of which the same is told.

**The graph.** Only the search for depth reads the prerequisite graph. A change of the graph that
changes what the search finds in a known way (`GraphChange`) changes an audit in its depth finding
and nowhere else (`Major.audit_follows`).

**Faults.** What is told of a fault is a parameter: everything, or everything but a path. So two
registries with their documents at different places can be compared.
-/

namespace DegreeAudit

/-- The second result is the image of the first one, or both are faults and tell the same. -/
inductive Follows (tell : Fault → Fault) {α β : Type} (f : α → β) :
    Except Fault α → Except Fault β → Prop
  | ok (a : α) : Follows tell f (.ok a) (.ok (f a))
  | error {e e' : Fault} (h : tell e' = tell e) : Follows tell f (.error e) (.error e')

section

variable {α β : Type} {tell : Fault → Fault} {f : α → β} {x : Except Fault α} {y : Except Fault β}

theorem follows_map (tell : Fault → Fault) (f : α → β) (x : Except Fault α) :
    Follows tell f x (x.map f) := by
  cases x with
  | ok a => exact .ok a
  | error e => exact .error rfl

theorem follows_self (tell : Fault → Fault) (x : Except Fault α) : Follows tell id x x := by
  cases x with
  | ok a => exact .ok a
  | error e => exact .error rfl

theorem Follows.mapError_eq (h : Follows tell f x y) :
    y.mapError tell = (x.map f).mapError tell := by
  cases h with
  | ok a => rfl
  | error h => exact congrArg Except.error h

theorem Follows.of_mapError {y : Except Fault α} (h : y.mapError tell = x.mapError tell) :
    Follows tell id x y := by
  cases x with
  | ok a =>
    cases y with
    | ok b =>
      obtain rfl := Except.ok.inj h
      exact .ok b
    | error e => cases h
  | error e =>
    cases y with
    | ok b => cases h
    | error e' => exact .error (Except.error.inj h)

theorem Follows.bind {α' β' : Type} {g : α → Except Fault α'} {g' : β → Except Fault β'}
    {f' : α' → β'} (h : Follows tell f x y) (hg : ∀ a, Follows tell f' (g a) (g' (f a))) :
    Follows tell f' (x >>= g) (y >>= g') := by
  cases h with
  | ok a => exact hg a
  | error h => exact .error h

/-- Where everything is told, a result has one result that follows it. -/
theorem Follows.eq_map (h : Follows id f x y) : y = x.map f := by
  cases h with
  | ok a => rfl
  | error h => exact congrArg Except.error h

end

/-- A change of the prerequisite graph, and what it does to the findings of the search for depth. -/
structure GraphChange where
  graph : PrereqGraph → PrereqGraph
  finding : DepthFinding → DepthFinding
  finding_note : ∀ f note, finding { f with note := note } = { finding f with note := note }
  analyze_graph : ∀ p g codes,
    Depth.analyze p (graph g) codes = (Depth.analyze p g codes).map finding

namespace GraphChange

def none : GraphChange where
  graph := id
  finding := id
  finding_note _ _ := rfl
  analyze_graph p g codes := by
    cases h : Depth.analyze p g codes with
    | ok f => exact h
    | error e => exact h

/-- What becomes of the content of a document. -/
def content (c : GraphChange) : (d : Document) → d.Content → d.Content
  | .graph => c.graph
  | .catalog | .rules _ | .source _ => id

end GraphChange

/-- A registry shows some documents as another one does after a change of the graph. -/
def Registry.Shows (tell : Fault → Fault) (c : GraphChange) (r r' : Registry)
    (ds : List Document) : Prop :=
  ∀ d ∈ ds, Follows tell (c.content d) (r.view d) (r'.view d)

section

variable {tell : Fault → Fault} {c : GraphChange} {r r' : Registry} {d : Document}
  {ds ds' : List Document}

theorem Registry.Shows.head (h : r.Shows tell c r' (d :: ds)) :
    Follows tell (c.content d) (r.view d) (r'.view d) := h d List.mem_cons_self

theorem Registry.Shows.tail (h : r.Shows tell c r' (d :: ds)) : r.Shows tell c r' ds :=
  fun d hd => h d (List.mem_cons_of_mem _ hd)

theorem Registry.Shows.mono (h : r.Shows tell c r' ds) (hsub : ds' ⊆ ds) :
    r.Shows tell c r' ds' := fun d hd => h d (hsub hd)

theorem Registry.Shows.after {α α' : Type} {x : Load α} {x' : Load α'}
    {asked asked' : List Document} (h : r.Shows tell c r' ds) (hx : x.Needs r asked)
    (hx' : x'.Needs r' asked') : (Load.run x r).2.Shows tell c (Load.run x' r').2 ds := by
  intro d hd
  rw [hx.view, hx'.view]
  exact h d hd

/-- **Sequence.** If the first parts follow each other, then so does the whole, if the second parts
do after results that follow each other. -/
theorem Load.follows_bind {α α' β β' : Type} {φ : α → α'} {ψ : β → β'} {x : Load α}
    {x' : Load α'} {f : α → Load β} {f' : α' → Load β'}
    (hx : Follows tell φ (run x r).1 (run x' r').1)
    (hf : ∀ a, (run x r).1 = .ok a →
      Follows tell ψ (run (f a) (run x r).2).1 (run (f' (φ a)) (run x' r').2).1) :
    Follows tell ψ (run (x >>= f) r).1 (run (x' >>= f') r').1 := by
  generalize hfirst : (run x r).1 = first at hx
  generalize hfirst' : (run x' r').1 = first' at hx
  cases hx with
  | ok a =>
    rw [run_bind_of_ok hfirst, run_bind_of_ok hfirst']
    exact hf a hfirst
  | error h =>
    rw [run_bind_of_error hfirst, run_bind_of_error hfirst']
    exact .error h

theorem Load.follows_document (h : r.Shows tell c r' (d :: ds)) :
    Follows tell (c.content d) (run (document d) r).1 (run (document d) r').1 := by
  rw [run_document, run_document]
  exact h.head

end

def Progress.mapDepth (f : DepthFinding → DepthFinding) (p : Progress) : Progress :=
  { p with depth := p.depth.map f }

theorem Progress.mapDepth_none : Progress.mapDepth GraphChange.none.finding = id := by
  funext p
  exact congrArg (fun depth => { p with depth := depth }) Option.map_id'

def Walk.mapDepth (f : DepthFinding → DepthFinding) (w : Walk) : Walk :=
  { w with progress := w.progress.mapDepth f }

namespace Major

section

variable {tell : Fault → Fault} {c : GraphChange} {r r' : Registry}

theorem policyDocument_follows {source : Json}
    (h : r.Shows tell c r' (sourceDocuments r.view source)) :
    Follows tell id (Load.run (policyDocument source) r).1
      (Load.run (policyDocument source) r').1 := by
  unfold policyDocument
  by_cases htruthy : source.truthy = true
  · rw [if_pos htruthy]
    by_cases htext : ∃ name, source = .text name
    · obtain ⟨name, rfl⟩ := htext
      rw [sourceDocuments_text htruthy] at h
      have hsource : Follows tell id (Load.run (Load.source (.text name)) r).1
          (Load.run (Load.source (.text name)) r').1 := Load.follows_document h
      refine Load.follows_bind hsource fun fields hok => ?_
      by_cases hlists : hasLists fields = true
      · rw [id_eq, ← hasLists, if_pos hlists]
        exact follows_self tell _
      · rw [id_eq, ← hasLists, if_neg hlists]
        rw [result_source] at hok
        rw [hok, fallback, if_neg hlists] at h
        exact Load.follows_document (h.tail.after (needs_source r name) (needs_source r' name))
    · rw [source_of_not_text htext]
      exact follows_self tell _
  · unfold sourceDocuments at h
    rw [if_neg htruthy] at h ⊢
    exact Load.follows_document h

theorem note_follows {source : Json} (standing : Text)
    (h : r.Shows tell c r' (noteDocuments source)) :
    Follows tell id (Load.run (note source standing) r).1
      (Load.run (note source standing) r').1 := by
  unfold note
  by_cases htruthy : source.truthy = true
  · rw [if_pos htruthy]
    by_cases htext : ∃ name, source = .text name
    · obtain ⟨name, rfl⟩ := htext
      rw [noteDocuments_text htruthy] at h
      have hsource : Follows tell id (Load.run (Load.source (.text name)) r).1
          (Load.run (Load.source (.text name)) r').1 := Load.follows_document h
      refine Load.follows_bind hsource fun fields _ => ?_
      exact follows_self tell _
    · rw [source_of_not_text htext]
      exact follows_self tell _
  · rw [if_neg htruthy]
    exact follows_self tell _

theorem auditBreadth_follows {source : Json} (codes : List Text)
    (h : r.Shows tell c r' (sourceDocuments r.view source)) :
    Follows tell id (Load.run (auditBreadth source codes) r).1
      (Load.run (auditBreadth source codes) r').1 := by
  refine Load.follows_bind (policyDocument_follows h) fun fields _ => ?_
  have hnote := (h.mono (noteDocuments_subset _ source)).after (needs_policyDocument r source)
    (needs_policyDocument r' source)
  refine Load.follows_bind (follows_self tell (BreadthPolicy.ofFields fields)) fun policy _ => ?_
  refine Load.follows_bind (note_follows breadthNote hnote) fun text _ => ?_
  exact follows_self tell _

/-- **Depth.** The finding changes with the graph; its note does not. -/
theorem auditDepth_follows {source : Json} (codes : List Text)
    (h : r.Shows tell c r' (.graph :: sourceDocuments r.view source)) :
    Follows tell c.finding (Load.run (auditDepth source codes) r).1
      (Load.run (auditDepth source codes) r').1 := by
  refine Load.follows_bind (policyDocument_follows h.tail) fun fields _ => ?_
  have hafter := h.after (needs_policyDocument r source) (needs_policyDocument r' source)
  refine Load.follows_bind (Load.follows_document hafter) fun graph _ => ?_
  have hnote := (hafter.tail.mono (noteDocuments_subset _ source)).after
    (Load.needs_document .graph _) (Load.needs_document .graph _)
  refine Load.follows_bind (follows_self tell (BreadthPolicy.ofFields fields)) fun policy _ => ?_
  have hfinding : Follows tell c.finding (Depth.analyze policy graph codes)
      (Depth.analyze policy (c.graph graph) codes) := by
    rw [c.analyze_graph]
    exact follows_map tell c.finding _
  refine Load.follows_bind hfinding fun finding _ => ?_
  refine Load.follows_bind (note_follows depthNote hnote) fun text _ => ?_
  have hset : { c.finding finding with note := text } = c.finding { finding with note := text } :=
    (c.finding_note finding text).symm
  rw [id_eq, hset]
  exact .ok _

/-- **One section.** -/
theorem auditSection_follows (s : Student) (codes : List Text) (w : Walk) {sec : Section}
    (h : r.Shows tell c r' (sectionDocuments r.view sec)) :
    Follows tell (Walk.mapDepth c.finding) (Load.run (auditSection s codes w sec) r).1
      (Load.run (auditSection s codes (w.mapDepth c.finding) sec) r').1 := by
  cases sec with
  | requirements which items =>
    have hitems := follows_self tell (Requirement.auditAll s items w.used).1
    refine Load.follows_bind hitems fun findings _ => ?_
    exact .ok _
  | communication rule => exact .ok _
  | breadth source =>
    refine Load.follows_bind (auditBreadth_follows codes h) fun finding _ => ?_
    exact .ok _
  | depth source =>
    refine Load.follows_bind (auditDepth_follows codes h) fun finding _ => ?_
    exact .ok _

/-- **All sections.** -/
theorem auditSections_follows (s : Student) (codes : List Text) (sections : List Section)
    (w : Walk) (h : r.Shows tell c r' (sections.flatMap (sectionDocuments r.view))) :
    Follows tell (Walk.mapDepth c.finding) (Load.run (auditSections s codes sections w) r).1
      (Load.run (auditSections s codes sections (w.mapDepth c.finding)) r').1 := by
  induction sections generalizing w r r' with
  | nil => exact .ok w
  | cons sec rest ih =>
    rw [List.flatMap_cons] at h
    have hfirst := h.mono (List.subset_append_left (sectionDocuments r.view sec) _)
    refine Load.follows_bind (auditSection_follows s codes w hfirst) fun w' _ => ?_
    have hneeds := needs_auditSection r s codes w sec
    have hrest := (h.mono (List.subset_append_right (sectionDocuments r.view sec) _)).after hneeds
      (needs_auditSection r' s codes (w.mapDepth c.finding) sec)
    rw [← hneeds.view] at hrest
    exact ih w' hrest

/-- **Audits follow each other** under a change of the graph, if the documents needed do. -/
theorem audit_follows {major : Text} (courses : List Text)
    (h : r.Shows tell c r' (documents r.view major)) :
    Follows tell (Progress.mapDepth c.finding) (Load.run (audit major courses) r).1
      (Load.run (audit major courses) r').1 := by
  refine Load.follows_bind (Load.follows_document h) fun rules hok => ?_
  have hshown : r.view (.rules major) = .ok rules :=
    (congrArg Prod.fst (Load.run_document (.rules major) r)).symm.trans hok
  rw [documents, hshown] at h
  have hneeds := Load.needs_document (.rules major) r
  have hafter := h.tail.after hneeds (Load.needs_document (.rules major) r')
  refine Load.follows_bind (Load.follows_document hafter) fun catalog _ => ?_
  have hneeds' := Load.needs_document .catalog (Load.run (Load.document (.rules major)) r).2
  have hsections := hafter.tail.after hneeds' (Load.needs_document .catalog _)
  rw [← hneeds.view, ← hneeds'.view] at hsections
  refine Load.follows_bind (auditSections_follows (student rules catalog courses)
    (admitted rules courses) rules.sections ⟨Progress.start major, []⟩ hsections) fun w _ => ?_
  exact .ok _

end

end Major

end DegreeAudit
