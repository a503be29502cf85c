import DegreeAudit.Proofs.Blame
import DegreeAudit.Proofs.Documents
import Mathlib.Data.List.Basic

/-!
# The documents that an audit needs

`x.Needs r ds` says more than that the computation `x` asks only for documents among `ds`: if it
gives a result, then it has asked for all of them and all of them were loaded, and if its fault is
one of a document, then that is the fault of one of them.

**Majors.** The documents that an audit of a major needs can be told from the view alone
(`Major.documents`): the rules, the catalog, and for each section on breadth or depth the source
that it names, the breadth document unless the source has subject lists of its own, and for depth
the graph. The courses play no part in it (`Major.needs_audit`).
-/

namespace DegreeAudit

namespace Load

/-! ## Needs -/

/-- From a registry, a computation needs the documents of a list. -/
structure Needs {α : Type} (x : Load α) (r : Registry) (needs : List Document) : Prop where
  reads : ∃ ds, x.Reads r ds ∧ ds ⊆ needs
  loaded : ∀ a, (run x r).1 = .ok a → ∀ d ∈ needs, ∃ c, (run x r).2.kept d = some c
  blame : ∀ e, (run x r).1 = .error e → e.OfDocument → ∃ d ∈ needs, r.view d = .error e

section

variable {α β : Type} {x : Load α} {r : Registry} {ds ds' : List Document}

theorem Needs.view (h : x.Needs r ds) : (run x r).2.view = r.view := by
  obtain ⟨asked, hreads, -⟩ := h.reads
  rw [hreads.registry, Registry.view_settleAll]

/-- **Locality.** A registry that shows the same of the documents needed gives the same result. -/
theorem Needs.result (h : x.Needs r ds) {r' : Registry} (hview : ∀ d ∈ ds, r'.view d = r.view d) :
    (run x r').1 = (run x r).1 := by
  obtain ⟨asked, hreads, hsub⟩ := h.reads
  exact hreads.result fun d hd => hview d (hsub hd)

theorem Needs.congr (h : x.Needs r ds) (hsame : ∀ d, d ∈ ds ↔ d ∈ ds') : x.Needs r ds' where
  reads := by
    obtain ⟨asked, hreads, hsub⟩ := h.reads
    exact ⟨asked, hreads, fun d hd => (hsame d).mp (hsub hd)⟩
  loaded a ha d hd := h.loaded a ha d ((hsame d).mpr hd)
  blame e he hdoc := by
    obtain ⟨d, hd, hview⟩ := h.blame e he hdoc
    exact ⟨d, (hsame d).mp hd, hview⟩

theorem needs_ofExcept {e : Except Fault α} (h : Blameless e) (r : Registry) :
    (ofExcept e).Needs r [] where
  reads := ⟨[], reads_ofExcept e r, List.Subset.refl _⟩
  loaded _ _ _ hd := absurd hd List.not_mem_nil
  blame f hf hdoc := absurd hdoc (h f hf)

theorem needs_pure (a : α) (r : Registry) : (pure a : Load α).Needs r [] :=
  needs_ofExcept (blameless_ok a) r

theorem needs_document (d : Document) (r : Registry) : (document d).Needs r [d] where
  reads := ⟨[d], reads_document d r, List.Subset.refl _⟩
  loaded c hc d' hd' := by
    obtain rfl := List.mem_singleton.mp hd'
    rw [run_document] at hc ⊢
    exact ⟨c, Registry.kept_settle_iff.mpr (.inr ⟨rfl, hc⟩)⟩
  blame e he _ := by
    rw [run_document] at he
    exact ⟨d, List.mem_singleton_self d, he⟩

/-- **Sequence.** Both parts are needed, the second one by what the first one has loaded. -/
theorem Needs.bind {f : α → Load β} (h : x.Needs r ds)
    (hf : ∀ a, (run x r).1 = .ok a → (f a).Needs (run x r).2 ds') :
    (x >>= f).Needs r (ds ++ ds') := by
  obtain ⟨asked, hreads, hsub⟩ := h.reads
  cases hx : (run x r).1 with
  | error e =>
    refine ⟨⟨asked, hreads.bind_error hx, fun d hd => List.mem_append_left _ (hsub hd)⟩, ?_, ?_⟩
    · intro b hb
      rw [run_bind_of_error hx] at hb
      exact absurd hb (by simp)
    · intro e' he' hdoc
      rw [run_bind_of_error hx] at he'
      obtain rfl : e = e' := Except.error.inj he'
      obtain ⟨d, hd, hview⟩ := h.blame e hx hdoc
      exact ⟨d, List.mem_append_left _ hd, hview⟩
  | ok a =>
    obtain ⟨asked', hreads', hsub'⟩ := (hf a hx).reads
    have happend : asked ++ asked' ⊆ ds ++ ds' := List.append_subset.mpr
      ⟨fun d hd => List.mem_append_left _ (hsub hd),
        fun d hd => List.mem_append_right _ (hsub' hd)⟩
    refine ⟨⟨asked ++ asked', hreads.bind hx hreads', happend⟩, ?_, ?_⟩
    · intro b hb d hd
      rw [run_bind_of_ok hx] at hb ⊢
      rcases List.mem_append.mp hd with hd | hd
      · obtain ⟨c, hc⟩ := h.loaded a hx d hd
        rw [hreads'.registry]
        exact ⟨c, Registry.kept_settleAll_iff.mpr (.inl hc)⟩
      · exact (hf a hx).loaded b hb d hd
    · intro e he hdoc
      rw [run_bind_of_ok hx] at he
      obtain ⟨d, hd, hview⟩ := (hf a hx).blame e he hdoc
      rw [h.view] at hview
      exact ⟨d, List.mem_append_right _ hd, hview⟩

/-- What follows may need nothing more. -/
theorem Needs.finish {f : α → Load β} (h : x.Needs r ds)
    (hf : ∀ a, (run x r).1 = .ok a → (f a).Needs (run x r).2 []) : (x >>= f).Needs r ds :=
  (h.bind hf).congr fun d => by rw [List.append_nil]

end

end Load

/-! ## Majors -/

namespace Major

/-- Whether a source has subject lists of its own. -/
def hasLists (fields : Fields) : Bool := Category.all.any fun c => Fields.has fields c.name

/-- The breadth document, for a source without subject lists. -/
def fallback : Except Fault Fields → List Document
  | .ok fields => if hasLists fields then [] else [.breadth]
  | .error _ => []

/-- The documents with the subject lists and the description for a requirement with a source. -/
def sourceDocuments (v : View) (source : Json) : List Document :=
  if source.truthy then
    match source with
    | .text name => .source name :: fallback (v (.source name))
    | _ => []
  else [.breadth]

/-- The document with the description for a requirement with a source. -/
def noteDocuments (source : Json) : List Document :=
  if source.truthy then
    match source with
    | .text name => [.source name]
    | _ => []
  else []

/-- The documents that a section needs. -/
def sectionDocuments (v : View) : Section → List Document
  | .requirements _ _ | .communication _ => []
  | .breadth source => sourceDocuments v source
  | .depth source => .graph :: sourceDocuments v source

/-- The documents that an audit of a major needs. -/
def documents (v : View) (major : Text) : List Document :=
  .rules major :: .catalog ::
    match v (.rules major) with
    | .ok rules => rules.sections.flatMap (sectionDocuments v)
    | .error _ => []

section

variable (r : Registry)

theorem needs_source (name : Text) : (Load.source (.text name)).Needs r [.source name] :=
  Load.needs_document (.source name) r

theorem result_source (name : Text) :
    (Load.run (Load.source (.text name)) r).1 = r.view (.source name) :=
  congrArg Prod.fst (Load.run_document (.source name) r)

theorem source_of_not_text {source : Json} (h : ¬∃ name, source = .text name) :
    Load.source source = Load.ofExcept (.error .wrongKind) := by
  cases source with
  | text name => exact absurd ⟨name, rfl⟩ h
  | null | bool | int | float | list | object => rfl

theorem needs_bind_source {α : Type} {source : Json} (h : ¬∃ name, source = .text name)
    (f : Fields → Load α) : (Load.source source >>= f).Needs r [] := by
  rw [source_of_not_text h]
  refine (Load.needs_ofExcept (blameless_error id) r).finish fun fields hfields => ?_
  exact absurd hfields (by simp)

theorem sourceDocuments_text {v : View} {name : Text} (h : (Json.text name).truthy = true) :
    sourceDocuments v (.text name) = [.source name] ++ fallback (v (.source name)) := by
  unfold sourceDocuments
  rw [if_pos h]
  rfl

theorem sourceDocuments_of_not_text {v : View} {source : Json} (htruthy : source.truthy = true)
    (h : ¬∃ name, source = .text name) : sourceDocuments v source = [] := by
  unfold sourceDocuments
  rw [if_pos htruthy]
  cases source with
  | text name => exact absurd ⟨name, rfl⟩ h
  | null | bool | int | float | list | object => rfl

theorem noteDocuments_text {name : Text} (h : (Json.text name).truthy = true) :
    noteDocuments (.text name) = [.source name] := by
  unfold noteDocuments
  rw [if_pos h]

theorem noteDocuments_of_not_text {source : Json} (h : ¬∃ name, source = .text name) :
    noteDocuments source = [] := by
  unfold noteDocuments
  split
  · cases source with
    | text name => exact absurd ⟨name, rfl⟩ h
    | null | bool | int | float | list | object => rfl
  · rfl

theorem noteDocuments_subset (v : View) (source : Json) :
    noteDocuments source ⊆ sourceDocuments v source := by
  by_cases htruthy : source.truthy = true
  · by_cases htext : ∃ name, source = .text name
    · obtain ⟨name, rfl⟩ := htext
      rw [noteDocuments_text htruthy, sourceDocuments_text htruthy]
      exact List.subset_append_left _ _
    · rw [noteDocuments_of_not_text htext]
      exact List.nil_subset _
  · unfold noteDocuments
    rw [if_neg htruthy]
    exact List.nil_subset _

/-- **Subject lists** are read from the source, or from the breadth document. -/
theorem needs_policyDocument (source : Json) :
    (policyDocument source).Needs r (sourceDocuments r.view source) := by
  unfold policyDocument
  by_cases htruthy : source.truthy = true
  · rw [if_pos htruthy]
    by_cases htext : ∃ name, source = .text name
    · obtain ⟨name, rfl⟩ := htext
      rw [sourceDocuments_text htruthy]
      refine (needs_source r name).bind fun fields hfields => ?_
      rw [result_source] at hfields
      rw [hfields, fallback, ← hasLists]
      by_cases hlists : hasLists fields = true
      · rw [if_pos hlists, if_pos hlists]
        exact Load.needs_pure fields _
      · rw [if_neg hlists, if_neg hlists]
        exact Load.needs_document .breadth _
    · rw [sourceDocuments_of_not_text htruthy htext]
      exact needs_bind_source r htext _
  · unfold sourceDocuments
    rw [if_neg htruthy, if_neg htruthy]
    exact Load.needs_document .breadth r

/-- **Notes** are read from the source. -/
theorem needs_note (source : Json) (standing : Text) :
    (note source standing).Needs r (noteDocuments source) := by
  unfold note
  by_cases htruthy : source.truthy = true
  · rw [if_pos htruthy]
    by_cases htext : ∃ name, source = .text name
    · obtain ⟨name, rfl⟩ := htext
      rw [noteDocuments_text htruthy]
      exact (needs_source r name).finish fun fields _ => Load.needs_pure _ _
    · rw [noteDocuments_of_not_text htext]
      exact needs_bind_source r htext _
  · unfold noteDocuments
    rw [if_neg htruthy, if_neg htruthy]
    exact Load.needs_pure standing r

theorem needs_auditBreadth (source : Json) (codes : List Text) :
    (auditBreadth source codes).Needs r (sourceDocuments r.view source) := by
  have hall : (auditBreadth source codes).Needs r
      (sourceDocuments r.view source ++ ([] ++ noteDocuments source)) := by
    refine (needs_policyDocument r source).bind fun fields _ => ?_
    refine (Load.needs_ofExcept (BreadthPolicy.ofFields_blameless fields) _).bind fun p _ => ?_
    exact (needs_note _ source breadthNote).finish fun text _ => Load.needs_pure _ _
  refine hall.congr fun d => ?_
  have hnote := @noteDocuments_subset r.view source d
  simp only [List.nil_append, List.mem_append]
  exact or_iff_left_of_imp hnote

theorem needs_auditDepth (source : Json) (codes : List Text) :
    (auditDepth source codes).Needs r (.graph :: sourceDocuments r.view source) := by
  have hall : (auditDepth source codes).Needs r
      (sourceDocuments r.view source ++ ([.graph] ++ ([] ++ ([] ++ noteDocuments source)))) := by
    refine (needs_policyDocument r source).bind fun fields _ => ?_
    refine (Load.needs_document .graph _).bind fun graph _ => ?_
    refine (Load.needs_ofExcept (BreadthPolicy.ofFields_blameless fields) _).bind fun p _ => ?_
    have hanalyze := (Depth.analyze_numeric p graph codes).blameless
    refine (Load.needs_ofExcept hanalyze _).bind fun f _ => ?_
    exact (needs_note _ source depthNote).finish fun text _ => Load.needs_pure _ _
  refine hall.congr fun d => ?_
  have hnote := @noteDocuments_subset r.view source d
  simp only [List.nil_append, List.mem_append, List.mem_cons, List.not_mem_nil, or_false]
  rw [or_left_comm, or_iff_left_of_imp hnote]

/-- **One section.** -/
theorem needs_auditSection (s : Student) (codes : List Text) (w : Walk) (sec : Section) :
    (auditSection s codes w sec).Needs r (sectionDocuments r.view sec) := by
  cases sec with
  | requirements which items =>
    have hblameless := (Requirement.auditAll_numeric s items w.used).blameless
    exact (Load.needs_ofExcept hblameless r).finish fun fs _ => Load.needs_pure _ _
  | communication rule => exact Load.needs_pure _ r
  | breadth source =>
    exact (needs_auditBreadth r source codes).finish fun f _ => Load.needs_pure _ _
  | depth source =>
    exact (needs_auditDepth r source codes).finish fun f _ => Load.needs_pure _ _

/-- **All sections.** -/
theorem needs_auditSections (s : Student) (codes : List Text) (sections : List Section)
    (w : Walk) : (auditSections s codes sections w).Needs r
      (sections.flatMap (sectionDocuments r.view)) := by
  induction sections generalizing w r with
  | nil => exact Load.needs_pure w r
  | cons sec rest ih =>
    rw [List.flatMap_cons]
    have hfirst := needs_auditSection r s codes w sec
    refine hfirst.bind fun w' _ => ?_
    rw [← hfirst.view]
    exact ih _ w'

/-- **An audit** of a major needs the documents that the view tells, whatever the courses. -/
theorem needs_audit (major : Text) (courses : List Text) :
    (audit major courses).Needs r (documents r.view major) := by
  have hrules := Load.needs_document (.rules major) r
  have hresult : (Load.run (Load.rules major) r).1 = r.view (.rules major) :=
    congrArg Prod.fst (Load.run_document (.rules major) r)
  rw [documents, ← List.singleton_append]
  refine hrules.bind fun rules hok => ?_
  have hshown : r.view (.rules major) = .ok rules := hresult.symm.trans hok
  rw [hshown, ← hrules.view, ← List.singleton_append]
  refine (Load.needs_document .catalog _).bind fun catalog _ => ?_
  rw [← (Load.needs_document .catalog _).view]
  have hsections := needs_auditSections
    (Load.run Load.catalog (Load.run (Load.rules major) r).2).2 (student rules catalog courses)
    (admitted rules courses) rules.sections ⟨Progress.start major, []⟩
  exact hsections.finish fun w _ => Load.needs_pure _ _

end

/-! ## What is needed is told by what is needed -/

section

variable {v v' : View}

theorem sourceDocuments_congr {source : Json}
    (h : ∀ d ∈ sourceDocuments v source, v' d = v d) :
    sourceDocuments v' source = sourceDocuments v source := by
  by_cases htruthy : source.truthy = true
  · by_cases htext : ∃ name, source = .text name
    · obtain ⟨name, rfl⟩ := htext
      rw [sourceDocuments_text htruthy] at h ⊢
      rw [sourceDocuments_text htruthy, h _ (List.mem_append_left _ (List.mem_singleton_self _))]
    · rw [sourceDocuments_of_not_text htruthy htext, sourceDocuments_of_not_text htruthy htext]
  · unfold sourceDocuments
    rw [if_neg htruthy, if_neg htruthy]

theorem sectionDocuments_congr {sec : Section} (h : ∀ d ∈ sectionDocuments v sec, v' d = v d) :
    sectionDocuments v' sec = sectionDocuments v sec := by
  cases sec with
  | requirements | communication => rfl
  | breadth source => exact sourceDocuments_congr h
  | depth source =>
    exact congrArg (Document.graph :: ·)
      (sourceDocuments_congr fun d hd => h d (List.mem_cons_of_mem _ hd))

theorem documents_congr {major : Text} (h : ∀ d ∈ documents v major, v' d = v d) :
    documents v' major = documents v major := by
  have hrules : v' (.rules major) = v (.rules major) := h _ List.mem_cons_self
  unfold documents at h ⊢
  rw [hrules]
  cases hshown : v (.rules major) with
  | error e => rfl
  | ok rules =>
    simp only [hshown] at h
    dsimp only
    congr 2
    refine List.flatMap_congr fun sec hsec => sectionDocuments_congr fun d hd => h d ?_
    exact List.mem_cons_of_mem _ (List.mem_cons_of_mem _ (List.mem_flatMap.mpr ⟨sec, hsec, hd⟩))

end

end Major

end DegreeAudit
