import DegreeAudit.Proofs.Needs
import DegreeAudit.Session

/-!
# What a session shows stays the same

A session changes files, and asks for documents and audits, in any order and whether or not it gets
an answer. What it is shown of a document is settled when the document is first loaded.

**Logs.** A log of a session lists the documents that were asked for, each with the folder as it was
and with what was shown (`Session.Logged`). Every question is a reading, so every session has a log
(`Session.exists_logged`).

**Snapshots.** After a log, the registry has kept exactly what was loaded, and each document as it
was parsed when it was first loaded (`Session.Snapshot`). One question keeps this, because a reading
settles what it asks for, and a change of the folder does not touch what is kept.

**Answers.** A question for a document is logged, and answered with what the log shows of it
(`Session.Logged.exists_access`, `Session.Snapshot.answered`).

**Majors.** An audit that gave progress has kept all documents that it needed. What is needed can be
told from these documents, so they are all that any later audit of the major needs
(`Registry.Holds`).
-/

namespace DegreeAudit

/-! ## Questions are readings -/

namespace Load

section

variable {α β : Type} {x : Load α} {r : Registry}

theorem exists_reads_bind {f : α → Load β} (h : ∃ ds, x.Reads r ds)
    (hf : ∀ a r', ∃ ds, (f a).Reads r' ds) : ∃ ds, (x >>= f).Reads r ds := by
  obtain ⟨ds, hds⟩ := h
  cases hx : (run x r).1 with
  | error e => exact ⟨ds, hds.bind_error hx⟩
  | ok a =>
    obtain ⟨ds', hds'⟩ := hf a (run x r).2
    exact ⟨ds ++ ds', hds.bind hx hds'⟩

theorem exists_reads_tryCatch {handle : Fault → Load α} (h : ∃ ds, x.Reads r ds)
    (hhandle : ∀ e r', ∃ ds, (handle e).Reads r' ds) : ∃ ds, (tryCatch x handle).Reads r ds := by
  obtain ⟨ds, hds⟩ := h
  cases hx : (run x r).1 with
  | ok a => exact ⟨ds, hds.unhandled hx⟩
  | error e =>
    obtain ⟨ds', hds'⟩ := hhandle e (run x r).2
    exact ⟨ds ++ ds', hds.handled hx hds'⟩

theorem exists_reads_pure (a : α) (r : Registry) : ∃ ds, (pure a : Load α).Reads r ds :=
  ⟨[], reads_pure a r⟩

theorem exists_reads_document (d : Document) (r : Registry) : ∃ ds, (document d).Reads r ds :=
  ⟨[d], reads_document d r⟩

end

theorem exists_reads_source (name : Json) (r : Registry) : ∃ ds, (source name).Reads r ds := by
  cases name with
  | text name => exact exists_reads_document (.source name) r
  | null | bool | int | float | list | object => exact ⟨[], reads_ofExcept _ r⟩

end Load

namespace Major

theorem exists_reads_audit (major : Text) (courses : List Text) (r : Registry) :
    ∃ ds, (audit major courses).Reads r ds := by
  obtain ⟨ds, hreads, -⟩ := (needs_audit r major courses).reads
  exact ⟨ds, hreads⟩

theorem exists_reads_check (major courses : Text) (r : Registry) :
    ∃ ds, (check major courses).Reads r ds := by
  refine Load.exists_reads_bind (Load.exists_reads_document .catalog r) fun catalog r' => ?_
  refine Load.exists_reads_bind ⟨[], Load.reads_ofExcept _ r'⟩ fun _ r'' => ?_
  exact exists_reads_audit major _ r''

theorem exists_reads_report {x : Load Progress} (h : ∀ r, ∃ ds, x.Reads r ds) (r : Registry) :
    ∃ ds, (report x).Reads r ds := by
  refine Load.exists_reads_tryCatch ?_ fun e r' => ?_
  · exact Load.exists_reads_bind (h r) fun p r' => Load.exists_reads_pure _ r'
  · cases e with
    | unknownCourses codes => exact Load.exists_reads_pure _ r'
    | _ => exact ⟨[], Load.reads_ofExcept _ r'⟩

end Major

/-- **Every question is a reading.** -/
theorem Question.exists_reads (q : Question) (r : Registry) : ∃ ds, q.answer.Reads r ds := by
  cases q with
  | catalog =>
    exact Load.exists_reads_bind (Load.exists_reads_document .catalog r) fun _ =>
      Load.exists_reads_pure _
  | graph =>
    exact Load.exists_reads_bind (Load.exists_reads_document .graph r) fun _ =>
      Load.exists_reads_pure _
  | rules major =>
    exact Load.exists_reads_bind (Load.exists_reads_document (.rules major) r) fun _ =>
      Load.exists_reads_pure _
  | source name =>
    exact Load.exists_reads_bind (Load.exists_reads_source name r) fun _ => Load.exists_reads_pure _
  | breadthDocument =>
    exact Load.exists_reads_bind (Load.exists_reads_document .breadth r) fun _ =>
      Load.exists_reads_pure _
  | audit major courses =>
    exact Load.exists_reads_bind (Major.exists_reads_audit major courses r) fun _ =>
      Load.exists_reads_pure _
  | check major courses =>
    exact Load.exists_reads_bind (Major.exists_reads_check major courses r) fun _ =>
      Load.exists_reads_pure _
  | report major courses =>
    have hcheck := Major.exists_reads_check major courses
    exact Load.exists_reads_bind (Major.exists_reads_report hcheck r) fun _ =>
      Load.exists_reads_pure _

/-! ## Questions for a document -/

/-- The document that a question is for. -/
def Question.document? : Question → Option Document
  | catalog => some .catalog
  | graph => some .graph
  | rules major => some (.rules major)
  | source (.text name) => some (.source name)
  | breadthDocument => some .breadth
  | _ => none

/-- The answer that tells what a document holds. -/
def Document.answer : (d : Document) → d.Content → Answer
  | catalog => .catalog
  | graph => .graph
  | rules _ => .rules
  | source _ => .source

/-- A question for a document is answered with what the registry shows of it. -/
theorem Question.run_answer {q : Question} {d : Document} (h : q.document? = some d)
    (r : Registry) : Load.run q.answer r = ((r.view d).map d.answer, r.settle d) := by
  have hload : Load.run q.answer r =
      Load.run (Load.document d >>= fun c => pure (d.answer c)) r := by
    cases q with
    | catalog | graph | rules | breadthDocument =>
      obtain rfl := Option.some.inj h
      rfl
    | source name =>
      cases name with
      | text name =>
        obtain rfl := Option.some.inj h
        rfl
      | null | bool | int | float | list | object => cases h
    | audit | check | report => cases h
  rw [hload, Load.run_bind, Load.run_document]
  cases r.view d <;> rfl

theorem Document.exists_answer_ne (d : Document) :
    ∃ c c' : d.Content, d.answer c ≠ d.answer c' := by
  cases d with
  | catalog =>
    refine ⟨.ofCourses [], .ofCourses [⟨"CS 135", .null⟩], fun h => ?_⟩
    exact absurd (congrArg (·.courses.length) (Answer.catalog.inj h)) (by decide +kernel)
  | graph => exact ⟨[], [("CS 135", [])], fun h => nomatch Answer.graph.inj h⟩
  | rules major =>
    refine ⟨⟨"", [], []⟩, ⟨"CS", [], []⟩, fun h => ?_⟩
    exact absurd (congrArg RuleSet.major (Answer.rules.inj h)) (by decide +kernel)
  | source name => exact ⟨[], [("name", .null)], fun h => nomatch Answer.source.inj h⟩

/-- To answer a question for a document, the document is asked for. -/
theorem Question.mem_of_reads {q : Question} {d : Document} (h : q.document? = some d)
    {r : Registry} {ds : List Document} (hreads : q.answer.Reads r ds) : d ∈ ds := by
  by_contra hd
  -- The answer would not depend on what is kept of the document.
  have hsame : ∀ c, .ok (d.answer c) = (Load.run q.answer r).1 := by
    intro c
    have hview : ∀ d' ∈ ds, (r.keep d c).view d' = r.view d' := by
      intro d' hd'
      have hne : d' ≠ d := fun heq => hd (heq ▸ hd')
      rw [Registry.view, Registry.view, Registry.kept_keep_of_ne r c hne,
        Registry.held_congr (r.folder_keep d c) (r.data_keep d c)]
    have hrun := congrArg Prod.fst (hreads _ hview)
    rw [Question.run_answer h, Registry.view_of_kept (Registry.kept_keep_self r d c)] at hrun
    exact hrun
  obtain ⟨c, c', hne⟩ := d.exists_answer_ne
  exact hne (Except.ok.inj ((hsame c).trans (hsame c').symm))

/-! ## Logs -/

/-- A document that was asked for, with the folder as it was and with what was shown. -/
structure Access where
  folder : Folder
  document : Document
  outcome : Except Fault document.Content

def Access.loads (a : Access) (d : Document) : Bool := decide (a.document = d) && a.outcome.isOk

/-- What the registry shows to one who asks for a document. -/
def Registry.access (r : Registry) (d : Document) : Access := ⟨r.folder, d, r.view d⟩

theorem Registry.mem_map_access {r : Registry} {ds : List Document} {folder : Folder}
    {d : Document} {x : Except Fault d.Content} :
    (⟨folder, d, x⟩ : Access) ∈ ds.map r.access ↔ d ∈ ds ∧ folder = r.folder ∧ x = r.view d := by
  rw [List.mem_map]
  constructor
  · rintro ⟨d', hd', heq⟩
    obtain ⟨rfl, rfl, hview⟩ := Access.mk.injEq .. ▸ heq
    exact ⟨hd', rfl, (eq_of_heq hview).symm⟩
  · rintro ⟨hd, rfl, rfl⟩
    exact ⟨d, hd, rfl⟩

namespace Session

/-- What a session asks for, and the registry afterwards. -/
inductive Logged : Registry → List Request → List Access → Registry → Prop
  | nil (r : Registry) : Logged r [] [] r
  | write {r r' : Registry} {parts : List Text} {bytes : ByteArray} {rest : List Request}
      {log : List Access}
      (hrest : Logged { r with folder := r.folder.write parts bytes } rest log r') :
      Logged r (.write parts bytes :: rest) log r'
  | delete {r r' : Registry} {parts : List Text} {rest : List Request} {log : List Access}
      (hrest : Logged { r with folder := r.folder.delete parts } rest log r') :
      Logged r (.delete parts :: rest) log r'
  | majors {r r' : Registry} {rest : List Request} {log : List Access}
      (hrest : Logged r rest log r') : Logged r (.majors :: rest) log r'
  | ask {r r' : Registry} {q : Question} {ds : List Document} {rest : List Request}
      {log : List Access} (hreads : q.answer.Reads r ds)
      (hrest : Logged (r.settleAll ds) rest log r') :
      Logged r (.ask q :: rest) (ds.map r.access ++ log) r'

theorem run_majors (r : Registry) : (Load.run Request.majors.serve r).2 = r := by
  have hserve : Load.run Request.majors.serve r =
      Load.run (Load.ofExcept r.majors >>= fun names => pure (.majors names)) r := rfl
  rw [hserve, Load.run_bind, Load.run_ofExcept]
  cases r.majors <;> rfl

/-- A log ends where the session does. -/
theorem Logged.run_eq {r r' : Registry} {requests : List Request} {log : List Access}
    (h : Logged r requests log r') : (run r requests).2 = r' := by
  induction h with
  | nil r => rfl
  | write _ ih | delete _ ih => exact ih
  | majors _ ih =>
    rw [run]
    dsimp only
    rwa [run_majors]
  | ask hreads _ ih =>
    rw [run]
    dsimp only
    rwa [Request.serve, hreads.registry]

/-- **Every session has a log.** -/
theorem exists_logged (r : Registry) (requests : List Request) :
    ∃ log, Logged r requests log (run r requests).2 := by
  suffices h : ∃ log r', Logged r requests log r' by
    obtain ⟨log, r', hlog⟩ := h
    exact ⟨log, hlog.run_eq ▸ hlog⟩
  induction requests generalizing r with
  | nil => exact ⟨[], r, .nil r⟩
  | cons request rest ih =>
    cases request with
    | write parts bytes =>
      obtain ⟨log, r', hlog⟩ := ih { r with folder := r.folder.write parts bytes }
      exact ⟨log, r', .write hlog⟩
    | delete parts =>
      obtain ⟨log, r', hlog⟩ := ih { r with folder := r.folder.delete parts }
      exact ⟨log, r', .delete hlog⟩
    | majors =>
      obtain ⟨log, r', hlog⟩ := ih r
      exact ⟨log, r', .majors hlog⟩
    | ask q =>
      obtain ⟨ds, hreads⟩ := q.exists_reads r
      obtain ⟨log, r', hlog⟩ := ih (r.settleAll ds)
      exact ⟨_, r', .ask hreads hlog⟩

/-! ## Snapshots -/

/-- A registry has kept what was loaded by a log, each document as it was parsed when it was first
loaded. -/
structure Snapshot (data : Path) (r : Registry) (log : List Access) : Prop where
  base : r.data = data
  first : ∀ d c, r.kept d = some c → ∃ folder, log.find? (·.loads d) = some ⟨folder, d, .ok c⟩ ∧
    (Registry.ofFolder folder data).held d = .ok c
  kept : ∀ folder d c, (⟨folder, d, .ok c⟩ : Access) ∈ log → r.kept d = some c
  shown : ∀ folder d x, (⟨folder, d, x⟩ : Access) ∈ log →
    (∃ c, x = .ok c) ∨ x = (Registry.ofFolder folder data).held d

theorem snapshot_ofFolder (folder : Folder) (data : Path) :
    Snapshot data (.ofFolder folder data) [] where
  base := rfl
  first d c h := by cases d <;> exact absurd h (by simp [Registry.kept, Registry.ofFolder])
  kept _ _ _ h := absurd h List.not_mem_nil
  shown _ _ _ h := absurd h List.not_mem_nil

section

variable {data : Path} {r r' : Registry} {log : List Access}

theorem Snapshot.held (h : Snapshot data r log) (d : Document) :
    r.held d = (Registry.ofFolder r.folder data).held d := by
  obtain rfl := h.base
  exact Registry.held_congr rfl rfl d

theorem Snapshot.changed (h : Snapshot data r log) (folder : Folder) :
    Snapshot data { r with folder } log where
  base := h.base
  first d c hc := h.first d c (by cases d <;> exact hc)
  kept f d c hmem := by
    have hkept := h.kept f d c hmem
    cases d <;> exact hkept
  shown := h.shown

theorem find?_loads_access {ds : List Document} {d : Document} {c : d.Content} (hd : d ∈ ds)
    (hview : r.view d = .ok c) :
    (ds.map r.access).find? (·.loads d) = some (r.access d) := by
  induction ds with
  | nil => exact absurd hd List.not_mem_nil
  | cons d' rest ih =>
    rw [List.map_cons, List.find?_cons]
    by_cases hsame : d' = d
    · subst hsame
      have hloads : (r.access d').loads d' = true := by
        simp [Access.loads, Registry.access, hview, Except.isOk, Except.toBool]
      rw [hloads]
    · have hloads : (r.access d').loads d = false := by
        simp [Access.loads, Registry.access, hsame]
      rw [hloads]
      exact ih ((List.mem_cons.mp hd).resolve_left (Ne.symm hsame))

/-- A document that is not kept was not loaded. -/
theorem Snapshot.find?_eq_none (h : Snapshot data r log) {d : Document} (hkept : r.kept d = none) :
    log.find? (·.loads d) = none := by
  rw [List.find?_eq_none]
  rintro ⟨folder, d', x⟩ hmem hloads
  simp only [Access.loads, Bool.and_eq_true, decide_eq_true_eq] at hloads
  obtain ⟨rfl, hok⟩ := hloads
  cases x with
  | error e => exact absurd hok (by simp [Except.isOk, Except.toBool])
  | ok c =>
    rw [h.kept folder d' c hmem] at hkept
    exact absurd hkept (by simp)

/-- **One question** keeps a snapshot. -/
theorem Snapshot.asked (h : Snapshot data r log) (ds : List Document) :
    Snapshot data (r.settleAll ds) (log ++ ds.map r.access) where
  base := (r.data_settleAll ds).trans h.base
  first d c hc := by
    rw [List.find?_append]
    cases hbefore : r.kept d with
    | some c' =>
      have hsame : c' = c := by
        rcases Registry.kept_settleAll_iff.mp hc with hc | ⟨-, hview⟩
        · exact Option.some.inj (hbefore.symm.trans hc)
        · exact Except.ok.inj ((Registry.view_of_kept hbefore).symm.trans hview)
      subst hsame
      obtain ⟨folder, hfind, hheld⟩ := h.first d c' hbefore
      exact ⟨folder, by rw [hfind]; rfl, hheld⟩
    | none =>
      -- The document is loaded now, for the first time.
      obtain ⟨hd, hview⟩ := (Registry.kept_settleAll_iff.mp hc).resolve_left (by simp [hbefore])
      rw [h.find?_eq_none hbefore, Option.none_or, find?_loads_access hd hview, Registry.access,
        hview]
      refine ⟨r.folder, rfl, ?_⟩
      rw [← h.held d, ← Registry.view_of_not_kept hbefore, hview]
  kept folder d c hmem := by
    rw [Registry.kept_settleAll_iff]
    rcases List.mem_append.mp hmem with hmem | hmem
    · exact .inl (h.kept folder d c hmem)
    · obtain ⟨hd, -, hview⟩ := Registry.mem_map_access.mp hmem
      exact .inr ⟨hd, hview.symm⟩
  shown folder d x hmem := by
    rcases List.mem_append.mp hmem with hmem | hmem
    · exact h.shown folder d x hmem
    · obtain ⟨-, rfl, rfl⟩ := Registry.mem_map_access.mp hmem
      cases hkept : r.kept d with
      | some c => exact .inl ⟨c, Registry.view_of_kept hkept⟩
      | none =>
        rw [Registry.view_of_not_kept hkept]
        exact .inr (h.held d)

/-- **A session** keeps a snapshot. -/
theorem Snapshot.logged {requests : List Request} {before : List Access}
    (h : Snapshot data r before) (hlog : Logged r requests log r') :
    Snapshot data r' (before ++ log) := by
  induction hlog generalizing before with
  | nil r => rwa [List.append_nil]
  | write _ ih | delete _ ih => exact ih (h.changed _)
  | majors _ ih => exact ih h
  | ask hreads _ ih =>
    rw [← List.append_assoc]
    exact ih (h.asked _)

/-- A question for a document is answered with what was loaded of it, and if nothing was, with what
the folder holds. -/
theorem Snapshot.answered (h : Snapshot data r log) {q : Question} {d : Document}
    (hq : q.document? = some d) :
    (∀ before c, (⟨before, d, .ok c⟩ : Access) ∈ log →
      (Load.run q.answer r).1 = .ok (d.answer c)) ∧
    ((∀ before c, (⟨before, d, .ok c⟩ : Access) ∉ log) →
      (Load.run q.answer r).1 = ((Registry.ofFolder r.folder data).held d).map d.answer) := by
  rw [Question.run_answer hq]
  refine ⟨fun before c hmem => ?_, fun hnone => ?_⟩
  · rw [Registry.view_of_kept (h.kept before d c hmem)]
    rfl
  · have hkept : r.kept d = none := by
      rw [Option.eq_none_iff_forall_ne_some]
      intro c hc
      obtain ⟨folder, hfind, -⟩ := h.first d c hc
      exact hnone folder c (List.mem_of_find?_eq_some hfind)
    rw [Registry.view_of_not_kept hkept, h.held d]

/-! ## Growth -/

/-- **Nothing is lost.** A session keeps what was kept before it and what it loads, and nothing
else. -/
theorem Logged.kept_iff {requests : List Request} (h : Logged r requests log r') {d : Document}
    {c : d.Content} :
    r'.kept d = some c ↔ r.kept d = some c ∨ ∃ folder, (⟨folder, d, .ok c⟩ : Access) ∈ log := by
  induction h with
  | nil r => simp
  | write _ ih | delete _ ih =>
    rw [ih]
    cases d <;> rfl
  | majors _ ih => exact ih
  | @ask r _ q ds _ log _ _ ih =>
    rw [ih, Registry.kept_settleAll_iff, or_assoc]
    refine or_congr_right ?_
    simp only [List.mem_append, Registry.mem_map_access, exists_or]
    refine or_congr_left ⟨fun hd => ⟨r.folder, hd.1, rfl, hd.2.symm⟩, ?_⟩
    rintro ⟨-, hd, -, hview⟩
    exact ⟨hd, hview.symm⟩

/-- **Faults are not kept.** A document that a request could not load is not kept after it. -/
theorem Logged.kept_of_error {request : Request} (h : Logged r [request] log r')
    {folder : Folder} {d : Document} {e : Fault}
    (hmem : (⟨folder, d, .error e⟩ : Access) ∈ log) : r'.kept d = none := by
  cases h with
  | write hrest | delete hrest | majors hrest =>
    cases hrest
    exact absurd hmem List.not_mem_nil
  | @ask _ _ q ds _ log hreads hrest =>
    cases hrest
    rw [List.append_nil] at hmem
    obtain ⟨-, -, hview⟩ := Registry.mem_map_access.mp hmem
    rw [Option.eq_none_iff_forall_ne_some]
    intro c hc
    have hok := Registry.view_of_kept hc
    rw [Registry.view_settleAll, ← hview] at hok
    exact absurd hok (by simp)

/-- **Answers are logged.** A request for a document is logged with what it is answered with. -/
theorem Logged.exists_access {q : Question} {d : Document} (h : Logged r [.ask q] log r')
    (hq : q.document? = some d) :
    ∃ x, (⟨r.folder, d, x⟩ : Access) ∈ log ∧ (Load.run q.answer r).1 = x.map d.answer := by
  cases h with
  | @ask _ _ _ ds _ _ hreads hrest =>
    cases hrest
    rw [List.append_nil, Question.run_answer hq]
    exact ⟨r.view d, Registry.mem_map_access.mpr ⟨Question.mem_of_reads hq hreads, rfl, rfl⟩, rfl⟩

end

end Session

/-! ## Majors -/

/-- A registry has kept all documents that an audit of a major needs. -/
def Registry.Holds (r : Registry) (major : Text) : Prop :=
  ∀ d ∈ Major.documents r.view major, ∃ c, r.kept d = some c

namespace Registry.Holds

variable {r r' : Registry} {major : Text}

theorem view_eq (h : r.Holds major) (hshown : ∀ d c, r.kept d = some c → r'.view d = .ok c) :
    ∀ d ∈ Major.documents r.view major, r'.view d = r.view d := by
  intro d hd
  obtain ⟨c, hc⟩ := h d hd
  rw [hshown d c hc, view_of_kept hc]

theorem of_kept (h : r.Holds major) (hkept : ∀ d c, r.kept d = some c → r'.kept d = some c) :
    r'.Holds major := by
  intro d hd
  have hview := h.view_eq fun d c hc => view_of_kept (hkept d c hc)
  rw [Major.documents_congr hview] at hd
  obtain ⟨c, hc⟩ := h d hd
  exact ⟨c, hkept d c hc⟩

/-- **Audits of a held major** load nothing more, have no fault of a document, and give what every
registry gives that shows the same documents. -/
theorem audit (h : r.Holds major) (courses : List Text) :
    ∃ o, Load.run (Major.audit major courses) r = (o, r) ∧ Blameless o ∧
      ∀ r' : Registry, (∀ d c, r.kept d = some c → r'.view d = .ok c) →
        (Load.run (Major.audit major courses) r').1 = o := by
  have hneeds := Major.needs_audit r major courses
  obtain ⟨ds, hreads, hsub⟩ := hneeds.reads
  refine ⟨_, ?_, ?_, fun r' hshown => hneeds.result (h.view_eq hshown)⟩
  · rw [hreads.run_eq, settleAll_of_kept fun d hd => h d (hsub hd)]
  · intro e he hdoc
    obtain ⟨d, hd, hview⟩ := hneeds.blame e he hdoc
    obtain ⟨c, hc⟩ := h d hd
    rw [view_of_kept hc] at hview
    exact absurd hview (by simp)

end Registry.Holds

/-- The major that a question audits. -/
def Question.major? : Question → Option Text
  | audit major _ | check major _ | report major _ => some major
  | _ => none

/-- The courses that such a question audits it with. -/
def Question.courses : Question → List Text
  | audit _ courses => courses
  | check _ courses | report _ courses => CourseList.read courses
  | _ => []

/-- Whether an answer tells that a major was audited. -/
def Answer.audited : Answer → Bool
  | progress _ => true
  | report audited _ => audited
  | _ => false

/-- Whether an answer gives a progress, or reports it. -/
def Answer.Tells (p : Progress) : Answer → Prop
  | progress p' => p' = p
  | report audited text => audited = true ∧ text = Report.text (Report.progressLines p)
  | _ => False

namespace Major

section

variable {major : Text} {r r' : Registry}

theorem holds_of_audit {courses : List Text} {p : Progress}
    (h : Load.run (audit major courses) r = (.ok p, r')) : r'.Holds major := by
  have hneeds := needs_audit r major courses
  have hview := hneeds.view
  have hloaded := hneeds.loaded p (congrArg Prod.fst h)
  rw [h] at hview hloaded
  intro d hd
  rw [hview] at hd
  exact hloaded d hd

theorem view_of_kept_after_audit {courses : List Text} {o : Except Fault Progress}
    (h : Load.run (audit major courses) r = (o, r')) {d : Document} {c : d.Content}
    (hc : r'.kept d = some c) : r.view d = .ok c := by
  have hview := (needs_audit r major courses).view
  rw [h] at hview
  rw [← hview, Registry.view_of_kept hc]

/-- A check is an audit of the entered courses, once the catalog is kept. -/
theorem exists_audit_of_check {courses : Text} {p : Progress}
    (h : Load.run (check major courses) r = (.ok p, r')) :
    ∃ catalog r₁, r'.kept .catalog = some catalog ∧
      catalog.requireAll (CourseList.read courses) = .ok () ∧
      Load.run (audit major (CourseList.read courses)) r₁ = (.ok p, r') := by
  obtain ⟨catalog, r₁, hcatalog, h⟩ := Load.run_bind_eq_ok.mp h
  obtain ⟨⟨⟩, r₂, hrequire, h⟩ := Load.run_bind_eq_ok.mp h
  rw [Load.run_ofExcept] at hrequire
  obtain ⟨hrequired, rfl⟩ := Prod.mk.inj hrequire
  have hload : Load.run Load.catalog r = (r.view .catalog, r.settle .catalog) :=
    Load.run_document .catalog r
  obtain ⟨hview, rfl⟩ := Prod.mk.inj (hload.symm.trans hcatalog)
  have hkept : (r.settle .catalog).kept .catalog = some catalog :=
    Registry.kept_settle_iff.mpr (.inr ⟨rfl, hview⟩)
  obtain ⟨ds, hreads⟩ := exists_reads_audit major (CourseList.read courses) (r.settle .catalog)
  have hregistry := hreads.registry
  rw [h] at hregistry
  refine ⟨catalog, r.settle .catalog, ?_, hrequired, h⟩
  obtain rfl : r' = _ := hregistry
  exact Registry.kept_settleAll_iff.mpr (.inl hkept)

/-- A report tells of an audit only if it took place. -/
theorem run_of_report {x : Load Progress} {text : Text}
    (h : Load.run (report x) r = (.ok (true, text), r')) :
    ∃ p, Load.run x r = (.ok p, r') ∧ text = Report.text (Report.progressLines p) := by
  unfold report at h
  rw [Load.run_tryCatch, Load.run_bind] at h
  match hx : Load.run x r with
  | (.ok p, r₁) =>
    simp only [hx, Load.run_pure, Prod.mk.injEq, Except.ok.injEq, true_and] at h
    exact ⟨p, Prod.ext rfl h.2, h.1.symm⟩
  | (.error e, r₁) =>
    simp only [hx] at h
    cases e with
    | unknownCourses codes => simp at h
    | _ => exact nomatch (Prod.mk.inj h).1

theorem run_report_of_ok {x : Load Progress} {p : Progress} (h : (Load.run x r).1 = .ok p) :
    (Load.run (report x) r).1 = .ok (true, Report.text (Report.progressLines p)) := by
  unfold report
  rw [Load.run_tryCatch, Load.run_bind_of_ok h, Load.run_pure]

/-- What a question that audits a major is answered with. A check and a report are for one check of
the courses. -/
theorem question_cases {q : Question} {a : Answer} (hmajor : q.major? = some major)
    (h : Load.run q.answer r = (.ok a, r')) (haudited : a.audited = true) :
    (∃ courses p, q = .audit major courses ∧ a = .progress p ∧
      Load.run (audit major courses) r = (.ok p, r')) ∨
    ∃ courses p, Load.run (check major courses) r = (.ok p, r') ∧
      (q = .check major courses ∧ a = .progress p ∨
        q = .report major courses ∧ a = .report true (Report.text (Report.progressLines p))) := by
  cases q with
  | catalog | graph | rules | source | breadthDocument => cases hmajor
  | audit major' courses =>
    obtain rfl := Option.some.inj hmajor
    obtain ⟨p, hrun, rfl⟩ := Load.run_map_eq_ok.mp h
    exact .inl ⟨courses, p, rfl, rfl, hrun⟩
  | check major' courses =>
    obtain rfl := Option.some.inj hmajor
    obtain ⟨p, hrun, rfl⟩ := Load.run_map_eq_ok.mp h
    exact .inr ⟨courses, p, hrun, .inl ⟨rfl, rfl⟩⟩
  | report major' courses =>
    obtain rfl := Option.some.inj hmajor
    obtain ⟨⟨audited, text⟩, hrun, rfl⟩ := Load.run_map_eq_ok.mp h
    obtain rfl : audited = true := haudited
    obtain ⟨p, hcheck, rfl⟩ := run_of_report hrun
    exact .inr ⟨courses, p, hcheck, .inr ⟨rfl, rfl⟩⟩

/-- **A question that audits a major** tells the progress of an audit at its end. -/
theorem exists_audit_of_question {q : Question} {a : Answer} (hmajor : q.major? = some major)
    (h : Load.run q.answer r = (.ok a, r')) (haudited : a.audited = true) :
    ∃ p r₁, Load.run (audit major q.courses) r₁ = (.ok p, r') ∧ a.Tells p := by
  rcases question_cases hmajor h haudited with
    ⟨courses, p, rfl, rfl, hrun⟩ | ⟨courses, p, hcheck, hq⟩
  · exact ⟨p, r, hrun, rfl⟩
  · obtain ⟨-, r₀, -, -, haudit⟩ := exists_audit_of_check hcheck
    rcases hq with ⟨rfl, rfl⟩ | ⟨rfl, rfl⟩
    · exact ⟨p, r₀, haudit, rfl⟩
    · exact ⟨p, r₀, haudit, rfl, rfl⟩

/-! ## The same question again -/

section

variable {other : Registry} (hshown : ∀ d c, r'.kept d = some c → other.view d = .ok c)

include hshown

theorem run_audit_again {courses : List Text} {p : Progress}
    (h : Load.run (audit major courses) r = (.ok p, r')) :
    (Load.run (audit major courses) other).1 = .ok p := by
  obtain ⟨o, -, -, hsame⟩ := (holds_of_audit h).audit courses
  rw [hsame other hshown, ← hsame r fun d c hc => view_of_kept_after_audit h hc, h]

theorem run_check_again {courses : Text} {p : Progress}
    (h : Load.run (check major courses) r = (.ok p, r')) :
    (Load.run (check major courses) other).1 = .ok p := by
  obtain ⟨catalog, r₁, hkept, hrequire, haudit⟩ := exists_audit_of_check h
  have hcatalog : Load.run Load.catalog other = (.ok catalog, other.settle .catalog) := by
    rw [← hshown .catalog catalog hkept]
    exact Load.run_document .catalog other
  have hafter : ∀ d c, r'.kept d = some c → (other.settle .catalog).view d = .ok c := by
    rw [Registry.view_settle]
    exact hshown
  have hagain := run_audit_again hafter haudit
  rw [check, Load.run_bind, hcatalog]
  dsimp only
  rw [Load.run_bind, Load.run_ofExcept, hrequire]
  exact hagain

/-- **The same question again** has the same answer where all is shown that was kept. -/
theorem run_question_again {q : Question} {a : Answer} (hmajor : q.major? = some major)
    (h : Load.run q.answer r = (.ok a, r')) (haudited : a.audited = true) :
    (Load.run q.answer other).1 = .ok a := by
  rcases question_cases hmajor h haudited with
    ⟨courses, p, rfl, rfl, hrun⟩ | ⟨courses, p, hcheck, hq⟩
  · exact Load.run_map_of_ok (run_audit_again hshown hrun)
  · have hagain := run_check_again hshown hcheck
    rcases hq with ⟨rfl, rfl⟩ | ⟨rfl, rfl⟩
    · exact Load.run_map_of_ok hagain
    · exact Load.run_map_of_ok (run_report_of_ok hagain)

end

end

end Major

/-! ## Sessions -/

/-- A log shows each document as it was parsed when it was first loaded, and a graph that is missing
as the empty graph. -/
structure Session.Settled (data : Path) (log : List Access) : Prop where
  first : ∀ folder d c, (⟨folder, d, .ok c⟩ : Access) ∈ log →
    ∃ folder₀, log.find? (·.loads d) = some ⟨folder₀, d, .ok c⟩ ∧
      (Registry.ofFolder folder₀ data).held d = .ok c
  graph : ∀ folder x path, (⟨folder, .graph, x⟩ : Access) ∈ log →
    folder.read (Registry.ofFolder folder data).prereqsPath = .error (.missing path) →
      (∃ g, x = .ok g) ∧ (Registry.ofFolder folder data).held .graph = .ok []

theorem Session.Snapshot.settled {data : Path} {r : Registry} {log : List Access}
    (h : Snapshot data r log) : Settled data log where
  first folder d c hmem := h.first d c (h.kept folder d c hmem)
  graph folder x path hmem hmissing := by
    have hempty : (Registry.ofFolder folder data).held .graph = .ok [] := by
      rw [Registry.held, Registry.readGraph]
      have hread : (Registry.ofFolder folder data).folder.read
          (Registry.ofFolder folder data).prereqsPath = .error (.missing path) := hmissing
      rw [hread]
    refine ⟨?_, hempty⟩
    rcases h.shown folder .graph x hmem with hok | hheld
    · exact hok
    · exact ⟨[], hheld.trans hempty⟩

theorem Registry.view_later (r : Registry) (later : List Request) :
    ∀ d c, r.kept d = some c → (Session.run r later).2.view d = .ok c := by
  obtain ⟨log, hlater⟩ := Session.exists_logged r later
  exact fun d c hc => view_of_kept (hlater.kept_iff.mpr (.inl hc))

/-- **Later audits.** After any further requests, a held major is audited as before. -/
theorem Registry.Holds.later {r : Registry} {major : Text} (h : r.Holds major)
    (later : List Request) (courses : List Text) :
    ∃ o, Load.run (Major.audit major courses) (Session.run r later).2 =
        (o, (Session.run r later).2) ∧ Blameless o ∧
      ∀ other : Registry, (∀ d c, r.kept d = some c → other.view d = .ok c) →
        (Load.run (Major.audit major courses) other).1 = o := by
  obtain ⟨log, hlater⟩ := Session.exists_logged r later
  have hkept : ∀ d c, r.kept d = some c → (Session.run r later).2.kept d = some c :=
    fun d c hc => hlater.kept_iff.mpr (.inl hc)
  obtain ⟨o, -, hblameless, hsame⟩ := h.audit courses
  obtain ⟨o', hrun, -, -⟩ := (h.of_kept hkept).audit courses
  have hshown := hsame (Session.run r later).2 (r.view_later later)
  rw [hrun] at hshown
  subst hshown
  exact ⟨o', hrun, hblameless, hsame⟩

/-- **What a session shows stays the same.** Every session has a log, and after each session:

* in every log, all that was loaded of a document is what was parsed from the folder when it was
  first loaded, and a graph that is missing counts as the empty graph;
* a question for a document is answered with what was loaded of it before, and if nothing was, with
  what the folder holds now; it is logged with its answer;
* the next request leaves kept what was kept, adds what it loads and nothing else, and keeps nothing
  of a document that it cannot load;
* if the next request is a question that audits a major, and it does so, then after any further
  requests the same question has the same answer, and an audit of the major for any courses loads
  nothing, has no fault of a document, and gives what every registry gives that shows the documents
  kept by then; for the courses of the question it gives the progress that its answer tells. -/
theorem session_snapshots (folder : Folder) (data : Path) (requests : List Request) :
    (∃ log, Session.Logged (.ofFolder folder data) requests log
      (Session.run (.ofFolder folder data) requests).2) ∧
    ∀ log r, Session.Logged (.ofFolder folder data) requests log r →
      r = (Session.run (.ofFolder folder data) requests).2 ∧ Session.Settled data log ∧
      (∀ (q : Question) (d : Document), q.document? = some d →
        (∀ before c, (⟨before, d, .ok c⟩ : Access) ∈ log →
          (Load.run q.answer r).1 = .ok (d.answer c)) ∧
        ((∀ before c, (⟨before, d, .ok c⟩ : Access) ∉ log) →
          (Load.run q.answer r).1 = ((Registry.ofFolder r.folder data).held d).map d.answer) ∧
        ∀ step r', Session.Logged r [.ask q] step r' →
          ∃ x, (⟨r.folder, d, x⟩ : Access) ∈ step ∧ (Load.run q.answer r).1 = x.map d.answer) ∧
      (∀ (request : Request) (step : List Access) (r' : Registry),
        Session.Logged r [request] step r' → r' = (Load.run request.serve r).2 ∧
          (∀ d c, r'.kept d = some c ↔
            r.kept d = some c ∨ ∃ now, (⟨now, d, .ok c⟩ : Access) ∈ step) ∧
          ∀ now d e, (⟨now, d, .error e⟩ : Access) ∈ step → r'.kept d = none) ∧
      ∀ (q : Question) (major : Text) (a : Answer) (r' : Registry), q.major? = some major →
        Load.run q.answer r = (.ok a, r') → a.audited = true →
          ∀ later : List Request,
            (Load.run q.answer (Session.run r' later).2).1 = .ok a ∧
            ∀ courses : List Text, ∃ o,
              Load.run (Major.audit major courses) (Session.run r' later).2 =
                (o, (Session.run r' later).2) ∧
              (∀ e, o = .error e → ¬e.OfDocument) ∧
              (∀ other : Registry, (∀ d c, r'.kept d = some c → other.view d = .ok c) →
                (Load.run (Major.audit major courses) other).1 = o) ∧
              (courses = q.courses → ∃ p, a.Tells p ∧ o = .ok p) := by
  refine ⟨Session.exists_logged _ requests, fun log r hlog => ?_⟩
  have hsnapshot := (Session.snapshot_ofFolder folder data).logged hlog
  rw [List.nil_append] at hsnapshot
  refine ⟨hlog.run_eq.symm, hsnapshot.settled, ?_, ?_, ?_⟩
  · intro q d hq
    obtain ⟨hloaded, hunloaded⟩ := hsnapshot.answered hq
    exact ⟨hloaded, hunloaded, fun step r' hstep => hstep.exists_access hq⟩
  · intro request step r' hstep
    exact ⟨hstep.run_eq.symm, fun d c => hstep.kept_iff, fun now d e => hstep.kept_of_error⟩
  · intro q major a r' hmajor hrun haudited later
    obtain ⟨p, r₁, haudit, htells⟩ := Major.exists_audit_of_question hmajor hrun haudited
    have hholds := Major.holds_of_audit haudit
    refine ⟨Major.run_question_again (r'.view_later later) hmajor hrun haudited,
      fun courses => ?_⟩
    obtain ⟨o, ho, hblameless, hsame⟩ := hholds.later later courses
    refine ⟨o, ho, hblameless, hsame, ?_⟩
    rintro rfl
    refine ⟨p, htells, ?_⟩
    rw [← hsame r₁ fun d c hc => Major.view_of_kept_after_audit haudit hc, haudit]

/-- A data folder with a major that has a depth requirement, and without collected prerequisites. -/
def depthFolder : Folder :=
  (((Folder.empty ⟨0, ["data"]⟩ 900).write ["course-data", "courses.json"] "[]".toUTF8).write
    ["requirements", "breadth.json"] "\x7b\x7d".toUTF8).write
    ["requirements", "m.json"] "\x7b\"depth_requirement\": \x7b\x7d\x7d".toUTF8

/-- Requests that make the folder useless for another session. -/
def spoilingRequests : List Request :=
  [.delete ["requirements", "m.json"],
    .write ["course-data", "courses.json"] "\x7b\x7d".toUTF8,
    .write ["course-data", "prereqs.json"] "[]".toUTF8, .ask (.rules "n")]

/-- The folder is spoiled between two audits, and the second one gives what the first one gave. -/
theorem session_snapshots_spoiled :
    ∃ log r p r', Session.Logged (.ofFolder depthFolder depthFolder.base)
        [.majors, .ask (.rules "n")] log r ∧ Session.Settled depthFolder.base log ∧
      Load.run (Major.audit "m" ["MATH 237"]) r = (.ok p, r') ∧ p.depth.map (·.ok) = some false ∧
      (Load.run (Major.audit "m" ["MATH 237"]) (Session.run r' spoilingRequests).2).1 = .ok p := by
  obtain ⟨⟨log, hlog⟩, hall⟩ := session_snapshots depthFolder depthFolder.base
    [.majors, .ask (.rules "n")]
  obtain ⟨-, hsettled, -, -, hlater⟩ := hall log _ hlog
  have hresult : (match (Load.run (Major.audit "m" ["MATH 237"])
      (Session.run (.ofFolder depthFolder depthFolder.base) [.majors, .ask (.rules "n")]).2).1 with
      | .ok p => p.depth.map (·.ok) == some false
      | .error _ => false) = true := by decide +kernel
  match haudit : Load.run (Major.audit "m" ["MATH 237"])
      (Session.run (.ofFolder depthFolder depthFolder.base) [.majors, .ask (.rules "n")]).2 with
  | (.error e, r') => simp [haudit] at hresult
  | (.ok p, r') =>
    rw [haudit] at hresult
    have hanswer : Load.run (Question.audit "m" ["MATH 237"]).answer
        (Session.run (.ofFolder depthFolder depthFolder.base) [.majors, .ask (.rules "n")]).2 =
        (.ok (.progress p), r') := Load.run_map_eq_ok.mpr ⟨p, haudit, rfl⟩
    obtain ⟨-, hlater⟩ := hlater (.audit "m" ["MATH 237"]) "m" (.progress p) r' rfl hanswer rfl
      spoilingRequests
    obtain ⟨o, ho, -, -, hsame⟩ := hlater ["MATH 237"]
    obtain ⟨p', rfl, hp⟩ := hsame rfl
    refine ⟨log, _, p, r', hlog, hsettled, haudit, eq_of_beq hresult, ?_⟩
    rw [ho]
    exact hp

end DegreeAudit
