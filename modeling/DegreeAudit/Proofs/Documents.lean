import DegreeAudit.Audit.Major

/-!
# Documents and what is asked of them

A registry has four kinds of documents: the catalog, the graph, the rules of each major and the
sources by name. All are loaded in one way, which is said once: what a registry has *kept* of a
document it shows again, and otherwise it shows what its folder *holds*, and keeps that unless it is
a fault (`Load.run_document`).

**Views.** What a registry shows of all its documents is its *view*. Loading a document does not
change the view (`Registry.view_settle`), so a computation that loads many documents sees one view
from its beginning to its end.

**Readings.** `x.Reads r ds` says that the computation `x` asks from the registry `r` for the
documents `ds`, and for nothing else: from every registry that shows the same of them it has the
same result, and leaves them settled. Readings are put together as computations are
(`Load.Reads.bind`, `Load.Reads.handled`).
-/

namespace DegreeAudit

/-! ## Documents -/

/-- A document that a registry can load. -/
inductive Document where
  | catalog
  | graph
  | rules (major : Text)
  | source (name : Text)
deriving DecidableEq

namespace Document

/-- What is kept of a document. -/
abbrev Content : Document → Type
  | catalog => Catalog
  | graph => PrereqGraph
  | rules _ => RuleSet
  | source _ => Fields

def breadth : Document := source Registry.breadthName

end Document

/-- What each document is shown as: its content or a fault. -/
abbrev View := (d : Document) → Except Fault d.Content

namespace Registry

/-- What the registry has kept of a document. -/
def kept (r : Registry) : (d : Document) → Option d.Content
  | .catalog => r.catalog
  | .graph => r.graph
  | .rules major => r.rules.lookup major
  | .source name => r.sources.lookup name

/-- What the folder holds of a document. -/
def held (r : Registry) : (d : Document) → Except Fault d.Content
  | .catalog => r.readCatalog
  | .graph => r.readGraph
  | .rules major => r.readRules major
  | .source name => r.readSource name

/-- The registry with a document kept. -/
def keep (r : Registry) : (d : Document) → d.Content → Registry
  | .catalog, c => { r with catalog := some c }
  | .graph, g => { r with graph := some g }
  | .rules major, rs => { r with rules := (major, rs) :: r.rules }
  | .source name, fields => { r with sources := (name, fields) :: r.sources }

/-- What the registry shows: what it has kept, and else what the folder holds. -/
def view (r : Registry) : View := fun d =>
  match r.kept d with
  | some c => .ok c
  | none => r.held d

/-- The registry after a document was asked for. -/
def settle (r : Registry) (d : Document) : Registry :=
  match r.kept d, r.held d with
  | none, .ok c => r.keep d c
  | _, _ => r

/-- The registry after some documents were asked for. -/
def settleAll (r : Registry) (ds : List Document) : Registry := ds.foldl settle r

end Registry

def Load.document : (d : Document) → Load d.Content
  | .catalog => Load.catalog
  | .graph => Load.graph
  | .rules major => Load.rules major
  | .source name => Load.sourceNamed name

namespace Load

/-- The way in which every document is loaded. -/
def keeping {α : Type} (kept : Registry → Option α) (held : Registry → Except Fault α)
    (keep : Registry → α → Registry) : Load α := do
  let r ← get
  match kept r with
  | some c => return c
  | none => do
    let c ← ofExcept (held r)
    modify fun r => keep r c
    return c

theorem run_keeping {α : Type} (kept : Registry → Option α) (held : Registry → Except Fault α)
    (keep : Registry → α → Registry) (r : Registry) :
    run (keeping kept held keep) r =
      match kept r, held r with
      | some c, _ => (.ok c, r)
      | none, .ok c => (.ok c, keep r c)
      | none, .error e => (.error e, r) := by
  have hget : run (keeping kept held keep) r = run (match kept r with
      | some c => return c
      | none => do
        let c ← ofExcept (held r)
        modify fun r => keep r c
        return c) r := rfl
  rw [hget]
  cases kept r with
  | some c => rfl
  | none =>
    cases hheld : held r with
    | ok c => rfl
    | error e => rfl

theorem document_eq_keeping (d : Document) :
    document d = keeping (·.kept d) (·.held d) (·.keep d) := by
  cases d with
  | catalog =>
    refine congrArg (bind get) (funext fun r => ?_)
    dsimp only [Registry.kept]
    cases r.catalog <;> rfl
  | graph =>
    refine congrArg (bind get) (funext fun r => ?_)
    dsimp only [Registry.kept]
    cases r.graph <;> rfl
  | rules major =>
    refine congrArg (bind get) (funext fun r => ?_)
    dsimp only [Registry.kept]
    cases r.rules.lookup major <;> rfl
  | source name =>
    refine congrArg (bind get) (funext fun r => ?_)
    dsimp only [Registry.kept]
    cases r.sources.lookup name <;> rfl

/-- **Loading.** A document that is asked for is given as the registry shows it. -/
theorem run_document (d : Document) (r : Registry) :
    run (document d) r = (r.view d, r.settle d) := by
  rw [document_eq_keeping, run_keeping, Registry.view, Registry.settle]
  cases r.kept d with
  | some c => rfl
  | none => cases r.held d <;> rfl

end Load

namespace Registry

/-! ## Keeping -/

theorem kept_keep_self (r : Registry) (d : Document) (c : d.Content) :
    (r.keep d c).kept d = some c := by
  cases d with
  | catalog | graph => rfl
  | rules major => exact List.lookup_cons_self
  | source name => exact List.lookup_cons_self

theorem kept_keep_of_ne (r : Registry) {d d' : Document} (c : d.Content) (h : d' ≠ d) :
    (r.keep d c).kept d' = r.kept d' := by
  cases d with
  | catalog => cases d' <;> first | rfl | exact absurd rfl h
  | graph => cases d' <;> first | rfl | exact absurd rfl h
  | rules major =>
    cases d' with
    | rules other =>
      have hne : (other == major) = false := beq_false_of_ne fun heq => h (heq ▸ rfl)
      have hlookup : ∀ rs, ((major, rs) :: r.rules).lookup other = r.rules.lookup other :=
        fun rs => by rw [List.lookup_cons, hne]
      exact hlookup c
    | catalog | graph | source => rfl
  | source name =>
    cases d' with
    | source other =>
      have hne : (other == name) = false := beq_false_of_ne fun heq => h (heq ▸ rfl)
      have hlookup : ∀ fields,
          ((name, fields) :: r.sources).lookup other = r.sources.lookup other :=
        fun fields => by rw [List.lookup_cons, hne]
      exact hlookup c
    | catalog | graph | rules => rfl

@[simp] theorem folder_keep (r : Registry) (d : Document) (c : d.Content) :
    (r.keep d c).folder = r.folder := by
  cases d <;> rfl

@[simp] theorem data_keep (r : Registry) (d : Document) (c : d.Content) :
    (r.keep d c).data = r.data := by
  cases d <;> rfl

theorem held_congr {r r' : Registry} (hfolder : r.folder = r'.folder) (hdata : r.data = r'.data)
    (d : Document) : r.held d = r'.held d := by
  obtain ⟨folder, data, _, _, _, _⟩ := r
  obtain ⟨folder', data', _, _, _, _⟩ := r'
  obtain rfl : folder = folder' := hfolder
  obtain rfl : data = data' := hdata
  cases d <;> rfl

theorem view_of_kept {r : Registry} {d : Document} {c : d.Content} (h : r.kept d = some c) :
    r.view d = .ok c := by
  rw [view, h]

theorem view_of_not_kept {r : Registry} {d : Document} (h : r.kept d = none) :
    r.view d = r.held d := by
  rw [view, h]

/-! ## Settling -/

/-- Settling a document changes nothing, or it keeps what the folder holds. -/
theorem settle_cases (r : Registry) (d : Document) :
    r.settle d = r ∧ ((∃ c, r.kept d = some c) ∨ ∃ e, r.view d = .error e) ∨
      ∃ c, r.kept d = none ∧ r.view d = .ok c ∧ r.settle d = r.keep d c := by
  cases hkept : r.kept d with
  | some c => exact .inl ⟨by rw [settle, hkept], .inl ⟨c, rfl⟩⟩
  | none =>
    rw [view_of_not_kept hkept]
    cases hheld : r.held d with
    | error e => exact .inl ⟨by rw [settle, hkept, hheld], .inr ⟨e, rfl⟩⟩
    | ok c => exact .inr ⟨c, rfl, rfl, by rw [settle, hkept, hheld]⟩

theorem folder_settle (r : Registry) (d : Document) : (r.settle d).folder = r.folder := by
  obtain ⟨h, -⟩ | ⟨c, -, -, h⟩ := r.settle_cases d
  · rw [h]
  · rw [h, folder_keep]

theorem data_settle (r : Registry) (d : Document) : (r.settle d).data = r.data := by
  obtain ⟨h, -⟩ | ⟨c, -, -, h⟩ := r.settle_cases d
  · rw [h]
  · rw [h, data_keep]

/-- What is kept after settling a document: what was kept before, and the document if it is
shown. -/
theorem kept_settle_iff {r : Registry} {d d' : Document} {c : d'.Content} :
    (r.settle d).kept d' = some c ↔ r.kept d' = some c ∨ d' = d ∧ r.view d' = .ok c := by
  obtain ⟨h, hdone⟩ | ⟨c₁, hkept, hview, h⟩ := r.settle_cases d
  · rw [h]
    refine ⟨.inl, ?_⟩
    rintro (hc | ⟨rfl, hc⟩)
    · exact hc
    · obtain ⟨c₁, hc₁⟩ | ⟨e, he⟩ := hdone
      · rw [view_of_kept hc₁] at hc
        rw [hc₁, Except.ok.inj hc]
      · simp [he] at hc
  · rw [h]
    by_cases hd : d' = d
    · subst hd
      rw [kept_keep_self, hkept, hview]
      simp
    · rw [kept_keep_of_ne _ _ hd]
      simp [hd]

/-- **One view.** Settling a document does not change what the registry shows. -/
theorem view_settle (r : Registry) (d : Document) : (r.settle d).view = r.view := by
  funext d'
  cases hkept : (r.settle d).kept d' with
  | some c =>
    rw [view_of_kept hkept]
    rcases kept_settle_iff.mp hkept with hc | ⟨-, hc⟩
    · exact (view_of_kept hc).symm
    · exact hc.symm
  | none =>
    have hbefore : r.kept d' = none := by
      rw [Option.eq_none_iff_forall_ne_some]
      intro c hc
      rw [kept_settle_iff.mpr (.inl hc)] at hkept
      exact Option.some_ne_none c hkept
    rw [view_of_not_kept hkept, view_of_not_kept hbefore]
    exact held_congr (r.folder_settle d) (r.data_settle d) d'

section

variable (r : Registry) (ds : List Document)

theorem settleAll_append (ds' : List Document) :
    r.settleAll (ds ++ ds') = (r.settleAll ds).settleAll ds' := List.foldl_append

@[simp] theorem data_settleAll : (r.settleAll ds).data = r.data := by
  induction ds generalizing r with
  | nil => rfl
  | cons d rest ih => exact (ih (r.settle d)).trans (r.data_settle d)

@[simp] theorem view_settleAll : (r.settleAll ds).view = r.view := by
  induction ds generalizing r with
  | nil => rfl
  | cons d rest ih => exact (ih (r.settle d)).trans (r.view_settle d)

end

theorem kept_settleAll_iff {r : Registry} {ds : List Document} {d : Document} {c : d.Content} :
    (r.settleAll ds).kept d = some c ↔ r.kept d = some c ∨ d ∈ ds ∧ r.view d = .ok c := by
  induction ds generalizing r with
  | nil => simp [settleAll]
  | cons d' rest ih =>
    have hcons : r.settleAll (d' :: rest) = (r.settle d').settleAll rest := rfl
    rw [hcons, ih, kept_settle_iff, view_settle, List.mem_cons, or_and_right, or_assoc]

theorem settleAll_of_kept {r : Registry} {ds : List Document}
    (h : ∀ d ∈ ds, ∃ c, r.kept d = some c) : r.settleAll ds = r := by
  induction ds with
  | nil => rfl
  | cons d rest ih =>
    obtain ⟨c, hc⟩ := h d List.mem_cons_self
    have hsettle : r.settle d = r := by rw [settle, hc]
    have hcons : r.settleAll (d :: rest) = (r.settle d).settleAll rest := rfl
    rw [hcons, hsettle]
    exact ih fun d' hd' => h d' (List.mem_cons_of_mem d hd')

end Registry

/-! ## Readings -/

namespace Load

/-- From a registry, a computation asks for the documents of a list and for nothing else. -/
def Reads {α : Type} (x : Load α) (r : Registry) (ds : List Document) : Prop :=
  ∀ r' : Registry, (∀ d ∈ ds, r'.view d = r.view d) →
    run x r' = ((run x r).1, r'.settleAll ds)

section

variable {α β : Type} {x : Load α} {r : Registry} {ds ds' : List Document}

theorem Reads.run_eq (h : x.Reads r ds) : run x r = ((run x r).1, r.settleAll ds) :=
  h r fun _ _ => rfl

theorem Reads.registry (h : x.Reads r ds) : (run x r).2 = r.settleAll ds := by
  rw [h.run_eq]

/-- **Locality.** A registry that shows the same of the documents gives the same result. -/
theorem Reads.result (h : x.Reads r ds) {r' : Registry}
    (hview : ∀ d ∈ ds, r'.view d = r.view d) : (run x r').1 = (run x r).1 := by
  rw [h r' hview]

theorem reads_ofExcept (e : Except Fault α) (r : Registry) : (ofExcept e).Reads r [] :=
  fun _ _ => rfl

theorem reads_pure (a : α) (r : Registry) : (pure a : Load α).Reads r [] := fun _ _ => rfl

theorem reads_document (d : Document) (r : Registry) : (document d).Reads r [d] := by
  intro r' hview
  rw [run_document, run_document, hview d List.mem_cons_self]
  rfl

theorem run_bind_of_ok {f : α → Load β} {a : α} (h : (run x r).1 = .ok a) :
    run (x >>= f) r = run (f a) (run x r).2 := by
  have hx : run x r = (.ok a, (run x r).2) := Prod.ext h rfl
  rw [run_bind, hx]

theorem run_bind_of_error {f : α → Load β} {e : Fault} (h : (run x r).1 = .error e) :
    run (x >>= f) r = (.error e, (run x r).2) := by
  have hx : run x r = (.error e, (run x r).2) := Prod.ext h rfl
  rw [run_bind, hx]

theorem run_map_eq_ok {f : α → β} {b : β} {r' : Registry} :
    run (x >>= fun a => pure (f a)) r = (.ok b, r') ↔ ∃ a, run x r = (.ok a, r') ∧ f a = b := by
  simp only [run_bind_eq_ok, run_pure, Prod.mk.injEq, Except.ok.injEq]
  constructor
  · rintro ⟨a, r₁, hx, rfl, rfl⟩
    exact ⟨a, hx, rfl⟩
  · rintro ⟨a, hx, rfl⟩
    exact ⟨a, r', hx, rfl, rfl⟩

theorem run_map_of_ok {f : α → β} {a : α} (h : (run x r).1 = .ok a) :
    (run (x >>= fun a => pure (f a)) r).1 = .ok (f a) := by
  rw [run_bind_of_ok h, run_pure]

/-- A handler is run after a fault only, with what was loaded before. -/
theorem run_tryCatch (x : Load α) (handle : Fault → Load α) (r : Registry) :
    run (tryCatch x handle) r =
      match run x r with
      | (.ok a, r') => (.ok a, r')
      | (.error e, r') => run (handle e) r' := by
  simp only [run, ExceptT.run, StateT.run, tryCatch, tryCatchThe, MonadExceptOf.tryCatch,
    ExceptT.tryCatch, ExceptT.mk, bind, StateT.bind]
  cases x r with
  | mk result _ => cases result <;> rfl

theorem run_tryCatch_of_ok {handle : Fault → Load α} {a : α} (h : (run x r).1 = .ok a) :
    run (tryCatch x handle) r = run x r := by
  have hx : run x r = (.ok a, (run x r).2) := Prod.ext h rfl
  rw [run_tryCatch, hx]

theorem run_tryCatch_of_error {handle : Fault → Load α} {e : Fault} (h : (run x r).1 = .error e) :
    run (tryCatch x handle) r = run (handle e) (run x r).2 := by
  have hx : run x r = (.error e, (run x r).2) := Prod.ext h rfl
  rw [run_tryCatch, hx]

theorem Reads.andThen (h : x.Reads r ds) {y : Load β} (hy : y.Reads (run x r).2 ds')
    {r' : Registry} (hview : ∀ d ∈ ds ++ ds', r'.view d = r.view d) :
    run y (run x r').2 = ((run y (run x r).2).1, r'.settleAll (ds ++ ds')) := by
  have hfirst := h r' fun d hd => hview d (List.mem_append_left _ hd)
  rw [hfirst, Registry.settleAll_append]
  refine hy (r'.settleAll ds) fun d hd => ?_
  rw [h.registry, Registry.view_settleAll, Registry.view_settleAll]
  exact hview d (List.mem_append_right _ hd)

/-- **Sequence.** A second part is read after the first one has given a result. -/
theorem Reads.bind {f : α → Load β} {a : α} (h : x.Reads r ds) (ha : (run x r).1 = .ok a)
    (hf : (f a).Reads (run x r).2 ds') : (x >>= f).Reads r (ds ++ ds') := by
  intro r' hview
  have ha' : (run x r').1 = .ok a :=
    (h.result fun d hd => hview d (List.mem_append_left _ hd)).trans ha
  rw [run_bind_of_ok ha, run_bind_of_ok ha', h.andThen hf hview]

theorem Reads.bind_error {f : α → Load β} {e : Fault} (h : x.Reads r ds)
    (he : (run x r).1 = .error e) : (x >>= f).Reads r ds := by
  intro r' hview
  have he' : (run x r').1 = .error e := (h.result hview).trans he
  rw [run_bind_of_error he, run_bind_of_error he', h r' hview]

/-- **Faults that are handled.** A handler is read after the fault. -/
theorem Reads.handled {handle : Fault → Load α} {e : Fault} (h : x.Reads r ds)
    (he : (run x r).1 = .error e) (hhandle : (handle e).Reads (run x r).2 ds') :
    (tryCatch x handle).Reads r (ds ++ ds') := by
  intro r' hview
  have he' : (run x r').1 = .error e :=
    (h.result fun d hd => hview d (List.mem_append_left _ hd)).trans he
  rw [run_tryCatch_of_error he, run_tryCatch_of_error he', h.andThen hhandle hview]

theorem Reads.unhandled {handle : Fault → Load α} {a : α} (h : x.Reads r ds)
    (ha : (run x r).1 = .ok a) : (tryCatch x handle).Reads r ds := by
  intro r' hview
  have ha' : (run x r').1 = .ok a := (h.result hview).trans ha
  rw [run_tryCatch_of_ok ha, run_tryCatch_of_ok ha', h r' hview]

end

end Load

end DegreeAudit
