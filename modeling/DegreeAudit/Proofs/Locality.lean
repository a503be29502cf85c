import DegreeAudit.Proofs.CourseOrder
import DegreeAudit.Proofs.Deletion

/-!
# An audit depends on the documents it needs

Two data folders are compared through an audit of one major from a fresh registry of each.

**Agreement** (`Registry.SameFor`). The folders agree on the rules and the catalog; on the breadth
document and the named sources only if the rules have a section on breadth or depth; and on the
graph only if they have one on depth. Then the outcomes are the same, faults included. Only a path
that a fault tells differs if the folders are at different places.

**Without the graph.** The empty graph has no chains, and the first way to show depth does not read
the graph. So without the graph a chain is no longer found, and nothing else changes
(`GraphChange.removal`).
-/

namespace DegreeAudit

/-! ## Without chains -/

/-- The finding without a chain: what was shown in the second way is not shown. -/
def DepthFinding.withoutChain (f : DepthFinding) : DepthFinding :=
  { f with witness := f.witness.filter fun w => w.option ≠ 2 }

def Progress.withoutChain (p : Progress) : Progress := p.mapDepth DepthFinding.withoutChain

theorem DepthFinding.ok_withoutChain (f : DepthFinding) :
    f.withoutChain.ok = (f.ok && decide (f.option ≠ some 2)) := by
  obtain ⟨w, note⟩ := f
  cases w with
  | none => rfl
  | some w => cases w <;> rfl

/-- What is met without a chain: what was met, unless depth was shown by one. -/
theorem Progress.met_withoutChain (p : Progress) :
    p.withoutChain.met = (p.met && p.depth.all fun f => f.option ≠ some 2) := by
  have hdepth : (p.depth.map DepthFinding.withoutChain).all (·.ok) =
      (p.depth.all (·.ok) && p.depth.all fun f => f.option ≠ some 2) := by
    cases p.depth with
    | none => rfl
    | some f => exact f.ok_withoutChain
  unfold met
  exact (congrArg _ hdepth).trans (Bool.and_assoc _ _ _).symm

namespace Depth

theorem firstChained_nil (gs : List (Text × List Text)) : firstChained [] gs = none := by
  have hnone : ∀ codes, findChain [] codes = none := fun codes =>
    List.findSome?_eq_none_iff.mpr fun start _ => rfl
  refine List.findSome?_eq_none_iff.mpr fun g _ => ?_
  rw [hnone]
  rfl

/-- **The empty graph** has no chains, and the first way does not read the graph. -/
theorem analyze_nil (p : BreadthPolicy) (g : PrereqGraph) (codes : List Text) :
    analyze p [] codes = (analyze p g codes).map DepthFinding.withoutChain := by
  unfold analyze
  dsimp only
  cases hfirst : firstCounted (eligibleGroups p codes) with
  | error e => rfl
  | ok w =>
    cases w with
    | some witness =>
      obtain ⟨group, -, rfl⟩ := exists_group_of_firstCounted hfirst
      rfl
    | none =>
      have hfound : (⟨firstChained g (eligibleGroups p codes), ""⟩ : DepthFinding).withoutChain =
          ⟨none, ""⟩ := by
        cases hchain : firstChained g (eligibleGroups p codes) with
        | none => rfl
        | some witness =>
          obtain ⟨group, -, chain, -, rfl⟩ := exists_group_of_firstChained hchain
          rfl
      change Except.ok _ = Except.ok _
      rw [hfound, firstChained_nil]

end Depth

/-- The graph is taken away. -/
def GraphChange.removal : GraphChange where
  graph _ := []
  finding := DepthFinding.withoutChain
  finding_note _ _ := rfl
  analyze_graph := Depth.analyze_nil

/-! ## Agreement -/

def Section.sourceName? : Section → Option Text
  | .breadth (.text name) | .depth (.text name) => some name
  | _ => none

def RuleSet.sourceNames (rules : RuleSet) : List Text :=
  rules.sections.filterMap Section.sourceName?

theorem Document.breadth_ne_graph : Document.breadth ≠ .graph := nofun

namespace Registry

/-- Two registries read the same for the documents that a major needs, the graph excepted. -/
structure SameFor (r r' : Registry) (major : Text) : Prop where
  rules : r.SameAt r' (.rules major)
  catalog : r.SameAt r' .catalog
  sources : ∀ rules, r.held (.rules major) = .ok rules →
    Section.breadthKey ∈ rules.order ∨ Section.depthKey ∈ rules.order →
      r.SameAt r' .breadth ∧ ∀ name ∈ rules.sourceNames, r.SameAt r' (.source name)

/-- Deleting the graph changes nothing else of what a major needs. -/
theorem sameFor_deleteGraph {r : Registry} (h : r.Sited) (major : Text) :
    r.SameFor r.deleteGraph major where
  rules := sameAt_deleteGraph h (by simp)
  catalog := sameAt_deleteGraph h (by simp)
  sources _ _ _ := ⟨sameAt_deleteGraph h Document.breadth_ne_graph,
    fun _ _ => sameAt_deleteGraph h (by simp)⟩

theorem view_ofFolder (folder : Folder) (data : Path) :
    (ofFolder folder data).view = (ofFolder folder data).held := by
  funext d
  exact view_of_not_kept (by cases d <;> rfl)

end Registry

namespace Major

theorem mem_sourceDocuments {v : View} {source : Json} {d : Document}
    (h : d ∈ sourceDocuments v source) :
    d = .breadth ∨ ∃ name, source = .text name ∧ d = .source name := by
  by_cases htruthy : source.truthy = true
  · by_cases htext : ∃ name, source = .text name
    · obtain ⟨name, rfl⟩ := htext
      rw [sourceDocuments_text htruthy, List.mem_append, List.mem_singleton] at h
      rcases h with rfl | h
      · exact .inr ⟨name, rfl, rfl⟩
      · unfold fallback at h
        split at h
        · split at h
          · exact absurd h List.not_mem_nil
          · exact .inl (List.mem_singleton.mp h)
        · exact absurd h List.not_mem_nil
    · rw [sourceDocuments_of_not_text htruthy htext] at h
      exact absurd h List.not_mem_nil
  · unfold sourceDocuments at h
    rw [if_neg htruthy] at h
    exact .inl (List.mem_singleton.mp h)

/-- Every document that a major needs is its rules, the catalog, the breadth document or a named
source if there is a section on breadth or depth, or the graph if there is one on depth. -/
theorem mem_documents {v : View} {major : Text} {d : Document} (h : d ∈ documents v major) :
    d = .rules major ∨ d = .catalog ∨ ∃ rules, v (.rules major) = .ok rules ∧
      ((Section.breadthKey ∈ rules.order ∨ Section.depthKey ∈ rules.order) ∧
          (d = .breadth ∨ ∃ name ∈ rules.sourceNames, d = .source name) ∨
        Section.depthKey ∈ rules.order ∧ d = .graph) := by
  rw [documents, List.mem_cons, List.mem_cons] at h
  rcases h with rfl | rfl | h
  · exact .inl rfl
  · exact .inr (.inl rfl)
  · refine .inr (.inr ?_)
    cases hrules : v (.rules major) with
    | error e =>
      rw [hrules] at h
      exact absurd h List.not_mem_nil
    | ok rules =>
      rw [hrules] at h
      obtain ⟨sec, hsec, hd⟩ := List.mem_flatMap.mp h
      have hkey : sec.key ∈ rules.order := List.mem_map_of_mem hsec
      have hname : ∀ name, sec.sourceName? = some name → name ∈ rules.sourceNames :=
        fun name h => List.mem_filterMap.mpr ⟨sec, hsec, h⟩
      refine ⟨rules, rfl, ?_⟩
      cases sec with
      | requirements | communication => exact absurd hd List.not_mem_nil
      | breadth source =>
        refine .inl ⟨.inl hkey, (mem_sourceDocuments hd).imp_right ?_⟩
        rintro ⟨name, rfl, rfl⟩
        exact ⟨name, hname name rfl, rfl⟩
      | depth source =>
        rcases List.mem_cons.mp hd with rfl | hd
        · exact .inr ⟨hkey, rfl⟩
        · refine .inl ⟨.inr hkey, (mem_sourceDocuments hd).imp_right ?_⟩
          rintro ⟨name, rfl, rfl⟩
          exact ⟨name, hname name rfl, rfl⟩

/-- The outcome of an audit from a fresh registry of a data folder. -/
def outcome (major : Text) (courses : List Text) (folder : Folder) (data : Path) :
    Except Fault Progress :=
  (Load.run (audit major courses) (.ofFolder folder data)).1

section

variable {tell : Fault → Fault} {c : GraphChange} {major : Text} {folder folder' : Folder}
  {data data' : Path}

/-- **Agreement is enough.** If documents read the same are shown the same, and the graph is shown
as changed where it is needed, then the outcomes follow each other. -/
theorem outcome_follows (courses : List Text)
    (hsame : Registry.SameFor (.ofFolder folder data) (.ofFolder folder' data') major)
    (hshown : ∀ d, d ≠ .graph →
      Registry.SameAt (.ofFolder folder data) (.ofFolder folder' data') d → Follows tell id ((Registry.ofFolder folder data).held d)
        ((Registry.ofFolder folder' data').held d))
    (hgraph : ∀ rules, (Registry.ofFolder folder data).held (.rules major) = .ok rules →
      Section.depthKey ∈ rules.order →
        Follows tell c.graph (Registry.ofFolder folder data).readGraph
          (Registry.ofFolder folder' data').readGraph) :
    Follows tell (Progress.mapDepth c.finding) (outcome major courses folder data)
      (outcome major courses folder' data') := by
  refine audit_follows courses fun d hd => ?_
  rw [Registry.view_ofFolder] at hd
  rw [Registry.view_ofFolder, Registry.view_ofFolder]
  rcases mem_documents hd with rfl | rfl | ⟨rules, hrules, ⟨hkey, hd⟩ | ⟨hkey, rfl⟩⟩
  · exact hshown _ (by simp) hsame.rules
  · exact hshown _ (by simp) hsame.catalog
  · obtain ⟨hbreadth, hnamed⟩ := hsame.sources rules hrules hkey
    rcases hd with rfl | ⟨name, hname, rfl⟩
    · exact hshown _ Document.breadth_ne_graph hbreadth
    · exact hshown _ (by simp) (hnamed name hname)
  · exact hgraph rules hrules hkey

/-- In one data folder, what is read the same is held the same. -/
theorem outcome_follows_in_place (courses : List Text)
    (hsame : Registry.SameFor (.ofFolder folder data) (.ofFolder folder' data) major)
    (hgraph : ∀ rules, (Registry.ofFolder folder data).held (.rules major) = .ok rules →
      Section.depthKey ∈ rules.order →
        Follows id c.graph (Registry.ofFolder folder data).readGraph
          (Registry.ofFolder folder' data).readGraph) :
    outcome major courses folder' data =
      (outcome major courses folder data).map (Progress.mapDepth c.finding) := by
  refine (outcome_follows courses hsame (fun d _ h => ?_) hgraph).eq_map
  rw [Registry.held_eq h]
  exact follows_self id _

theorem outcome_of_missing_graph (courses : List Text) {g : PrereqGraph} {path : Text}
    (hsame : Registry.SameFor (.ofFolder folder data) (.ofFolder folder' data) major)
    (hok : (Registry.ofFolder folder data).readGraph = .ok g)
    (hmissing :
      folder'.read (Registry.ofFolder folder' data).prereqsPath = .error (.missing path)) :
    outcome major courses folder' data =
      (outcome major courses folder data).map Progress.withoutChain := by
  refine outcome_follows_in_place (c := .removal) courses hsame fun _ _ _ => ?_
  rw [hok, Registry.readGraph_of_missing hmissing]
  exact .ok g

end

end Major

/-- **Locality and deletion.** The outcome of an audit depends on the documents needed:

* it is the same for two data folders that agree on them, but for the path that a fault tells, which
  is the same as well if the one folder stands in the place of the other;
* if the graph could be read in one folder and is missing in another one in its place, then what was
  shown by a chain is lost, and nothing else;
* so it is if the graph is deleted;
* what is met then is what was met before, unless depth was shown by a chain. -/
theorem audit_locality (major : Text) (courses : List Text) :
    (∀ (folder folder' : Folder) (data data' : Path),
      Registry.SameFor (.ofFolder folder data) (.ofFolder folder' data') major →
      (∀ rules, (Registry.ofFolder folder data).held (.rules major) = .ok rules →
        Section.depthKey ∈ rules.order →
          Registry.SameAt (.ofFolder folder data) (.ofFolder folder' data') .graph) →
      (Major.outcome major courses folder' data').mapError Fault.unplaced =
          (Major.outcome major courses folder data).mapError Fault.unplaced ∧
        (data' = data →
          Major.outcome major courses folder' data' = Major.outcome major courses folder data)) ∧
    (∀ (folder folder' : Folder) (data : Path) (g : PrereqGraph) (path : Text),
      Registry.SameFor (.ofFolder folder data) (.ofFolder folder' data) major →
      (Registry.ofFolder folder data).readGraph = .ok g →
      folder'.read (Registry.ofFolder folder' data).prereqsPath = .error (.missing path) →
        Major.outcome major courses folder' data =
          (Major.outcome major courses folder data).map Progress.withoutChain) ∧
    (∀ (folder : Folder) (data : Path) (g : PrereqGraph),
      (Registry.ofFolder folder data).Sited → (Registry.ofFolder folder data).readGraph = .ok g →
        Major.outcome major courses
            (folder.delete (folder.below (Registry.ofFolder folder data).prereqsPath)) data =
          (Major.outcome major courses folder data).map Progress.withoutChain) ∧
    ∀ p : Progress, p.withoutChain.met = (p.met && p.depth.all fun f => f.option ≠ some 2) := by
  refine ⟨?_, ?_, ?_, Progress.met_withoutChain⟩
  · intro folder folder' data data' hsame hgraph
    refine ⟨?_, ?_⟩
    · have hfollows := Major.outcome_follows (c := .none) courses hsame
        (fun d _ h => Registry.held_follows h)
        fun rules hrules hkey => Registry.held_follows (hgraph rules hrules hkey)
      rw [hfollows.mapError_eq, Progress.mapDepth_none, Except.map_id]
      rfl
    · rintro rfl
      have hsame' := Major.outcome_follows_in_place (c := .none) courses hsame
        fun rules hrules hkey => by
          have hheld : (Registry.ofFolder folder' data').readGraph =
              (Registry.ofFolder folder data').readGraph :=
            Registry.held_eq (hgraph rules hrules hkey)
          rw [hheld]
          exact follows_self id _
      rw [hsame', Progress.mapDepth_none, Except.map_id]
      rfl
  · intro folder folder' data g path hsame hok hmissing
    exact Major.outcome_of_missing_graph courses hsame hok hmissing
  · intro folder data g hsited hok
    have hsame := Registry.sameFor_deleteGraph hsited major
    exact Major.outcome_of_missing_graph courses hsame hok (Registry.read_deleteGraph hsited hok)

/-! ## A chain that is lost -/

/-- Whether a result passes a check. -/
def passes {α : Type} (check : α → Bool) : Except Fault α → Bool
  | .ok a => check a
  | .error _ => false

theorem exists_of_passes {α : Type} {check : α → Bool} {x : Except Fault α}
    (h : passes check x = true) : ∃ a, x = .ok a ∧ check a = true := by
  cases x with
  | ok a => exact ⟨a, rfl, h⟩
  | error e => exact absurd h Bool.false_ne_true

def dataPath : Path := ⟨0, ["data"]⟩

def copyPath : Path := ⟨0, ["copy"]⟩

/-- A data folder with a major that has a depth requirement, and without the graph. -/
def bareFolder (base : Path) : Folder :=
  ((((Folder.empty base 900).write ["course-data", "courses.json"] "[]".toUTF8).write
    ["requirements", "breadth.json"] "\x7b\"pure_sciences\": [\"MATH\"]\x7d".toUTF8).write
    ["requirements", "depth.json"] "\x7b\"description\": \"Depth.\"\x7d".toUTF8).write
    ["requirements", "m.json"]
      "\x7b\"depth_requirement\": \x7b\"source\": \"depth.json\"\x7d\x7d".toUTF8

def chainFolder (base : Path) : Folder :=
  (bareFolder base).write ["course-data", "prereqs.json"]
    ("\x7b\"MATH 237\": \x7b\"prereq_codes\": [\"MATH 136\"]\x7d, ".toUTF8 ++
      "\"MATH 136\": \x7b\"prereq_codes\": [\"MATH 106\"]\x7d\x7d".toUTF8)

def widerFolder (base : Path) : Folder :=
  (chainFolder base).write ["requirements", "n.json"] "[]".toUTF8

def chainCourses : List Text := ["MATH 237", "MATH 136", "MATH 106"]

/-- A further major changes nothing, here or in a copy of the folder. Without the graph the chain is
lost, whether the graph was never there or is deleted. -/
theorem audit_locality_chain : ∃ p,
    Major.outcome "m" chainCourses (chainFolder dataPath) dataPath = .ok p ∧
    p.met = true ∧ p.depth.map (·.option) = some (some 2) ∧
    (Major.outcome "m" chainCourses (widerFolder copyPath) copyPath).mapError Fault.unplaced =
      .ok p ∧
    Major.outcome "m" chainCourses (widerFolder dataPath) dataPath = .ok p ∧
    Major.outcome "m" chainCourses (bareFolder dataPath) dataPath = .ok p.withoutChain ∧
    Major.outcome "m" chainCourses ((chainFolder dataPath).delete ["course-data", "prereqs.json"])
      dataPath = .ok p.withoutChain ∧
    p.withoutChain.met = false := by
  obtain ⟨hagree, hmissing, hdeleted, hmet⟩ := audit_locality "m" chainCourses
  obtain ⟨p, hrun, hp⟩ : ∃ p, Major.outcome "m" chainCourses (chainFolder dataPath) dataPath =
      .ok p ∧ (p.met && p.depth.map (·.option) == some (some 2)) = true :=
    exists_of_passes (by decide +kernel)
  obtain ⟨g, hgraph, -⟩ : ∃ g, (Registry.ofFolder (chainFolder dataPath) dataPath).readGraph =
      .ok g ∧ true = true := exists_of_passes (by decide +kernel)
  obtain ⟨rules, hread, hnames⟩ : ∃ rules,
      (Registry.ofFolder (chainFolder dataPath) dataPath).readRules "m" = .ok rules ∧
        (rules.sourceNames == [("depth.json" : Text)]) = true :=
    exists_of_passes (by decide +kernel)
  -- the documents needed are the same files
  have hdepth : ∀ base, (chainFolder base).maxDepth = 900 ∧ (widerFolder base).maxDepth = 900 ∧
      (bareFolder base).maxDepth = 900 := fun _ => ⟨rfl, rfl, rfl⟩
  have hsame : ∀ (folder : Folder) (data : Path),
      folder.maxDepth = (chainFolder dataPath).maxDepth →
      (∀ d ∈ [Document.rules "m", .catalog, .breadth, .source "depth.json"],
        ∀ p ∈ (Registry.ofFolder (chainFolder dataPath) dataPath).target? d,
        ∀ p' ∈ (Registry.ofFolder folder data).target? d,
          folder.look p' = (chainFolder dataPath).look p) →
      Registry.SameFor (.ofFolder (chainFolder dataPath) dataPath) (.ofFolder folder data)
        "m" := by
    intro folder data hlimit h
    refine ⟨Registry.sameAt_of_look hlimit (h _ (by simp)),
      Registry.sameAt_of_look hlimit (h _ (by simp)), ?_⟩
    intro rules' hrules _
    obtain rfl := Except.ok.inj (hread.symm.trans hrules)
    refine ⟨Registry.sameAt_of_look hlimit (h _ (by simp)), fun name hname => ?_⟩
    rw [eq_of_beq hnames, List.mem_singleton] at hname
    obtain rfl := hname
    exact Registry.sameAt_of_look hlimit (h _ (by simp))
  have hchain := (hdepth dataPath).1.symm
  have hwide : ∀ base, (widerFolder base).maxDepth = (chainFolder dataPath).maxDepth := fun base =>
    (hdepth base).2.1.trans hchain
  have hcopy := hsame (widerFolder copyPath) copyPath (hwide copyPath) (by decide +kernel)
  have hwider := hsame (widerFolder dataPath) dataPath (hwide dataPath) (by decide +kernel)
  have hbare := hsame (bareFolder dataPath) dataPath ((hdepth dataPath).2.2.trans hchain)
    (by decide +kernel)
  have hcopied := (hagree _ _ _ _ hcopy fun _ _ _ =>
    Registry.sameAt_of_look (hwide copyPath) (by decide +kernel)).1
  have hwidened := (hagree _ _ _ _ hwider fun _ _ _ =>
    Registry.sameAt_of_look (hwide dataPath) (by decide +kernel)).2 rfl
  have hlook : (bareFolder dataPath).look
      (Registry.ofFolder (bareFolder dataPath) dataPath).prereqsPath = .nothing := by decide +kernel
  have hbared := hmissing _ _ _ _ _ hbare hgraph (by rw [Folder.read, hlook])
  have hsited : (Registry.ofFolder (chainFolder dataPath) dataPath).Sited :=
    ⟨by decide +kernel, by decide +kernel, by decide +kernel⟩
  have hbelow : (chainFolder dataPath).below
      (Registry.ofFolder (chainFolder dataPath) dataPath).prereqsPath =
        ["course-data", "prereqs.json"] := by decide +kernel
  have hlost := hdeleted _ _ g hsited hgraph
  rw [hbelow, hrun] at hlost
  rw [hrun] at hcopied hwidened hbared
  rw [Bool.and_eq_true] at hp
  have hoption := eq_of_beq hp.2
  refine ⟨p, hrun, hp.1, hoption, hcopied, hwidened, hbared, hlost, ?_⟩
  obtain ⟨f, hf, hchain⟩ := Option.map_eq_some_iff.mp hoption
  rw [hmet, hf]
  simp [hchain]

end DegreeAudit
