import DegreeAudit.Proofs.Following

/-!
# Where documents lie

Each document is read from one path, if its name is one (`Registry.target?`). What a registry holds
of a document depends on nothing but the data folder and what is read from there
(`Registry.held_follows`), and of the data folder only the path that a fault tells depends. So what
two registries hold can be compared through what they read (`Registry.SameAt`), also if their data
folders are at different places.
-/

namespace DegreeAudit

/-! ## Faults without paths -/

/-- The fault with another path, if it tells one. -/
def Fault.placed (path : Text) : Fault → Fault
  | .malformed (.notJson _ why place) => .malformed (.notJson path why place)
  | .malformed (.graphNotObject _) => .malformed (.graphNotObject path)
  | .missing _ => .missing path
  | e => e

/-- The fault without the path that it tells. -/
def Fault.unplaced : Fault → Fault := Fault.placed ""

theorem Fault.placed_unplaced (path : Text) (e : Fault) :
    e.unplaced.placed path = e.placed path := by
  cases e with
  | malformed why => cases why <;> rfl
  | _ => rfl

theorem Fault.missing_of_unplaced {e : Fault} {path : Text}
    (h : e.unplaced = (missing path).unplaced) : ∃ path', e = .missing path' := by
  cases e with
  | missing path' => exact ⟨path', rfl⟩
  | malformed why => cases why <;> cases h
  | _ => cases h

/-- What is read from a path faults with this path. -/
theorem Folder.placed_of_read {d : Folder} {p : Path} {e : Fault} (h : d.read p = .error e) :
    e.placed p.toText = e := by
  unfold read at h
  split at h
  · cases h; rfl
  · cases h; rfl
  · cases h; rfl
  · unfold readBytes at h
    split at h
    · cases h; rfl
    · dsimp only at h
      split at h
      all_goals cases h
      all_goals rfl

theorem Folder.read_follows_of_look {d d' : Folder} {p p' : Path}
    (hdepth : d'.maxDepth = d.maxDepth) (h : d'.look p' = d.look p) : Follows Fault.unplaced id (d.read p) (d'.read p') := by
  unfold read
  rw [h, hdepth]
  cases d.look p with
  | file bytes =>
    dsimp only
    unfold readBytes
    cases String.fromUTF8? bytes with
    | none => exact .error rfl
    | some s =>
      dsimp only
      split
      · exact .ok _
      all_goals exact .error rfl
  | folder | nothing | overlong => exact .error rfl

theorem Folder.read_eq_of_follows {d d' : Folder} {p : Path}
    (h : Follows Fault.unplaced id (d.read p) (d'.read p)) : d'.read p = d.read p := by
  generalize hread : d.read p = x at h
  generalize hread' : d'.read p = y at h
  cases h with
  | ok v => rfl
  | @error e e' h =>
    have hplaced : e'.placed p.toText = e.placed p.toText := by
      rw [← e'.placed_unplaced, h, e.placed_unplaced]
    rw [placed_of_read hread, placed_of_read hread'] at hplaced
    rw [hplaced]

/-! ## Paths of documents -/

namespace Registry

/-- The path that is read for a document, if its name is one. -/
def target? (r : Registry) : Document → Option Path
  | .catalog => some r.catalogPath
  | .graph => some r.prereqsPath
  | .rules major => r.rulesTarget? major
  | .source name => r.sourceTarget? name

/-- Two registries read the same for a document, but for the path that a fault tells. -/
def SameAt (r r' : Registry) (d : Document) : Prop :=
  ∀ p p', r.target? d = some p → r'.target? d = some p' →
    (r'.folder.read p').mapError Fault.unplaced = (r.folder.read p).mapError Fault.unplaced

section

variable {r r' : Registry} {d : Document}

/-- Folders with the same file for a document, or without one, agree on it. -/
theorem sameAt_of_look (hdepth : r'.folder.maxDepth = r.folder.maxDepth)
    (h : ∀ p ∈ r.target? d, ∀ p' ∈ r'.target? d, r'.folder.look p' = r.folder.look p) :
    r.SameAt r' d := by
  intro p p' hp hp'
  have hread := (Folder.read_follows_of_look hdepth (h p hp p' hp')).mapError_eq
  rw [Except.map_id] at hread
  exact hread

theorem readGraph_of_missing {path : Text}
    (h : r.folder.read r.prereqsPath = .error (.missing path)) : r.readGraph = .ok [] := by
  rw [readGraph, h]

theorem readGraph_of_error {e : Fault} (h : r.folder.read r.prereqsPath = .error e)
    (hmissing : ¬∃ path, e = .missing path) : r.readGraph = .error e := by
  rw [readGraph, h]
  cases e with
  | missing path => exact absurd ⟨path, rfl⟩ hmissing
  | _ => rfl

theorem graph_follows (h : Follows Fault.unplaced id (r.folder.read r.prereqsPath)
    (r'.folder.read r'.prereqsPath)) : Follows Fault.unplaced id r.readGraph r'.readGraph := by
  generalize hread : r.folder.read r.prereqsPath = x at h
  generalize hread' : r'.folder.read r'.prereqsPath = y at h
  cases h with
  | ok v =>
    rw [readGraph, readGraph, hread, hread']
    cases v with
    | object entries => exact follows_self _ _
    | _ => exact .error rfl
  | @error e e' h =>
    by_cases hmissing : ∃ path, e = .missing path
    · obtain ⟨path, rfl⟩ := hmissing
      obtain ⟨path', rfl⟩ := Fault.missing_of_unplaced h
      rw [readGraph_of_missing hread, readGraph_of_missing hread']
      exact .ok []
    · have hmissing' : ¬∃ path, e' = .missing path := by
        rintro ⟨path, rfl⟩
        exact hmissing (Fault.missing_of_unplaced h.symm)
      rw [readGraph_of_error hread hmissing, readGraph_of_error hread' hmissing']
      exact .error h

/-- **What is held** of a document depends on what is read for it. -/
theorem held_follows (h : r.SameAt r' d) : Follows Fault.unplaced id (r.held d) (r'.held d) := by
  cases d with
  | catalog =>
    have hread := Follows.of_mapError (h r.catalogPath r'.catalogPath rfl rfl)
    exact hread.bind fun v => follows_self _ _
  | graph => exact graph_follows (Follows.of_mapError (h r.prereqsPath r'.prereqsPath rfl rfl))
  | rules major =>
    change Follows _ _ (r.readRules major) (r'.readRules major)
    unfold readRules
    by_cases hname : (major = "" || !Path.isName major) = true
    · have hnone : ∀ r : Registry, r.rulesTarget? major = none := fun r => if_pos hname
      rw [hnone, hnone]
      exact .error rfl
    · have hsome : ∀ r : Registry, r.rulesTarget? major = some (r.rulesPath major) :=
        fun r => if_neg hname
      have hread := Follows.of_mapError (h _ _ (hsome r) (hsome r'))
      rw [hsome, hsome]
      exact hread.bind fun v => follows_self _ _
  | source name =>
    change Follows _ _ (r.readSource name) (r'.readSource name)
    unfold readSource
    by_cases hname : (!Path.isName name) = true
    · have hnone : ∀ r : Registry, r.sourceTarget? name = none := fun r => if_pos hname
      rw [hnone, hnone]
      exact .error rfl
    · have hsome : ∀ r : Registry, r.sourceTarget? name = some (r.sourcePath name) :=
        fun r => if_neg hname
      have hread := Follows.of_mapError (h _ _ (hsome r) (hsome r'))
      rw [hsome, hsome]
      dsimp only
      generalize r.folder.read (r.sourcePath name) = x at hread ⊢
      generalize r'.folder.read (r'.sourcePath name) = y at hread ⊢
      cases hread with
      | ok v =>
        cases v with
        | object fields => exact .ok fields
        | _ => exact .error rfl
      | error h => exact .error h

theorem held_eq {folder folder' : Folder} {data : Path}
    (h : SameAt (.ofFolder folder data) (.ofFolder folder' data) d) :
    (ofFolder folder' data).held d = (ofFolder folder data).held d := by
  have hread : ∀ p, (ofFolder folder data).target? d = some p → folder'.read p = folder.read p :=
    fun p hp => Folder.read_eq_of_follows (Follows.of_mapError (h p p hp hp))
  cases d with
  | catalog => exact congrArg (· >>= Catalog.ofJson) (hread _ rfl)
  | graph =>
    have hgraph : (ofFolder folder' data).folder.read (ofFolder folder' data).prereqsPath =
        (ofFolder folder data).folder.read (ofFolder folder data).prereqsPath := hread _ rfl
    change readGraph _ = readGraph _
    rw [readGraph, readGraph, hgraph]
    rfl
  | rules major =>
    change readRules _ major = readRules _ major
    unfold readRules
    cases htarget : (ofFolder folder data).rulesTarget? major with
    | none =>
      have htarget' : (ofFolder folder' data).rulesTarget? major = none := htarget
      rw [htarget']
      rfl
    | some p =>
      have htarget' : (ofFolder folder' data).rulesTarget? major = some p := htarget
      rw [htarget']
      exact congrArg (· >>= RuleSet.read major) (hread p htarget)
  | source name =>
    change readSource _ name = readSource _ name
    unfold readSource
    cases htarget : (ofFolder folder data).sourceTarget? name with
    | none =>
      have htarget' : (ofFolder folder' data).sourceTarget? name = none := htarget
      rw [htarget']
      rfl
    | some p =>
      have htarget' : (ofFolder folder' data).sourceTarget? name = some p := htarget
      have hsource : (ofFolder folder' data).folder.read p = (ofFolder folder data).folder.read p :=
        hread p htarget
      rw [htarget']
      dsimp only
      rw [hsource]

end

end Registry

end DegreeAudit
