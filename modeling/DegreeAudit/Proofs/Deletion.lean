import DegreeAudit.Proofs.Places

/-!
# Deleting a document

A deletion changes what the path to the deleted file leads to, and nothing else
(`Folder.look_delete`). Two dots lead back up, so that two paths can lead to one file; but of the
parts of a document's path only the last one can be two dots, because a name that is used is that of
a single part.

**The graph.** Every other document lies beside the graph (`Registry.Beside`): in the requirements
folder, or in the same folder under another name. So deleting the graph changes what is read for the
graph only (`Registry.sameAt_deleteGraph`), and then it is missing (`Registry.read_deleteGraph`).
-/

namespace DegreeAudit

/-! ## Looking up -/

/-- What is left of an entry after its file is deleted. -/
def Entry.deleted : Entry → Entry
  | .file _ => .nothing
  | entry => entry

namespace Folder

theorem read_congr {d d' : Folder} {p : Path} (hdepth : d'.maxDepth = d.maxDepth)
    (h : d'.look p = d.look p) : d'.read p = d.read p := by
  rw [read, read, h, hdepth]

theorem deleted_walk_nil (d : Folder) (here : List Text) :
    (d.walk here []).deleted = d.walk here [] := by
  unfold walk
  split <;> rfl

/-- The last part of a path leads to something else only if it leads to the deleted file. -/
theorem walk_delete_last (d : Folder) {target here : List Text} {part : Text}
    (hfolder : target.map FileName.resolve ∉ d.folders) :
    (d.delete target).walk here [part] =
      if (part :: here).reverse = target.map FileName.resolve then (d.walk here [part]).deleted
      else d.walk here [part] := by
  have hfolders : (d.delete target).folders = d.folders := rfl
  have hnil : ∀ here, (d.delete target).walk here [] = d.walk here [] := fun _ => rfl
  unfold walk
  rw [hfolders]
  by_cases hhere : here.reverse ∉ d.folders
  · rw [if_pos hhere, if_pos hhere]
    exact (ite_self _).symm
  rw [if_neg hhere, if_neg hhere]
  by_cases hdots : part = ".."
  · rw [if_pos hdots, if_pos hdots]
    cases here with
    | nil => exact (ite_self _).symm
    | cons first up =>
      dsimp only
      rw [hnil, deleted_walk_nil, ite_self]
  rw [if_neg hdots, if_neg hdots]
  by_cases hlong : FileName.isOverlong part = true
  · rw [if_pos hlong, if_pos hlong]
    exact (ite_self _).symm
  rw [if_neg hlong, if_neg hlong, if_pos List.isEmpty_nil, if_pos List.isEmpty_nil, lookup_delete,
    hnil]
  by_cases htarget : (part :: here).reverse = target.map FileName.resolve
  · have hgone : d.walk (part :: here) [] = .nothing := by
      unfold walk
      rw [htarget, if_neg hfolder]
    rw [if_pos htarget, if_pos htarget, hgone]
    cases d.files.lookup (part :: here).reverse <;> rfl
  · rw [if_neg htarget, if_neg htarget]

/-- What the parts of a path lead to changes only if they lead to the deleted file. No part but the
last one may lead back up. -/
theorem walk_delete (d : Folder) {target here parts : List Text}
    (hfolder : target.map FileName.resolve ∉ d.folders) (hup : (".." : Text) ∉ parts.dropLast) :
    (d.delete target).walk here parts =
      if here.reverse ++ parts = target.map FileName.resolve then (d.walk here parts).deleted
      else d.walk here parts := by
  induction parts generalizing here with
  | nil =>
    rw [deleted_walk_nil, ite_self]
    rfl
  | cons part rest ih =>
    have hwhole : here.reverse ++ part :: rest = (part :: here).reverse ++ rest := by
      rw [List.reverse_cons, List.append_assoc, List.singleton_append]
    rw [hwhole]
    cases rest with
    | nil =>
      rw [List.append_nil]
      exact d.walk_delete_last hfolder
    | cons next rest =>
      rw [List.dropLast_cons_cons, List.mem_cons, not_or] at hup
      have hfolders : (d.delete target).folders = d.folders := rfl
      have hdots : part ≠ ".." := Ne.symm hup.1
      unfold walk
      rw [hfolders]
      by_cases hhere : here.reverse ∉ d.folders
      · rw [if_pos hhere, if_pos hhere]
        exact (ite_self _).symm
      rw [if_neg hhere, if_neg hhere, if_neg hdots, if_neg hdots]
      by_cases hlong : FileName.isOverlong part = true
      · rw [if_pos hlong, if_pos hlong]
        exact (ite_self _).symm
      rw [if_neg hlong, if_neg hlong]
      exact ih hup.2

/-- **Looking up after a deletion.** -/
theorem look_delete (d : Folder) {p q : Path} (hin : d.contains p = true)
    (hfolder : (d.below q).map FileName.resolve ∉ d.folders)
    (hup : (".." : Text) ∉ ((d.below p).map FileName.resolve).dropLast) :
    (d.delete (d.below q)).look p =
      if (d.below p).map FileName.resolve = (d.below q).map FileName.resolve then
        (d.look p).deleted
      else d.look p := by
  have hcontains : (d.delete (d.below q)).contains p = true := hin
  unfold look
  rw [hcontains, hin]
  by_cases hchars : (!p.parts.all (·.all FileName.allows)) = true
  · rw [if_pos hchars, if_pos hchars]
    exact (ite_self _).symm
  · rw [if_neg hchars, if_neg hchars]
    by_cases hlong : Path.maxBytes < d.byteCount p
    · have hlong' : Path.maxBytes < (d.delete (d.below q)).byteCount p := hlong
      rw [if_pos hlong, if_pos hlong']
      exact (ite_self _).symm
    · have hlong' : ¬Path.maxBytes < (d.delete (d.below q)).byteCount p := hlong
      rw [if_neg hlong, if_neg hlong', if_pos rfl, if_pos rfl]
      exact d.walk_delete hfolder hup

theorem contains_append {d : Folder} {p : Path} (h : d.contains p = true) (parts : List Text) :
    d.contains ⟨p.slashes, p.parts ++ parts⟩ = true ∧
      d.below ⟨p.slashes, p.parts ++ parts⟩ = d.below p ++ parts := by
  unfold contains at h ⊢
  rw [Bool.and_eq_true, List.isPrefixOf_iff_prefix] at h
  obtain ⟨hslashes, hprefix⟩ := h
  refine ⟨?_, ?_⟩
  · rw [Bool.and_eq_true, List.isPrefixOf_iff_prefix]
    exact ⟨hslashes, hprefix.trans (List.prefix_append _ _)⟩
  · exact List.drop_append_of_le_length hprefix.length_le

end Folder

/-! ## The place of the graph -/

namespace Registry

theorem requirementsFolder_child (r : Registry) {s : Text} (h : ('/' : CodePoint) ∉ s) :
    r.requirementsFolder.child s =
      ⟨r.data.slashes, r.data.parts ++ ("requirements" : Text) :: [s].filter Path.isPart⟩ :=
  r.data.child_child (by decide) (by decide) h

theorem courseFolder_child (r : Registry) {s : Text} (h : ('/' : CodePoint) ∉ s) :
    r.courseFolder.child s =
      ⟨r.data.slashes, r.data.parts ++ ("course-data" : Text) :: [s].filter Path.isPart⟩ :=
  r.data.child_child (by decide) (by decide) h

/-- A path that leads to the data folder, into a folder of it and to a part there, but not to the
prerequisite graph. -/
def Beside (r : Registry) (p : Path) : Prop :=
  ∃ parent rest, p = ⟨r.data.slashes, r.data.parts ++ parent :: rest⟩ ∧
    FileName.resolve parent ≠ ".." ∧ rest.length ≤ 1 ∧
    (parent :: rest).map FileName.resolve ≠ ["course-data", "prereqs.json"]

theorem beside_requirements (r : Registry) {s : Text} (h : ('/' : CodePoint) ∉ s) :
    r.Beside (r.requirementsFolder.child s) := by
  refine ⟨"requirements", [s].filter Path.isPart, r.requirementsFolder_child h, by decide,
    List.length_filter_le _ _, fun heq => ?_⟩
  exact absurd (List.cons.inj heq).1 (by decide)

theorem beside_of_target {r : Registry} {d : Document} {p : Path} (hd : d ≠ .graph)
    (h : r.target? d = some p) : r.Beside p := by
  cases d with
  | catalog =>
    obtain rfl := Option.some.inj h
    exact ⟨"course-data", ["courses.json"], r.courseFolder_child (s := "courses.json") (by decide),
      by decide, Nat.le_refl 1, by decide⟩
  | graph => exact absurd rfl hd
  | rules major =>
    obtain ⟨⟨-, -, hmajor⟩, rfl⟩ := rulesTarget?_eq_some_iff.mp h
    refine r.beside_requirements ?_
    rw [List.mem_append, not_or]
    exact ⟨hmajor, by decide⟩
  | source name =>
    obtain ⟨⟨-, hname⟩, rfl⟩ := sourceTarget?_eq_some_iff.mp h
    exact r.beside_requirements hname

/-- A registry whose data folder lies in its folder, straight below it, where no folder stands in
the place of the graph. -/
structure Sited (r : Registry) : Prop where
  inside : r.folder.contains r.data = true
  straight : (".." : Text) ∉ (r.folder.below r.data).map FileName.resolve
  noFolder : (r.folder.below r.prereqsPath).map FileName.resolve ∉ r.folder.folders

/-- A fresh registry of the folder without the graph. -/
def deleteGraph (r : Registry) : Registry :=
  .ofFolder (r.folder.delete (r.folder.below r.prereqsPath)) r.data

section

variable {r : Registry} {d : Document}

theorem Sited.below (h : r.Sited) (parts : List Text) :
    r.folder.contains ⟨r.data.slashes, r.data.parts ++ parts⟩ = true ∧
      (r.folder.below ⟨r.data.slashes, r.data.parts ++ parts⟩).map FileName.resolve =
        (r.folder.below r.data).map FileName.resolve ++ parts.map FileName.resolve := by
  obtain ⟨hin, hbelow⟩ := Folder.contains_append h.inside parts
  rw [hbelow, List.map_append]
  exact ⟨hin, rfl⟩

theorem prereqsPath_eq (r : Registry) :
    r.prereqsPath = ⟨r.data.slashes,
      r.data.parts ++ [("course-data" : Text), ("prereqs.json" : Text)]⟩ :=
  r.courseFolder_child (s := "prereqs.json") (by decide)

/-- No part of a path into a folder of the data folder leads back up, the last one excepted. -/
theorem Sited.straight_dropLast (h : r.Sited) {parent : Text} {rest : List Text}
    (hparent : FileName.resolve parent ≠ "..") (hrest : rest.length ≤ 1) :
    (".." : Text) ∉ ((r.folder.below r.data).map FileName.resolve ++
      (parent :: rest).map FileName.resolve).dropLast := by
  have hway : (".." : Text) ∉ (r.folder.below r.data).map FileName.resolve ++
      [FileName.resolve parent] := by
    rw [List.mem_append, List.mem_singleton, not_or]
    exact ⟨h.straight, Ne.symm hparent⟩
  match rest, hrest with
  | [], _ =>
    rw [List.map_singleton, List.dropLast_concat]
    exact h.straight
  | [s], _ =>
    rw [List.map_cons, List.map_singleton, List.append_cons, List.dropLast_concat]
    exact hway

/-- **Other documents** are read as before after the graph was deleted. -/
theorem sameAt_deleteGraph (h : r.Sited) (hd : d ≠ .graph) : r.SameAt r.deleteGraph d := by
  intro p p' hp hp'
  have htarget : r.deleteGraph.target? d = r.target? d := by cases d <;> rfl
  obtain rfl : p = p' := Option.some.inj (hp.symm.trans (htarget.symm.trans hp'))
  obtain ⟨parent, rest, rfl, hparent, hrest, hne⟩ := beside_of_target hd hp
  obtain ⟨hin, hbelow⟩ := h.below (parent :: rest)
  have hlook := r.folder.look_delete hin h.noFolder (hbelow ▸ h.straight_dropLast hparent hrest)
  have hother : (r.folder.below r.data).map FileName.resolve ++
      (parent :: rest).map FileName.resolve ≠
        (r.folder.below r.prereqsPath).map FileName.resolve := by
    rw [prereqsPath_eq, (h.below _).2]
    exact fun heq => hne (List.append_cancel_left heq)
  rw [hbelow, if_neg hother] at hlook
  exact congrArg _ (Folder.read_congr rfl hlook)

theorem read_deleteGraph {g : PrereqGraph} (h : r.Sited) (hok : r.readGraph = .ok g) :
    r.deleteGraph.folder.read r.prereqsPath = .error (.missing r.prereqsPath.toText) := by
  have hin : r.folder.contains r.prereqsPath = true := by
    rw [prereqsPath_eq]
    exact (h.below _).1
  have hup : (".." : Text) ∉ ((r.folder.below r.prereqsPath).map FileName.resolve).dropLast := by
    rw [prereqsPath_eq, (h.below _).2]
    exact h.straight_dropLast (by decide) (Nat.le_refl 1)
  have hlook : r.deleteGraph.folder.look r.prereqsPath = (r.folder.look r.prereqsPath).deleted := by
    rw [deleteGraph, ofFolder, r.folder.look_delete hin h.noFolder hup, if_pos rfl]
  unfold Folder.read
  rw [hlook]
  cases hentry : r.folder.look r.prereqsPath with
  | nothing | file => rfl
  | folder => simp [readGraph, Folder.read, hentry] at hok
  | overlong => simp [readGraph, Folder.read, hentry] at hok

end

end Registry

end DegreeAudit
