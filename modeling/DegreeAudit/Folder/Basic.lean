import DegreeAudit.Fault
import DegreeAudit.Folder.Name
import DegreeAudit.Folder.Path
import DegreeAudit.Json.Reader

/-!
# Folders of documents

A folder is known by its path, the files below it and the folders below it. A folder stays when its
last file is deleted. Reading a document needs an existing file in UTF-8 that holds a JSON
document; each way to fail has its own fault.

**Looking up.** A path is followed part by part. What comes after a part that does not exist is not
reached, whatever it is. A part that is reached must not be too long, and a path as a whole must
not be, even if none of it exists. Outside the folder only the places where paths start are known
to exist, and the folders above them.
-/

namespace DegreeAudit

/-- A folder with everything below it. Paths below it are lists of parts. -/
structure Folder where
  base : Path
  /-- The number of bytes of the full path, for which `base` may be a shorter name. -/
  baseBytes : Nat
  /-- How many lists and objects may lie inside each other in a document. -/
  maxDepth : Nat
  files : List (List Text × ByteArray)
  folders : List (List Text)

-- Libraries have instances of their own for this, and which is found depends on the imports.
local instance instDecidableEqBytes : DecidableEq ByteArray := ByteArray.instDecidableEq

/-- What a path leads to. -/
inductive Entry where
  | file (bytes : ByteArray)
  | folder
  | nothing
  /-- A part that is reached, or the whole path, is too long to be looked up. -/
  | overlong
deriving DecidableEq

namespace Folder

/-- A folder without files. -/
def empty (base : Path) (maxDepth : Nat) : Folder :=
  ⟨base, (FileName.bytes base.toText).length, maxDepth, [], [[]]⟩

/-- All beginnings of a list of parts, the whole list excepted. -/
def ancestors (parts : List Text) : List (List Text) :=
  (List.range parts.length).map fun n => parts.take n

/-- Writes a file, and makes the folders on the way to it. -/
def write (d : Folder) (parts : List Text) (bytes : ByteArray) : Folder :=
  let parts := parts.map FileName.resolve
  { d with
    files := (d.files.filter fun f => f.1 != parts) ++ [(parts, bytes)]
    folders := d.folders ++ (ancestors parts).filter fun a => a ∉ d.folders }

/-- Deletes a file. -/
def delete (d : Folder) (parts : List Text) : Folder :=
  let parts := parts.map FileName.resolve
  { d with files := d.files.filter fun f => f.1 != parts }

theorem lookup_delete (d : Folder) (target parts : List Text) :
    (d.delete target).files.lookup parts =
      if parts = target.map FileName.resolve then none else d.files.lookup parts := by
  unfold delete
  dsimp only
  induction d.files with
  | nil => split <;> rfl
  | cons f rest ih =>
    by_cases hf : f.1 = target.map FileName.resolve
    · rw [List.filter_cons_of_neg (by simp [hf]), ih]
      by_cases hparts : parts = target.map FileName.resolve
      · rw [if_pos hparts, if_pos hparts]
      · rw [if_neg hparts, if_neg hparts, List.lookup_cons, beq_false_of_ne (hf ▸ hparts)]
    · rw [List.filter_cons_of_pos (by simp [hf]), List.lookup_cons, ih, List.lookup_cons]
      by_cases hparts : parts = f.1
      · have hne : parts ≠ target.map FileName.resolve := fun h => hf (hparts ▸ h)
        rw [if_neg hne, if_neg hne, beq_iff_eq.mpr hparts]
      · rw [beq_false_of_ne hparts]

theorem lookup_write (d : Folder) (target parts : List Text) (bytes : ByteArray) :
    (d.write target bytes).files.lookup parts =
      if parts = target.map FileName.resolve then some bytes else d.files.lookup parts := by
  have hfiles : (d.write target bytes).files =
      (d.delete target).files ++ [(target.map FileName.resolve, bytes)] := rfl
  rw [hfiles, List.lookup_append, lookup_delete]
  by_cases hparts : parts = target.map FileName.resolve
  · rw [if_pos hparts, if_pos hparts, List.lookup_cons, beq_iff_eq.mpr hparts]
    rfl
  · rw [if_neg hparts, if_neg hparts, List.lookup_cons, beq_false_of_ne hparts]
    exact Option.or_none

/-- What is written to a place last stays. -/
theorem write_write (d : Folder) (parts : List Text) (bytes bytes' : ByteArray) :
    (d.write parts bytes).write parts bytes' = d.write parts bytes' := by
  have hfolders : ∀ known above : List (List Text),
      (known ++ above.filter fun a => a ∉ known) ++ above.filter (fun a =>
        a ∉ known ++ above.filter fun a => a ∉ known) =
          known ++ above.filter fun a => a ∉ known := by
    intro known above
    rw [List.append_right_eq_self, List.filter_eq_nil_iff]
    intro a ha
    by_cases hknown : a ∈ known <;> simp [ha, hknown]
  unfold write
  dsimp only
  rw [hfolders, List.filter_append, List.filter_filter]
  simp

/-- What the parts of a path lead to from a folder below, given latest part first. Two dots lead
back up, and nowhere above the folder itself. -/
def walk (d : Folder) (here : List Text) : List Text → Entry
  | [] => if here.reverse ∈ d.folders then .folder else .nothing
  | part :: rest =>
    if here.reverse ∉ d.folders then
      .nothing
    else if part = ".." then
      match here with
      | [] => .nothing
      | _ :: up => d.walk up rest
    else if FileName.isOverlong part then .overlong
    else if rest.isEmpty then
      match d.files.lookup (part :: here).reverse with
      | some bytes => .file bytes
      | none => d.walk (part :: here) rest
    else d.walk (part :: here) rest

theorem walk_nil_ne_file (d : Folder) (here : List Text) (bytes : ByteArray) :
    d.walk here [] ≠ .file bytes := by
  unfold walk
  split <;> exact Entry.noConfusion

/-- Whether a path lies in the folder or is its path. -/
def contains (d : Folder) (p : Path) : Bool :=
  decide (p.slashes = d.base.slashes) && d.base.parts.isPrefixOf p.parts

/-- The parts of a path below the folder. -/
def below (d : Folder) (p : Path) : List Text := p.parts.drop d.base.parts.length

/-- The number of bytes of a path. -/
def byteCount (d : Folder) (p : Path) : Nat :=
  if d.contains p then
    d.baseBytes + (d.below p).foldr (fun part bytes => (FileName.bytes part).length + 1 + bytes) 0
  else (FileName.bytes p.toText).length

/-- What the parts of a path outside the folder lead to. -/
def walkOutside (parts : List Text) : Entry :=
  match parts.dropWhile fun (part : Text) => part = ".." with
  | [] => .folder
  | part :: _ => if FileName.isOverlong part then .overlong else .nothing

/-- What a path leads to. A path with a code point that stands in no name leads nowhere. -/
def look (d : Folder) (p : Path) : Entry :=
  if !p.parts.all (·.all FileName.allows) then .nothing
  else if Path.maxBytes < d.byteCount p then .overlong
  else if d.contains p then d.walk [] ((d.below p).map FileName.resolve)
  else walkOutside p.parts

/-- Whether a path leads to a folder. -/
def isFolder (d : Folder) (p : Path) : Bool :=
  match d.look p with
  | .folder => true
  | _ => false

/-- The characters of a document with a line feed at the end of each line. A line ends with a line
feed, a carriage return or both. -/
def withLineFeeds (cs : List Char) : List Char :=
  let step (read : List Char × Bool) (c : Char) : List Char × Bool :=
    if c = '\r' then ('\n' :: read.1, true)
    else if c = '\n' && read.2 then (read.1, false)
    else (c :: read.1, false)
  (cs.foldl step ([], false)).1.reverse

/-- The document that the bytes of a file write. -/
def readBytes (limit : Nat) (p : Path) (bytes : ByteArray) : Except Fault Json :=
  match String.fromUTF8? bytes with
  | none => .error .notUtf8
  | some s =>
    let cs := withLineFeeds s.toList
    match Json.readChars limit cs with
    | .ok v => .ok v
    | .error (.malformed why n) =>
      .error (.malformed (.notJson p.toText why (Place.ofOffset cs n)))
    | .error .oversizedNumber => .error .notANumeral
    | .error .tooDeep => .error .tooDeep

/-- The document at a path. -/
def read (d : Folder) (p : Path) : Except Fault Json :=
  match d.look p with
  | .nothing => .error (.missing p.toText)
  | .folder => .error .folderRead
  | .overlong => .error .nameTooLong
  | .file bytes => readBytes d.maxDepth p bytes

/-- The last part of a list of parts, if it lies directly below a folder. -/
def childName? (parent parts : List Text) : Option Text :=
  match parts.getLast? with
  | some name => if parts = parent ++ [name] then some name else none
  | none => none

/-- The names of the files and folders directly below a path. -/
def names (d : Folder) (p : Path) : List Text :=
  if d.contains p then
    (d.files.map Prod.fst ++ d.folders).filterMap (childName? (d.below p))
  else []

end Folder

end DegreeAudit
