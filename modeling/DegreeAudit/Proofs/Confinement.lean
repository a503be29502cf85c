import DegreeAudit.Proofs.Deletion
import DegreeAudit.Proofs.Listing

/-!
# Names that stay in the requirements folder

The names of majors and sources come from outside, and paths are made of them. Whatever the name is,
what is read should be a document of the requirements folder.

**Directly below.** A name without a slash leads directly below a folder, unless it is empty or
made of one or two points only (`Path.child_directlyIn_iff`).

**Majors.** With the extension a name is none of these. So the rules of a major are read directly
below the requirements folder, or not at all (`rules_confined`).

**Sources.** The name of a source has no extension added, and two names that are used lead
elsewhere: the empty one to the requirements folder itself, and two points to the folder above it.
All others lead directly below (`sources_confined`).

**Bytes.** A folder knows its files by the bytes of their names. No name but the two points has
their bytes, since a surrogate stands for a byte of its own (`FileName.eq_dots_of_resolve`). So a
path directly below a folder leads nowhere else when it is followed (`Registry.HoldsTexts.look`).
-/

namespace DegreeAudit

/-! ## Names -/

namespace FileName

theorem prefix_of_firstChar? {bs : List UInt8} {c : Char} (h : firstChar? bs = some c) :
    String.utf8EncodeChar c <+: bs := by
  obtain ⟨n, -, hn⟩ := List.exists_of_findSome?_eq_some h
  split at hn
  · next c' hchars =>
    obtain rfl := Option.some.inj hn
    obtain ⟨s, hs, hlist⟩ := Option.map_eq_some_iff.mp hchars
    have hsame : (bs.take n).toArray = s.toByteArray.data := by
      obtain ⟨_, hsome⟩ := Option.dite_none_right_eq_some.mp hs
      rw [← Option.some.inj hsome]
      rfl
    have hencoded : s.toByteArray = (String.utf8EncodeChar c').toByteArray := by
      rw [← String.ofList_toList (s := s), hlist, String.toByteArray_ofList,
        List.utf8Encode_singleton]
    rw [hencoded, List.data_toByteArray] at hsame
    have hfirst : bs.take n = String.utf8EncodeChar c' := congrArg Array.toList hsame
    rw [← hfirst]
    exact List.take_prefix n bs
  · cases hn

theorem bytesOf_surrogate (b : UInt8) : bytesOf (CodePoint.ofNat (0xDC00 + b.toNat)) = [b] := by
  have hb : b.toNat < 256 := b.toNat_lt
  have hval : 0xD800 + (0xDC00 + b.toNat - 0xD800) - 0xDC00 = b.toNat := by omega
  rw [CodePoint.ofNat, dif_pos (by omega)]
  simp only [bytesOf, CodePoint.val]
  rw [hval, UInt8.ofNat_toNat]

theorem bytes_ofBytes (bs : List UInt8) : bytes (ofBytes bs) = bs := by
  induction bs using ofBytes.induct with
  | case1 => rw [ofBytes]; rfl
  | case2 b rest c hfirst ih =>
    obtain ⟨after, hafter⟩ := prefix_of_firstChar? hfirst
    have hrest : rest.drop (c.utf8Size - 1) = after := by
      have hpos := c.utf8Size_pos
      have hdrop : (b :: rest).drop c.utf8Size = after := by
        rw [← hafter, ← String.length_utf8EncodeChar, List.drop_left]
      obtain ⟨n, hn⟩ := Nat.exists_eq_add_of_lt hpos
      rw [hn] at hdrop ⊢
      simpa using hdrop
    rw [ofBytes, hfirst]
    show String.utf8EncodeChar c ++ bytes (ofBytes (rest.drop (c.utf8Size - 1))) = b :: rest
    rw [ih, hrest, hafter]
  | case3 b rest hfirst ih =>
    rw [ofBytes, hfirst]
    show bytesOf _ ++ bytes (ofBytes rest) = b :: rest
    rw [bytesOf_surrogate, ih, List.singleton_append]

theorem bytes_resolve (name : Text) : bytes (resolve name) = bytes name := by
  unfold resolve
  split
  · exact bytes_ofBytes _
  · rfl

theorem eq_dots_of_resolve {name : Text} (hallowed : name.all allows = true)
    (h : resolve name = "..") : name = ".." := by
  by_cases hsurrogate : name.any CodePoint.isSurrogate = true
  · obtain ⟨c, hmem, hc⟩ := List.any_eq_true.mp hsurrogate
    cases c with
    | scalar => cases hc
    | surrogate i =>
      -- Its byte is from `0x80` on, and a point has another one.
      have hrange := List.all_eq_true.mp hallowed _ hmem
      simp only [allows, Bool.and_eq_true, decide_eq_true_eq] at hrange
      simp only [CodePoint.val] at hrange
      have hbytes : bytes name = [0x2E, 0x2E] := by
        rw [← bytes_resolve, h]
        rfl
      have hbyte : UInt8.ofNat (0xD800 + i.val - 0xDC00) ∈ bytes name :=
        List.mem_flatMap.mpr ⟨_, hmem, List.mem_singleton.mpr rfl⟩
      rw [hbytes] at hbyte
      have hpoint : UInt8.ofNat (0xD800 + i.val - 0xDC00) = 0x2E := by simpa using hbyte
      have hval : (UInt8.ofNat (0xD800 + i.val - 0xDC00)).toNat = 0x2E := by rw [hpoint]; rfl
      rw [UInt8.toNat_ofNat'] at hval
      omega
  · rwa [resolve, if_neg hsurrogate] at h

end FileName

/-! ## Paths directly below a folder -/

/-- Whether a path leads directly below a folder, to a part with a name of its own. -/
structure Path.DirectlyIn (folder : Path) (name : Text) (p : Path) : Prop where
  eq : p = ⟨folder.slashes, folder.parts ++ [name]⟩
  single : ('/' : CodePoint) ∉ name
  nonempty : name ≠ ""
  notHere : name ≠ "."
  notUp : name ≠ ".."

/-- **Directly below.** A name without a slash leads directly below a folder if it is not empty and
not made of one or two points only. -/
theorem Path.child_directlyIn_iff {folder : Path} {name : Text} (h : ('/' : CodePoint) ∉ name) :
    DirectlyIn folder name (folder.child name) ↔ name ≠ "" ∧ name ≠ "." ∧ name ≠ ".." := by
  constructor
  · exact fun hdirect => ⟨hdirect.nonempty, hdirect.notHere, hdirect.notUp⟩
  · rintro ⟨hempty, hpoint, hdots⟩
    refine ⟨?_, h, hempty, hpoint, hdots⟩
    have hpart : isPart name = true := by
      have hempty' : name ≠ [] := hempty
      simp [isPart, hempty', hpoint]
    rw [child_of_not_mem folder h, List.filter_cons_of_pos hpart, List.filter_nil]

/-- The empty name leads to the folder itself, and two points lead to the folder above it. -/
theorem Path.child_empty_and_dots (folder : Path) :
    folder.child "" = folder ∧
      folder.child ".." = ⟨folder.slashes, folder.parts ++ [(".." : Text)]⟩ := by
  rw [Path.child_of_not_mem folder (by decide), Path.child_of_not_mem folder (by decide)]
  exact ⟨congrArg (Path.mk folder.slashes) (List.append_nil folder.parts), rfl⟩

/-! ## Loading by name -/

/-- The registry with another folder of files. -/
def Registry.over (r : Registry) (folder : Folder) : Registry := { r with folder }

section

variable {r : Registry} {d : Document}

theorem Registry.kept_over (folder : Folder) : (r.over folder).kept d = r.kept d := by
  cases d <;> rfl

theorem Load.result_over (h : r.kept d = none) (folder : Folder) :
    (run (document d) (r.over folder)).1 = (r.over folder).held d := by
  rw [run_document]
  exact Registry.view_of_not_kept ((Registry.kept_over folder).trans h)

theorem Load.run_over_of_held_error {folder : Folder} {e : Fault} (h : r.kept d = none)
    (hheld : (r.over folder).held d = .error e) :
    run (document d) (r.over folder) = (.error e, r.over folder) := by
  have hkept : (r.over folder).kept d = none := (Registry.kept_over folder).trans h
  rw [run_document, Registry.view_of_not_kept hkept, Registry.settle, hkept, hheld]

end

namespace Registry

variable {r : Registry} {major name : Text}

/-- **The path of rules** leads directly below the requirements folder. -/
theorem directlyIn_of_rulesTarget? {p : Path} (h : r.rulesTarget? major = some p) :
    Path.DirectlyIn r.requirementsFolder (major ++ extension) p := by
  obtain ⟨⟨-, -, hmajor⟩, rfl⟩ := rulesTarget?_eq_some_iff.mp h
  have hslash : ('/' : CodePoint) ∉ major ++ extension := by
    rw [List.mem_append, not_or]
    exact ⟨hmajor, by decide⟩
  -- The extension alone is longer than two points.
  have hlong : 5 ≤ (major ++ extension).length := by
    rw [List.length_append]
    exact Nat.le_add_left 5 _
  apply (Path.child_directlyIn_iff hslash).mpr
  refine ⟨?_, ?_, ?_⟩ <;> intro hshort <;> rw [hshort] at hlong <;> exact absurd hlong (by decide)

/-- **The path of a source** leads directly below the requirements folder, unless the name is empty
or two points. -/
theorem directlyIn_of_sourceTarget?_iff {p : Path} (h : r.sourceTarget? name = some p) :
    Path.DirectlyIn r.requirementsFolder name p ↔ name ≠ "" ∧ name ≠ ".." := by
  obtain ⟨⟨hpoint, hslash⟩, rfl⟩ := sourceTarget?_eq_some_iff.mp h
  rw [sourcePath, Path.child_directlyIn_iff hslash]
  simp [hpoint]

end Registry

/-! ## What lies in the requirements folder -/

namespace Folder

/-- What the parts of a path lead to if none of them leads back up: a folder or a file that is there
under these parts. -/
theorem walk_straight (d : Folder) {here parts : List Text} (hup : (".." : Text) ∉ parts) :
    (d.walk here parts = .folder → here.reverse ++ parts ∈ d.folders) ∧
      ∀ bytes, d.walk here parts = .file bytes → (here.reverse ++ parts, bytes) ∈ d.files := by
  induction parts generalizing here with
  | nil =>
    rw [List.append_nil]
    refine ⟨fun hfolder => ?_, fun bytes hfile => absurd hfile (d.walk_nil_ne_file here bytes)⟩
    by_cases hhere : here.reverse ∈ d.folders
    · exact hhere
    · rw [walk, if_neg hhere] at hfolder
      cases hfolder
  | cons part rest ih =>
    rw [List.mem_cons, not_or] at hup
    have hrest := @ih (part :: here) hup.2
    rw [List.reverse_cons, List.append_assoc, List.singleton_append] at hrest
    unfold walk
    rw [if_neg (Ne.symm hup.1)]
    by_cases hhere : here.reverse ∉ d.folders
    · rw [if_pos hhere]
      simp
    rw [if_neg hhere]
    by_cases hlong : FileName.isOverlong part = true
    · rw [if_pos hlong]
      simp
    rw [if_neg hlong]
    by_cases hlast : rest.isEmpty = true
    · obtain rfl := List.isEmpty_iff.mp hlast
      rw [if_pos hlast]
      cases hfile : d.files.lookup (part :: here).reverse with
      | none => exact hrest
      | some bytes =>
        rw [List.reverse_cons] at hfile
        obtain ⟨before, after, hfiles, -⟩ := List.lookup_eq_some_iff.mp hfile
        simp [hfiles]
    · rw [if_neg hlast]
      exact hrest

/-- The faults of characters that are not passed over. -/
theorem stop?_cases {limit : Nat} {bytes : ByteArray} {e : Fault}
    (hutf8 : (String.fromUTF8? bytes).isSome = true) (h : stop? limit bytes = some e) :
    e = .notANumeral ∨ e = .tooDeep := by
  obtain ⟨s, hs⟩ := Option.isSome_iff_exists.mp hutf8
  unfold stop? at h
  rw [hs] at h
  dsimp only at h
  split at h
  · exact .inl (Option.some.inj h).symm
  · exact .inr (Option.some.inj h).symm
  · cases h

theorem read_of_isFolder {d : Folder} {p : Path} (h : d.isFolder p = true) :
    d.read p = .error .folderRead := by
  unfold isFolder at h
  unfold read
  cases hlook : d.look p with
  | folder => rfl
  | file | nothing | overlong => simp [hlook] at h

theorem childName?_concat (parent : List Text) (name : Text) :
    childName? parent (parent ++ [name]) = some name := by
  simp [childName?]

end Folder

namespace Registry

/-- The parts of the requirements folder in the folder of files. -/
def requirementsPlace (r : Registry) : List Text :=
  (r.folder.below r.requirementsFolder).map FileName.resolve

/-- Whether the data folder lies in the folder of files, straight below it, and its requirements
folder holds nothing but files in UTF-8. -/
structure HoldsTexts (r : Registry) : Prop where
  inside : r.folder.contains r.data = true
  straight : (".." : Text) ∉ (r.folder.below r.data).map FileName.resolve
  noFolder : ∀ parts ∈ r.folder.folders, Folder.childName? r.requirementsPlace parts = none
  utf8 : ∀ f ∈ r.folder.files, (Folder.childName? r.requirementsPlace f.1).isSome = true →
    (String.fromUTF8? f.2).isSome = true

instance (r : Registry) : Decidable r.HoldsTexts :=
  decidable_of_iff (r.folder.contains r.data = true ∧
      (".." : Text) ∉ (r.folder.below r.data).map FileName.resolve ∧
      (∀ parts ∈ r.folder.folders, Folder.childName? r.requirementsPlace parts = none) ∧
      ∀ f ∈ r.folder.files, (Folder.childName? r.requirementsPlace f.1).isSome = true →
        (String.fromUTF8? f.2).isSome = true)
    ⟨fun h => ⟨h.1, h.2.1, h.2.2.1, h.2.2.2⟩,
      fun h => ⟨h.inside, h.straight, h.noFolder, h.utf8⟩⟩

variable {r : Registry} {name : Text}

theorem requirementsFolder_eq (r : Registry) :
    r.requirementsFolder = ⟨r.data.slashes, r.data.parts ++ [("requirements" : Text)]⟩ :=
  r.data.child_of_not_mem (s := "requirements") (by decide)

/-- **What lies there.** A path directly below such a requirements folder leads to no folder, and to
no file that is not in UTF-8. -/
theorem HoldsTexts.look (h : r.HoldsTexts) {p : Path}
    (hp : Path.DirectlyIn r.requirementsFolder name p) :
    r.folder.look p ≠ .folder ∧
      ∀ bytes, r.folder.look p = .file bytes → (String.fromUTF8? bytes).isSome = true := by
  have hpath : p = ⟨r.data.slashes, r.data.parts ++ [("requirements" : Text), name]⟩ := by
    rw [hp.eq, requirementsFolder_eq, List.append_assoc, List.singleton_append]
  obtain ⟨hin, hbelow⟩ := Folder.contains_append h.inside [("requirements" : Text), name]
  have hplace : r.requirementsPlace =
      (r.folder.below r.data).map FileName.resolve ++ [("requirements" : Text)] := by
    rw [requirementsPlace, requirementsFolder_eq, (Folder.contains_append h.inside _).2,
      List.map_append]
    rfl
  rw [← hpath] at hin hbelow
  have hparts : (r.folder.below p).map FileName.resolve =
      r.requirementsPlace ++ [FileName.resolve name] := by
    rw [hbelow, hplace, List.map_append, List.append_assoc]
    rfl
  unfold Folder.look
  rw [if_pos hin]
  split
  · exact ⟨nofun, nofun⟩
  · next hchars =>
    split
    · exact ⟨nofun, nofun⟩
    · rw [hparts]
      have hallowed : name.all FileName.allows = true := by
        rw [Bool.not_eq_true', Bool.not_eq_false, hpath] at hchars
        exact List.all_eq_true.mp hchars name (by simp)
      have hup : (".." : Text) ∉ r.requirementsPlace ++ [FileName.resolve name] := by
        rw [hplace, List.append_assoc, List.mem_append, not_or]
        refine ⟨h.straight, ?_⟩
        simp only [List.singleton_append, List.mem_cons, List.not_mem_nil, or_false, not_or]
        exact ⟨by decide, fun heq => hp.notUp (FileName.eq_dots_of_resolve hallowed heq.symm)⟩
      obtain ⟨hfolder, hfile⟩ := @Folder.walk_straight r.folder [] _ hup
      constructor
      · intro hlook
        have hnone := h.noFolder _ (hfolder hlook)
        rw [List.reverse_nil, List.nil_append, Folder.childName?_concat] at hnone
        cases hnone
      · intro bytes hlook
        refine h.utf8 _ (hfile bytes hlook) ?_
        rw [List.reverse_nil, List.nil_append, Folder.childName?_concat]
        rfl

def fieldsOf (name : Text) : Json → Except Fault Fields
  | .object fields => .ok fields
  | _ => .error (.malformed (.sourceNotObject name))

theorem readSource_of_none (h : r.sourceTarget? name = none) :
    r.readSource name = .error (.missing (r.sourcePath name).toText) := by
  rw [readSource, h]

theorem readSource_of_some {p : Path} (h : r.sourceTarget? name = some p) :
    r.readSource name = (r.folder.read p >>= fieldsOf name) := by
  unfold readSource
  rw [h]
  dsimp only
  cases r.folder.read p with
  | ok v => cases v <;> rfl
  | error e => rfl

/-- What the load of a source can give whose path leads to no folder, and to no file that is not in
UTF-8. Beside fields, or that it is missing or malformed, that is one of three faults: the name is
too long to be looked up, or the file holds a numeral of too many digits or lies too deep. -/
inductive SourceOutcome (d : Folder) (p : Path) : Except Fault Fields → Prop where
  | fields (fields : Fields) : SourceOutcome d p (.ok fields)
  | missing : SourceOutcome d p (.error (.missing p.toText))
  | malformed (why : Malformed) : SourceOutcome d p (.error (.malformed why))
  | overlong (hlook : d.look p = .overlong) : SourceOutcome d p (.error .nameTooLong)
  | stopped (bytes : ByteArray) (e : Fault) (hlook : d.look p = .file bytes)
      (hstop : Folder.stop? d.maxDepth bytes = some e) (hfault : e = .notANumeral ∨ e = .tooDeep) :
      SourceOutcome d p (.error e)

/-- **What can be told** of a source that is read directly below such a requirements folder. -/
theorem HoldsTexts.sourceOutcome (h : r.HoldsTexts) {p : Path}
    (hp : Path.DirectlyIn r.requirementsFolder name p) :
    SourceOutcome r.folder p (r.folder.read p >>= fieldsOf name) := by
  obtain ⟨hfolder, hutf8⟩ := h.look hp
  rw [Folder.read]
  cases hlook : r.folder.look p with
  | folder => exact absurd hlook hfolder
  | nothing => exact .missing
  | overlong => exact .overlong hlook
  | file bytes =>
    dsimp only
    rcases Folder.readBytes_cases r.folder.maxDepth p bytes with
      ⟨v, hv, -⟩ | ⟨why, hwhy, -⟩ | ⟨e, he, -, hstop, -⟩
    · rw [hv]
      cases v with
      | object fields => exact .fields fields
      | _ => exact .malformed _
    · rw [hwhy]
      exact .malformed why
    · rw [he]
      exact .stopped bytes e hlook hstop (Folder.stop?_cases (hutf8 bytes hlook) hstop)

end Registry

section

variable {r : Registry} {name : Text} {p : Path}

theorem Load.result_source (hkept : r.kept (.source name) = none)
    (h : r.sourceTarget? name = some p) (folder : Folder) :
    (run (sourceNamed name) (r.over folder)).1 = (folder.read p >>= Registry.fieldsOf name) := by
  have htarget : (r.over folder).sourceTarget? name = some p := h
  exact (result_over hkept folder).trans (Registry.readSource_of_some htarget)

theorem Load.result_source_of_isFolder (hkept : r.kept (.source name) = none)
    (h : r.sourceTarget? name = some p) (hfolder : r.folder.isFolder p = true) :
    (run (sourceNamed name) r).1 = .error .folderRead := by
  have hresult := result_source hkept h r.folder
  rw [Folder.read_of_isFolder hfolder] at hresult
  exact hresult

end

/-- **Rules lie in the requirements folder.** Let nothing be kept of the rules of a major. If the
name of the major is empty, a single point or has a slash in it, then its rules are missing,
whatever the folder holds. Any other name has one path, which is that of the requirements folder and
one part more, the name with the extension. The load gives what the rules at this path are, and
depends on nothing else in the folder. -/
theorem rules_confined {r : Registry} {major : Text} (hkept : r.kept (.rules major) = none) :
    (r.rulesTarget? major = none ↔ major = "" ∨ major = "." ∨ ('/' : CodePoint) ∈ major) ∧
    (r.rulesTarget? major = none → ∀ folder : Folder,
      Load.run (Load.rules major) (r.over folder) =
        (.error (.missing (r.rulesPath major).toText), r.over folder)) ∧
    ∀ p, r.rulesTarget? major = some p →
      Path.DirectlyIn r.requirementsFolder (major ++ Registry.extension) p ∧
      ∀ folder : Folder, (Load.run (Load.rules major) (r.over folder)).1 =
        (folder.read p >>= RuleSet.read major) := by
  refine ⟨Registry.rulesTarget?_eq_none_iff, ?_, ?_⟩
  · intro hnone folder
    have htarget : (r.over folder).rulesTarget? major = none := hnone
    exact Load.run_over_of_held_error hkept (Registry.readRules_of_none htarget)
  · intro p hp
    refine ⟨Registry.directlyIn_of_rulesTarget? hp, fun folder => ?_⟩
    have htarget : (r.over folder).rulesTarget? major = some p := hp
    exact (Load.result_over hkept folder).trans (Registry.readRules_of_some htarget)

/-- Two points are the name of a major like any other. -/
theorem rules_confined_dots :
    (requirementsOf []).kept (.rules "..") = none ∧
      Path.DirectlyIn (requirementsOf []).requirementsFolder "...json"
        ⟨0, ["data", "requirements", "...json"]⟩ := by
  obtain ⟨-, -, hpath⟩ := @rules_confined (requirementsOf []) ".." rfl
  exact ⟨rfl, (hpath _ rfl).1⟩

/-- **Sources lie in the requirements folder, but for two names.** Let nothing be kept of a source.
If its name is a single point or has a slash in it, then it is missing, whatever the folder holds.
Any other name has one path, and the load depends on nothing else in the folder.

The path is that of the requirements folder and one part more, the name, unless the name is empty or
two points: then it is that of the requirements folder, or of the folder above it, and if there is
one, the load has a fault that is neither of a missing nor of a malformed document. For every other
name, if the requirements folder holds nothing but files in UTF-8, then the load gives fields or one
of these two faults, unless the name is too long to be looked up or the file holds a numeral of too
many digits or lies too deep. -/
theorem sources_confined {r : Registry} {name : Text} (hkept : r.kept (.source name) = none) :
    (r.sourceTarget? name = none ↔ name = "." ∨ ('/' : CodePoint) ∈ name) ∧
    (r.sourceTarget? name = none → ∀ folder : Folder,
      Load.run (Load.sourceNamed name) (r.over folder) =
        (.error (.missing (r.sourcePath name).toText), r.over folder)) ∧
    ∀ p, r.sourceTarget? name = some p →
      (∀ folder : Folder, (Load.run (Load.sourceNamed name) (r.over folder)).1 =
        (folder.read p >>= Registry.fieldsOf name)) ∧
      (Path.DirectlyIn r.requirementsFolder name p ↔ name ≠ "" ∧ name ≠ "..") ∧
      (name = "" → p = r.requirementsFolder) ∧
      (name = ".." →
        p = ⟨r.requirementsFolder.slashes, r.requirementsFolder.parts ++ [(".." : Text)]⟩) ∧
      (r.folder.isFolder p = true →
        (Load.run (Load.sourceNamed name) r).1 = .error .folderRead) ∧
      (r.HoldsTexts → name ≠ "" → name ≠ ".." →
        Registry.SourceOutcome r.folder p (Load.run (Load.sourceNamed name) r).1) := by
  refine ⟨Registry.sourceTarget?_eq_none_iff, ?_, ?_⟩
  · intro hnone folder
    have htarget : (r.over folder).sourceTarget? name = none := hnone
    exact Load.run_over_of_held_error hkept (Registry.readSource_of_none htarget)
  · intro p hp
    have hresult := Load.result_source hkept hp
    have hown : (Load.run (Load.sourceNamed name) r).1 =
        (r.folder.read p >>= Registry.fieldsOf name) := hresult r.folder
    have hdirect := Registry.directlyIn_of_sourceTarget?_iff hp
    obtain ⟨-, hpath⟩ := Registry.sourceTarget?_eq_some_iff.mp hp
    refine ⟨hresult, hdirect, ?_, ?_, Load.result_source_of_isFolder hkept hp, ?_⟩
    · rintro rfl
      exact hpath.symm.trans (Path.child_empty_and_dots _).1
    · rintro rfl
      exact hpath.symm.trans (Path.child_empty_and_dots _).2
    · intro htexts hempty hdots
      rw [hown]
      exact htexts.sourceOutcome (hdirect.mpr ⟨hempty, hdots⟩)

/-- A data folder whose requirements folder holds a breadth document only. -/
def breadthOnly : Registry := requirementsOf [("breadth.json", "\x7b\x7d".toUTF8)]

theorem sources_confined_breadth :
    breadthOnly.HoldsTexts ∧ (Load.run (Load.sourceNamed "breadth.json") breadthOnly).1 = .ok [] ∧
      Path.DirectlyIn breadthOnly.requirementsFolder "breadth.json"
        ⟨0, ["data", "requirements", "breadth.json"]⟩ := by
  obtain ⟨-, -, hpath⟩ := @sources_confined breadthOnly "breadth.json" rfl
  obtain ⟨hresult, hdirect, -⟩ := hpath _ rfl
  refine ⟨by decide +kernel, ?_, hdirect.mpr (by decide)⟩
  exact (hresult breadthOnly.folder).trans (eq_ok_of_toOption (by decide +kernel))

/-- Where nothing is kept and the requirements folder holds a document only, two names of sources
lead to folders. -/
theorem sources_above :
    breadthOnly.HoldsTexts ∧
      breadthOnly.sourceTarget? ".." = some ⟨0, ["data", "requirements", ".."]⟩ ∧
      breadthOnly.sourceTarget? "" = some breadthOnly.requirementsFolder ∧
      ∀ name ∈ (["..", ""] : List Text), breadthOnly.kept (.source name) = none ∧
        (Load.run (Load.sourceNamed name) breadthOnly).1 = .error .folderRead := by
  refine ⟨by decide +kernel, rfl, rfl, ?_⟩
  intro name hname
  simp only [List.mem_cons, List.not_mem_nil, or_false] at hname
  rcases hname with rfl | rfl
  · exact ⟨rfl, Load.result_source_of_isFolder rfl rfl (by decide +kernel)⟩
  · exact ⟨rfl, Load.result_source_of_isFolder rfl rfl (by decide +kernel)⟩

end DegreeAudit
