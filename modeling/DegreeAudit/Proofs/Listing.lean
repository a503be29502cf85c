import DegreeAudit.Proofs.Documents
import DegreeAudit.Proofs.Refusal

/-!
# Listing the majors

The majors are listed by reading every document of the requirements folder. A document is the rule
document of a major if it is an object with a list of requirements, and the major is named by the
name of the file without its extension.

**Passed over.** A file that holds no document, or a document of another shape, is no major and does
not matter for the others. But not every file without a document is passed over. One that is not in
UTF-8, holds a whole number of too many digits or lies too deep ends the listing with a fault
(`Folder.stop?`), and then no major is listed at all. `Registry.majors_eq` says what a listing gives
for any files.

**There and back.** A major that is listed is loaded from a file of its own name with the extension.
That is the file it was listed for, but for two names: the stem of `.json` is the whole name, and
the stem of `..json` is a single point, which is not the name of a part of a path.
-/

namespace DegreeAudit

/-! ## The bytes of a file -/

/-- The bytes of the file that a path leads to. -/
def Entry.bytes? : Entry → Option ByteArray
  | file bytes => some bytes
  | _ => none

theorem Entry.bytes?_eq_some_iff {entry : Entry} {bytes : ByteArray} :
    entry.bytes? = some bytes ↔ entry = .file bytes := by
  cases entry <;> simp [bytes?]

namespace Folder

/-- The document that bytes write, if they write one. -/
def written? (limit : Nat) (bytes : ByteArray) : Option Json :=
  (String.fromUTF8? bytes).bind fun s => (Json.readChars limit (withLineFeeds s.toList)).toOption

/-- The fault of bytes that are no document but are not passed over. -/
def stop? (limit : Nat) (bytes : ByteArray) : Option Fault :=
  match String.fromUTF8? bytes with
  | none => some .notUtf8
  | some s =>
    match Json.readChars limit (withLineFeeds s.toList) with
    | .error .oversizedNumber => some .notANumeral
    | .error .tooDeep => some .tooDeep
    | _ => none

/-- Bytes write a document, or are refused, or have another fault. -/
theorem readBytes_cases (limit : Nat) (p : Path) (bytes : ByteArray) :
    (∃ v, readBytes limit p bytes = .ok v ∧ written? limit bytes = some v ∧
        stop? limit bytes = none) ∨
      (∃ why, readBytes limit p bytes = .error (.malformed why) ∧ written? limit bytes = none ∧
        stop? limit bytes = none) ∨
      ∃ e, readBytes limit p bytes = .error e ∧ written? limit bytes = none ∧
        stop? limit bytes = some e ∧ (∀ why, e ≠ .malformed why) ∧ ∀ path, e ≠ .missing path := by
  unfold readBytes written? stop?
  cases String.fromUTF8? bytes with
  | none => exact .inr (.inr ⟨.notUtf8, rfl, rfl, rfl, nofun, nofun⟩)
  | some s =>
    dsimp only [Option.bind_some]
    cases Json.readChars limit (withLineFeeds s.toList) with
    | ok v => exact .inl ⟨v, rfl, rfl, rfl⟩
    | error e =>
      cases e with
      | malformed why n => exact .inr (.inl ⟨_, rfl, rfl, rfl⟩)
      | oversizedNumber => exact .inr (.inr ⟨.notANumeral, rfl, rfl, rfl, nofun, nofun⟩)
      | tooDeep => exact .inr (.inr ⟨.tooDeep, rfl, rfl, rfl, nofun, nofun⟩)

theorem readBytes_ne_missing (limit : Nat) (p : Path) (bytes : ByteArray) (path : Text) :
    readBytes limit p bytes ≠ .error (.missing path) := by
  intro hmissing
  rcases readBytes_cases limit p bytes with ⟨v, h, -⟩ | ⟨why, h, -⟩ | ⟨e, h, -, -, -, he⟩
  · rw [h] at hmissing
    cases hmissing
  · rw [h] at hmissing
    cases hmissing
  · rw [h] at hmissing
    exact he path (Except.error.inj hmissing)

end Folder

/-! ## Names of files and of majors -/

namespace Path

theorem stem_append_json {s : Text} (h : s ≠ []) : stem (s ++ Registry.extension) = s := by
  have hspan : (s ++ Registry.extension).reverse.span (fun c : CodePoint => c != '.') =
      (("nosj" : Text), ('.' : CodePoint) :: s.reverse) := by
    rw [List.reverse_append]
    rfl
  have hreverse : s.reverse ≠ [] := by simpa using h
  unfold stem
  rw [hspan]
  cases hs : s.reverse with
  | nil => exact absurd hs hreverse
  | cons c cs =>
    show (c :: cs).reverse = s
    rw [← hs, List.reverse_reverse]

end Path

namespace Registry

theorem isDocument_iff {name : Text} : isDocument name = true ↔ ∃ s, name = s ++ extension := by
  rw [isDocument, List.isSuffixOf_iff_suffix]
  constructor
  · rintro ⟨s, rfl⟩
    exact ⟨s, rfl⟩
  · rintro ⟨s, rfl⟩
    exact ⟨s, rfl⟩

variable {r : Registry}

theorem rulesTarget?_eq {major : Text} (h : ('/' : CodePoint) ∉ major) :
    r.rulesTarget? major = if major = "" ∨ major = "." then none else some (r.rulesPath major) := by
  by_cases hshort : major = "" ∨ major = "."
  · rw [if_pos hshort]
    exact rulesTarget?_eq_none_iff.mpr (hshort.imp_right .inl)
  · rw [if_neg hshort]
    obtain ⟨hempty, hpoint⟩ := not_or.mp hshort
    exact rulesTarget?_eq_some_iff.mpr ⟨⟨hempty, hpoint, h⟩, rfl⟩

/-- The major that a file is listed for is loaded from this file, but for two names. -/
theorem rulesTarget?_stem_iff {name : Text} (hdocument : isDocument name = true)
    (h : ('/' : CodePoint) ∉ name) :
    r.rulesTarget? (Path.stem name) = some (r.sourcePath name) ↔
      name ≠ ".json" ∧ name ≠ "..json" := by
  obtain ⟨s, rfl⟩ := isDocument_iff.mp hdocument
  by_cases hempty : s = []
  · subst hempty
    -- The whole name is taken for the stem, so the extension is added to it.
    have htarget : r.rulesTarget? (Path.stem ".json") = some (r.rulesPath ".json") := rfl
    have hpath : r.rulesPath ".json" ≠ r.sourcePath ".json" := by
      rw [rulesPath, sourcePath, Path.child_of_not_mem _ (by decide),
        Path.child_of_not_mem _ (by decide)]
      intro heq
      have hparts := List.append_cancel_left (Path.mk.inj heq).2
      exact absurd hparts (by decide)
    constructor
    · intro heq
      rw [show ([] ++ extension : Text) = ".json" from rfl, htarget] at heq
      exact absurd (Option.some.inj heq) hpath
    · rintro ⟨hne, -⟩
      exact absurd rfl hne
  · have hslash : ('/' : CodePoint) ∉ s := fun hmem => h (List.mem_append_left _ hmem)
    have hname : s ++ extension ≠ ".json" := by
      intro heq
      have hlength := congrArg List.length heq
      rw [List.length_append] at hlength
      exact hempty (List.length_eq_zero_iff.mp (by
        simpa [extension, Text.ofString, Text.ofChars] using hlength))
    have hpoint : s = "." ↔ s ++ extension = "..json" := by
      rw [show ("..json" : Text) = "." ++ extension from rfl, List.append_cancel_right_eq]
    rw [Path.stem_append_json hempty, rulesTarget?_eq hslash]
    by_cases hs : s = "."
    · rw [if_pos (.inr hs)]
      constructor
      · intro heq
        cases heq
      · rintro ⟨-, hne⟩
        exact absurd (hpoint.mp hs) hne
    · rw [if_neg (by simp only [hs, or_false]; exact hempty)]
      exact ⟨fun _ => ⟨hname, fun heq => hs (hpoint.mpr heq)⟩, fun _ => rfl⟩

end Registry

/-! ## Listing -/

namespace Registry

variable {r : Registry}

def documentNames (r : Registry) : List Text :=
  (r.folder.names r.requirementsFolder).filter isDocument

/-- The files of the requirements folder that are documents by their names, with their bytes. -/
def documents (r : Registry) : List (Text × ByteArray) :=
  r.documentNames.filterMap fun name =>
    (r.folder.look (r.sourcePath name)).bytes?.map fun bytes => (name, bytes)

/-- Whether the requirements folder can be looked through and holds a file under every name of a
document. A name is that of a single part. -/
structure Browsable (r : Registry) : Prop where
  reached : r.folder.look r.requirementsFolder ≠ .overlong
  single : ∀ name ∈ r.documentNames, ('/' : CodePoint) ∉ name
  regular : ∀ name ∈ r.documentNames, (r.folder.look (r.sourcePath name)).bytes?.isSome = true

instance (r : Registry) : Decidable r.Browsable :=
  decidable_of_iff (r.folder.look r.requirementsFolder ≠ .overlong ∧
      (∀ name ∈ r.documentNames, ('/' : CodePoint) ∉ name) ∧
      ∀ name ∈ r.documentNames, (r.folder.look (r.sourcePath name)).bytes?.isSome = true)
    ⟨fun h => ⟨h.1, h.2.1, h.2.2⟩, fun h => ⟨h.reached, h.single, h.regular⟩⟩

/-- Whether bytes write the rule document of a major. -/
def holdsRules (limit : Nat) (bytes : ByteArray) : Bool :=
  (Folder.written? limit bytes).any isRules

/-- The stems of the files that hold the rule document of a major. -/
def stems (limit : Nat) (files : List (Text × ByteArray)) : List Text :=
  (files.filter fun f => holdsRules limit f.2).map fun f => Path.stem f.1

theorem mem_documents {name : Text} {bytes : ByteArray} :
    (name, bytes) ∈ r.documents ↔
      name ∈ r.documentNames ∧ r.folder.look (r.sourcePath name) = .file bytes := by
  simp only [documents, List.mem_filterMap, Option.map_eq_some_iff, Entry.bytes?_eq_some_iff]
  constructor
  · rintro ⟨name', hmem, bytes', hlook, heq⟩
    obtain ⟨rfl, rfl⟩ := Prod.mk.inj heq
    exact ⟨hmem, hlook⟩
  · rintro ⟨hmem, hlook⟩
    exact ⟨name, hmem, bytes, hlook, rfl⟩

theorem Browsable.map_fst_documents (h : r.Browsable) :
    r.documents.map Prod.fst = r.documentNames := by
  have hall := h.regular
  unfold documents
  generalize r.documentNames = names at hall
  induction names with
  | nil => rfl
  | cons name rest ih =>
    obtain ⟨bytes, hbytes⟩ := Option.isSome_iff_exists.mp (hall name List.mem_cons_self)
    rw [List.filterMap_cons_some (by rw [hbytes, Option.map_some]), List.map_cons,
      ih fun name' hmem => hall name' (List.mem_cons_of_mem name hmem)]

/-- What a listing makes of one file. -/
theorem majorOf_of_look {name : Text} {bytes : ByteArray}
    (h : r.folder.look (r.sourcePath name) = .file bytes) :
    r.majorOf name =
      match Folder.stop? r.folder.maxDepth bytes with
      | some e => .error e
      | none =>
        .ok (if holdsRules r.folder.maxDepth bytes then some (Path.stem name) else none) := by
  have hread : r.folder.read (r.sourcePath name) =
      Folder.readBytes r.folder.maxDepth (r.sourcePath name) bytes := by
    rw [Folder.read, h]
  unfold majorOf holdsRules
  rw [hread]
  rcases Folder.readBytes_cases r.folder.maxDepth (r.sourcePath name) bytes with
    ⟨v, hv, hwritten, hstop⟩ | ⟨why, hwhy, hwritten, hstop⟩ | ⟨e, he, -, hstop, hrefused, -⟩
  · rw [hv, hwritten, hstop]
    rfl
  · rw [hwhy, hwritten, hstop]
    rfl
  · rw [he, hstop]
    cases e with
    | malformed why => exact absurd rfl (hrefused why)
    | _ => rfl

/-- The files are gone through up to the first that ends the listing. -/
theorem mapM_majorOf {files : List (Text × ByteArray)}
    (h : ∀ f ∈ files, r.folder.look (r.sourcePath f.1) = .file f.2) :
    (files.map Prod.fst).mapM r.majorOf =
      match files.findSome? fun f => Folder.stop? r.folder.maxDepth f.2 with
      | some e => .error e
      | none => .ok (files.map fun f =>
          if holdsRules r.folder.maxDepth f.2 then some (Path.stem f.1) else none) := by
  induction files with
  | nil => rfl
  | cons f rest ih =>
    rw [List.map_cons, List.mapM_cons, majorOf_of_look (h f List.mem_cons_self),
      ih fun g hg => h g (List.mem_cons_of_mem f hg), List.findSome?_cons]
    cases Folder.stop? r.folder.maxDepth f.2 with
    | some e => rfl
    | none =>
      dsimp only
      cases rest.findSome? fun g => Folder.stop? r.folder.maxDepth g.2 <;> rfl

theorem filterMap_stems (limit : Nat) (files : List (Text × ByteArray)) :
    (files.map fun f => if holdsRules limit f.2 then some (Path.stem f.1) else none).filterMap id =
      stems limit files := by
  rw [List.filterMap_map, stems]
  induction files with
  | nil => rfl
  | cons f rest ih =>
    rw [List.filterMap_cons, List.filter_cons, ih]
    by_cases hrules : holdsRules limit f.2 = true <;> simp [hrules]

/-- **What a listing gives.** The sorted stems of the files that hold rules, or the fault of the
first file that is not passed over. -/
theorem majors_eq (h : r.Browsable) :
    r.majors =
      match r.documents.findSome? fun f => Folder.stop? r.folder.maxDepth f.2 with
      | some e => .error e
      | none => .ok ((stems r.folder.maxDepth r.documents).mergeSort Text.le) := by
  have hlooks : ∀ f ∈ r.documents, r.folder.look (r.sourcePath f.1) = .file f.2 :=
    fun f hf => (mem_documents.mp hf).2
  have hmajors : r.majors = (do
      let found ← r.documentNames.mapM r.majorOf
      return (found.filterMap id).mergeSort Text.le) := by
    unfold majors
    split
    · next hlong => exact absurd hlong h.reached
    · rfl
  rw [hmajors, ← h.map_fst_documents, mapM_majorOf hlooks]
  cases r.documents.findSome? fun f => Folder.stop? r.folder.maxDepth f.2 with
  | some e => rfl
  | none =>
    show Except.ok _ = Except.ok _
    rw [filterMap_stems]

/-- A list is the sorted one exactly if it is sorted and has the same members, as often. -/
theorem eq_mergeSort_iff {names sorted : List Text} :
    names.mergeSort Text.le = sorted ↔
      sorted.Pairwise (fun s t => Text.le s t = true) ∧ sorted.Perm names := by
  have hpairwise : (names.mergeSort Text.le).Pairwise fun s t => Text.le s t = true :=
    @List.pairwise_mergeSort Text Text.le (fun _ _ _ => Text.le_trans) Text.le_total names
  constructor
  · rintro rfl
    exact ⟨hpairwise, List.mergeSort_perm names Text.le⟩
  · rintro ⟨hsorted, hperm⟩
    exact ((List.mergeSort_perm names Text.le).trans hperm.symm).eq_of_pairwise
      (fun _ _ _ _ => Text.le_antisymm) hpairwise hsorted

theorem majors_eq_ok_iff (h : r.Browsable) {ids : List Text} :
    r.majors = .ok ids ↔ (∀ f ∈ r.documents, Folder.stop? r.folder.maxDepth f.2 = none) ∧
      ids.Pairwise (fun s t => Text.le s t = true) ∧
      ids.Perm (stems r.folder.maxDepth r.documents) := by
  rw [majors_eq h, ← List.findSome?_eq_none_iff, ← eq_mergeSort_iff]
  cases r.documents.findSome? fun f => Folder.stop? r.folder.maxDepth f.2 with
  | some e => simp
  | none => simp

theorem majors_eq_error_iff (h : r.Browsable) {e : Fault} :
    r.majors = .error e ↔
      r.documents.findSome? (fun f => Folder.stop? r.folder.maxDepth f.2) = some e := by
  rw [majors_eq h]
  cases r.documents.findSome? fun f => Folder.stop? r.folder.maxDepth f.2 with
  | some e' => simp
  | none => simp

/-! ## Loading what is listed -/

/-- What is read for the rules of a major whose path leads to a file. -/
theorem readRules_of_file {major : Text} {p : Path} {bytes : ByteArray}
    (htarget : r.rulesTarget? major = some p) (hlook : r.folder.look p = .file bytes) :
    r.readRules major = (Folder.readBytes r.folder.maxDepth p bytes >>= RuleSet.read major) := by
  rw [readRules_of_some htarget, Folder.read, hlook]

theorem readRules_ne_missing {major : Text} {p : Path} {bytes : ByteArray}
    (htarget : r.rulesTarget? major = some p) (hlook : r.folder.look p = .file bytes)
    (path : Text) : r.readRules major ≠ .error (.missing path) := by
  rw [readRules_of_file htarget hlook]
  have hread := Folder.readBytes_ne_missing r.folder.maxDepth p bytes path
  cases hbytes : Folder.readBytes r.folder.maxDepth p bytes with
  | error e =>
    rw [hbytes] at hread
    exact fun hmissing => hread (congrArg Except.error (Except.error.inj hmissing))
  | ok v => exact fun hmissing => RuleSet.read_refuses major v _ hmissing

end Registry

theorem Load.readRules_of_rules {r : Registry} {major : Text} {e : Fault}
    (h : (run (rules major) r).1 = .error e) : r.readRules major = .error e := by
  have hview := congrArg Prod.fst (run_document (.rules major) r)
  rw [show document (.rules major) = rules major from rfl, h] at hview
  cases hkept : r.kept (.rules major) with
  | some c =>
    rw [Registry.view_of_kept hkept] at hview
    cases hview
  | none =>
    rw [Registry.view_of_not_kept hkept] at hview
    exact hview.symm

/-- **Listing the majors.** Let the requirements folder hold a file under every name of a document.
A listing gives names exactly if no file ends it, and then they are the sorted stems of exactly the
files that hold rules. Otherwise it gives the fault of the first file that ends it. The rules of a
listed major are those of the file that it is listed for, and not missing, unless the file is called
`.json` or `..json`. -/
theorem majors_listed (r : Registry) (h : r.Browsable) :
    r.documents.map Prod.fst = r.documentNames ∧
    (∀ ids, r.majors = .ok ids ↔ (∀ f ∈ r.documents, Folder.stop? r.folder.maxDepth f.2 = none) ∧
      ids.Pairwise (fun s t => Text.le s t = true) ∧
      ids.Perm (Registry.stems r.folder.maxDepth r.documents)) ∧
    (∀ e, r.majors = .error e ↔
      r.documents.findSome? (fun f => Folder.stop? r.folder.maxDepth f.2) = some e) ∧
    ∀ f ∈ r.documents,
      (r.rulesTarget? (Path.stem f.1) = some (r.sourcePath f.1) ↔
        f.1 ≠ ".json" ∧ f.1 ≠ "..json") ∧
      (f.1 ≠ ".json" → f.1 ≠ "..json" →
        r.readRules (Path.stem f.1) =
          (Folder.readBytes r.folder.maxDepth (r.sourcePath f.1) f.2 >>=
            RuleSet.read (Path.stem f.1)) ∧
        ∀ path, (Load.run (Load.rules (Path.stem f.1)) r).1 ≠ .error (.missing path)) := by
  refine ⟨h.map_fst_documents, fun ids => Registry.majors_eq_ok_iff h,
    fun e => Registry.majors_eq_error_iff h, fun f hf => ?_⟩
  obtain ⟨hname, hlook⟩ := Registry.mem_documents.mp hf
  have htarget := Registry.rulesTarget?_stem_iff (r := r) (List.mem_filter.mp hname).2
    (h.single f.1 hname)
  refine ⟨htarget, fun hwhole hpoint => ?_⟩
  have hfile := htarget.mpr ⟨hwhole, hpoint⟩
  exact ⟨Registry.readRules_of_file hfile hlook, fun path hmissing =>
    Registry.readRules_ne_missing hfile hlook path (Load.readRules_of_rules hmissing)⟩

/-- A registry of a folder with files in its requirements folder. -/
def requirementsOf (files : List (Text × ByteArray)) : Registry :=
  .ofFolder (files.foldl (fun d f => d.write ["requirements", f.1] f.2) (.empty ⟨0, ["data"]⟩ 900))
    ⟨0, ["data"]⟩

def emptyRules : ByteArray := "\x7b\"required_courses\": []\x7d".toUTF8

theorem majors_listed_passing_over :
    ∃ ids, (requirementsOf [("b.json", emptyRules), ("breadth.json", "\x7b\x7d".toUTF8),
        ("broken.json", "\x7b".toUTF8), ("a.json", emptyRules)]).majors = .ok ids ∧
      ids = (["a", "b"] : List Text) := by
  refine ⟨_, ((majors_listed _ (by decide +kernel)).2.1 _).mpr ?_, rfl⟩
  decide +kernel

/-- A byte that is no character in UTF-8. -/
def strayByte : ByteArray := ⟨#[0xFF]⟩

/-- The rule documents of two majors, and between them a file that holds the stray byte. -/
def strayFiles : List (Text × ByteArray) :=
  [("a.json", emptyRules), ("bad.json", strayByte), ("c.json", emptyRules)]

theorem Folder.stop?_strayByte (limit : Nat) : Folder.stop? limit strayByte = some .notUtf8 := by
  have hnone : String.fromUTF8? strayByte = none := by decide +kernel
  rw [Folder.stop?, hnone]

/-- A file with a byte that is no character ends a listing of two majors. Elsewhere two majors are
listed, and the rules of neither are there. -/
theorem listing_ended :
    (∃ r : Registry, r.Browsable ∧ r.documents = strayFiles ∧
      Registry.stems r.folder.maxDepth strayFiles = (["a", "c"] : List Text) ∧
      r.majors = .error .notUtf8) ∧
    ∃ r : Registry, r.Browsable ∧ r.majors = .ok [".", ".json"] ∧
      (∃ path, r.readRules "." = .error (.missing path)) ∧
      ∃ path, r.readRules ".json" = .error (.missing path) := by
  have hstray : (requirementsOf strayFiles).documents = strayFiles := by decide +kernel
  refine ⟨⟨requirementsOf strayFiles, by decide +kernel, hstray, by decide +kernel, ?_⟩,
    ⟨requirementsOf [(".json", emptyRules), ("..json", emptyRules)], by decide +kernel, ?_, ?_, ?_⟩⟩
  · have hdepth : (requirementsOf strayFiles).folder.maxDepth = 900 := rfl
    have hrules : Folder.stop? 900 emptyRules = none := by decide +kernel
    rw [Registry.majors_eq_error_iff (by decide +kernel), hstray, hdepth, strayFiles]
    simp only [List.findSome?_cons, hrules, Folder.stop?_strayByte]
  · exact (Registry.majors_eq_ok_iff (by decide +kernel)).mpr (by decide +kernel)
  · exact ⟨_, rfl⟩
  · exact ⟨_, rfl⟩

end DegreeAudit
