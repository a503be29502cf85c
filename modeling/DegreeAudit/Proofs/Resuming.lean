import DegreeAudit.Proofs.Collecting

/-!
# Resuming a harvest

A harvest in a data folder reads the links and the entries there, and writes the entries back.

**The files.** The two documents lie in one folder under different names. So what is written for the
entries is found there again, and the links are read as before (`Harvest.look_keep_entries`,
`Harvest.look_keep_links`).

**Stopped and resumed.** A harvest that is stopped leaves what it saved last. One that starts from
there goes through settled links first, and ends as one that was never stopped, but for the times of
the entries (`interrupted_harvest_resumes`). The reader is trusted with one thing: that it reads
what was written (`Json.ReadsBack`).
-/

namespace DegreeAudit

/-! ## Reading what was written -/

namespace Json

/-- Whether a reader with a limit gets a document back from what is written for it. -/
def ReadsBack (limit : Nat) (v : Json) : Prop :=
  ∀ p, Folder.readBytes limit p v.write.toUTF8 = .ok v

theorem readsBack_iff {limit : Nat} {v : Json} : ReadsBack limit v ↔
    (readChars limit (Folder.withLineFeeds (writeChars 0 v))).toOption = some v := by
  have hbytes : String.fromUTF8? v.write.toUTF8 = some v.write := by
    rw [String.fromUTF8?, Option.dite_none_right_eq_some]
    exact ⟨v.write.isValidUTF8, rfl⟩
  have hchars : v.write.toList = writeChars 0 v := String.toList_ofList
  unfold ReadsBack Folder.readBytes
  rw [hbytes]
  dsimp only
  rw [hchars]
  cases readChars limit (Folder.withLineFeeds (writeChars 0 v)) with
  | ok w => simp [Except.toOption]
  | error e => cases e <;> simp [Except.toOption]

instance (limit : Nat) (v : Json) : Decidable (ReadsBack limit v) :=
  decidable_of_iff _ readsBack_iff.symm

end Json

/-! ## Files in a folder of the folder -/

namespace Folder

/-- A part can be a name if it does not lead back up and is not too long. -/
def IsPlainName (name : Text) : Prop :=
  FileName.resolve name = name ∧ name ≠ ".." ∧ FileName.isOverlong name = false ∧
    name.all FileName.allows = true

instance (name : Text) : Decidable (IsPlainName name) := inferInstanceAs (Decidable (_ ∧ _))

theorem walk_pair_eq_file_iff (d : Folder) {parent name : Text} {bytes : ByteArray}
    (hparent : IsPlainName parent) (hname : IsPlainName name) :
    d.walk [] [parent, name] = .file bytes ↔
      [] ∈ d.folders ∧ [parent] ∈ d.folders ∧ d.files.lookup [parent, name] = some bytes := by
  obtain ⟨-, hparentUp, hparentLong, -⟩ := hparent
  obtain ⟨-, hnameUp, hnameLong, -⟩ := hname
  by_cases hroot : [] ∈ d.folders
  · by_cases hfolder : [parent] ∈ d.folders
    · cases hfile : d.files.lookup [parent, name] with
      | some bytes' =>
        simp [walk, hroot, hfolder, hparentUp, hparentLong, hnameUp, hnameLong, hfile]
      | none =>
        have hlast := d.walk_nil_ne_file [name, parent] bytes
        simp [walk] at hlast
        simp [walk, hroot, hfolder, hparentUp, hparentLong, hnameUp, hnameLong, hfile, hlast]
    · simp [walk, hroot, hfolder, hparentUp, hparentLong]
  · simp [walk, hroot]

end Folder

namespace Harvest

open Folder

/-! ## The files of a harvest -/

section

variable {d : Folder} {name : Text} {bytes : ByteArray}

theorem contains_pathOf (d : Folder) (parts : List Text) :
    d.contains (pathOf d parts) = true ∧ d.below (pathOf d parts) = parts := by
  refine ⟨?_, List.drop_left⟩
  rw [contains, pathOf, Bool.and_eq_true, List.isPrefixOf_iff_prefix]
  exact ⟨decide_eq_true rfl, List.prefix_append _ _⟩

/-- A file in a folder of a data folder is found if the way there exists and is not too long. -/
theorem look_eq_file_iff {parent : Text} (hparent : IsPlainName parent) (hname : IsPlainName name) :
    d.look (pathOf d [parent, name]) = .file bytes ↔
      (d.base.parts.all (·.all FileName.allows) = true ∧
        ¬Path.maxBytes < d.byteCount (pathOf d [parent, name])) ∧
      [] ∈ d.folders ∧ [parent] ∈ d.folders ∧ d.files.lookup [parent, name] = some bytes := by
  obtain ⟨hin, hbelow⟩ := contains_pathOf d [parent, name]
  have hchars : (pathOf d [parent, name]).parts.all (·.all FileName.allows) =
      d.base.parts.all (·.all FileName.allows) := by
    simp [pathOf, hparent.2.2.2, hname.2.2.2]
  rw [look, hchars, hin, hbelow, if_pos rfl, List.map_cons, List.map_singleton, hparent.1, hname.1]
  by_cases hallowed : d.base.parts.all (·.all FileName.allows) = true
  · by_cases hlong : Path.maxBytes < d.byteCount (pathOf d [parent, name])
    · simp [hallowed, hlong]
    · rw [if_neg (by simp [hallowed]), if_neg hlong, walk_pair_eq_file_iff d hparent hname]
      simp [hallowed, hlong]
  · simp [hallowed]

theorem mem_folders_write (d : Folder) {parts folder : List Text} (bytes : ByteArray)
    (h : folder ∈ d.folders ∨ folder ∈ ancestors (parts.map FileName.resolve)) :
    folder ∈ (d.write parts bytes).folders := by
  unfold write
  by_cases hmem : folder ∈ d.folders
  · exact List.mem_append_left _ hmem
  · exact List.mem_append_right _ (List.mem_filter.mpr ⟨h.resolve_left hmem, by simpa using hmem⟩)

theorem look_write (d : Folder) (bytes : ByteArray) {parent : Text} (hparent : IsPlainName parent)
    (hname : IsPlainName name) (hallowed : d.base.parts.all (·.all FileName.allows) = true)
    (hfits : ¬Path.maxBytes < d.byteCount (pathOf d [parent, name])) :
    (d.write [parent, name] bytes).look (pathOf d [parent, name]) = .file bytes := by
  have hresolve : [parent, name].map FileName.resolve = [parent, name] := by
    rw [List.map_cons, List.map_singleton, hparent.1, hname.1]
  have hway : ([] : List Text) ∈ ancestors ([parent, name].map FileName.resolve) ∧
      [parent] ∈ ancestors ([parent, name].map FileName.resolve) := by
    rw [hresolve]
    exact ⟨.head _, .tail _ (.head _)⟩
  refine (look_eq_file_iff hparent hname).mpr
    ⟨⟨hallowed, hfits⟩, mem_folders_write d bytes (.inr hway.1),
      mem_folders_write d bytes (.inr hway.2), ?_⟩
  rw [lookup_write, if_pos hresolve.symm]

/-- Writes entries to the place of the entries. -/
def keep (d : Folder) (entries : Fields) : Folder :=
  d.write entriesName (Json.object entries).write.toUTF8

theorem isPlainName_names :
    IsPlainName "course-data" ∧ IsPlainName "course-links.json" ∧ IsPlainName "prereqs.json" := by
  decide +kernel

theorem byteCount_entries_le (d : Folder) :
    d.byteCount (pathOf d entriesName) ≤ d.byteCount (pathOf d linksName) := by
  have hsums : entriesName.foldr (fun part bytes => (FileName.bytes part).length + 1 + bytes) 0 ≤
      linksName.foldr (fun part bytes => (FileName.bytes part).length + 1 + bytes) 0 := by
    decide +kernel
  obtain ⟨hentriesIn, hentriesBelow⟩ := contains_pathOf d entriesName
  obtain ⟨hlinksIn, hlinksBelow⟩ := contains_pathOf d linksName
  rw [byteCount, byteCount, if_pos hentriesIn, if_pos hlinksIn, hentriesBelow, hlinksBelow]
  exact Nat.add_le_add_left hsums _

theorem look_keep_links (entries : Fields) (h : d.look (pathOf d linksName) = .file bytes) :
    (keep d entries).look (pathOf (keep d entries) linksName) = .file bytes := by
  obtain ⟨hfolder, hlinks, -⟩ := isPlainName_names
  obtain ⟨hfits, hroot, hparent, hfile⟩ := (look_eq_file_iff hfolder hlinks).mp h
  refine (look_eq_file_iff hfolder hlinks).mpr ⟨hfits, mem_folders_write d _ (.inl hroot),
    mem_folders_write d _ (.inl hparent), ?_⟩
  rw [keep, lookup_write, if_neg (by decide +kernel)]
  exact hfile

theorem look_keep_entries (entries : Fields) (h : d.look (pathOf d linksName) = .file bytes) :
    (keep d entries).look (pathOf (keep d entries) entriesName) =
      .file (Json.object entries).write.toUTF8 := by
  obtain ⟨hfolder, hlinks, hentries⟩ := isPlainName_names
  obtain ⟨⟨hallowed, hfits⟩, -⟩ := (look_eq_file_iff hfolder hlinks).mp h
  exact look_write _ _ hfolder hentries hallowed fun hlong =>
    hfits (Nat.lt_of_lt_of_le hlong (byteCount_entries_le d))

end

/-! ## One harvest -/

section

variable {d : Folder} {site : Site} {clock : Text → Text} {links existing : Fields} {h : Harvest}

theorem run_spec {blocked : Bool}
    (hrun : run site clock links (start blocked (.object existing)) = .ok h) :
    h.kept = .object (reached site clock existing links) ∧
      h.saved = some (.object (reached site clock existing links)) ∧
      h.followed = pursued site clock existing links ∧ blocked = false ∧
      ∀ url ∈ pursued site clock existing links, Answers site url := by
  unfold run save at hrun
  cases hsteps : steps site clock links.length (start blocked (.object existing)) 1 links with
  | error why =>
    rw [hsteps] at hrun
    cases hrun
  | ok last =>
    obtain ⟨hkept, hblocked, hfollowed, hanswers⟩ := steps_spec rfl hsteps
    change last.blocked = blocked at hblocked
    rw [hsteps] at hrun
    change (if last.blocked = true then _ else _) = _ at hrun
    rw [hblocked] at hrun
    cases blocked with
    | true => cases hrun
    | false =>
      obtain rfl := Except.ok.inj hrun
      exact ⟨hkept, congrArg some hkept, hfollowed, rfl, hanswers⟩

theorem exists_run (hanswers : ∀ url ∈ pursued site clock existing links, Answers site url) :
    ∃ h, run site clock links (start false (.object existing)) = .ok h := by
  obtain ⟨last, hsteps⟩ := exists_steps clock links.length 1
    (h := start false (.object existing)) rfl rfl hanswers
  obtain ⟨-, hblocked, -⟩ := steps_spec rfl hsteps
  change last.blocked = false at hblocked
  refine ⟨{ last with saved := some last.kept }, ?_⟩
  unfold run save
  rw [hsteps]
  change (if last.blocked = true then _ else _) = _
  rw [hblocked]
  rfl

theorem leave_eq_keep {entries : Fields} (hsaved : h.saved = some (.object entries)) :
    h.leave d = keep d entries := by
  rw [leave, hsaved, keep]

theorem runIn_nil (site : Site) (clock : Text → Text)
    (hlinks : readOrEmpty d (pathOf d linksName) = .ok (.object []))
    (hexisting : readOrEmpty d (pathOf d entriesName) = .ok (.object existing)) :
    ∃ output, runIn d site clock = .ok ⟨d, output, []⟩ := by
  unfold runIn
  rw [hlinks, hexisting]
  exact ⟨_, rfl⟩

theorem runIn_eq (site : Site) (clock : Text → Text)
    (hlinks : readOrEmpty d (pathOf d linksName) = .ok (.object links))
    (hexisting : readOrEmpty d (pathOf d entriesName) = .ok (.object existing)) (hne : links ≠ []) :
    ∃ output : Harvest → Text, runIn d site clock =
      (run site clock links (start (d.isFolder (pathOf d entriesName)) (.object existing))).map
        fun h => ⟨h.leave d, output h, h.followed⟩ := by
  cases links with
  | nil => exact absurd rfl hne
  | cons link rest =>
    unfold runIn
    rw [hlinks, hexisting]
    exact ⟨_, rfl⟩

/-- **A harvest** over links writes the entries that they reach, if no link that it follows stops
everything and no folder stands in the place of the entries. -/
theorem runIn_eq_ok_iff (hlinks : readOrEmpty d (pathOf d linksName) = .ok (.object links))
    (hexisting : readOrEmpty d (pathOf d entriesName) = .ok (.object existing)) (hne : links ≠ [])
    {folder : Folder} {asked : List Json} :
    (∃ output, runIn d site clock = .ok ⟨folder, output, asked⟩) ↔
      (∀ url ∈ pursued site clock existing links, Answers site url) ∧
        d.isFolder (pathOf d entriesName) = false ∧
        asked = pursued site clock existing links ∧
        folder = keep d (reached site clock existing links) := by
  obtain ⟨output, hrunIn⟩ := runIn_eq site clock hlinks hexisting hne
  rw [hrunIn]
  constructor
  · rintro ⟨_, hok⟩
    cases hrun : run site clock links
        (start (d.isFolder (pathOf d entriesName)) (.object existing)) with
    | error why =>
      rw [hrun] at hok
      cases hok
    | ok h =>
      obtain ⟨-, hsaved, hfollowed, hfree, hanswers⟩ := run_spec hrun
      rw [hrun] at hok
      obtain ⟨rfl, -, rfl⟩ := Outcome.mk.inj (Except.ok.inj hok)
      exact ⟨hanswers, hfree, hfollowed, leave_eq_keep hsaved⟩
  · rintro ⟨hanswers, hfree, rfl, rfl⟩
    obtain ⟨h, hrun⟩ := exists_run hanswers
    obtain ⟨-, hsaved, hfollowed, -⟩ := run_spec hrun
    rw [hfree, hrun, ← hfollowed, ← leave_eq_keep hsaved]
    exact ⟨output h, rfl⟩

/-! ## Stopped and resumed -/

theorem exists_look_links (hlinks : readOrEmpty d (pathOf d linksName) = .ok (.object links))
    (hne : links ≠ []) : ∃ bytes, d.look (pathOf d linksName) = .file bytes := by
  cases hlook : d.look (pathOf d linksName) with
  | file bytes => exact ⟨bytes, rfl⟩
  | folder | nothing | overlong =>
    rw [readOrEmpty, Folder.read, hlook] at hlinks
    obtain ⟨⟩ := Except.ok.inj hlinks
    exact absurd rfl hne

theorem readOrEmpty_of_look {p : Path} {v : Json} (hlook : d.look p = .file v.write.toUTF8)
    (hback : Json.ReadsBack d.maxDepth v) : readOrEmpty d p = .ok v := by
  rw [readOrEmpty, Folder.read, hlook]
  dsimp only
  rw [hback]

/-- A harvest finds links and entries in a folder, and writes to the same place as in another. -/
structure Resumable (d d' : Folder) (links entries : Fields) : Prop where
  links : readOrEmpty d' (pathOf d' linksName) = .ok (.object links)
  entries : readOrEmpty d' (pathOf d' entriesName) = .ok (.object entries)
  free : d'.isFolder (pathOf d' entriesName) = false
  keeps : ∀ entries', keep d' entries' = keep d entries'

/-- After entries were written, a harvest finds the same links and these entries. -/
theorem resumable_keep (hlinks : readOrEmpty d (pathOf d linksName) = .ok (.object links))
    (hne : links ≠ []) {entries : Fields} (hback : Json.ReadsBack d.maxDepth (.object entries)) :
    Resumable d (keep d entries) links entries := by
  obtain ⟨bytes, hlook⟩ := exists_look_links hlinks hne
  have hlook' := look_keep_links entries hlook
  have hentries := look_keep_entries entries hlook
  refine ⟨?_, ?_, ?_, fun entries' => write_write _ _ _ _⟩
  · rw [readOrEmpty, Folder.read, hlook']
    rwa [readOrEmpty, Folder.read, hlook] at hlinks
  · exact readOrEmpty_of_look hentries hback
  · rw [isFolder, hentries]

/-- After a harvest was stopped, another one finds the same links and what was reached when entries
were saved last. -/
theorem resumable_leave {k : Nat}
    (hlinks : readOrEmpty d (pathOf d linksName) = .ok (.object links))
    (hexisting : readOrEmpty d (pathOf d entriesName) = .ok (.object existing)) (hne : links ≠ [])
    (hfree : d.isFolder (pathOf d entriesName) = false)
    (hstop : stopped site clock links existing k = .ok h)
    (hback : ∀ kept ∈ h.saved, Json.ReadsBack d.maxDepth kept) :
    ∃ j, Resumable d (h.leave d) links (reached site clock existing (links.take j)) := by
  obtain ⟨j, hdisk⟩ := exists_onDisk_eq hstop
  refine ⟨j, ?_⟩
  cases hsaved : h.saved with
  | none =>
    rw [onDisk, hsaved] at hdisk
    have hsame : existing = _ := Json.object.inj hdisk
    rw [leave, hsaved, ← hsame]
    exact ⟨hlinks, hexisting, hfree, fun _ => rfl⟩
  | some kept =>
    rw [onDisk, hsaved] at hdisk
    obtain rfl : kept = _ := hdisk
    rw [leave_eq_keep hsaved]
    exact resumable_keep hlinks hne (hback _ hsaved)

end

/-- Whether two folders are the same but for the times in the entries that were written last. -/
def SameUntimed (d₁ d₂ : Folder) : Prop :=
  d₁ = d₂ ∨ ∃ d entries₁ entries₂, d₁ = keep d entries₁ ∧ d₂ = keep d entries₂ ∧
    entries₁.map untimed = entries₂.map untimed

section

variable {d d' : Folder} {site : Site} {clock : Text → Text} {links existing : Fields}

/-- If no link that a whole harvest follows stops everything, then a harvest from what the first
links reached ends, and reaches the same entries. -/
theorem exists_resumed {clock₁ : Text → Text} {j : Nat} (clock₂ : Text → Text) (hne : links ≠ [])
    (hanswers : ∀ url ∈ pursued site clock existing links, Answers site url)
    (hresumable : Resumable d d' links (reached site clock₁ existing (links.take j))) :
    ∃ resumed, runIn d' site clock₂ = .ok resumed ∧
      SameUntimed (keep d (reached site clock existing links)) resumed.folder := by
  -- What was saved leaves fewer links to follow.
  have hsub := pursued_sublist site clock clock₂ links
    (keys_subset_reached site clock₁ existing (links.take j))
  obtain ⟨output, hrun⟩ := (runIn_eq_ok_iff hresumable.links hresumable.entries hne).mpr
    ⟨fun url hmem => hanswers url (hsub.subset hmem), hresumable.free, rfl, rfl⟩
  exact ⟨_, hrun, .inr ⟨d, _, _, rfl, hresumable.keeps _, (untimed_resumed _ _ _ _ _ _ j).symm⟩⟩

/-- A link that is pending at the end of a harvest gives a failure. -/
theorem exists_failure {link : Text × Json} (hlink : link ∈ links)
    (hanswers : ∀ url ∈ pursued site clock existing links, Answers site url)
    (hpending : isPending (reached site clock existing links) link = true) :
    ∃ why, site.visit link.2 = .failure why := by
  have hfinal : link.2 ∈ pursued site clock (reached site clock existing links) links := by
    rw [pursued_of_settled clock fun _ => settled_of_mem]
    exact List.mem_map_of_mem (List.mem_filter.mpr ⟨hlink, hpending⟩)
  have hmem := (pursued_sublist site clock clock links
    (keys_subset_reached site clock existing links)).subset hfinal
  cases hvisit : site.visit link.2 with
  | page text => exact absurd hvisit (settled_of_mem hlink hpending text)
  | failure why => exact ⟨why, rfl⟩
  | fault why => exact absurd hvisit (hanswers _ hmem why)

/-- A harvest over settled links that fail follows those without an entry, and leaves the entries as
they are. -/
theorem exists_again {entries : Fields} (clock : Text → Text) (hne : links ≠ [])
    (hresumable : Resumable d d' links entries)
    (hfails : ∀ link ∈ links, isPending entries link = true →
      ∃ why, site.visit link.2 = .failure why) :
    ∃ again, runIn d' site clock = .ok again ∧
      again.asked = (links.filter (isPending entries ·)).map Prod.snd ∧
      again.folder = keep d entries := by
  have hsettled : ∀ link ∈ links, Settled site entries link := by
    intro link hlink hpending text hvisit
    obtain ⟨why, hfailure⟩ := hfails link hlink hpending
    exact Visit.noConfusion (hvisit.symm.trans hfailure)
  have hpursued := pursued_of_settled clock hsettled
  have hanswers : ∀ url ∈ pursued site clock entries links, Answers site url := by
    intro url hmem why hvisit
    rw [hpursued] at hmem
    obtain ⟨link, hlink, rfl⟩ := List.mem_map.mp hmem
    obtain ⟨why', hfailure⟩ := hfails link (List.mem_filter.mp hlink).1 (List.mem_filter.mp hlink).2
    exact Visit.noConfusion (hvisit.symm.trans hfailure)
  obtain ⟨output, hrun⟩ := (runIn_eq_ok_iff hresumable.links hresumable.entries hne).mpr
    ⟨hanswers, hresumable.free, rfl, rfl⟩
  refine ⟨_, hrun, hpursued, ?_⟩
  rw [reached_of_settled hsettled]
  exact hresumable.keeps entries

end

/-- **A harvest can be resumed.** Let links and existing entries be kept in a data folder. A harvest
over it ends if no folder stands in the place of the entries and no link stops everything.

Let a harvest end. If another one with the same pages is stopped after any number of links, and what
it saved last reads back, then a harvest of what it left ends, and leaves the same folder but for
the times of the entries.

At the end, the links without an entry are failures. If the final entries read back, then a further
harvest ends for which they are failures as well, as for the same pages: it follows exactly these
links and leaves the folder as it is. -/
theorem interrupted_harvest_resumes {d : Folder} {links existing : Fields}
    (hlinks : readOrEmpty d (pathOf d linksName) = .ok (.object links))
    (hexisting : readOrEmpty d (pathOf d entriesName) = .ok (.object existing))
    (site : Site) (clock : Text → Text) :
    (d.isFolder (pathOf d entriesName) = false → (∀ link ∈ links, Answers site link.2) →
      ∃ whole, runIn d site clock = .ok whole) ∧
    ∀ whole, runIn d site clock = .ok whole →
      (∀ (clock₁ clock₂ : Text → Text) (k : Nat),
        ∃ h, stopped site clock₁ links existing k = .ok h ∧
          ((∀ kept ∈ h.saved, Json.ReadsBack d.maxDepth kept) →
            ∃ resumed, runIn (h.leave d) site clock₂ = .ok resumed ∧
              SameUntimed whole.folder resumed.folder)) ∧
      ∃ h, run site clock links (start false (.object existing)) = .ok h ∧
        whole.folder = (if links = [] then d else h.leave d) ∧
        (∀ link ∈ links, isPending h.entries link = true →
          ∃ why, site.visit link.2 = .failure why) ∧
        ((links ≠ [] → Json.ReadsBack d.maxDepth (.object h.entries)) →
          readOrEmpty whole.folder (pathOf whole.folder entriesName) = .ok (.object h.entries) ∧
          ∀ (site' : Site) (clock' : Text → Text),
            (∀ link ∈ links, isPending h.entries link = true →
              ∃ why, site'.visit link.2 = .failure why) →
            ∃ again, runIn whole.folder site' clock' = .ok again ∧
              again.asked = (links.filter (isPending h.entries ·)).map Prod.snd ∧
              again.folder = whole.folder) := by
  refine ⟨?_, fun whole hwhole => ?_⟩
  · intro hfree hanswers
    by_cases hne : links = []
    · subst hne
      obtain ⟨output, hrun⟩ := runIn_nil site clock hlinks hexisting
      exact ⟨_, hrun⟩
    · obtain ⟨output, hrun⟩ := (runIn_eq_ok_iff hlinks hexisting hne).mpr
        ⟨answers_of_pursued clock existing hanswers, hfree, rfl, rfl⟩
      exact ⟨_, hrun⟩
  · by_cases hne : links = []
    · subst hne
      obtain ⟨output, hrun⟩ := runIn_nil site clock hlinks hexisting
      obtain rfl := Except.ok.inj (hrun.symm.trans hwhole)
      refine ⟨fun clock₁ clock₂ k => ?_, { start false (.object existing) with
        saved := some (.object existing) }, rfl, rfl, by simp, fun _ => ⟨hexisting, ?_⟩⟩
      · obtain ⟨output', hrun'⟩ := runIn_nil site clock₂ hlinks hexisting
        refine ⟨start false (.object existing), ?_, fun _ => ⟨_, hrun', .inl rfl⟩⟩
        rw [stopped, List.take_nil, steps]
      · intro site' clock' _
        obtain ⟨output', hrun'⟩ := runIn_nil site' clock' hlinks hexisting
        exact ⟨_, hrun', rfl, rfl⟩
    · obtain ⟨folder, output, asked⟩ := whole
      obtain ⟨hanswers, hfree, -, rfl⟩ :=
        (runIn_eq_ok_iff hlinks hexisting hne).mp ⟨output, hwhole⟩
      obtain ⟨h, hrun⟩ := exists_run hanswers
      obtain ⟨hkept, hsaved, -⟩ := run_spec hrun
      have hentries : h.entries = reached site clock existing links := by rw [entries, hkept]
      refine ⟨fun clock₁ clock₂ k => ?_, h, hrun, by rw [if_neg hne, leave_eq_keep hsaved], ?_⟩
      · obtain ⟨h, hstop⟩ := exists_stopped clock₁ k
          fun url hmem => hanswers url (pursued_take_subset clock₁ clock existing links k hmem)
        refine ⟨h, hstop, fun hback => ?_⟩
        obtain ⟨j, hresumable⟩ := resumable_leave hlinks hexisting hne hfree hstop hback
        exact exists_resumed clock₂ hne hanswers hresumable
      · rw [hentries]
        refine ⟨fun link hlink => exists_failure hlink hanswers, fun hback => ?_⟩
        have hresumable := resumable_keep hlinks hne (hback hne)
        exact ⟨hresumable.entries, fun site' clock' => exists_again clock' hne hresumable⟩

/-- A data folder with links and entries. -/
def folderOf (links existing : Fields) : Folder :=
  keep ((Folder.empty ⟨0, ["data"]⟩ 900).write linksName (Json.object links).write.toUTF8) existing

theorem folderOf_spec {links existing : Fields} (hlinks : Json.ReadsBack 900 (.object links))
    (hexisting : Json.ReadsBack 900 (.object existing)) (hne : links ≠ []) :
    let d := folderOf links existing
    readOrEmpty d (pathOf d linksName) = .ok (.object links) ∧
      readOrEmpty d (pathOf d entriesName) = .ok (.object existing) ∧
      d.isFolder (pathOf d entriesName) = false := by
  have hlook := look_write (Folder.empty ⟨0, ["data"]⟩ 900) (Json.object links).write.toUTF8
    isPlainName_names.1 isPlainName_names.2.1 (by decide +kernel) (by decide +kernel)
  have hresumable := resumable_keep (readOrEmpty_of_look hlook hlinks) hne hexisting
  exact ⟨hresumable.links, hresumable.entries, hresumable.free⟩

/-- Links to a page and to a missing page. The tenth is followed, and the last one leads to a page
for a course whose other link did not. -/
def elevenLinks : Fields :=
  [("CS 100", .text "http://x.y/a"), ("CS 101", .text "http://x.y/b"),
    ("CS 102", .text "http://x.y/b"), ("CS 103", .text "http://x.y/b"),
    ("CS 104", .text "http://x.y/b"), ("CS 105", .text "http://x.y/b"),
    ("CS 106", .text "http://x.y/b"), ("CS 107", .text "http://x.y/b"),
    ("cs108", .text "http://x.y/b"), ("CS 109", .text "http://x.y/b"),
    ("CS 108", .text "http://x.y/a")]

/-- A site of one plain page. -/
def onePage : Site where
  fetch url :=
    if url = .text "http://x.y/a" then .page "<h2>Prerequisites</h2><p>CS 115</p>"
    else .failure "404 Client Error: Not Found for url: http://x.y/b"
  reader := .plain

/-- The entry of a course with that page. -/
def pageEntry (time code : Text) : Text × Json :=
  (code, .object [("prereq_text", .text "CS 115"), ("prereq_codes", .list [.text "CS 115"]),
    ("scraped_at", .text time), ("source", .text "http://x.y/a")])

def oneEntry : Fields := [("CS 102", .object [("source", .text "http://x.y/c")])]

def elevenFolder : Folder := folderOf elevenLinks oneEntry

theorem elevenFolder_spec :
    readOrEmpty elevenFolder (pathOf elevenFolder linksName) = .ok (.object elevenLinks) ∧
      readOrEmpty elevenFolder (pathOf elevenFolder entriesName) = .ok (.object oneEntry) ∧
      elevenFolder.isFolder (pathOf elevenFolder entriesName) = false :=
  folderOf_spec (by decide +kernel) (by decide +kernel) (by decide +kernel)

theorem answers_onePage (url : Json) : Answers onePage url := by
  intro why hvisit
  unfold Site.visit onePage at hvisit
  dsimp only at hvisit
  by_cases hurl : url = .text "http://x.y/a"
  · rw [if_pos hurl] at hvisit
    cases hvisit
  · rw [if_neg hurl] at hvisit
    cases hvisit

theorem interrupted_harvest_resumes_after_ten :
    ∃ whole h resumed again, runIn elevenFolder onePage (fun _ => "1") = .ok whole ∧
      stopped onePage (fun _ => "2") elevenLinks oneEntry 10 = .ok h ∧
      h.saved = some (.object (oneEntry ++ [pageEntry "2" "CS 100"])) ∧
      runIn (h.leave elevenFolder) onePage (fun _ => "3") = .ok resumed ∧
      SameUntimed whole.folder resumed.folder ∧
      readOrEmpty whole.folder (pathOf whole.folder entriesName) =
        .ok (.object (oneEntry ++ [pageEntry "1" "CS 100", pageEntry "1" "CS 108"])) ∧
      runIn whole.folder onePage (fun _ => "4") = .ok again ∧
      again.asked = List.replicate 7 (.text "http://x.y/b") ∧
      again.folder = whole.folder := by
  obtain ⟨hlinks, hexisting, hfree⟩ := elevenFolder_spec
  obtain ⟨hends, hresumes⟩ :=
    interrupted_harvest_resumes hlinks hexisting onePage fun _ => "1"
  obtain ⟨whole, hwhole⟩ := hends hfree fun link _ => answers_onePage link.2
  obtain ⟨hstopped, last, hrun, -, hfails, hagain⟩ := hresumes whole hwhole
  obtain ⟨h, hstop, hresumed⟩ := hstopped (fun _ => "2") (fun _ => "3") 10
  have hsaved : h.saved = some (.object (oneEntry ++ [pageEntry "2" "CS 100"])) := by
    have hstop' : (stopped onePage (fun _ => "2") elevenLinks oneEntry 10).toOption.map
        Harvest.saved = some (some (.object (oneEntry ++ [pageEntry "2" "CS 100"]))) := by
      decide +kernel
    rw [hstop] at hstop'
    exact Option.some.inj hstop'
  have hlast : last.entries = oneEntry ++ [pageEntry "1" "CS 100", pageEntry "1" "CS 108"] := by
    have hrun' : (run onePage (fun _ => "1") elevenLinks
        (start false (.object oneEntry))).toOption.map entries =
          some (oneEntry ++ [pageEntry "1" "CS 100", pageEntry "1" "CS 108"]) := by
      decide +kernel
    rw [hrun] at hrun'
    exact Option.some.inj hrun'
  rw [hlast] at hfails hagain
  obtain ⟨resumed, hresumed, hsame⟩ := hresumed fun kept hkept => by
    obtain rfl := Option.some.inj (hsaved.symm.trans hkept)
    decide +kernel
  obtain ⟨hread, hagain⟩ := hagain fun _ => by decide +kernel
  obtain ⟨again, hrunAgain, hasked, hfolder⟩ := hagain onePage (fun _ => "4") hfails
  have hseven : (elevenLinks.filter (isPending
      (oneEntry ++ [pageEntry "1" "CS 100", pageEntry "1" "CS 108"]) ·)).map Prod.snd =
        List.replicate 7 (.text "http://x.y/b") := by decide +kernel
  exact ⟨whole, h, resumed, again, hwhole, hstop, hsaved, hresumed, hsame, hread, hrunAgain,
    hasked.trans hseven, hfolder⟩

end Harvest

end DegreeAudit
