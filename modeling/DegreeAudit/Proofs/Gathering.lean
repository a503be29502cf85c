import DegreeAudit.Proofs.Resuming
import Mathlib.Data.List.Induction
import Mathlib.Data.List.Nodup

/-!
# What a harvest gathers

A harvest extends the entries that decide which links it skips, and several links can be for one
course. Here the links that it follows, and what it gets from them, are told without the entries in
between.

**Due links.** A link is *due* if its course has no entry before the harvest and no earlier link for
the course leads to a page (`Harvest.isDue`). After some links, a further one is pending exactly if
it is due (`Harvest.isPending_reached`).

**Gathered entries.** The due links that lead to a page give the entries that are added, in this
order (`Harvest.reached_eq_append_gathered`). No two of them are for one course, since the first one
leaves no later link for the course due (`Harvest.nodup_keys_gathered`).
-/

namespace DegreeAudit

namespace Harvest

/-! ## Due links -/

def isPage : Visit → Bool
  | .page _ => true
  | _ => false

/-- Whether a link is for a course and leads to a page. -/
def serves (site : Site) (code : Text) (link : Text × Json) : Bool :=
  code == Code.canonical link.1 && isPage (site.visit link.2)

/-- Whether a link is due after those before it. -/
def isDue (site : Site) (existing before : Fields) (link : Text × Json) : Bool :=
  !existing.has (Code.canonical link.1) && !before.any (serves site (Code.canonical link.1))

def due (site : Site) (existing links : Fields) : Fields :=
  (links.zipIdx.filter fun p => isDue site existing (links.take p.2) p.1).map Prod.fst

/-- The entry that a link gives, if it leads to a page. -/
def entryFrom? (site : Site) (clock : Text → Text) (link : Text × Json) : Option (Text × Json) :=
  match site.visit link.2 with
  | .page text =>
    some (Code.canonical link.1, entryOf (clock link.1) (Code.canonical link.1) text link.2)
  | _ => none

/-- The entries that some links give, those of the due ones with a page. -/
def gathered (site : Site) (clock : Text → Text) (existing links : Fields) : Fields :=
  (due site existing links).filterMap (entryFrom? site clock)

section

variable {site : Site} {clock : Text → Text} {entries existing links links' : Fields}
  {link : Text × Json} {code : Text}

theorem serves_iff : serves site code link = true ↔
    code = Code.canonical link.1 ∧ ∃ text, site.visit link.2 = .page text := by
  unfold serves
  cases site.visit link.2 <;> simp [isPage]

theorem isDue_iff : isDue site existing links link = true ↔
    Code.canonical link.1 ∉ existing.keys ∧
      ∀ earlier ∈ links, serves site (Code.canonical link.1) earlier = false := by
  simp [isDue, ← Fields.has_iff]

theorem due_concat : due site existing (links ++ [link]) =
    due site existing links ++ if isDue site existing links link then [link] else [] := by
  unfold due
  have hbefore : ∀ p ∈ links.zipIdx,
      isDue site existing ((links ++ [link]).take p.2) p.1 =
        isDue site existing (links.take p.2) p.1 := by
    intro p hp
    have hlt : p.2 < links.length := by simpa using (List.mem_zipIdx hp).2.1
    rw [List.take_append_of_le_length (Nat.le_of_lt hlt)]
  rw [List.zipIdx_append, List.filter_append, List.map_append, List.filter_congr hbefore]
  simp only [List.zipIdx_singleton, Nat.zero_add, List.filter_cons, List.filter_nil,
    List.take_left]
  cases isDue site existing links link <;> rfl

/-! ## One more link -/

theorem entryFrom?_key {e : Text × Json} (h : e ∈ entryFrom? site clock link) :
    e.1 = Code.canonical link.1 ∧ serves site e.1 link = true := by
  unfold entryFrom? at h
  split at h
  · next text hvisit =>
    obtain rfl := Option.some.inj h
    exact ⟨rfl, serves_iff.mpr ⟨rfl, text, hvisit⟩⟩
  · cases h

theorem grow_eq : grow site clock entries link =
    entries ++ if isPending entries link then (entryFrom? site clock link).toList else [] := by
  unfold grow entryFrom?
  split
  · cases site.visit link.2 with
    | page text => rfl
    | failure | fault => exact (List.append_nil entries).symm
  · exact (List.append_nil entries).symm

theorem gathered_concat : gathered site clock existing (links ++ [link]) =
    gathered site clock existing links ++
      if isDue site existing links link then (entryFrom? site clock link).toList else [] := by
  unfold gathered
  rw [due_concat, List.filterMap_append]
  congr 1
  split
  · cases h : entryFrom? site clock link <;> simp [h]
  · rfl

/-- **After some links** those are pending that are due. -/
theorem isPending_reached : isPending (reached site clock existing links) link =
    isDue site existing links link := by
  rw [Bool.eq_iff_iff, isPending_eq_true_iff, mem_keys_reached, isDue_iff, not_or]
  apply and_congr_right
  intro _
  constructor
  · intro hnone earlier hmem
    apply Bool.eq_false_iff.mpr
    intro hserves
    exact hnone ⟨earlier, hmem, serves_iff.mp hserves⟩
  · rintro hnone ⟨earlier, hmem, hserves⟩
    exact Bool.eq_false_iff.mp (hnone earlier hmem) (serves_iff.mpr hserves)

/-! ## A whole harvest -/

/-- **The entries** that are reached are the existing ones, followed by the gathered ones. -/
theorem reached_eq_append_gathered (site : Site) (clock : Text → Text) (existing links : Fields) :
    reached site clock existing links = existing ++ gathered site clock existing links := by
  induction links using List.reverseRecOn with
  | nil => exact (List.append_nil existing).symm
  | append_singleton links link ih =>
    rw [reached_append, gathered_concat, ← List.append_assoc, ← ih, ← isPending_reached]
    exact grow_eq

/-- **The links** that are followed are the due ones. -/
theorem pursued_eq_due (site : Site) (clock : Text → Text) (existing links : Fields) :
    pursued site clock existing links = (due site existing links).map Prod.snd := by
  induction links using List.reverseRecOn with
  | nil => rfl
  | append_singleton links link ih =>
    rw [pursued_append, due_concat, List.map_append, ih]
    simp only [pursued, isPending_reached]
    cases isDue site existing links link <;> rfl

theorem mem_due (h : link ∈ due site existing links) :
    link ∈ links ∧ Code.canonical link.1 ∉ existing.keys := by
  obtain ⟨⟨link, i⟩, hmem, rfl⟩ := List.mem_map.mp h
  obtain ⟨hzip, hdue⟩ := List.mem_filter.mp hmem
  exact ⟨List.fst_mem_of_mem_zipIdx hzip, (isDue_iff.mp hdue).1⟩

/-- **The courses** of the gathered entries are those without an entry that a link serves. -/
theorem mem_keys_gathered : code ∈ (gathered site clock existing links).keys ↔
    code ∉ existing.keys ∧ ∃ link ∈ links, serves site code link = true := by
  constructor
  · intro h
    obtain ⟨e, he, rfl⟩ := List.mem_map.mp h
    obtain ⟨link, hdue, hentry⟩ := List.mem_filterMap.mp he
    obtain ⟨hmem, hnew⟩ := mem_due hdue
    obtain ⟨hcode, hserves⟩ := entryFrom?_key hentry
    exact ⟨hcode ▸ hnew, link, hmem, hserves⟩
  · rintro ⟨hnew, link, hmem, hserves⟩
    have hreached : code ∈ (reached site clock existing links).keys :=
      mem_keys_reached.mpr (.inr ⟨link, hmem, serves_iff.mp hserves⟩)
    rw [reached_eq_append_gathered, Fields.keys, List.map_append] at hreached
    exact (List.mem_append.mp hreached).resolve_left hnew

theorem nodup_keys_gathered (site : Site) (clock : Text → Text) (existing links : Fields) :
    (gathered site clock existing links).keys.Nodup := by
  induction links using List.reverseRecOn with
  | nil => exact List.nodup_nil
  | append_singleton links link ih =>
    rw [gathered_concat]
    split
    · next hdue =>
      cases hentry : entryFrom? site clock link with
      | none => simpa using ih
      | some e =>
        have hnew : e.1 ∉ (gathered site clock existing links).keys := by
          rw [(entryFrom?_key hentry).1]
          intro hold
          obtain ⟨-, earlier, hmem, hserves⟩ := mem_keys_gathered.mp hold
          exact Bool.eq_false_iff.mp ((isDue_iff.mp hdue).2 earlier hmem) hserves
        simpa [Fields.keys] using List.Nodup.concat hnew ih
    · rwa [List.append_nil]

/-- A link that fails leaves the entries as they are. -/
theorem exists_stopped_succ {k : Nat} {h : Harvest} (hk : k < links.length) {why : Text}
    (hstop : stopped site clock links existing k = .ok h)
    (hfail : site.visit links[k].2 = .failure why) :
    ∃ h', stopped site clock links existing (k + 1) = .ok h' ∧ h'.kept = h.kept := by
  have hkept := (stopped_spec hstop).1
  have hfree : h.blocked = false := (steps_spec rfl hstop).2.1
  have hanswers : Answers site links[k].2 := fun _ hvisit =>
    Visit.noConfusion (hvisit.symm.trans hfail)
  obtain ⟨h', hstep⟩ :=
    exists_step site clock links.length (k + 1) links[k] hkept hfree fun _ => hanswers
  have hstop' : stopped site clock links existing (k + 1) = .ok h' := by
    rw [stopped_succ hk, hstop]
    exact hstep
  refine ⟨h', hstop', ?_⟩
  rw [(stopped_spec hstop').1, hkept, reached_take_succ hk]
  congr 1
  exact grow_of_settled clock fun _ _ hvisit => Visit.noConfusion (hvisit.symm.trans hfail)

end

/-- **Nothing is lost and nothing is repeated.** Let links and existing entries be kept in a data
folder. Without links, a harvest follows none and leaves the folder as it is. With links, it follows
the due ones, and the folder it leaves holds the existing entries, followed by the gathered ones; it
ends if and only if no due link stops everything and no folder stands in their place.

The gathered entries are those of the due links with a page, in order. There is one for each course
without an existing entry that a link with a page is for. A link that fails leaves the entries as
they are. -/
theorem harvest_gathers {d : Folder} {links existing : Fields}
    (hlinks : readOrEmpty d (pathOf d linksName) = .ok (.object links))
    (hexisting : readOrEmpty d (pathOf d entriesName) = .ok (.object existing))
    (site : Site) (clock : Text → Text) :
    (links = [] → ∃ output, runIn d site clock = .ok ⟨d, output, []⟩) ∧
    (links ≠ [] → ∀ folder asked,
      (∃ output, runIn d site clock = .ok ⟨folder, output, asked⟩) ↔
        (∀ link ∈ due site existing links, Answers site link.2) ∧
        d.isFolder (pathOf d entriesName) = false ∧
        asked = (due site existing links).map Prod.snd ∧
        folder = keep d (existing ++ gathered site clock existing links)) ∧
    (gathered site clock existing links).keys.Nodup ∧
    (∀ code, code ∈ (gathered site clock existing links).keys ↔
      code ∉ existing.keys ∧ ∃ link ∈ links,
        code = Code.canonical link.1 ∧ ∃ text, site.visit link.2 = .page text) ∧
    ∀ (k : Nat) (hk : k < links.length) (h : Harvest) (why : Text),
      stopped site clock links existing k = .ok h → site.visit links[k].2 = .failure why →
      ∃ h', stopped site clock links existing (k + 1) = .ok h' ∧ h'.kept = h.kept := by
  refine ⟨?_, ?_, nodup_keys_gathered _ _ _ _, ?_, ?_⟩
  · rintro rfl
    exact runIn_nil site clock hlinks hexisting
  · intro hne folder asked
    rw [runIn_eq_ok_iff hlinks hexisting hne, pursued_eq_due, reached_eq_append_gathered,
      List.forall_mem_map]
  · intro code
    simp only [mem_keys_gathered, serves_iff]
  · intro k hk h why hstop hfail
    exact exists_stopped_succ hk hstop hfail

theorem harvest_gathers_two :
    ∃ output, runIn elevenFolder onePage (fun _ => "1") =
      .ok ⟨keep elevenFolder (oneEntry ++ [pageEntry "1" "CS 100", pageEntry "1" "CS 108"]), output,
        .text "http://x.y/a" :: List.replicate 8 (.text "http://x.y/b") ++
          [.text "http://x.y/a"]⟩ := by
  obtain ⟨hlinks, hexisting, hfree⟩ := elevenFolder_spec
  obtain ⟨-, hends, -⟩ := harvest_gathers hlinks hexisting onePage fun _ => "1"
  have hgathered : gathered onePage (fun _ => "1") oneEntry elevenLinks =
      [pageEntry "1" "CS 100", pageEntry "1" "CS 108"] := by decide +kernel
  rw [hgathered] at hends
  exact (hends (by decide +kernel) _ _).mpr
    ⟨fun link _ => answers_onePage link.2, hfree, by decide +kernel, rfl⟩

end Harvest

end DegreeAudit
