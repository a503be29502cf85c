import DegreeAudit.Proofs.Collecting
import DegreeAudit.Proofs.FixedForm
import DegreeAudit.Proofs.Windows
import Mathlib.Data.List.Nodup

/-!
# What an interruption loses

The entries that a harvest has but the file has not are lost if it is interrupted.

**The bound.** After some links these are entries of the links since the entries were saved last. A
tenth link among them was skipped and gave none, so of every ten links nine can be lost, and fewer
than ten only if the last tenth link was not skipped (`Harvest.length_unsaved_le`).

**The bound is reached.** If all tenth links have entries before, nothing is saved on the way
(`Harvest.length_unsaved_spareLinks`). So what is lost has no bound (`loss_between_checkpoints`).
-/

namespace DegreeAudit

namespace Harvest

open Text

/-- The courses whose entries a harvest has but the file has not. -/
def unsaved (existing : Fields) (h : Harvest) : List Text :=
  h.entries.keys.filter fun code => !holds code (onDisk existing h)

section

variable {site : Site} {clock : Text → Text} {links existing : Fields} {k : Nat} {h : Harvest}

/-! ## How entries grow -/

/-- What links add are entries of other courses. -/
theorem exists_reached_eq (site : Site) (clock : Text → Text) (entries links : Fields) :
    ∃ more, reached site clock entries links = entries ++ more ∧
      ∀ code ∈ Fields.keys more, code ∉ entries.keys := by
  induction links generalizing entries with
  | nil => exact ⟨[], (List.append_nil _).symm, fun _ h => absurd h List.not_mem_nil⟩
  | cons link rest ih =>
    obtain ⟨more, hmore, hnew⟩ := ih (grow site clock entries link)
    rw [reached, List.foldl_cons, ← reached, hmore]
    rcases grow_cases site clock entries link with hsame | ⟨habsent, entry, hgrow⟩
    · rw [hsame] at hnew ⊢
      exact ⟨more, rfl, hnew⟩
    · rw [hgrow] at hnew ⊢
      refine ⟨(Code.canonical link.1, entry) :: more, by rw [List.append_assoc]; rfl, ?_⟩
      intro code hcode hmem
      rw [Fields.keys_cons, List.mem_cons] at hcode
      rcases hcode with rfl | hcode
      · exact habsent hmem
      · exact hnew code hcode (by simp [Fields.keys, List.mem_map.mp hmem])

theorem length_grow_le (site : Site) (clock : Text → Text) (entries : Fields) (link : Text × Json) :
    (grow site clock entries link).length ≤ entries.length + 1 := by
  rcases grow_cases site clock entries link with hsame | ⟨-, entry, hgrow⟩
  · rw [hsame]
    exact Nat.le_succ _
  · rw [hgrow, List.length_append, List.length_singleton]

theorem exists_reached_take_eq (site : Site) (clock : Text → Text) (links existing : Fields)
    {j k : Nat} (h : j ≤ k) : ∃ more, reached site clock existing (links.take k) =
      reached site clock existing (links.take j) ++ more ∧
      ∀ code ∈ Fields.keys more, code ∉ (reached site clock existing (links.take j)).keys := by
  have hsplit := List.take_append_drop j (links.take k)
  rw [List.take_take, Nat.min_eq_left h] at hsplit
  rw [← hsplit, reached_append]
  exact exists_reached_eq _ _ _ _

/-- What is lost are the entries since the last ones were saved. -/
theorem length_unsaved_add (hk : k ≤ links.length)
    (hstop : stopped site clock links existing k = .ok h) :
    (unsaved existing h).length +
        (reached site clock existing
          (links.take (lastSave site clock links existing k))).length =
      (reached site clock existing (links.take k)).length := by
  obtain ⟨more, hmore, hnew⟩ := exists_reached_take_eq site clock links existing
    (lastSave_le site clock links existing k)
  rw [unsaved, onDisk_stopped hk hstop, (stopped_spec hstop).2, hmore]
  generalize reached site clock existing
    (links.take (lastSave site clock links existing k)) = saved at hnew ⊢
  have hold : saved.keys.filter (fun code => !saved.has code) = [] :=
    List.filter_eq_nil_iff.mpr fun code hcode => by simp [Fields.has_iff.mpr hcode]
  have hkept : (Fields.keys more).filter (fun code => !saved.has code) = Fields.keys more :=
    List.filter_eq_self.mpr fun code hcode => by
      simpa [← Fields.has_iff] using hnew code hcode
  have hkeys : Fields.keys (saved ++ more) = saved.keys ++ Fields.keys more := List.map_append
  simp only [holds]
  rw [hkeys, List.filter_append, hold, hkept, List.nil_append, Fields.keys, List.length_map,
    List.length_append, Nat.add_comm]

/-! ## The bound -/

/-- If every tenth of some links is skipped, the others add at most one entry each. -/
theorem length_reached_le {j n : Nat} (hj : j % checkpointEvery = 0) (hn : j + n ≤ links.length)
    (hskip : ∀ i, j ≤ i → i < j + n → (i + 1) % checkpointEvery = 0 →
      isSkipped site clock links existing i = true) :
    (reached site clock existing (links.take (j + n))).length ≤
      (reached site clock existing (links.take j)).length + (n - n / checkpointEvery) := by
  unfold checkpointEvery at hj hskip ⊢
  induction n with
  | zero => exact Nat.le_refl _
  | succ n ih =>
    have hlink : j + n < links.length := by omega
    have hrest := ih (by omega) fun i hji hi => hskip i hji (by omega)
    rw [← Nat.add_assoc, reached_take_succ hlink]
    by_cases htenth : (j + n + 1) % 10 = 0
    · -- The tenth link is not pending and adds nothing.
      have hskipped := hskip (j + n) (by omega) (by omega) htenth
      rw [isSkipped_eq hlink, Bool.not_eq_true'] at hskipped
      rw [grow, hskipped, if_neg Bool.false_ne_true]
      omega
    · have hgrow := length_grow_le site clock
        (reached site clock existing (links.take (j + n))) links[j + n]
      omega

/-- **The bound.** Of every ten links since the entries were saved last, nine can be lost, and of
the links since the last tenth one, all. -/
theorem length_unsaved_le (hk : k ≤ links.length)
    (hstop : stopped site clock links existing k = .ok h) :
    (unsaved existing h).length ≤
      9 * ((k - lastSave site clock links existing k) / checkpointEvery) + k % checkpointEvery := by
  have hle := lastSave_le site clock links existing k
  have hmod := lastSave_mod site clock links existing k
  have hlength := length_unsaved_add hk hstop
  have hgrown := length_reached_le (n := k - lastSave site clock links existing k) hmod (by omega)
    fun i hji hi => isSkipped_of_lastSave_le hji (by omega)
  rw [Nat.add_sub_cancel' hle] at hgrown
  unfold checkpointEvery at *
  omega

/-- Fewer than ten entries are lost if the last tenth link was not skipped. -/
theorem length_unsaved_lt (hk : k ≤ links.length)
    (hstop : stopped site clock links existing k = .ok h)
    (hlast : 10 ≤ k → isSkipped site clock links existing (k - k % checkpointEvery - 1) = false) :
    (unsaved existing h).length < checkpointEvery := by
  have hle := lastSave_le site clock links existing k
  have hmod := lastSave_mod site clock links existing k
  have hbound := length_unsaved_le hk hstop
  unfold checkpointEvery at *
  by_cases hsaved : k < lastSave site clock links existing k + 10
  · omega
  · have hskipped : isSkipped site clock links existing (k - k % 10 - 1) = true :=
      isSkipped_of_lastSave_le (k := k) (by omega) (by omega) (by unfold checkpointEvery; omega)
    rw [hlast (by omega)] at hskipped
    exact absurd hskipped Bool.false_ne_true

end

/-! ## The bound is reached -/

def mathPage : Text := "<h2>Prerequisites</h2><p>MATH 135</p>"

/-- A site where every text is the address of this page. -/
def mathSite : Site where
  fetch
    | .text _ => .page mathPage
    | _ => .failure "Invalid URL"
  reader := .plain

theorem visit_mathSite (url : Text) : mathSite.visit (.text url) = .page "MATH 135" := by
  have hread : (PrereqSection.read .plain mathPage).toOption = some ("MATH 135" : Text) := by
    decide +kernel
  unfold Site.visit
  simp only [mathSite, eq_ok_of_toOption hread]

/-- Different codes, the first of them in canonical form. -/
structure Spare (code : Nat → Text) (k : Nat) : Prop where
  canonical : ∀ i < k, Code.canonical (code i) = code i
  injective : ∀ i j, code i = code j → i = j

/-- A link for the course of a number. -/
def spareLink (code : Nat → Text) (i : Nat) : Text × Json :=
  (code i, .text ("https://ex.org/" ++ decimal (i + 1)))

def spareLinks (code : Nat → Text) (k : Nat) : Fields := (List.range k).map (spareLink code)

def spareEntry (code : Nat → Text) (i : Nat) : Text × Json :=
  (code i, .object [("prereq_text", .text ""), ("prereq_codes", .list []),
    ("scraped_at", .text "t"), ("source", .text "s")])

/-- Entries for every tenth of the first courses. -/
def spareEntries (code : Nat → Text) (k : Nat) : Fields :=
  ((List.range k).filter fun i => (i + 1) % checkpointEvery = 0).map (spareEntry code)

section

variable {code : Nat → Text} {clock : Text → Text} {existing : Fields} {k m : Nat} {h : Harvest}

theorem length_spareLinks (code : Nat → Text) (k : Nat) : (spareLinks code k).length = k := by
  rw [spareLinks, List.length_map, List.length_range]

theorem take_spareLinks (code : Nat → Text) (hm : m ≤ k) :
    (spareLinks code k).take m = spareLinks code m := by
  rw [spareLinks, ← List.map_take, List.take_range, Nat.min_eq_left hm, spareLinks]

theorem keys_spareLinks : (spareLinks code k).keys = (List.range k).map code := by
  rw [spareLinks, Fields.keys, List.map_map]
  rfl

theorem keys_spareEntries : (spareEntries code k).keys =
    ((List.range k).filter fun i => (i + 1) % checkpointEvery = 0).map code := by
  rw [spareEntries, Fields.keys, List.map_map]
  rfl

theorem answers_spareLinks : ∀ link ∈ spareLinks code k, Answers mathSite link.2 := by
  intro link hlink why hvisit
  obtain ⟨i, -, rfl⟩ := List.mem_map.mp hlink
  exact Visit.noConfusion (hvisit.symm.trans (visit_mathSite _))

theorem exists_stopped_spareLinks (code : Nat → Text) (clock : Text → Text) (existing : Fields)
    (k : Nat) : ∃ h, stopped mathSite clock (spareLinks code k) existing k = .ok h :=
  exists_stopped clock k (answers_of_pursued clock existing fun link hlink =>
    answers_spareLinks link (List.mem_of_mem_take hlink))

/-- Of these links those are skipped that have entries before. -/
theorem isPending_spareLinks (hcode : Spare code k) (clock : Text → Text) (existing : Fields)
    (hm : m < k) :
    isPending (reached mathSite clock existing (spareLinks code m)) (spareLink code m) = true ↔
      code m ∉ existing.keys := by
  rw [isPending_eq_true_iff, mem_keys_reached, spareLink, hcode.canonical m hm]
  refine not_congr ⟨?_, .inl⟩
  rintro (hmem | ⟨link, hlink, heq, -⟩)
  · exact hmem
  · obtain ⟨i, hi, rfl⟩ := List.mem_map.mp hlink
    have him : i < m := List.mem_range.mp hi
    rw [spareLink, hcode.canonical i (by omega)] at heq
    exact absurd (hcode.injective m i heq) (by omega)

theorem mem_keys_spareEntries (hcode : Spare code k) (hm : m < k) :
    code m ∈ (spareEntries code k).keys ↔ (m + 1) % checkpointEvery = 0 := by
  rw [keys_spareEntries]
  constructor
  · intro hmem
    obtain ⟨i, hi, heq⟩ := List.mem_map.mp hmem
    obtain rfl := hcode.injective i m heq
    simpa using (List.mem_filter.mp hi).2
  · intro htenth
    exact List.mem_map_of_mem (List.mem_filter.mpr ⟨List.mem_range.mpr hm, by simpa using htenth⟩)

theorem isSkipped_spareLinks (hcode : Spare code k) (clock : Text → Text) (existing : Fields)
    (hm : m < k) : isSkipped mathSite clock (spareLinks code k) existing m = true ↔
      code m ∈ existing.keys := by
  have hlink : m < (spareLinks code k).length := by rwa [length_spareLinks]
  have hget : (spareLinks code k)[m] = spareLink code m := by simp [spareLinks]
  rw [isSkipped_eq hlink, take_spareLinks code (Nat.le_of_lt hm), hget, Bool.not_eq_true',
    ← Bool.not_eq_true, isPending_spareLinks hcode clock existing hm, not_not]

theorem lastSave_spareLinks (hcode : Spare code k) (clock : Text → Text) (hm : m ≤ k) :
    lastSave mathSite clock (spareLinks code k) (spareEntries code k) m = 0 := by
  induction m with
  | zero => rfl
  | succ m ih =>
    rw [lastSave, if_neg, ih (by omega)]
    rintro ⟨hskip, htenth⟩
    have hskipped := (isSkipped_spareLinks hcode clock _ hm).mpr
      ((mem_keys_spareEntries hcode hm).mpr htenth)
    rw [hskipped] at hskip
    exact Bool.noConfusion hskip

theorem length_reached_spareLinks (hcode : Spare code k) (clock : Text → Text) (hm : m ≤ k) :
    (reached mathSite clock (spareEntries code k) (spareLinks code m)).length =
      (spareEntries code k).length + (m - m / checkpointEvery) := by
  induction m with
  | zero => rfl
  | succ m ih =>
    have hlast : spareLinks code (m + 1) = spareLinks code m ++ [spareLink code m] := by
      rw [spareLinks, List.range_succ, List.map_append, List.map_singleton, spareLinks]
    have hgrow : reached mathSite clock (spareEntries code k) (spareLinks code (m + 1)) =
        grow mathSite clock (reached mathSite clock (spareEntries code k) (spareLinks code m))
          (spareLink code m) := by
      rw [hlast, reached_append]
      rfl
    have hpending := isPending_spareLinks hcode clock (spareEntries code k) hm
    have hvisit : mathSite.visit (spareLink code m).2 = .page "MATH 135" := visit_mathSite _
    have hrest := ih (by omega)
    rw [mem_keys_spareEntries hcode hm] at hpending
    rw [hgrow, grow]
    unfold checkpointEvery at *
    by_cases htenth : (m + 1) % 10 = 0
    · rw [if_neg fun h => hpending.mp h htenth]
      omega
    · rw [if_pos (hpending.mpr htenth), hvisit]
      simp only [List.length_append, List.length_singleton]
      omega

/-- **The bound is reached** if the tenth links are the ones that have entries before. -/
theorem length_unsaved_spareLinks (hcode : Spare code k)
    (hstop : stopped mathSite clock (spareLinks code k) (spareEntries code k) k = .ok h) :
    (unsaved (spareEntries code k) h).length =
      9 * (k / checkpointEvery) + k % checkpointEvery := by
  have hlength := length_unsaved_add (Nat.le_of_eq (length_spareLinks code k).symm) hstop
  rw [lastSave_spareLinks hcode clock (Nat.le_refl k), take_spareLinks code (Nat.le_refl k),
    take_spareLinks code (Nat.zero_le k), length_reached_spareLinks hcode clock (Nat.le_refl k),
    length_reached_spareLinks hcode clock (Nat.zero_le k)] at hlength
  unfold checkpointEvery at *
  omega

theorem nodup_keys_spare (hcode : Spare code k) :
    (spareLinks code k).keys.Nodup ∧ (spareEntries code k).keys.Nodup := by
  rw [keys_spareLinks, keys_spareEntries]
  have hdistinct : ∀ {is : List Nat}, is.Nodup → (is.map code).Nodup := fun h =>
    h.map hcode.injective
  exact ⟨hdistinct List.nodup_range, hdistinct (List.nodup_range.filter _)⟩

end

/-- As many letters as a number, and one more. -/
def letters (i : Nat) : Text := List.replicate (i + 1) 'A'

theorem canonical_letters (i : Nat) : Code.canonical (letters i) = letters i := by
  have hcapital : ∀ c ∈ letters i, isCapital c = true := by
    intro c hc
    rw [List.eq_of_mem_replicate hc]
    rfl
  have hfixed : trim (upper (letters i)) = letters i := by
    rw [upper_eq_self fun c hc => upperChar_of_isCapital (hcapital c hc)]
    exact trim_eq_self (isTrimmed_of_forall fun c hc => isBlank_of_isCapital (hcapital c hc))
  have hunshaped : ¬Code.IsShaped (letters i) := by
    intro hshaped
    obtain ⟨q, hq⟩ := Option.isSome_iff_exists.mp hshaped
    obtain ⟨l, b, d, s, hshape, heq, -⟩ := Code.parts?_eq_some_iff.mp hq
    obtain ⟨a, ds, rfl, ha⟩ := hshape.exists_digit
    have hmem : a ∈ letters i := by
      rw [← hfixed, heq]
      simp
    have hletter := hcapital a hmem
    rw [Code.isCapital_of_isPlainDigit ha] at hletter
    exact Bool.false_ne_true hletter
  rw [Code.canonical_of_not_isShaped hunshaped, hfixed]

theorem spare_letters (k : Nat) : Spare letters k where
  canonical i _ := canonical_letters i
  injective i j h := by
    have hlength := congrArg List.length h
    simpa [letters] using hlength

/-- **What an interruption loses.** A harvest comes through some links if none of them stops
everything. Then the file holds what the harvest had after the links up to the last checkpoint, and
every tenth link since was skipped. So what is lost are the entries made since: at most nine for
each of these tenth links and one for each link after the last of them, and fewer than ten in all if
the last tenth link was not skipped.

This cannot be improved: for each number of links there are links and entries, each with distinct
keys, for which that much is lost. -/
theorem loss_between_checkpoints (site : Site) (clock : Text → Text) (links existing : Fields)
    {k : Nat} (hk : k ≤ links.length) :
    ((∀ link ∈ links.take k, Answers site link.2) →
      ∃ h, stopped site clock links existing k = .ok h) ∧
    (∀ h, stopped site clock links existing k = .ok h →
      let last := lastSave site clock links existing k
      ∃ h₀, stopped site clock links existing last = .ok h₀ ∧
        onDisk existing h = .object h₀.entries ∧ last ≤ k ∧
        (∀ i, last ≤ i → i < k → (i + 1) % checkpointEvery = 0 →
          isSkipped site clock links existing i = true) ∧
        (unsaved existing h).length + h₀.entries.length = h.entries.length ∧
        (unsaved existing h).length ≤
          9 * ((k - last) / checkpointEvery) + k % checkpointEvery ∧
        ((10 ≤ k → isSkipped site clock links existing (k - k % checkpointEvery - 1) = false) →
          (unsaved existing h).length < checkpointEvery)) ∧
    ∀ n : Nat, ∃ (site : Site) (links existing : Fields) (h : Harvest),
      links.keys.Nodup ∧ existing.keys.Nodup ∧ links.length = n ∧
        stopped site clock links existing n = .ok h ∧
        lastSave site clock links existing n = 0 ∧
        (unsaved existing h).length = 9 * (n / checkpointEvery) + n % checkpointEvery := by
  refine ⟨fun hanswers => exists_stopped clock k (answers_of_pursued clock existing hanswers),
    fun h hstop => ?_, fun n => ?_⟩
  · have hlast := lastSave_le site clock links existing k
    obtain ⟨h₀, hstop₀⟩ := exists_stopped_of_le hlast hk hstop
    have hentries := (stopped_spec hstop).2
    have hentries₀ := (stopped_spec hstop₀).2
    refine ⟨h₀, hstop₀, ?_, hlast, fun i => isSkipped_of_lastSave_le, ?_,
      length_unsaved_le hk hstop, length_unsaved_lt hk hstop⟩
    · rw [onDisk_stopped hk hstop, hentries₀]
    · rw [hentries, hentries₀]
      exact length_unsaved_add hk hstop
  · have hcode := spare_letters n
    obtain ⟨hlinks, hentries⟩ := nodup_keys_spare hcode
    obtain ⟨h, hstop⟩ := exists_stopped_spareLinks letters clock (spareEntries letters n) n
    exact ⟨mathSite, _, _, h, hlinks, hentries, length_spareLinks letters n, hstop,
      lastSave_spareLinks hcode clock (Nat.le_refl n), length_unsaved_spareLinks hcode hstop⟩

/-- The course codes from `MATH 101` on. -/
def mathCode (i : Nat) : Text := "MATH " ++ decimal (101 + i : Nat)

theorem spare_mathCode : Spare mathCode 11 where
  canonical := by decide +kernel
  injective i j h := by
    have hnumber := congrArg decimalNat (List.append_cancel_left h)
    rw [decimalNat_decimal, decimalNat_decimal] at hnumber
    omega

theorem loss_between_checkpoints_after_eleven :
    ∃ h h', stopped mathSite id (spareLinks mathCode 11) (spareEntries mathCode 11) 11 = .ok h ∧
      (unsaved (spareEntries mathCode 11) h).length ≤ 10 ∧
      stopped mathSite id (spareLinks mathCode 11) [] 11 = .ok h' ∧
      (unsaved [] h').length < checkpointEvery := by
  have hlength := Nat.le_of_eq (length_spareLinks mathCode 11).symm
  obtain ⟨-, hloss, -⟩ := loss_between_checkpoints mathSite id (spareLinks mathCode 11)
    (spareEntries mathCode 11) hlength
  obtain ⟨-, hloss', -⟩ := loss_between_checkpoints mathSite id (spareLinks mathCode 11) [] hlength
  obtain ⟨h, hstop⟩ := exists_stopped_spareLinks mathCode id (spareEntries mathCode 11) 11
  obtain ⟨h', hstop'⟩ := exists_stopped_spareLinks mathCode id [] 11
  obtain ⟨-, -, -, -, -, -, hbound, -⟩ := hloss h hstop
  obtain ⟨-, -, -, -, -, -, -, hfew⟩ := hloss' h' hstop'
  rw [lastSave_spareLinks spare_mathCode id (Nat.le_refl 11)] at hbound
  refine ⟨h, h', hstop, hbound, hstop', hfew fun _ => ?_⟩
  rw [← Bool.not_eq_true, isSkipped_spareLinks spare_mathCode id [] (by decide)]
  exact List.not_mem_nil

/-- With an entry for the tenth of eleven links, the other ten are all lost. -/
theorem ten_entries_lost :
    ∃ h, stopped mathSite id (spareLinks mathCode 11) (spareEntries mathCode 11) 11 = .ok h ∧
      (unsaved (spareEntries mathCode 11) h).length = checkpointEvery ∧
      onDisk (spareEntries mathCode 11) h = .object (spareEntries mathCode 11) := by
  obtain ⟨h, hstop⟩ := exists_stopped_spareLinks mathCode id (spareEntries mathCode 11) 11
  refine ⟨h, hstop, length_unsaved_spareLinks spare_mathCode hstop, ?_⟩
  rw [onDisk_stopped (Nat.le_of_eq (length_spareLinks mathCode 11).symm) hstop,
    lastSave_spareLinks spare_mathCode id (Nat.le_refl 11)]
  rfl

end Harvest

end DegreeAudit
