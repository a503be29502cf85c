import DegreeAudit.Intake.Harvest

/-!
# Going through the links

What a harvest has after some links depends on what comes of following them and on the entries it
started from.

**One link.** A link is pending if its course has no entry. A pending link is followed, and if that
gives a page, then it adds an entry at the end (`Harvest.grow`). Every other link changes nothing.
A step fails only if the link stops everything, or if entries are to be saved where a folder stands
(`Harvest.step_spec`).

**Many links.** The entries are those that the links reach one after the other (`Harvest.reached`).
A link that was gone through is settled, and stays so: its course has an entry, or it leads to no
page (`Harvest.settled_of_mem`). So links that are gone through again add nothing
(`Harvest.reached_of_settled`).

**Times.** An entry tells when it was made, and nothing else in it depends on that. Two harvests of
the same links and pages differ in these times only (`Harvest.untimed_reached`).

**What is saved.** After some links, the file holds what the first of them reached, up to the last
tenth link that was not skipped (`Harvest.onDisk_stopped`).
-/

namespace DegreeAudit

/-! ## Fields -/

namespace Fields

variable {fields : Fields} {key k : Text} {value : Json}

theorem has_iff : fields.has k = true ↔ k ∈ fields.keys := by
  rw [has, get?, keys, List.mem_map]
  induction fields with
  | nil => simp
  | cons f rest ih =>
    rw [List.lookup_cons]
    by_cases hk : k = f.1
    · simp [hk]
    · rw [beq_false_of_ne hk]
      simp [ih, Ne.symm hk]

theorem put_of_not_has (h : fields.has key = false) :
    fields.put key value = fields ++ [(key, value)] := by
  induction fields with
  | nil => rfl
  | cons f rest ih =>
    have hmem : key ∉ keys (f :: rest) := fun hmem => by
      rw [has_iff.mpr hmem] at h
      exact Bool.noConfusion h
    rw [keys_cons, List.mem_cons, not_or] at hmem
    have hrest : has rest key = false :=
      Bool.eq_false_iff.mpr fun hrest => hmem.2 (has_iff.mp hrest)
    rw [put, if_neg (Ne.symm hmem.1), ih hrest, List.cons_append]

end Fields

/-! ## Plain pages -/

namespace PageReader

/-- A tag of a plain page, where elements without inner elements stand in a row. -/
structure PlainTag where
  name : Text
  text : Text
  /-- The names and texts of the elements inside. -/
  inner : List (Text × Text)
  /-- The names and texts of the elements that follow. -/
  following : List (Text × Text)

/-- The name and the text of an element, from the text after the bracket that opens it. -/
def plainElement? (part : Text) : Option (Text × Text) :=
  match Text.cut '>' part with
  | (name, some text) => if name.head? = some ('/' : CodePoint) then none else some (name, text)
  | (_, none) => none

def plainTags : List (Text × Text) → List PlainTag
  | [] => []
  | (name, text) :: rest => ⟨name, text, [], rest⟩ :: plainTags rest

/-- A reader of plain pages. -/
def plain : PageReader where
  Tag := PlainTag
  read html :=
    let elements := (Text.split '<' html).filterMap plainElement?
    .ok ⟨"[document]", (elements.map Prod.snd).flatten, elements, []⟩
  name := PlainTag.name
  text := PlainTag.text
  plainText tag := Text.trim tag.text
  next? tag := (plainTags tag.following).head?
  find? tag holds := (plainTags tag.inner).find? holds

end PageReader

namespace Harvest

/-! ## One link -/

/-- Whether the course of a link has no entry. -/
def isPending (entries : Fields) (link : Text × Json) : Bool :=
  !entries.has (Code.canonical link.1)

/-- The entries after one more link. -/
def grow (site : Site) (clock : Text → Text) (entries : Fields) (link : Text × Json) : Fields :=
  if isPending entries link then
    match site.visit link.2 with
    | .page text =>
      entries ++ [(Code.canonical link.1,
        entryOf (clock link.1) (Code.canonical link.1) text link.2)]
    | _ => entries
  else entries

/-- Following a link does not stop everything. -/
def Answers (site : Site) (url : Json) : Prop := ∀ why, site.visit url ≠ .fault why

/-- What a harvest with some entries is after the link of a number. -/
structure Stepped (site : Site) (clock : Text → Text) (entries : Fields) (number : Nat)
    (link : Text × Json) (h h' : Harvest) : Prop where
  kept : h'.kept = .object (grow site clock entries link)
  saved : h'.saved = if isPending entries link ∧ number % checkpointEvery = 0 then
    some (.object (grow site clock entries link)) else h.saved
  blocked : h'.blocked = h.blocked
  followed : h'.followed = if isPending entries link then h.followed ++ [link.2] else h.followed

section

variable {site : Site} {clock : Text → Text} {entries : Fields} {h : Harvest} {link : Text × Json}

theorem exists_collect (clock : Text → Text) (hkept : h.kept = .object entries)
    (hpending : isPending entries link = true) (hanswers : Answers site link.2) :
    ∃ h', h.collect site clock link.1 (Code.canonical link.1) link.2 = .ok h' ∧
      h'.kept = .object (grow site clock entries link) ∧ h'.saved = h.saved ∧
      h'.blocked = h.blocked ∧ h'.followed = h.followed ++ [link.2] := by
  have habsent : Fields.has entries (Code.canonical link.1) = false := by
    simpa [isPending] using hpending
  unfold collect grow
  dsimp only
  rw [if_pos hpending]
  cases hvisit : site.visit link.2 with
  | page text =>
    have henter : ∀ entry, enter (Code.canonical link.1) entry h.kept =
        .ok (.object (entries ++ [(Code.canonical link.1, entry)])) := by
      intro entry
      rw [hkept, ← Fields.put_of_not_has habsent]
      rfl
    dsimp only
    rw [henter]
    exact ⟨_, rfl, rfl, rfl, rfl, rfl⟩
  | failure why => exact ⟨_, rfl, hkept, rfl, rfl, rfl⟩
  | fault why => exact absurd hvisit (hanswers why)

theorem collect_of_fault {why : Fault} (hvisit : site.visit link.2 = .fault why) (code : Text) :
    h.collect site clock link.1 code link.2 = .error why := by
  unfold collect
  dsimp only
  rw [hvisit]

/-- At every tenth link the entries are saved, unless a folder stands in their place. -/
theorem checkpoint_spec (h : Harvest) (number : Nat) :
    (∃ h', h.checkpoint number = .ok h' ∧ h'.kept = h.kept ∧
      h'.saved = (if number % checkpointEvery = 0 then some h.kept else h.saved) ∧
      h'.blocked = h.blocked ∧ h'.followed = h.followed) ∨
    h.blocked = true ∧ h.checkpoint number = .error .folderRead := by
  unfold checkpoint save
  by_cases htenth : number % checkpointEvery = 0
  · rw [if_pos htenth, if_pos htenth]
    cases h.blocked with
    | true => exact .inr ⟨rfl, rfl⟩
    | false => exact .inl ⟨_, rfl, rfl, rfl, rfl, rfl⟩
  · rw [if_neg htenth, if_neg htenth]
    exact .inl ⟨h, rfl, rfl, rfl, rfl, rfl⟩

/-- **One step.** A link that is not pending leaves the harvest as it is. Any other is followed, and
if it is a tenth one, the entries are saved. The step fails if the link stops everything, or if a
folder stands where entries are to be saved. -/
theorem step_spec (site : Site) (clock : Text → Text) (total number : Nat) (link : Text × Json)
    (hkept : h.kept = .object entries) :
    (∃ h', step site clock total h number link.1 link.2 = .ok h' ∧
      Stepped site clock entries number link h h' ∧
      (isPending entries link = true → Answers site link.2)) ∨
    isPending entries link = true ∧
      ((∃ why, site.visit link.2 = .fault why ∧
        step site clock total h number link.1 link.2 = .error why) ∨
      h.blocked = true ∧ step site clock total h number link.1 link.2 = .error .folderRead) := by
  have hholds : holds (Code.canonical link.1) h.kept = !isPending entries link := by
    rw [hkept, isPending, Bool.not_not]
    rfl
  unfold step
  dsimp only
  rw [hholds]
  cases hpending : isPending entries link with
  | false =>
    refine .inl ⟨h, rfl, ⟨?_, by simp [hpending], rfl, by simp [hpending]⟩, nofun⟩
    rw [grow, hpending]
    exact hkept
  | true =>
    generalize hprint : h.print _ = printed
    obtain ⟨hkept', hsaved', hblocked', hfollowed'⟩ : printed.kept = h.kept ∧
        printed.saved = h.saved ∧ printed.blocked = h.blocked ∧
          printed.followed = h.followed := by
      rw [← hprint]
      exact ⟨rfl, rfl, rfl, rfl⟩
    by_cases hfault : ∃ why, site.visit link.2 = .fault why
    · obtain ⟨why, hvisit⟩ := hfault
      refine .inr ⟨rfl, .inl ⟨why, hvisit, ?_⟩⟩
      rw [collect_of_fault hvisit]
      rfl
    · have hanswers : Answers site link.2 := fun why hvisit => hfault ⟨why, hvisit⟩
      obtain ⟨h₁, hcollect, hkept₁, hsaved₁, hblocked₁, hfollowed₁⟩ :=
        exists_collect clock (hkept'.trans hkept) hpending hanswers
      have hbind : (printed.collect site clock link.1 (Code.canonical link.1) link.2 >>=
          fun h => h.checkpoint number) = h₁.checkpoint number := by
        rw [hcollect]
        rfl
      rcases checkpoint_spec h₁ number with
        ⟨h₂, hcheck, hkept₂, hsaved₂, hblocked₂, hfollowed₂⟩ | ⟨hblocked₂, hcheck⟩
      · refine .inl ⟨h₂, hbind.trans hcheck, ⟨hkept₂.trans hkept₁, ?_, ?_, ?_⟩, fun _ => hanswers⟩
        · rw [hsaved₂, hkept₁, hsaved₁, hsaved', hpending]
          simp
        · rw [hblocked₂, hblocked₁, hblocked']
        · rw [hfollowed₂, hfollowed₁, hfollowed', if_pos hpending]
      · exact .inr ⟨rfl, .inr ⟨by rw [← hblocked', ← hblocked₁, hblocked₂], hbind.trans hcheck⟩⟩

theorem stepped_of_step {total number : Nat} {h' : Harvest} (hkept : h.kept = .object entries)
    (hstep : step site clock total h number link.1 link.2 = .ok h') :
    Stepped site clock entries number link h h' ∧
      (isPending entries link = true → Answers site link.2) := by
  rcases step_spec site clock total number link hkept with
    ⟨h₁, hok, hstepped, hanswers⟩ | ⟨-, ⟨why, -, herror⟩ | ⟨-, herror⟩⟩
  · obtain rfl := Except.ok.inj (hok.symm.trans hstep)
    exact ⟨hstepped, hanswers⟩
  · exact absurd (herror.symm.trans hstep) nofun
  · exact absurd (herror.symm.trans hstep) nofun

theorem exists_step (site : Site) (clock : Text → Text) (total number : Nat)
    (link : Text × Json) (hkept : h.kept = .object entries) (hfree : h.blocked = false)
    (hanswers : isPending entries link = true → Answers site link.2) :
    ∃ h', step site clock total h number link.1 link.2 = .ok h' := by
  rcases step_spec site clock total number link hkept with
    ⟨h', hok, -⟩ | ⟨hpending, ⟨why, hvisit, -⟩ | ⟨hblocked, -⟩⟩
  · exact ⟨h', hok⟩
  · exact absurd hvisit (hanswers hpending why)
  · rw [hfree] at hblocked
    exact absurd hblocked Bool.false_ne_true

end

/-! ## Many links -/

/-- The entries after some links. -/
def reached (site : Site) (clock : Text → Text) (entries links : Fields) : Fields :=
  links.foldl (grow site clock) entries

/-- Those of some links that are followed, in order. -/
def pursued (site : Site) (clock : Text → Text) (entries : Fields) : Fields → List Json
  | [] => []
  | link :: rest =>
    if isPending entries link then
      link.2 :: pursued site clock (grow site clock entries link) rest
    else pursued site clock entries rest

/-- A link changes nothing any more: its course has an entry, or it leads to no page. -/
def Settled (site : Site) (entries : Fields) (link : Text × Json) : Prop :=
  isPending entries link = true → ∀ text, site.visit link.2 ≠ .page text

section

variable {site : Site} {clock clock' : Text → Text} {entries entries' links links' : Fields}
  {link : Text × Json}

theorem answers_of_pursued (clock : Text → Text) (entries : Fields)
    (hanswers : ∀ link ∈ links, Answers site link.2) :
    ∀ url ∈ pursued site clock entries links, Answers site url := by
  induction links generalizing entries with
  | nil => exact fun _ hmem => absurd hmem List.not_mem_nil
  | cons link rest ih =>
    have hrest := fun entries => ih entries (List.forall_mem_cons.mp hanswers).2
    rw [pursued]
    split
    · exact List.forall_mem_cons.mpr ⟨hanswers link List.mem_cons_self, hrest _⟩
    · exact hrest _

theorem pursued_cons : pursued site clock entries (link :: links) =
    (if isPending entries link then [link.2] else []) ++
      pursued site clock (grow site clock entries link) links := by
  rw [pursued]
  split
  · rfl
  · next hdone => rw [grow, if_neg hdone, List.nil_append]

theorem pursued_append (site : Site) (clock : Text → Text) (entries links links' : Fields) :
    pursued site clock entries (links ++ links') = pursued site clock entries links ++
      pursued site clock (reached site clock entries links) links' := by
  induction links generalizing entries with
  | nil => rfl
  | cons link rest ih =>
    rw [List.cons_append, pursued_cons, pursued_cons, ih, List.append_assoc]
    rfl

/-- **Links that are gone through** reach their entries, and all that are followed answer. -/
theorem steps_spec {total number : Nat} {h h' : Harvest} (hkept : h.kept = .object entries)
    (hsteps : steps site clock total h number links = .ok h') :
    h'.kept = .object (reached site clock entries links) ∧ h'.blocked = h.blocked ∧
      h'.followed = h.followed ++ pursued site clock entries links ∧
      ∀ url ∈ pursued site clock entries links, Answers site url := by
  induction links generalizing entries h number with
  | nil =>
    obtain rfl := Except.ok.inj hsteps
    exact ⟨hkept, rfl, (List.append_nil _).symm, fun _ hmem => absurd hmem List.not_mem_nil⟩
  | cons link rest ih =>
    unfold steps at hsteps
    cases hstep : step site clock total h number link.1 link.2 with
    | error why =>
      rw [hstep] at hsteps
      cases hsteps
    | ok h₁ =>
      rw [hstep] at hsteps
      obtain ⟨hstepped, hanswers⟩ := stepped_of_step hkept hstep
      obtain ⟨hkept', hblocked, hfollowed, hall⟩ := ih hstepped.kept hsteps
      rw [pursued_cons]
      refine ⟨hkept', hblocked.trans hstepped.blocked, ?_, ?_⟩
      · rw [hfollowed, hstepped.followed, ← List.append_assoc]
        split <;> simp
      · intro url hmem
        rcases List.mem_append.mp hmem with hmem | hmem
        · split at hmem
          · next hpending =>
            rw [List.mem_singleton.mp hmem]
            exact hanswers hpending
          · exact absurd hmem List.not_mem_nil
        · exact hall url hmem

/-- **Links are gone through** if all that are followed answer. -/
theorem exists_steps (clock : Text → Text) (total number : Nat) {h : Harvest}
    (hkept : h.kept = .object entries) (hfree : h.blocked = false)
    (hanswers : ∀ url ∈ pursued site clock entries links, Answers site url) :
    ∃ h', steps site clock total h number links = .ok h' := by
  induction links generalizing entries h number with
  | nil => exact ⟨h, rfl⟩
  | cons link rest ih =>
    rw [pursued_cons, List.forall_mem_append] at hanswers
    obtain ⟨h₁, hstep⟩ := exists_step site clock total number link hkept hfree
      fun hpending => hanswers.1 link.2 (by rw [if_pos hpending]; exact List.mem_singleton_self _)
    obtain ⟨hstepped, -⟩ := stepped_of_step hkept hstep
    obtain ⟨h', hrest⟩ := ih (number + 1) hstepped.kept (hstepped.blocked.trans hfree) hanswers.2
    unfold steps
    rw [hstep]
    exact ⟨h', hrest⟩

theorem reached_append :
    reached site clock entries (links ++ links') =
      reached site clock (reached site clock entries links) links' := List.foldl_append

theorem grow_of_settled (clock : Text → Text) (h : Settled site entries link) :
    grow site clock entries link = entries := by
  rw [grow]
  split
  · next hpending =>
    cases hvisit : site.visit link.2 with
    | page text => exact absurd hvisit (h hpending text)
    | failure | fault => rfl
  · rfl

theorem isPending_eq_true_iff :
    isPending entries link = true ↔ Code.canonical link.1 ∉ entries.keys := by
  rw [isPending, Bool.not_eq_true', ← Bool.not_eq_true, Fields.has_iff]

theorem grow_cases (site : Site) (clock : Text → Text) (entries : Fields) (link : Text × Json) :
    grow site clock entries link = entries ∨ Code.canonical link.1 ∉ entries.keys ∧
      ∃ entry, grow site clock entries link = entries ++ [(Code.canonical link.1, entry)] := by
  rw [grow]
  split
  · next hpending =>
    split
    · exact .inr ⟨isPending_eq_true_iff.mp hpending, _, rfl⟩
    · exact .inl rfl
  · exact .inl rfl

theorem prefix_grow (site : Site) (clock : Text → Text) (entries : Fields) (link : Text × Json) :
    entries <+: grow site clock entries link := by
  rcases grow_cases site clock entries link with hsame | ⟨-, entry, hgrow⟩
  · exact ⟨[], (List.append_nil entries).trans hsame.symm⟩
  · exact ⟨_, hgrow.symm⟩

theorem prefix_reached (site : Site) (clock : Text → Text) (entries links : Fields) :
    entries <+: reached site clock entries links := by
  induction links generalizing entries with
  | nil => exact List.prefix_refl _
  | cons link rest ih => exact (prefix_grow site clock entries link).trans (ih _)

theorem mem_keys_grow {code : Text} : code ∈ (grow site clock entries link).keys ↔
    code ∈ entries.keys ∨
      code = Code.canonical link.1 ∧ ∃ text, site.visit link.2 = .page text := by
  by_cases hpending : isPending entries link = true
  · rw [grow, if_pos hpending]
    cases site.visit link.2 with
    | page text => simp [Fields.keys]
    | failure | fault => simp
  · have hmem : Code.canonical link.1 ∈ entries.keys := by
      rw [← Fields.has_iff]
      simpa [isPending] using hpending
    rw [grow, if_neg hpending]
    constructor
    · exact .inl
    · rintro (h | ⟨rfl, -⟩)
      · exact h
      · exact hmem

/-- After some links those courses have entries that had them before or that a link gave one. -/
theorem mem_keys_reached {code : Text} : code ∈ (reached site clock entries links).keys ↔
    code ∈ entries.keys ∨
      ∃ link ∈ links, code = Code.canonical link.1 ∧ ∃ text, site.visit link.2 = .page text := by
  induction links generalizing entries with
  | nil => simp [reached]
  | cons link rest ih =>
    rw [reached, List.foldl_cons, ← reached, ih, mem_keys_grow, or_assoc]
    simp only [List.mem_cons, exists_eq_or_imp]

theorem Settled.mono (h : Settled site entries link) (hsub : entries.keys ⊆ entries'.keys) :
    Settled site entries' link := fun hpending =>
  h (isPending_eq_true_iff.mpr fun hmem => isPending_eq_true_iff.mp hpending (hsub hmem))

theorem settled_grow : Settled site (grow site clock entries link) link := by
  intro hpending text hvisit
  rw [isPending_eq_true_iff, mem_keys_grow, not_or] at hpending
  exact hpending.2 ⟨rfl, text, hvisit⟩

theorem keys_subset_reached (site : Site) (clock : Text → Text) (entries links : Fields) :
    entries.keys ⊆ (reached site clock entries links).keys :=
  List.map_subset _ (prefix_reached site clock entries links).subset

theorem settled_of_mem (h : link ∈ links) :
    Settled site (reached site clock entries links) link := by
  obtain ⟨before, after, rfl⟩ := List.append_of_mem h
  rw [reached_append]
  exact settled_grow.mono (keys_subset_reached site clock _ after)

theorem reached_of_settled (h : ∀ link ∈ links, Settled site entries link) :
    reached site clock entries links = entries := by
  induction links with
  | nil => rfl
  | cons link rest ih =>
    have hfirst := grow_of_settled clock (h link List.mem_cons_self)
    rw [reached, List.foldl_cons, hfirst]
    exact ih fun link' hmem => h link' (List.mem_cons_of_mem _ hmem)

/-- Of settled links, those are followed whose courses have no entry. -/
theorem pursued_of_settled (clock : Text → Text) (h : ∀ link ∈ links, Settled site entries link) :
    pursued site clock entries links = (links.filter (isPending entries ·)).map Prod.snd := by
  induction links with
  | nil => rfl
  | cons link rest ih =>
    have hrest := ih fun link' hmem => h link' (List.mem_cons_of_mem _ hmem)
    rw [pursued, grow_of_settled clock (h link List.mem_cons_self), hrest, List.filter_cons]
    split <;> rfl

theorem keys_grow_subset (site : Site) (clock clock' : Text → Text) (link : Text × Json)
    (h : entries.keys ⊆ entries'.keys) :
    (grow site clock entries link).keys ⊆ (grow site clock' entries' link).keys := by
  intro code hmem
  rw [mem_keys_grow] at hmem ⊢
  exact hmem.imp_left fun hcode => h hcode

/-- From more entries fewer links are followed, and those in the same order. -/
theorem pursued_sublist (site : Site) (clock clock' : Text → Text) (links : Fields)
    (h : entries.keys ⊆ entries'.keys) :
    (pursued site clock' entries' links).Sublist (pursued site clock entries links) := by
  induction links generalizing entries entries' with
  | nil => exact List.Sublist.refl _
  | cons link rest ih =>
    unfold pursued
    by_cases hpending' : isPending entries' link = true
    · have hpending : isPending entries link = true := isPending_eq_true_iff.mpr fun hmem =>
        isPending_eq_true_iff.mp hpending' (h hmem)
      rw [if_pos hpending', if_pos hpending]
      exact (ih (keys_grow_subset site clock clock' link h)).cons_cons _
    · have hsame : grow site clock' entries' link = entries' := by rw [grow, if_neg hpending']
      have hrest := ih (hsame ▸ keys_grow_subset site clock clock' link h)
      rw [if_neg hpending']
      split
      · exact hrest.cons _
      · next hpending => rwa [grow, if_neg hpending] at hrest

theorem pursued_take_subset (clock clock' : Text → Text) (entries links : Fields) (k : Nat) :
    pursued site clock entries (links.take k) ⊆ pursued site clock' entries links := by
  have hsame := pursued_sublist site clock' clock links (List.Subset.refl entries.keys)
  have happend := pursued_append site clock entries (links.take k) (links.drop k)
  rw [List.take_append_drop] at happend
  rw [happend] at hsame
  exact fun url hmem => hsame.subset (List.mem_append_left _ hmem)

end

/-! ## Times -/

/-- An entry without its time. -/
def untimed (e : Text × Json) : Text × Json :=
  match e with
  | (code, .object fields) => (code, .object (fields.filter fun f => f.1 ≠ "scraped_at"))
  | e => e

section

variable {site : Site} {clock clock' : Text → Text} {entries entries' links : Fields}
  {link : Text × Json}

theorem untimed_fst (e : Text × Json) : (untimed e).1 = e.1 := by
  unfold untimed
  split <;> rfl

theorem untimed_entryOf (time time' code text : Text) (url : Json) :
    untimed (code, entryOf time code text url) = untimed (code, entryOf time' code text url) := rfl

theorem keys_eq_of_untimed (h : entries.map untimed = entries'.map untimed) :
    entries.keys = entries'.keys := by
  have hkeys : ∀ es : Fields, es.keys = (es.map untimed).map Prod.fst := fun es => by
    rw [List.map_map]
    exact List.map_congr_left fun e _ => (untimed_fst e).symm
  rw [hkeys, hkeys, h]

theorem untimed_grow (h : entries.map untimed = entries'.map untimed) :
    (grow site clock entries link).map untimed = (grow site clock' entries' link).map untimed := by
  have hpending : isPending entries link = isPending entries' link := by
    rw [Bool.eq_iff_iff, isPending_eq_true_iff, isPending_eq_true_iff, keys_eq_of_untimed h]
  rw [grow, grow, hpending]
  split
  · split
    · rw [List.map_append, List.map_append, h, List.map_singleton, List.map_singleton,
        untimed_entryOf (clock link.1) (clock' link.1)]
    · exact h
  · exact h

/-- Two harvests of the same links and pages differ in the times of their entries only. -/
theorem untimed_reached (h : entries.map untimed = entries'.map untimed) :
    (reached site clock entries links).map untimed =
      (reached site clock' entries' links).map untimed := by
  induction links generalizing entries entries' with
  | nil => exact h
  | cons link rest ih => exact ih (untimed_grow h)

/-- Links that are gone through again after some of them reach the same entries. -/
theorem untimed_resumed (site : Site) (clock clock' clock'' : Text → Text) (entries links : Fields)
    (j : Nat) :
    (reached site clock'' (reached site clock' entries (links.take j)) links).map untimed =
      (reached site clock entries links).map untimed := by
  have hsettled : reached site clock'' (reached site clock' entries (links.take j)) (links.take j) =
      reached site clock' entries (links.take j) := reached_of_settled fun _ => settled_of_mem
  calc (reached site clock'' (reached site clock' entries (links.take j)) links).map untimed
      = (reached site clock'' (reached site clock' entries (links.take j))
          (links.take j ++ links.drop j)).map untimed := by rw [List.take_append_drop]
    _ = (reached site clock'' (reached site clock' entries (links.take j))
          (links.drop j)).map untimed := by rw [reached_append, hsettled]
    _ = (reached site clock (reached site clock entries (links.take j))
          (links.drop j)).map untimed := untimed_reached (untimed_reached rfl)
    _ = (reached site clock entries links).map untimed := by
        rw [← reached_append, List.take_append_drop]

end

/-! ## What is saved -/

def entries (h : Harvest) : Fields :=
  match h.kept with
  | .object fields => fields
  | _ => []

/-- A harvest that is stopped after some links. -/
def stopped (site : Site) (clock : Text → Text) (links existing : Fields) (k : Nat) :
    Except Fault Harvest :=
  steps site clock links.length (start false (.object existing)) 1 (links.take k)

/-- The document in the file during a harvest that started from existing entries. -/
def onDisk (existing : Fields) (h : Harvest) : Json := h.saved.getD (.object existing)

def isSkipped (site : Site) (clock : Text → Text) (links existing : Fields) (i : Nat) : Bool :=
  links[i]?.all fun link => !isPending (reached site clock existing (links.take i)) link

/-- After how many of the first links the entries were saved last, none if they were not. -/
def lastSave (site : Site) (clock : Text → Text) (links existing : Fields) : Nat → Nat
  | 0 => 0
  | k + 1 =>
    if isSkipped site clock links existing k = false ∧ (k + 1) % checkpointEvery = 0 then k + 1
    else lastSave site clock links existing k

section

variable {site : Site} {clock : Text → Text} {links links' existing : Fields} {k : Nat}
  {h : Harvest}

theorem steps_append (total number : Nat) (h : Harvest) (links links' : Fields) :
    steps site clock total h number (links ++ links') =
      (do
        let h ← steps site clock total h number links
        steps site clock total h (number + links.length) links') := by
  induction links generalizing h number with
  | nil => rfl
  | cons link rest ih =>
    rw [List.cons_append, steps, steps, bind_assoc]
    simp only [ih, List.length_cons, Nat.add_right_comm, Nat.add_assoc]

theorem steps_singleton (total number : Nat) (h : Harvest) (link : Text × Json) :
    steps site clock total h number [link] = step site clock total h number link.1 link.2 :=
  bind_pure _

theorem stopped_spec (hstop : stopped site clock links existing k = .ok h) :
    h.kept = .object (reached site clock existing (links.take k)) ∧
      h.entries = reached site clock existing (links.take k) := by
  obtain ⟨hkept, -⟩ := steps_spec rfl hstop
  exact ⟨hkept, by rw [entries, hkept]⟩

theorem exists_stopped (clock : Text → Text) (k : Nat)
    (hanswers : ∀ url ∈ pursued site clock existing (links.take k), Answers site url) :
    ∃ h, stopped site clock links existing k = .ok h :=
  exists_steps clock links.length 1 rfl rfl hanswers

theorem stopped_succ (hk : k < links.length) :
    stopped site clock links existing (k + 1) = (do
      let h ← stopped site clock links existing k
      step site clock links.length h (k + 1) links[k].1 links[k].2) := by
  rw [stopped, List.take_succ_eq_append_getElem hk, steps_append, List.length_take,
    Nat.min_eq_left (Nat.le_of_lt hk), Nat.add_comm 1 k, ← stopped]
  simp only [steps_singleton]

theorem exists_stopped_of_succ (hk : k < links.length)
    (hstop : stopped site clock links existing (k + 1) = .ok h) :
    ∃ before, stopped site clock links existing k = .ok before ∧
      Stepped site clock (reached site clock existing (links.take k)) (k + 1) links[k]
        before h := by
  rw [stopped_succ hk] at hstop
  cases hbefore : stopped site clock links existing k with
  | error why =>
    rw [hbefore] at hstop
    cases hstop
  | ok before =>
    rw [hbefore] at hstop
    exact ⟨before, rfl, (stepped_of_step (stopped_spec hbefore).1 hstop).1⟩

theorem exists_stopped_of_le {j : Nat} (hjk : j ≤ k) (hk : k ≤ links.length)
    (hstop : stopped site clock links existing k = .ok h) :
    ∃ before, stopped site clock links existing j = .ok before := by
  induction k generalizing h with
  | zero => exact ⟨h, Nat.le_zero.mp hjk ▸ hstop⟩
  | succ k ih =>
    rcases Nat.le_succ_iff.mp hjk with hjk | rfl
    · obtain ⟨before, hbefore, -⟩ := exists_stopped_of_succ hk hstop
      exact ih hjk (Nat.le_of_lt hk) hbefore
    · exact ⟨h, hstop⟩

theorem reached_take_succ (hk : k < links.length) :
    reached site clock existing (links.take (k + 1)) =
      grow site clock (reached site clock existing (links.take k)) links[k] := by
  rw [List.take_succ_eq_append_getElem hk, reached_append]
  rfl

theorem isSkipped_eq (hk : k < links.length) : isSkipped site clock links existing k =
    !isPending (reached site clock existing (links.take k)) links[k] := by
  rw [isSkipped, List.getElem?_eq_getElem hk, Option.all_some]

theorem lastSave_le (site : Site) (clock : Text → Text) (links existing : Fields) (k : Nat) :
    lastSave site clock links existing k ≤ k := by
  induction k with
  | zero => exact Nat.le_refl 0
  | succ k ih =>
    rw [lastSave]
    split
    · exact Nat.le_refl _
    · exact Nat.le_succ_of_le ih

theorem lastSave_mod (site : Site) (clock : Text → Text) (links existing : Fields) (k : Nat) :
    lastSave site clock links existing k % checkpointEvery = 0 := by
  induction k with
  | zero => rfl
  | succ k ih =>
    rw [lastSave]
    split
    · next hsave => exact hsave.2
    · exact ih

/-- Every tenth link after the entries were saved last is skipped. -/
theorem isSkipped_of_lastSave_le {i : Nat} (hlast : lastSave site clock links existing k ≤ i)
    (hi : i < k) (htenth : (i + 1) % checkpointEvery = 0) :
    isSkipped site clock links existing i = true := by
  induction k with
  | zero => exact absurd hi (Nat.not_lt_zero i)
  | succ k ih =>
    rw [lastSave] at hlast
    split at hlast
    · exact absurd hlast (Nat.not_le_of_lt hi)
    · next hsave =>
      rcases Nat.lt_succ_iff_lt_or_eq.mp hi with hlt | rfl
      · exact ih hlast hlt
      · exact Bool.of_not_eq_false fun hskip => hsave ⟨hskip, htenth⟩

/-- **What is saved.** After some links the file holds what the first of them reached, up to the
last tenth link that was not skipped. -/
theorem onDisk_stopped (hk : k ≤ links.length)
    (hstop : stopped site clock links existing k = .ok h) : onDisk existing h = .object
      (reached site clock existing (links.take (lastSave site clock links existing k))) := by
  induction k generalizing h with
  | zero =>
    obtain rfl := Except.ok.inj hstop
    rfl
  | succ k ih =>
    obtain ⟨before, hbefore, hstepped⟩ := exists_stopped_of_succ hk hstop
    have hsaved := hstepped.saved
    rw [← reached_take_succ hk] at hsaved
    simp only [lastSave, onDisk, hsaved, isSkipped_eq hk, Bool.not_eq_false']
    split
    · rfl
    · exact ih (Nat.le_of_lt hk) hbefore

theorem exists_onDisk_eq (hstop : stopped site clock links existing k = .ok h) :
    ∃ j, onDisk existing h = .object (reached site clock existing (links.take j)) := by
  have hmin : stopped site clock links existing (min k links.length) = .ok h := by
    rw [← hstop, stopped, stopped, ← List.take_eq_take_min]
  exact ⟨_, onDisk_stopped (Nat.min_le_right _ _) hmin⟩

end

end Harvest

end DegreeAudit
