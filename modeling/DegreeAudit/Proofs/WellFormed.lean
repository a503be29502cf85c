import DegreeAudit.Proofs.DistinctKeys
import DegreeAudit.Proofs.FirstOfKey
import DegreeAudit.Proofs.Trimming
import DegreeAudit.Registry
import Mathlib.Data.List.Forall2
import Mathlib.Data.List.Nodup

/-!
# What rules promise

An audit looks things up in the rules of a major without asking whether they are there: the section
of a key, the list that an option names, the groups of a choice. A rule document that is read keeps
such promises, because each is made where a part of the document is checked.

**Nodes.** At every depth, a choice of groups has groups, a requirement of both lists has parts, and
no other requirement has either; and every course has a key (`Requirement.Sound`).

**Communication.** Every list has a name of its own, and every option asks for existing lists
(`CommunicationRule.Sound`).

**Documents.** The sections are the fields with the keys of sections, in document order and each
once (`RuleSet.WellFormed`).

A reader promises something of its result, if it gives one (`Yields`). Such promises are carried
from the parts of a document to the whole by `Yields.bind` and `Yields.mapM`.
-/

namespace DegreeAudit

/-! ## Promises -/

/-- Whether a result, if there is one, has a property. -/
def Yields {α : Type} (x : Except Fault α) (P : α → Prop) : Prop := ∀ a, x = .ok a → P a

section

variable {α β : Type} {x : Except Fault α} {P Q : α → Prop}

theorem yields_ok {a : α} (h : P a) : Yields (.ok a) P := fun _ heq => Except.ok.inj heq ▸ h

theorem yields_error (e : Fault) : Yields (.error e) P := fun _ heq => by cases heq

theorem Yields.mono (h : Yields x P) (hpq : ∀ a, P a → Q a) : Yields x Q :=
  fun a ha => hpq a (h a ha)

theorem Yields.bind {R : β → Prop} {f : α → Except Fault β} (h : Yields x P)
    (hf : ∀ a, P a → Yields (f a) R) : Yields (x >>= f) R := by
  cases x with
  | ok a => exact hf a (h a rfl)
  | error e => exact yields_error e

theorem yields_true (x : Except Fault α) : Yields x fun _ => True := fun _ _ => trivial

theorem Yields.mapM {R : α → β → Prop} {f : α → Except Fault β} {xs : List α}
    (h : ∀ x ∈ xs, Yields (f x) (R x)) : Yields (xs.mapM f) (List.Forall₂ R xs) := by
  induction xs with
  | nil => exact yields_ok .nil
  | cons x rest ih =>
    rw [List.mapM_cons]
    exact (h x List.mem_cons_self).bind fun _ hy =>
      (ih fun y hy => h y (List.mem_cons_of_mem x hy)).bind fun _ hrest =>
        yields_ok (.cons hy hrest)

theorem Yields.mapM_exists {R : β → Prop} {f : α → Except Fault β} {xs : List α} {x : α}
    (hx : x ∈ xs) (h : Yields (f x) R) : Yields (xs.mapM f) fun ys => ∃ y ∈ ys, R y := by
  induction xs with
  | nil => cases hx
  | cons a rest ih =>
    rw [List.mapM_cons]
    rcases List.mem_cons.mp hx with rfl | hx
    · exact h.bind fun b hb => (yields_true _).bind fun _ _ =>
        yields_ok ⟨b, List.mem_cons_self, hb⟩
    · exact (yields_true _).bind fun _ _ => (ih hx).bind fun _ ⟨b, hmem, hb⟩ =>
        yields_ok ⟨b, List.mem_cons_of_mem _ hmem, hb⟩

theorem forall_of_forall₂ {R : α → β → Prop} {S : β → Prop} {xs : List α} {ys : List β}
    (h : List.Forall₂ R xs ys) (hR : ∀ x y, R x y → S y) : ∀ y ∈ ys, S y := by
  induction h with
  | nil => exact nofun
  | cons hxy _ ih => exact List.forall_mem_cons.mpr ⟨hR _ _ hxy, ih⟩

end

/-! ## Courses -/

theorem Code.key_trim_eq_nil_iff {code : Text} :
    key (Text.trim code) = [] ↔ Text.trim code = [] := by
  rw [key, Text.upper_eq_nil_iff, Text.squeeze_trim, Text.trim_eq_nil_iff]

theorem Course.exists_of_ofEntry? {entry : Json} {c : Course} (h : ofEntry? entry = some c) :
    ∃ code, c.code = Text.trim code := by
  unfold ofEntry? at h
  split at h
  · obtain rfl := Option.some.inj h
    exact ⟨_, rfl⟩
  · obtain rfl := Option.some.inj h
    exact ⟨_, rfl⟩
  · cases h

/-- Whether every course has a key. -/
def AllKeyed (courses : List Course) : Prop := ∀ c ∈ courses, c.key ≠ ""

section

variable {place key : Text} {fields : Fields}

theorem readCourse_yields (entry : Json) : Yields (readCourse place entry) fun c => c.key ≠ "" := by
  unfold readCourse
  split
  · exact yields_error _
  · next c hc =>
    obtain ⟨code, hcode⟩ := Course.exists_of_ofEntry? hc
    split
    · exact yields_error _
    · next hne =>
      refine yields_ok fun hkey => hne ?_
      rw [Course.key, hcode] at hkey
      rw [hcode]
      exact Code.key_trim_eq_nil_iff.mp hkey

theorem readCourses_yields : Yields (readCourses place key fields) AllKeyed := by
  unfold readCourses
  split
  · exact yields_ok nofun
  · exact (Yields.mapM fun entry _ => readCourse_yields entry).mono fun _ h =>
      forall_of_forall₂ h fun _ _ => id
  · exact yields_error _

/-! ## Requirements -/

namespace Requirement

def groups : Requirement → List Requirement
  | oneGroup _ groups => groups
  | _ => []

def parts : Requirement → List Requirement
  | bothLists _ parts => parts
  | _ => []

mutual

/-- A requirement with the groups and parts below it, at every depth. -/
def nodes : Requirement → List Requirement
  | pick how t => [pick how t]
  | oneGroup t groups => oneGroup t groups :: nodesAll groups
  | bothLists t parts => bothLists t parts :: nodesAll parts

def nodesAll : List Requirement → List Requirement
  | [] => []
  | q :: rest => q.nodes ++ nodesAll rest

end

theorem nodesAll_eq_flatMap (qs : List Requirement) : nodesAll qs = qs.flatMap nodes := by
  induction qs with
  | nil => rfl
  | cons q rest ih => rw [nodesAll, ih, List.flatMap_cons]

/-- What a node of a requirement promises. -/
structure Sound (q : Requirement) : Prop where
  groups : q.groups ≠ [] ↔ q.kind = .oneGroup
  parts : q.parts ≠ [] ↔ q.kind = .bothLists
  courses : AllKeyed q.terms.courses

theorem sound_pick {how : Pick} {t : Terms} (h : AllKeyed t.courses) : (pick how t).Sound where
  groups := ⟨fun hne => absurd rfl hne, nofun⟩
  parts := ⟨fun hne => absurd rfl hne, nofun⟩
  courses := h

theorem sound_oneGroup {t : Terms} {groups : List Requirement} (h : AllKeyed t.courses)
    (hgroups : groups ≠ []) : (oneGroup t groups).Sound where
  groups := ⟨fun _ => rfl, fun _ => hgroups⟩
  parts := ⟨fun hne => absurd rfl hne, nofun⟩
  courses := h

theorem sound_bothLists {t : Terms} {parts : List Requirement} (h : AllKeyed t.courses)
    (hparts : parts ≠ []) : (bothLists t parts).Sound where
  groups := ⟨fun hne => absurd rfl hne, nofun⟩
  parts := ⟨fun _ => rfl, fun _ => hparts⟩
  courses := h

theorem readTerms_yields (count : Option Int) (description : Option Text) :
    Yields (readTerms place fields count description) fun t => AllKeyed t.courses :=
  readCourses_yields.bind fun _ hcourses =>
    (yields_true _).bind fun _ _ => (yields_true _).bind fun _ _ =>
      (yields_true _).bind fun _ _ => (yields_true _).bind fun _ _ =>
        (yields_true _).bind fun _ _ => yields_ok hcourses

theorem readAll_yields_ne_nil (index : Nat) (v : Json) (rest : List Json) :
    Yields (readAll place index (v :: rest)) (· ≠ []) := by
  rw [readAll]
  exact (yields_true _).bind fun _ _ => (yields_true _).bind fun _ _ =>
    yields_ok (List.cons_ne_nil _ _)

mutual

theorem read_yields (place : Text) : ∀ v : Json,
    Yields (read place v) fun q => ∀ n ∈ q.nodes, n.Sound
  | .object fields => by
    rw [read]
    refine (yields_true _).bind fun kind _ => (yields_true _).bind fun count _ =>
      (yields_true _).bind fun description _ => ?_
    cases kind with
    | pick how =>
      refine (readTerms_yields count description).bind fun t ht => yields_ok ?_
      rw [nodes, List.forall_mem_singleton]
      exact sound_pick ht
    | oneGroup =>
      refine (readBelow_yields _ _ _ fields).bind fun below hbelow =>
        (readTerms_yields count description).bind fun t ht => yields_ok ?_
      rw [nodes, List.forall_mem_cons]
      exact ⟨sound_oneGroup ht hbelow.1, hbelow.2⟩
    | bothLists =>
      refine (readBelow_yields _ _ _ fields).bind fun below hbelow =>
        (readTerms_yields count description).bind fun t ht => yields_ok ?_
      rw [nodes, List.forall_mem_cons]
      exact ⟨sound_bothLists ht hbelow.1, hbelow.2⟩
  | .null | .bool _ | .int _ | .float _ | .text _ | .list _ => yields_error _

theorem readBelow_yields (place key : Text) (lack : Malformed) : ∀ fields : List (Text × Json),
    Yields (readBelow place key lack fields) fun below =>
      below ≠ [] ∧ ∀ n ∈ nodesAll below, n.Sound
  | [] => yields_error _
  | (k, .list items) :: rest => by
    unfold readBelow
    split
    · cases items with
      | nil => exact yields_error _
      | cons v items => exact fun below hbelow =>
          ⟨readAll_yields_ne_nil 0 v items below hbelow,
            readAll_yields _ 0 (v :: items) below hbelow⟩
    · exact readBelow_yields place key lack rest
  | (k, .null) :: rest | (k, .bool _) :: rest | (k, .int _) :: rest | (k, .float _) :: rest
  | (k, .text _) :: rest | (k, .object _) :: rest => by
    unfold readBelow
    split
    · exact yields_error _
    · exact readBelow_yields place key lack rest

theorem readAll_yields (place : Text) (index : Nat) : ∀ items : List Json,
    Yields (readAll place index items) fun qs => ∀ n ∈ nodesAll qs, n.Sound
  | [] => yields_ok nofun
  | v :: rest => by
    rw [readAll]
    refine (read_yields _ v).bind fun q hq =>
      (readAll_yields place (index + 1) rest).bind fun qs hqs => yields_ok ?_
    rw [nodesAll, List.forall_mem_append]
    exact ⟨hq, hqs⟩

end

end Requirement

/-! ## The communication requirement -/

/-- What a communication rule promises. -/
structure CommunicationRule.Sound (rule : CommunicationRule) : Prop where
  names : (rule.lists.map (·.name)).Nodup
  options : ∀ o ∈ rule.options, ∀ pair ∈ o.requires, pair.1 ∈ rule.lists.map (·.name)
  courses : ∀ l ∈ rule.lists, AllKeyed l.courses

namespace CommunicationRule

theorem readList_yields (name : Text) (v : Json) :
    Yields (readList place name v) fun l => l.name = name ∧ AllKeyed l.courses := by
  unfold readList
  split
  · exact readCourses_yields.bind fun courses hcourses => yields_ok ⟨rfl, hcourses⟩
  · exact yields_error _

theorem readListName_yields (names : List Text) (v : Json) :
    Yields (readListName place names v) (· ∈ names) := by
  unfold readListName
  split
  · split
    · next hmem => exact yields_ok hmem
    · exact yields_error _
  all_goals exact yields_error _

theorem readRequires_yields (names : List Text) (v : Json) :
    Yields (readRequires place names v) (·.1 ∈ names) := by
  unfold readRequires
  split
  · exact (readListName_yields names _).bind fun _ hname =>
      (yields_true _).bind fun _ _ => yields_ok hname
  · exact yields_error _

theorem readOption_yields (names : List Text) (v : Json) :
    Yields (readOption place names v) fun o => ∀ pair ∈ o.requires, pair.1 ∈ names := by
  unfold readOption
  split
  · split
    · exact (Yields.mapM fun entry _ => readRequires_yields names entry).bind fun _ h =>
        yields_ok (forall_of_forall₂ h fun _ _ => id)
    · exact yields_error _
  · exact yields_error _

theorem readOptions_yields (names : List Text) (index : Nat) (items : List Json) :
    Yields (readOptions place names index items) fun os =>
      ∀ o ∈ os, ∀ pair ∈ o.requires, pair.1 ∈ names := by
  induction items generalizing index with
  | nil => exact yields_ok nofun
  | cons v rest ih =>
    exact (readOption_yields names v).bind fun _ ho => (ih (index + 1)).bind fun _ hos =>
      yields_ok (List.forall_mem_cons.mpr ⟨ho, hos⟩)

theorem read_yields {v : Json} (hv : v.Keyed) : Yields (read place v) Sound := by
  unfold read
  split
  · next fields =>
    refine (Yields.mapM fun f _ => readList_yields f.1 f.2).bind fun lists hlists => ?_
    -- The lists have the names of the fields that they were read from.
    have hnames : lists.map (·.name) =
        (fields.filter fun (f : Text × Json) => f.1 != "options").map Prod.fst := by
      rw [← List.forall₂_eq_eq_eq, List.forall₂_map_left_iff, List.forall₂_map_right_iff]
      exact hlists.flip.imp fun _ _ h => h.1
    have hnodup : (lists.map (·.name)).Nodup :=
      hnames ▸ hv.nodup_keys.sublist (List.filter_sublist.map Prod.fst)
    split
    · exact (readOptions_yields _ 0 _).bind fun options hoptions =>
        yields_ok ⟨hnodup, hoptions, forall_of_forall₂ hlists fun _ _ h => h.2⟩
    · exact yields_error _
  · exact yields_error _

end CommunicationRule

/-! ## Rule documents -/

/-- Whether a key of a document is that of a section. -/
def Section.isKey (key : Text) : Bool :=
  (RequirementList.ofKey? key).isSome || key == communicationKey || key == breadthKey ||
    key == depthKey

namespace Section

theorem key_eq_list_iff {s : Section} {which : RequirementList} :
    s.key = which.key ↔ ∃ items, s = .requirements which items := by
  have hlists : ∀ l : RequirementList, l.key = which.key ↔ l = which := by
    intro l
    cases l <;> cases which <;> decide
  have hothers : communicationKey ≠ which.key ∧ breadthKey ≠ which.key ∧ depthKey ≠ which.key := by
    cases which <;> decide
  cases s with
  | requirements l items => simp [key, hlists]
  | communication rule => simp [key, hothers.1]
  | breadth source => simp [key, hothers.2.1]
  | depth source => simp [key, hothers.2.2]

theorem key_eq_communicationKey_iff {s : Section} :
    s.key = communicationKey ↔ ∃ rule, s = .communication rule := by
  have hothers : breadthKey ≠ communicationKey ∧ depthKey ≠ communicationKey := by decide
  cases s with
  | requirements which items =>
    have hlist : which.key ≠ communicationKey := by cases which <;> decide
    simp [key, hlist]
  | communication rule => simp [key]
  | breadth source => simp [key, hothers.1]
  | depth source => simp [key, hothers.2]

/-- What a section promises. -/
def Sound : Section → Prop
  | requirements _ items => ∀ n ∈ Requirement.nodesAll items, n.Sound
  | communication rule => rule.Sound
  | breadth _ | depth _ => True

end Section

namespace RuleSet

/-- The section with a key. -/
def section? (rules : RuleSet) (key : Text) : Option Section :=
  rules.sections.find? fun s => s.key == key

/-- What the rules of a major promise that were read from an object. -/
structure WellFormed (fields : Fields) (rules : RuleSet) : Prop where
  /-- The order is that of the keys in the document, without repetition. -/
  order : rules.order = fields.keys.filter Section.isKey
  nodup : rules.order.Nodup
  /-- Looking up the keys in order finds all sections in order. -/
  found : rules.order.mapM rules.section? = some rules.sections
  lists : ∀ which : RequirementList, which.key ∈ rules.order ↔
    ∃ items, rules.section? which.key = some (.requirements which items)
  communication : rules.communication?.isSome = true ↔ Section.communicationKey ∈ rules.order
  sections : ∀ s ∈ rules.sections, s.Sound
  excluded : AllKeyed rules.excluded

theorem ofKey?_eq_some_iff {key : Text} {which : RequirementList} :
    RequirementList.ofKey? key = some which ↔ which.key = key := by
  constructor
  · intro h
    have hbeq : (which.key == key) = true :=
      List.find?_some (p := fun l : RequirementList => l.key == key) h
    exact eq_of_beq hbeq
  · rintro rfl
    cases which <;> decide

/-- Whether a field with a key gives a section exactly if the key is that of one, and then one with
this key. -/
def Gives (key : Text) : Option Section → Prop
  | some s => s.key = key ∧ Section.isKey key = true ∧ s.Sound
  | none => Section.isKey key = false

theorem readSection_yields {v : Json} (hv : v.Keyed) :
    Yields (readSection place key v) (Gives key) := by
  unfold readSection
  split
  · next which hwhich =>
    have hkey := ofKey?_eq_some_iff.mp hwhich
    split
    · exact (Requirement.readAll_yields _ 0 _).bind fun items hitems =>
        yields_ok ⟨hkey, by rw [Section.isKey, hwhich]; rfl, hitems⟩
    · exact yields_error _
  · next hnone =>
    split
    · next hkey =>
      exact (CommunicationRule.read_yields hv).bind fun rule hrule =>
        yields_ok ⟨hkey.symm, by simp [Section.isKey, hkey], hrule⟩
    · next hcommunication =>
      split
      · next hkey => exact yields_ok ⟨hkey.symm, by simp [Section.isKey, hkey], trivial⟩
      · next hbreadth =>
        split
        · next hkey => exact yields_ok ⟨hkey.symm, by simp [Section.isKey, hkey], trivial⟩
        · next hdepth =>
          refine yields_ok (?_ : Section.isKey key = false)
          simp [Section.isKey, hnone, hcommunication, hbreadth, hdepth]

theorem map_key_filterMap {fields : Fields} {found : List (Option Section)}
    (h : List.Forall₂ (fun f s? => Gives f.1 s?) fields found) :
    (found.filterMap id).map Section.key = fields.keys.filter Section.isKey := by
  induction h with
  | nil => rfl
  | @cons f s? rest found hf _ ih =>
    obtain ⟨key, v⟩ := f
    rw [Fields.keys_cons]
    cases s? with
    | none =>
      have hnot : ¬Section.isKey key = true := (Bool.eq_false_iff).mp hf
      rw [List.filterMap_cons_none (by rfl), ih, List.filter_cons_of_neg hnot]
    | some s =>
      rw [List.filterMap_cons_some (by rfl), List.map_cons, ih, List.filter_cons_of_pos hf.2.1,
        hf.1]

/-- Distinct sections are found by their keys. -/
theorem mapM_section? {rules : RuleSet} (h : rules.order.Nodup) :
    rules.order.mapM rules.section? = some rules.sections := by
  have hall : ∀ sections ⊆ rules.sections,
      (sections.map Section.key).mapM rules.section? = some sections := by
    intro sections hsub
    induction sections with
    | nil => rfl
    | cons s rest ih =>
      rw [List.cons_subset] at hsub
      have hs : rules.section? s.key = some s := find?_of_nodup_map h hsub.1
      rw [List.map_cons, List.mapM_cons, hs, ih hsub.2]
      rfl
  exact hall rules.sections fun _ => id

theorem mem_order_iff {rules : RuleSet} {key : Text} :
    key ∈ rules.order ↔ ∃ s, rules.section? key = some s := by
  rw [← Option.isSome_iff_exists, section?, List.find?_isSome, order, List.mem_map]
  simp

theorem key_of_section? {rules : RuleSet} {key : Text} {s : Section}
    (h : rules.section? key = some s) : s.key = key := by
  have hbeq : (s.key == key) = true := List.find?_some (p := fun s : Section => s.key == key) h
  exact eq_of_beq hbeq

theorem mem_order_list_iff {rules : RuleSet} {which : RequirementList} :
    which.key ∈ rules.order ↔
      ∃ items, rules.section? which.key = some (.requirements which items) := by
  rw [mem_order_iff]
  constructor
  · rintro ⟨s, hs⟩
    obtain ⟨items, rfl⟩ := Section.key_eq_list_iff.mp (key_of_section? hs)
    exact ⟨items, hs⟩
  · rintro ⟨items, hitems⟩
    exact ⟨_, hitems⟩

/-- The first communication section is the one with its key. -/
theorem communication?_eq (rules : RuleSet) :
    rules.communication? = (rules.section? Section.communicationKey).bind fun
      | .communication rule => some rule
      | _ => none := by
  unfold communication? section?
  induction rules.sections with
  | nil => rfl
  | cons s rest ih =>
    rw [List.findSome?_cons, List.find?_cons]
    by_cases hkey : s.key = Section.communicationKey
    · obtain ⟨rule, rfl⟩ := Section.key_eq_communicationKey_iff.mp hkey
      rw [beq_iff_eq.mpr hkey]
      rfl
    · rw [beq_false_of_ne hkey, ← ih]
      cases s with
      | communication rule => exact absurd rfl hkey
      | requirements | breadth | depth => rfl

theorem isSome_communication?_iff {rules : RuleSet} :
    rules.communication?.isSome = true ↔ Section.communicationKey ∈ rules.order := by
  rw [communication?_eq, mem_order_iff]
  constructor
  · intro h
    cases hs : rules.section? Section.communicationKey with
    | none =>
      rw [hs] at h
      cases h
    | some s => exact ⟨s, rfl⟩
  · rintro ⟨s, hs⟩
    obtain ⟨rule, rfl⟩ := Section.key_eq_communicationKey_iff.mp (key_of_section? hs)
    rw [hs]
    rfl

/-- **Rules that are read keep their promises.** -/
theorem read_yields {fields : Fields} (h : (Json.object fields).Keyed) (major : Text) :
    Yields (read major (.object fields)) fun rules =>
      rules.major = major ∧ rules.WellFormed fields := by
  refine readCourses_yields.bind fun excluded hexcluded =>
    (Yields.mapM fun f hf => readSection_yields (h.of_mem hf)).bind fun found hfound =>
      yields_ok ⟨rfl, ?_⟩
  have horder := map_key_filterMap hfound
  have hsound : ∀ s ∈ found.filterMap id, s.Sound := by
    intro s hs
    have hmem : some s ∈ found := by simpa using hs
    have hall := forall_of_forall₂ (S := fun s? => ∀ s, s? = some s → s.Sound) hfound (by
      rintro f s? hf s rfl
      exact hf.2.2)
    exact hall _ hmem s rfl
  have hnodup : (⟨major, excluded, found.filterMap id⟩ : RuleSet).order.Nodup := by
    show ((found.filterMap id).map Section.key).Nodup
    rw [horder]
    exact h.nodup_keys.filter _
  exact ⟨horder, hnodup, mapM_section? hnodup, fun _ => mem_order_list_iff,
    isSome_communication?_iff, hsound, hexcluded⟩

end RuleSet

end

end DegreeAudit
