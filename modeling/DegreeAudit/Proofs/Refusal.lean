import DegreeAudit.Json.Reader
import DegreeAudit.Rule.Document

/-!
# How rules are refused

A document that gives no rules should be refused, and told so. Every reader of rules does that for
every fault that it finds itself, but two faults come from what it calls: an infinite number has no
whole part, and a list or an object cannot be looked up as a name.

**The invariant.** `Refuses` says of a result which of the two faults it can have, and when. It is
kept by sequencing and by lists (`Refuses.bind`, `Refuses.mapM`), so there is one lemma for each
reader, and one induction over the tree of requirements (`Requirement.read_refuses`).

**Where they come from.** The first fault needs a field `count` with an infinite number, the second
a field `list` with a list or an object, at any depth (`Json.Holds`). Without such fields every
document is read or refused (`rules_read_or_refused`).
-/

namespace DegreeAudit

/-! ## Fields at any depth -/

namespace Fields

theorem mem_of_get? {fields : Fields} {key : Text} {v : Json} (h : fields.get? key = some v) :
    (key, v) ∈ fields := by
  obtain ⟨before, after, rfl, -⟩ := List.lookup_eq_some_iff.mp h
  simp

theorem mem_of_get {fields : Fields} {key : Text} (h : fields.get key ≠ .null) :
    (key, fields.get key) ∈ fields := by
  rw [get] at h ⊢
  cases hget : fields.get? key with
  | none => exact absurd (by rw [hget]; rfl) h
  | some v => exact mem_of_get? hget

end Fields

namespace Json

def IsInfinite : Json → Prop
  | .float (.infinite _) => True
  | _ => False

def IsCompound : Json → Prop
  | .list _ | .object _ => True
  | _ => False

/-- Whether a field of a key has a property, in a value or anywhere below it. -/
inductive Holds (key : Text) (p : Json → Prop) : Json → Prop
  | here {fields : Fields} {v : Json} : (key, v) ∈ fields → p v → Holds key p (.object fields)
  | inside {fields : Fields} {k : Text} {v : Json} :
      (k, v) ∈ fields → Holds key p v → Holds key p (.object fields)
  | item {items : List Json} {v : Json} : v ∈ items → Holds key p v → Holds key p (.list items)

theorem Holds.cons_field {key : Text} {p : Json → Prop} {f : Text × Json} {rest : Fields}
    (h : Holds key p (.object rest)) : Holds key p (.object (f :: rest)) := by
  cases h with
  | here hmem hv => exact .here (List.mem_cons_of_mem f hmem) hv
  | inside hmem hv => exact .inside (List.mem_cons_of_mem f hmem) hv

theorem Holds.cons_item {key : Text} {p : Json → Prop} {v : Json} {rest : List Json}
    (h : Holds key p (.list rest)) : Holds key p (.list (v :: rest)) := by
  cases h with
  | item hmem hv => exact .item (List.mem_cons_of_mem v hmem) hv

def HasInfiniteCount : Json → Prop := Holds "count" IsInfinite

/-- Whether the name of a list is none. -/
def HasCompoundName : Json → Prop := Holds "list" IsCompound

end Json

/-! ## Refusals -/

/-- Whether a result is there or refuses a document. -/
def Announced {α : Type} (x : Except Fault α) : Prop :=
  (∃ a, x = .ok a) ∨ ∃ why, x = .error (.malformed why)

/-- Whether a fault refuses a document, or is one of two others that have a condition each. -/
def Fault.Refuses (infinite compound : Prop) : Fault → Prop
  | malformed _ => True
  | infiniteNumber => infinite
  | wrongKind => compound
  | _ => False

/-- Whether a result is there, or refuses a document, or is one of the two faults under its
condition. -/
def Refuses {α : Type} (infinite compound : Prop) (x : Except Fault α) : Prop :=
  ∀ e, x = .error e → e.Refuses infinite compound

section

variable {α β : Type} {infinite compound infinite' compound' : Prop}

theorem refuses_ok (a : α) : Refuses infinite compound (.ok a) := fun _ h => by cases h

theorem refuses_malformed (why : Malformed) :
    Refuses infinite compound (.error (.malformed why) : Except Fault α) := by
  rintro e ⟨⟩
  exact trivial

theorem Refuses.mono {x : Except Fault α} (h : Refuses infinite compound x)
    (hinfinite : infinite → infinite') (hcompound : compound → compound') :
    Refuses infinite' compound' x := by
  intro e he
  have hfault := h e he
  cases e with
  | malformed why => exact trivial
  | infiniteNumber => exact hinfinite hfault
  | wrongKind => exact hcompound hfault
  | _ => exact hfault

theorem Refuses.bind {x : Except Fault α} {f : α → Except Fault β}
    (h : Refuses infinite compound x) (hf : ∀ a, x = .ok a → Refuses infinite compound (f a)) :
    Refuses infinite compound (x >>= f) := by
  cases x with
  | ok a => exact hf a rfl
  | error e =>
    rintro e' ⟨⟩
    exact h e rfl

theorem Refuses.mapM {f : α → Except Fault β} {xs : List α}
    (h : ∀ x ∈ xs, Refuses infinite compound (f x)) : Refuses infinite compound (xs.mapM f) := by
  induction xs with
  | nil => exact refuses_ok []
  | cons x rest ih =>
    rw [List.mapM_cons]
    exact (h x List.mem_cons_self).bind fun _ _ =>
      (ih fun y hy => h y (List.mem_cons_of_mem x hy)).bind fun _ _ => refuses_ok _

/-- A result with such faults is there, or refuses a document, or is one of the two faults. -/
theorem Refuses.cases {x : Except Fault α} (h : Refuses infinite compound x) :
    Announced x ∨ x = .error .infiniteNumber ∧ infinite ∨ x = .error .wrongKind ∧ compound := by
  cases x with
  | ok a => exact .inl (.inl ⟨a, rfl⟩)
  | error e =>
    have hfault := h e rfl
    cases e with
    | malformed why => exact .inl (.inr ⟨why, rfl⟩)
    | infiniteNumber => exact .inr (.inl ⟨rfl, hfault⟩)
    | wrongKind => exact .inr (.inr ⟨rfl, hfault⟩)
    | _ => exact hfault.elim

end

/-! ## The fields of requirements -/

theorem Json.isInfinite_of_whole {v : Json} (h : v.whole = .error .infiniteNumber) :
    v.IsInfinite := by
  cases v with
  | float x =>
    cases x with
    | infinite negative => trivial
    | nan | finite => cases h
  | text s =>
    rw [whole] at h
    split at h <;> cases h
  | null | bool | int | list | object => cases h

theorem readCount_refuses (place : Text) (v : Json) :
    Refuses v.IsInfinite False (readCount place v) := by
  rw [readCount]
  split
  · exact refuses_ok _
  · next hwhole =>
    rintro e ⟨⟩
    exact Json.isInfinite_of_whole hwhole
  · exact refuses_malformed _

section

variable {infinite compound : Prop} (place key : Text) (fields : Fields)

theorem readCourse_refuses (entry : Json) :
    Refuses infinite compound (readCourse place entry) := by
  rw [readCourse]
  split
  · exact refuses_malformed _
  · split
    · exact refuses_malformed _
    · exact refuses_ok _

theorem readCourses_refuses : Refuses infinite compound (readCourses place key fields) := by
  rw [readCourses]
  split
  · exact refuses_ok _
  · exact .mapM fun entry _ => readCourse_refuses place entry
  · exact refuses_malformed _

theorem readTexts_refuses : Refuses infinite compound (readTexts place key fields) := by
  rw [readTexts]
  split
  · exact refuses_ok _
  · split
    · exact refuses_ok _
    · exact refuses_malformed _

namespace Requirement

theorem readKind_refuses (tag : Json) : Refuses infinite compound (readKind place tag) := by
  rw [readKind]
  split
  · exact refuses_ok _
  · exact refuses_malformed _

theorem readDescription_refuses (v : Json) :
    Refuses infinite compound (readDescription place v) := by
  unfold readDescription
  split
  · exact refuses_ok _
  · exact refuses_ok _
  · exact refuses_malformed _

theorem readTerms_refuses (count : Option Int) (description : Option Text) :
    Refuses infinite compound (readTerms place fields count description) :=
  (readCourses_refuses _ _ _).bind fun _ _ => (readTexts_refuses _ _ _).bind fun _ _ =>
    (readTexts_refuses _ _ _).bind fun _ _ => (readTexts_refuses _ _ _).bind fun _ _ =>
      (readTexts_refuses _ _ _).bind fun _ _ => (readTexts_refuses _ _ _).bind fun _ _ =>
        refuses_ok _

theorem readOptionalCount_refuses :
    Refuses (Json.object fields).HasInfiniteCount False
      (readOptionalCount place (Fields.get fields "count")) := by
  unfold readOptionalCount
  split
  · exact refuses_ok _
  · next hpresent =>
    have hcount := (readCount_refuses place (Fields.get fields "count")).bind fun n _ =>
      refuses_ok (some n)
    exact hcount.mono (fun h => Json.Holds.here (Fields.mem_of_get hpresent) h) id

mutual

theorem read_refuses (place : Text) :
    ∀ v : Json, Refuses v.HasInfiniteCount False (read place v)
  | .object fields => by
    rw [read]
    refine (readKind_refuses _ _).bind fun kind _ => (readOptionalCount_refuses _ _).bind
      fun count _ => (readDescription_refuses _ _).bind fun description _ => ?_
    cases kind with
    | pick how => exact (readTerms_refuses _ _ _ _).bind fun _ _ => refuses_ok _
    | oneGroup => exact (readBelow_refuses _ _ _ fields).bind fun _ _ =>
        (readTerms_refuses _ _ _ _).bind fun _ _ => refuses_ok _
    | bothLists => exact (readBelow_refuses _ _ _ fields).bind fun _ _ =>
        (readTerms_refuses _ _ _ _).bind fun _ _ => refuses_ok _
  | .null | .bool _ | .int _ | .float _ | .text _ | .list _ => refuses_malformed _

theorem readBelow_refuses (place key : Text) (lack : Malformed) : ∀ fields : List (Text × Json),
    Refuses (Json.object fields).HasInfiniteCount False (readBelow place key lack fields)
  | [] => refuses_malformed _
  | (k, .list items) :: rest => by
    unfold readBelow
    split
    · cases items with
      | nil => exact refuses_malformed _
      | cons v items =>
        exact (readAll_refuses _ 0 (v :: items)).mono (.inside List.mem_cons_self) id
    · exact (readBelow_refuses place key lack rest).mono .cons_field id
  | (k, .null) :: rest | (k, .bool _) :: rest | (k, .int _) :: rest | (k, .float _) :: rest
  | (k, .text _) :: rest | (k, .object _) :: rest => by
    unfold readBelow
    split
    · exact refuses_malformed _
    · exact (readBelow_refuses place key lack rest).mono .cons_field id

theorem readAll_refuses (place : Text) (index : Nat) : ∀ items : List Json,
    Refuses (Json.list items).HasInfiniteCount False (readAll place index items)
  | [] => refuses_ok _
  | v :: rest => by
    rw [readAll]
    exact ((read_refuses _ v).mono (.item List.mem_cons_self) id).bind fun _ _ =>
      ((readAll_refuses place (index + 1) rest).mono .cons_item id).bind fun _ _ => refuses_ok _

end

end Requirement

/-! ## The communication requirement -/

theorem eq_nil_or_mem_of_orElse {items : List Json}
    (h : (Fields.get fields key).orElse (.list []) = .list items) :
    items = [] ∨ (key, .list items) ∈ fields := by
  rw [Json.orElse] at h
  split at h
  · next htruthy =>
    have hpresent : Fields.get fields key ≠ .null := by
      rw [h]
      exact Json.noConfusion
    exact .inr (h ▸ Fields.mem_of_get hpresent)
  · exact .inl (Json.list.inj h).symm

namespace CommunicationRule

theorem readList_refuses (name : Text) (v : Json) :
    Refuses infinite compound (readList place name v) := by
  unfold readList
  split
  · exact (readCourses_refuses _ _ _).bind fun _ _ => refuses_ok _
  · exact refuses_malformed _

theorem readListName_refuses (names : List Text) (v : Json) :
    Refuses False v.IsCompound (readListName place names v) := by
  unfold readListName
  split
  · split
    · exact refuses_ok _
    · exact refuses_malformed _
  · rintro e ⟨⟩
    trivial
  · rintro e ⟨⟩
    trivial
  · exact refuses_malformed _

theorem readRequires_refuses (names : List Text) (v : Json) :
    Refuses v.HasInfiniteCount v.HasCompoundName (readRequires place names v) := by
  unfold readRequires
  split
  · next fields =>
    refine Refuses.bind ?_ fun name _ => Refuses.bind ?_ fun count _ => refuses_ok _
    · by_cases hnull : Fields.get fields "list" = .null
      · rw [hnull]
        exact refuses_malformed _
      · exact (readListName_refuses place names _).mono False.elim
          fun h => .here (Fields.mem_of_get hnull) h
    · cases hcount : Fields.get? fields "count" with
      | none => exact (readCount_refuses place (.int 1)).mono False.elim False.elim
      | some v =>
        exact (readCount_refuses place v).mono (fun h => .here (Fields.mem_of_get? hcount) h)
          False.elim
  · exact refuses_malformed _

theorem readOption_refuses (names : List Text) (v : Json) :
    Refuses v.HasInfiniteCount v.HasCompoundName (readOption place names v) := by
  unfold readOption
  split
  · next fields =>
    split
    · next entries hentries =>
      refine Refuses.bind (.mapM fun entry hmem => ?_) fun _ _ => refuses_ok _
      rcases eq_nil_or_mem_of_orElse _ _ hentries with rfl | hfield
      · exact absurd hmem List.not_mem_nil
      · exact (readRequires_refuses place names entry).mono
          (fun h => .inside hfield (.item hmem h)) fun h => .inside hfield (.item hmem h)
    · exact refuses_malformed _
  · exact refuses_malformed _

theorem readOptions_refuses (names : List Text) (index : Nat) (items : List Json) :
    Refuses (Json.list items).HasInfiniteCount (Json.list items).HasCompoundName
      (readOptions place names index items) := by
  induction items generalizing index with
  | nil => exact refuses_ok _
  | cons v rest ih =>
    rw [readOptions]
    exact ((readOption_refuses _ names v).mono (.item List.mem_cons_self)
      (.item List.mem_cons_self)).bind fun _ _ =>
        ((ih (index + 1)).mono .cons_item .cons_item).bind fun _ _ => refuses_ok _

theorem read_refuses (v : Json) :
    Refuses v.HasInfiniteCount v.HasCompoundName (read place v) := by
  unfold read
  split
  · next fields =>
    refine Refuses.bind (.mapM fun f _ => readList_refuses place f.1 f.2) fun lists _ => ?_
    split
    · next items hitems =>
      refine Refuses.bind ?_ fun _ _ => refuses_ok _
      rcases eq_nil_or_mem_of_orElse _ _ hitems with rfl | hfield
      · exact refuses_ok _
      · exact (readOptions_refuses place _ 0 items).mono (.inside hfield) (.inside hfield)
    · exact refuses_malformed _
  · exact refuses_malformed _

end CommunicationRule

/-! ## Rule documents -/

namespace RuleSet

theorem readSection_refuses (v : Json) :
    Refuses v.HasInfiniteCount v.HasCompoundName (readSection place key v) := by
  unfold readSection
  split
  · split
    · exact ((Requirement.readAll_refuses _ 0 _).mono id False.elim).bind fun _ _ => refuses_ok _
    · exact refuses_malformed _
  · split
    · exact (CommunicationRule.read_refuses _ v).bind fun _ _ => refuses_ok _
    · split
      · exact refuses_ok _
      · split <;> exact refuses_ok _

theorem read_refuses (v : Json) :
    Refuses v.HasInfiniteCount v.HasCompoundName (read place v) := by
  unfold read
  split
  · refine (readCourses_refuses _ _ _).bind fun _ _ =>
      Refuses.bind (.mapM fun f hf => ?_) fun _ _ => refuses_ok _
    exact (readSection_refuses place f.1 f.2).mono (.inside hf) (.inside hf)
  · exact refuses_malformed _

end RuleSet

end

/-! ## Reading rules -/

theorem readCount_of_isInfinite (place : Text) {v : Json} (h : v.IsInfinite) :
    readCount place v = .error .infiniteNumber := by
  unfold Json.IsInfinite at h
  split at h
  · rfl
  · exact h.elim

/-- A requirement of a known kind with an infinite count is not refused but stops the reader. -/
theorem Requirement.read_of_isInfinite (place : Text) {fields : Fields} {kind : Kind}
    (hkind : readKind place (Fields.get fields "type") = .ok kind)
    (hcount : (Fields.get fields "count").IsInfinite) :
    read place (.object fields) = .error .infiniteNumber := by
  have hoptional : readOptionalCount place (Fields.get fields "count") =
      .error .infiniteNumber := by
    unfold readOptionalCount
    split
    · next hnull => simp [hnull, Json.IsInfinite] at hcount
    · rw [readCount_of_isInfinite place hcount]
      rfl
  rw [read, hkind, hoptional]
  rfl

/-- An entry that names a list by a list or an object stops the reader. -/
theorem CommunicationRule.readRequires_of_isCompound (place : Text) (names : List Text)
    {fields : Fields} (h : (Fields.get fields "list").IsCompound) :
    readRequires place names (.object fields) = .error .wrongKind := by
  have hname : readListName place names (Fields.get fields "list") = .error .wrongKind := by
    generalize Fields.get fields "list" = v at h ⊢
    cases v with
    | list | object => rfl
    | _ => exact False.elim h
  rw [readRequires, hname]
  rfl

/-- **Rules are read or refused**, with two exceptions. Whatever the value and the place, reading a
requirement gives one, or refuses the value, or finds an infinite number, and then some count in it
is infinite. Reading a communication rule or a whole document has one more outcome: a value of the
wrong kind, and then some name of a list in it is a list or an object.

Both happen: a requirement of a known kind with an infinite count is always the first, and an entry
of an option that names a list so is always the second. -/
theorem rules_read_or_refused (place : Text) (v : Json) :
    (Announced (Requirement.read place v) ∨
      Requirement.read place v = .error .infiniteNumber ∧ v.HasInfiniteCount) ∧
    (Announced (CommunicationRule.read place v) ∨
      CommunicationRule.read place v = .error .infiniteNumber ∧ v.HasInfiniteCount ∨
      CommunicationRule.read place v = .error .wrongKind ∧ v.HasCompoundName) ∧
    (Announced (RuleSet.read place v) ∨
      RuleSet.read place v = .error .infiniteNumber ∧ v.HasInfiniteCount ∨
      RuleSet.read place v = .error .wrongKind ∧ v.HasCompoundName) ∧
    ∀ fields, v = .object fields →
      (∀ kind, Requirement.readKind place (Fields.get fields "type") = .ok kind →
        (Fields.get fields "count").IsInfinite →
          Requirement.read place v = .error .infiniteNumber) ∧
      ∀ names, (Fields.get fields "list").IsCompound →
        CommunicationRule.readRequires place names v = .error .wrongKind := by
  refine ⟨?_, (CommunicationRule.read_refuses place v).cases, (RuleSet.read_refuses place v).cases,
    ?_⟩
  · rcases (Requirement.read_refuses place v).cases with h | h | h
    · exact .inl h
    · exact .inr h
    · exact h.2.elim
  · rintro fields rfl
    exact ⟨fun _ => Requirement.read_of_isInfinite place,
      fun names => CommunicationRule.readRequires_of_isCompound place names⟩

/-- A requirement with an infinite count. -/
def endlessRequirement : Json :=
  .object [("type", .text "n_required"), ("count", .float (.infinite false))]

/-- A communication rule with an option that names a list by an empty list. -/
def unnamedRule : Json :=
  .object [("list1", .object [("courses", .list [])]),
    ("options", .list [.object [("requires", .list [.object [("list", .list [])]])]])]

theorem rules_read_or_refused_endless :
    Requirement.read "requirement" endlessRequirement = .error .infiniteNumber ∧
      CommunicationRule.readRequires "rule" ["list1"] (.object [("list", .list [])]) =
        .error .wrongKind := by
  obtain ⟨-, -, -, hrequirement⟩ := rules_read_or_refused "requirement" endlessRequirement
  obtain ⟨-, -, -, hentry⟩ := rules_read_or_refused "rule" (.object [("list", .list [])])
  exact ⟨(hrequirement _ rfl).1 (.pick .several) rfl trivial, (hentry _ rfl).2 ["list1"] trivial⟩

/-- Two documents that are neither read nor refused. -/
theorem rules_neither_read_nor_refused :
    (Json.readChars 900 "\x7b\"type\": \"n_required\", \"count\": 1e400\x7d".toList).toOption =
        some endlessRequirement ∧
      RuleSet.read "m" (.object [("required_courses", .list [endlessRequirement])]) =
        .error .infiniteNumber ∧
      RuleSet.read "m" (.object [("communication_requirement", unnamedRule)]) =
        .error .wrongKind ∧
      ¬Announced (Requirement.read "requirement" endlessRequirement) ∧
      ¬Announced (CommunicationRule.read "communication_requirement" unnamedRule) := by
  refine ⟨by decide +kernel, rfl, rfl, ?_, ?_⟩
  · rintro (⟨_, h⟩ | ⟨_, h⟩) <;> cases h
  · rintro (⟨_, h⟩ | ⟨_, h⟩) <;> cases h

end DegreeAudit
