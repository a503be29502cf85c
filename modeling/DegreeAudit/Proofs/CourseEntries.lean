import DegreeAudit.Catalog
import DegreeAudit.Proofs.Refusal
import DegreeAudit.Proofs.WellFormed
import DegreeAudit.Proofs.Windows

/-!
# Entries without a code

The catalog and the rules both read courses from objects with a field `code`, and neither should
make a course of an object without a usable one. They do not ask the same question. The catalog
looks at the field, and refuses an object whose code counts as absent. The rules look at the code of
the course, after a text has been made of the field, and refuse a blank one.

**Texts of values.** What is made of a value is blank only if the value is a blank text: a literal
never is (`Json.literal_not_blank`). So the rules refuse exactly the objects without the field or
with a blank text there (`Fields.Codeless`).

**Documents.** Whatever a document lists is in the rules that are read from it
(`RuleSet.ListsEntry.read_enters`). So a document that lists an object without a code gives no
rules.

**The difference** is made by the objects whose code is null, false, a zero, or an empty list or
object (`Fields.HasVoidCode`): the catalog refuses them, and in the rules they become courses that
nobody can take.
-/

namespace DegreeAudit

open Text

/-! ## Texts of values -/

namespace Binary64

/-- A laid out number has a point or an exponent. -/
theorem exists_mem_layOut (digits : List Char) (point : Int) :
    ∃ c ∈ layOut digits point, c = 'e' ∨ c = '.' := by
  unfold layOut
  split
  · exact ⟨'e', by simp, .inl rfl⟩
  · refine ⟨'.', ?_, .inr rfl⟩
    split
    · simp
    · split <;> simp

theorem exists_mem_finiteText (negative : Bool) (mantissa : Nat) (exponent : Int) :
    ∃ c ∈ finiteText negative mantissa exponent, c = 'e' ∨ c = '.' := by
  fun_cases finiteText negative mantissa exponent with
  | case1 => exact ⟨'.', by simp, .inr rfl⟩
  | case2 sign _ n e _ kept zeros =>
    obtain ⟨c, hc, heq⟩ := exists_mem_layOut kept (e + zeros + kept.length)
    exact ⟨c, List.mem_append_right _ hc, heq⟩

theorem literal_not_blank (x : Binary64) : ∃ c ∈ x.literal, isBlank c = false := by
  cases x with
  | nan => exact ⟨'n', by decide⟩
  | infinite negative => cases negative <;> exact ⟨'i', by decide⟩
  | finite negative mantissa exponent =>
    obtain ⟨c, hc, heq⟩ := exists_mem_finiteText negative mantissa exponent
    refine ⟨c, List.mem_map_of_mem hc, ?_⟩
    rcases heq with rfl | rfl <;> decide

end Binary64

theorem Text.decimal_not_blank (n : Int) : ∃ c ∈ decimal n, isBlank c = false := by
  cases n with
  | ofNat n =>
    obtain ⟨d, ds, hd⟩ := List.exists_cons_of_ne_nil (decimal_ne_nil n)
    have hmem : d ∈ decimal n := hd ▸ List.mem_cons_self
    exact ⟨d, hmem, isBlank_of_isPlainDigit (isPlainDigit_of_mem_decimal hmem)⟩
  | negSucc n =>
    have hminus : decimal (.negSucc n) = ofString ("-" ++ Nat.repr (n + 1)) := rfl
    refine ⟨'-', ?_, by decide⟩
    rw [hminus, ofString, String.toList_append]
    exact List.mem_cons_self

namespace Json

theorem literal_not_blank (v : Json) : ∃ c ∈ v.literal, isBlank c = false := by
  cases v with
  | null => exact ⟨'N', by decide⟩
  | bool b => cases b <;> exact ⟨'e', by decide⟩
  | int n => exact decimal_not_blank n
  | float x => exact x.literal_not_blank
  | text s =>
    refine ⟨_, List.mem_cons_self, ?_⟩
    split <;> decide
  | list items =>
    rw [literal, List.append_assoc]
    exact ⟨'[', List.mem_cons_self, by decide⟩
  | object fields =>
    rw [literal, List.append_assoc]
    exact ⟨'\x7b', List.mem_cons_self, by decide⟩

theorem trim_display_eq_nil_iff {v : Json} :
    trim v.display = [] ↔ ∃ s, v = .text s ∧ trim s = [] := by
  have hliteral : trim v.literal ≠ [] := by
    obtain ⟨c, hc, hblank⟩ := v.literal_not_blank
    rw [ne_eq, trim_eq_nil_iff, squeeze, List.filter_eq_nil_iff]
    exact fun h => h c hc (by rw [hblank]; rfl)
  cases v with
  | text s => simp [display]
  | null | bool | int | float | list | object => exact iff_of_false hliteral (by simp)

end Json

/-! ## Objects without a code -/

namespace Fields

/-- Whether an object has no code, or one that is blank. -/
def Codeless (fields : Fields) : Prop :=
  ∀ v, fields.get? "code" = some v → ∃ s, v = .text s ∧ trim s = []

/-- Whether the code of an object counts as absent, though it is there and no text. -/
def HasVoidCode (fields : Fields) : Prop :=
  ∃ v, fields.get? "code" = some v ∧ v.truthy = false ∧ ∀ s, v ≠ .text s

theorem code_ofFields_eq_nil_iff {fields : Fields} :
    (Course.ofFields fields).code = [] ↔ fields.Codeless := by
  rw [Course.ofFields, Codeless]
  cases fields.get? "code" with
  | none => exact iff_of_true rfl nofun
  | some v =>
    rw [Option.getD_some, Json.trim_display_eq_nil_iff]
    exact ⟨fun h _ heq => Option.some.inj heq ▸ h, fun h => h v rfl⟩

instance (fields : Fields) : Decidable fields.Codeless :=
  decidable_of_iff _ code_ofFields_eq_nil_iff

/-- A code that counts as absent is void, unless it is missing or an empty text. -/
theorem hasVoidCode_iff {fields : Fields} :
    fields.HasVoidCode ↔ (fields.get "code").truthy = false ∧ ¬fields.Codeless := by
  rw [HasVoidCode, Codeless, get]
  cases fields.get? "code" with
  | none => simp
  | some v =>
    rw [Option.getD_some]
    constructor
    · rintro ⟨_, ⟨⟩, hfalsy, hno⟩
      refine ⟨hfalsy, fun h => ?_⟩
      obtain ⟨s, hs, -⟩ := h v rfl
      exact hno s hs
    · rintro ⟨hfalsy, hcode⟩
      refine ⟨v, rfl, hfalsy, ?_⟩
      rintro s rfl
      -- Of the texts only the empty one counts as absent, and it is blank.
      obtain rfl : s = "" := by simpa [Json.truthy] using hfalsy
      refine hcode ?_
      rintro _ ⟨⟩
      exact ⟨"", rfl, rfl⟩

/-- The codes of courses that are made of void codes. -/
def voidTexts : List Text := ["None", "False", "0", "0.0", "-0.0", "[]", "\x7b\x7d"]

theorem code_ofFields_mem_voidTexts {fields : Fields} (h : fields.HasVoidCode) :
    (Course.ofFields fields).code ∈ voidTexts := by
  obtain ⟨v, hv, hfalsy, hno⟩ := h
  rw [Course.ofFields, hv, Option.getD_some]
  show trim v.display ∈ voidTexts
  cases v with
  | null => decide
  | bool b =>
    obtain rfl : b = false := hfalsy
    decide
  | int n =>
    obtain rfl : n = 0 := by simpa [Json.truthy] using hfalsy
    decide
  | float x =>
    cases x with
    | nan | infinite => cases hfalsy
    | finite negative m e =>
      obtain rfl : m = 0 := by simpa [Json.truthy, Binary64.isZero] using hfalsy
      cases negative with
      | false =>
        show trim (ofChars ['0', '.', '0']) ∈ voidTexts
        decide
      | true =>
        show trim (ofChars ['-', '0', '.', '0']) ∈ voidTexts
        decide
  | text s => exact absurd rfl (hno s)
  | list items =>
    obtain rfl : items = [] := by simpa [Json.truthy] using hfalsy
    decide
  | object below =>
    obtain rfl : below = [] := by simpa [Json.truthy] using hfalsy
    decide

end Fields

/-! ## What documents list -/

namespace Requirement

/-- Whether an entry stands in the course list of a requirement, or of one below it. Groups and
parts are looked for only where the type asks for them. -/
inductive ListsEntry (entry : Json) : Json → Prop
  | courses {fields : Fields} {entries : List Json} :
      fields.get "courses" = .list entries → entry ∈ entries → ListsEntry entry (.object fields)
  | group {fields : Fields} {items : List Json} {v : Json} :
      fields.get "type" = .text Kind.oneGroup.tag → fields.get? "groups" = some (.list items) →
        v ∈ items → ListsEntry entry v → ListsEntry entry (.object fields)
  | part {fields : Fields} {items : List Json} {v : Json} :
      fields.get "type" = .text Kind.bothLists.tag →
        fields.get? "requirements" = some (.list items) →
          v ∈ items → ListsEntry entry v → ListsEntry entry (.object fields)

def allCourses (q : Requirement) : List Course := q.nodes.flatMap (·.terms.courses)

theorem flatMap_nodesAll (qs : List Requirement) :
    (nodesAll qs).flatMap (·.terms.courses) = qs.flatMap allCourses := by
  rw [nodesAll_eq_flatMap, List.flatMap_assoc]
  rfl

theorem allCourses_oneGroup (t : Terms) (groups : List Requirement) :
    (oneGroup t groups).allCourses = t.courses ++ groups.flatMap allCourses := by
  rw [allCourses, nodes, List.flatMap_cons, flatMap_nodesAll]
  rfl

theorem allCourses_bothLists (t : Terms) (parts : List Requirement) :
    (bothLists t parts).allCourses = t.courses ++ parts.flatMap allCourses := by
  rw [allCourses, nodes, List.flatMap_cons, flatMap_nodesAll]
  rfl

theorem courses_subset_allCourses (q : Requirement) : q.terms.courses ⊆ q.allCourses := by
  cases q with
  | pick how t => exact fun _ hc => List.mem_flatMap.mpr ⟨_, List.mem_singleton_self _, hc⟩
  | oneGroup t groups => exact allCourses_oneGroup t groups ▸ List.subset_append_left _ _
  | bothLists t parts => exact allCourses_bothLists t parts ▸ List.subset_append_left _ _

end Requirement

namespace CommunicationRule

/-- Whether an entry stands in one of the lists of a communication rule. -/
def ListsEntry (entry : Json) (fields : Fields) : Prop :=
  ∃ name below entries, (name, Json.object below) ∈ fields ∧ name ≠ "options" ∧
    Fields.get below "courses" = .list entries ∧ entry ∈ entries

end CommunicationRule

def Section.courses : Section → List Course
  | requirements _ items => items.flatMap Requirement.allCourses
  | communication rule => rule.lists.flatMap (·.courses)
  | breadth _ | depth _ => []

namespace RuleSet

/-- Whether an entry stands in a course list of a document: among the excluded courses, in a
requirement at any depth, or in a communication list. -/
inductive ListsEntry (entry : Json) (fields : Fields) : Prop
  | excluded {entries : List Json} :
      fields.get "excluded_courses" = .list entries → entry ∈ entries → ListsEntry entry fields
  | requirement {which : RequirementList} {items : List Json} {v : Json} :
      (which.key, .list items) ∈ fields → v ∈ items → Requirement.ListsEntry entry v →
        ListsEntry entry fields
  | communication {below : Fields} :
      (Section.communicationKey, .object below) ∈ fields →
        CommunicationRule.ListsEntry entry below → ListsEntry entry fields

def courses (rules : RuleSet) : List Course :=
  rules.excluded ++ rules.sections.flatMap Section.courses

end RuleSet

/-! ## What is read is there -/

/-- Whether the course of an entry is among courses, and has a code. -/
def Enters (entry : Json) (courses : List Course) : Prop :=
  ∃ c ∈ courses, Course.ofEntry? entry = some c ∧ c.code ≠ ""

theorem Enters.mono {entry : Json} {courses courses' : List Course} (h : Enters entry courses)
    (hsub : courses ⊆ courses') : Enters entry courses' :=
  h.imp fun _ hc => ⟨hsub hc.1, hc.2⟩

theorem Enters.flatMap {α : Type} {entry : Json} {f : α → List Course} {a : α} {xs : List α}
    (h : Enters entry (f a)) (ha : a ∈ xs) : Enters entry (xs.flatMap f) :=
  h.mono fun _ hc => List.mem_flatMap.mpr ⟨a, ha, hc⟩

theorem readCourse_enters (place : Text) (entry : Json) :
    Yields (readCourse place entry) fun c => Course.ofEntry? entry = some c ∧ c.code ≠ "" := by
  unfold readCourse
  split
  · exact yields_error _
  · next c hc =>
    split
    · exact yields_error _
    · next hne => exact yields_ok ⟨hc, hne⟩

theorem readCourse_ofFields (place : Text) (fields : Fields) :
    readCourse place (.object fields) =
      if fields.Codeless then .error (.malformed (.courseWithoutCode place))
      else .ok (Course.ofFields fields) :=
  if_congr Fields.code_ofFields_eq_nil_iff rfl rfl

section

variable {entry : Json} {fields document : Fields}

theorem readCourses_enters {place key : Text} {entries : List Json}
    (hfield : fields.get key = .list entries) (hentry : entry ∈ entries) :
    Yields (readCourses place key fields) (Enters entry) := by
  rw [readCourses, hfield]
  exact Yields.mapM_exists hentry (readCourse_enters place entry)

namespace Requirement

theorem readTerms_enters (place : Text) {entries : List Json}
    (hfield : fields.get "courses" = .list entries) (hentry : entry ∈ entries)
    (count : Option Int) (description : Option Text) :
    Yields (readTerms place fields count description) fun t => Enters entry t.courses :=
  (readCourses_enters hfield hentry).bind fun _ hcourses =>
    (yields_true _).bind fun _ _ => (yields_true _).bind fun _ _ =>
      (yields_true _).bind fun _ _ => (yields_true _).bind fun _ _ =>
        (yields_true _).bind fun _ _ => yields_ok hcourses

theorem readAll_enters {items : List Json} {v : Json} (hv : v ∈ items)
    (h : ∀ place, Yields (read place v) fun q => Enters entry q.allCourses) (place : Text)
    (index : Nat) :
    Yields (readAll place index items) fun qs => Enters entry (qs.flatMap allCourses) := by
  induction items generalizing index with
  | nil => cases hv
  | cons w rest ih =>
    rw [readAll]
    rcases List.mem_cons.mp hv with rfl | hv
    · exact (h _).bind fun q hq => (yields_true _).bind fun _ _ =>
        yields_ok (hq.flatMap List.mem_cons_self)
    · exact (yields_true _).bind fun _ _ => (ih hv _).bind fun qs hqs =>
        yields_ok (hqs.mono fun _ hc => List.mem_append_right _ hc)

theorem readBelow_eq {place key : Text} {lack : Malformed} {items : List Json}
    (hfield : fields.get? key = some (.list items)) (hne : items ≠ []) :
    readBelow place key lack fields = readAll (place ++ "." ++ key) 0 items := by
  induction fields with
  | nil => cases hfield
  | cons f rest ih =>
    obtain ⟨k, v⟩ := f
    rw [Fields.get?, List.lookup_cons] at hfield
    by_cases hk : k = key
    · rw [hk, beq_self_eq_true] at hfield
      obtain rfl := Option.some.inj hfield
      obtain ⟨w, ws, rfl⟩ := List.exists_cons_of_ne_nil hne
      rw [readBelow, if_pos hk]
      exact List.cons_ne_nil w ws
    · rw [beq_false_of_ne (Ne.symm hk)] at hfield
      rw [readBelow.eq_def]
      dsimp only
      rw [if_neg hk, ih hfield]

theorem readBelow_enters {place key : Text} {lack : Malformed} {items : List Json} {v : Json}
    (hfield : fields.get? key = some (.list items)) (hv : v ∈ items)
    (h : ∀ place, Yields (read place v) fun q => Enters entry q.allCourses) :
    Yields (readBelow place key lack fields) fun qs => Enters entry (qs.flatMap allCourses) := by
  rw [readBelow_eq hfield (List.ne_nil_of_mem hv)]
  exact readAll_enters hv h _ 0

theorem readKind_tag (place : Text) (kind : Kind) :
    Yields (readKind place (.text kind.tag)) (· = kind) := by
  cases kind with
  | pick how => cases how <;> exact yields_ok rfl
  | oneGroup => exact yields_ok rfl
  | bothLists => exact yields_ok rfl

/-- **At every depth**, what a requirement lists is among its courses. -/
theorem ListsEntry.read_enters {v : Json} (h : ListsEntry entry v) (place : Text) :
    Yields (read place v) fun q => Enters entry q.allCourses := by
  induction h generalizing place with
  | courses hfield hentry =>
    rw [read]
    refine (yields_true _).bind fun kind _ => (yields_true _).bind fun count _ =>
      (yields_true _).bind fun description _ => ?_
    have hterms := readTerms_enters place hfield hentry count description
    have hkept : ∀ q : Requirement, Enters entry q.terms.courses → Enters entry q.allCourses :=
      fun q hq => hq.mono (courses_subset_allCourses q)
    cases kind with
    | pick how => exact hterms.bind fun t ht => yields_ok (hkept (pick how t) ht)
    | oneGroup =>
      exact (yields_true _).bind fun groups _ => hterms.bind fun t ht =>
        yields_ok (hkept (oneGroup t groups) ht)
    | bothLists =>
      exact (yields_true _).bind fun parts _ => hterms.bind fun t ht =>
        yields_ok (hkept (bothLists t parts) ht)
  | group htype hfield hv _ ih =>
    rw [read, htype]
    refine (readKind_tag place .oneGroup).bind ?_
    rintro _ rfl
    exact (yields_true _).bind fun count _ => (yields_true _).bind fun description _ =>
      (readBelow_enters hfield hv ih).bind fun groups hgroups => (yields_true _).bind fun t _ =>
        yields_ok (allCourses_oneGroup t groups ▸ hgroups.mono (List.subset_append_right _ _))
  | part htype hfield hv _ ih =>
    rw [read, htype]
    refine (readKind_tag place .bothLists).bind ?_
    rintro _ rfl
    exact (yields_true _).bind fun count _ => (yields_true _).bind fun description _ =>
      (readBelow_enters hfield hv ih).bind fun parts hparts => (yields_true _).bind fun t _ =>
        yields_ok (allCourses_bothLists t parts ▸ hparts.mono (List.subset_append_right _ _))

end Requirement

namespace CommunicationRule

theorem ListsEntry.read_enters (h : ListsEntry entry fields) (place : Text) :
    Yields (read place (.object fields)) fun rule =>
      Enters entry (rule.lists.flatMap (·.courses)) := by
  obtain ⟨name, below, entries, hfield, hname, hcourses, hentry⟩ := h
  have hlist : Yields (readList place name (.object below)) fun l => Enters entry l.courses :=
    (readCourses_enters hcourses hentry).bind fun _ hc => yields_ok hc
  have hnamed : (name, Json.object below) ∈
      fields.filter fun (f : Text × Json) => f.1 != "options" :=
    List.mem_filter.mpr ⟨hfield, bne_iff_ne.mpr hname⟩
  refine (Yields.mapM_exists hnamed hlist).bind fun lists ⟨l, hl, hc⟩ => ?_
  split
  · exact (yields_true _).bind fun _ _ => yields_ok (hc.flatMap (f := (·.courses)) hl)
  · exact yields_error _

end CommunicationRule

namespace RuleSet

/-- **What a document lists is in its rules.** If rules are read from a document, an entry of one of
its course lists is a course with a code in them. -/
theorem ListsEntry.read_enters (h : ListsEntry entry fields) (major : Text) :
    Yields (read major (.object fields)) fun rules => Enters entry rules.courses := by
  have hsection : ∀ {key v}, (key, v) ∈ fields →
      (Yields (readSection major key v) fun s? => ∃ s, s? = some s ∧ Enters entry s.courses) →
      Yields (read major (.object fields)) fun rules => Enters entry rules.courses := by
    intro key v hfield hread
    refine (yields_true _).bind fun excluded _ =>
      (Yields.mapM_exists hfield hread).bind fun found hfound => yields_ok ?_
    obtain ⟨_, hs?, s, rfl, hs⟩ := hfound
    have hmem : s ∈ found.filterMap id := List.mem_filterMap.mpr ⟨some s, hs?, rfl⟩
    exact (hs.flatMap (f := Section.courses) hmem).mono (List.subset_append_right _ _)
  cases h with
  | excluded hfield hentry =>
    exact (readCourses_enters hfield hentry).bind fun excluded hexcluded =>
      (yields_true _).bind fun _ _ =>
        yields_ok (hexcluded.mono (List.subset_append_left _ _))
  | @requirement which items v hfield hv hlists =>
    refine hsection hfield ?_
    rw [readSection, ofKey?_eq_some_iff.mpr rfl]
    exact (Requirement.readAll_enters hv hlists.read_enters _ 0).bind fun qs hqs =>
      yields_ok ⟨_, rfl, hqs⟩
  | communication hfield hlists =>
    refine hsection hfield ?_
    have hnone : RequirementList.ofKey? Section.communicationKey = none := by decide
    rw [readSection, hnone]
    exact (hlists.read_enters _).bind fun rule hrule => yields_ok ⟨_, rfl, hrule⟩

end RuleSet

/-! ## The catalog and the rules -/

namespace Catalog

theorem ofRecord_refuses {infinite compound : Prop} (record : Json) :
    Refuses infinite compound (ofRecord record) := by
  unfold ofRecord
  split
  · split
    · exact refuses_ok _
    · exact refuses_malformed _
  · exact refuses_malformed _

/-- A list of records is refused if it has an object whose code counts as absent. -/
theorem ofJson_refused {records : List Json} (hmem : .object fields ∈ records)
    (hcode : (fields.get "code").truthy = false) :
    ∃ why, ofJson (.list records) = .error (.malformed why) := by
  have hrecord : Yields (ofRecord (.object fields)) fun _ => False := by
    rw [ofRecord, hcode]
    exact yields_error _
  have hno : Yields (ofJson (.list records)) fun _ => False :=
    (Yields.mapM_exists hmem hrecord).bind fun _ hfound => by
      obtain ⟨_, -, hfalse⟩ := hfound
      exact hfalse.elim
  have hrefuses : Refuses False False (ofJson (.list records)) :=
    (Refuses.mapM fun record _ => ofRecord_refuses record).bind fun _ _ => refuses_ok _
  rcases hrefuses.cases with (⟨catalog, hok⟩ | hrefused) | ⟨-, hfalse⟩ | ⟨-, hfalse⟩
  · exact (hno catalog hok).elim
  · exact hrefused
  · exact hfalse.elim
  · exact hfalse.elim

theorem ofJson_singleton (hcode : (fields.get "code").truthy = true) :
    ofJson (.list [.object fields]) = .ok (ofCourses [Course.ofFields fields]) := by
  have hrecord : ofRecord (.object fields) = .ok (Course.ofFields fields) := if_pos hcode
  rw [ofJson, List.mapM_cons, hrecord]
  rfl

end Catalog

/-- A document that lists an object is refused, or stops the reader, or the object is a course in
its rules. -/
theorem RuleSet.ListsEntry.read_cases (h : ListsEntry (.object fields) document) (major : Text) :
    (∃ rules, read major (.object document) = .ok rules ∧ ¬fields.Codeless ∧
      Course.ofFields fields ∈ rules.courses) ∨
    (∃ why, read major (.object document) = .error (.malformed why)) ∨
    read major (.object document) = .error .infiniteNumber ∧
      (Json.object document).HasInfiniteCount ∨
    read major (.object document) = .error .wrongKind ∧
      (Json.object document).HasCompoundName := by
  rcases (read_refuses major (.object document)).cases with (⟨rules, hok⟩ | hrefused) | hstopped
  · obtain ⟨c, hc, hentry, hcode⟩ := h.read_enters major rules hok
    obtain rfl := Option.some.inj hentry
    exact .inl ⟨rules, hok, mt Fields.code_ofFields_eq_nil_iff.mpr hcode, hc⟩
  · exact .inr (.inl hrefused)
  · exact .inr (.inr hstopped)

theorem RuleSet.read_excluded (hcode : ¬fields.Codeless) (major : Text) :
    read major (.object [("excluded_courses", .list [.object fields])]) =
      .ok ⟨major, [Course.ofFields fields], []⟩ := by
  have hcourses : readCourses major "excluded_courses"
      [("excluded_courses", .list [.object fields])] = .ok [Course.ofFields fields] := by
    have hentry : readCourse major (.object fields) = .ok (Course.ofFields fields) := by
      rw [readCourse_ofFields, if_neg hcode]
    show List.mapM (readCourse major) [.object fields] = _
    rw [List.mapM_cons, hentry]
    rfl
  rw [read, hcourses]
  rfl

/-- **An object without a code is no course**, neither in the catalog nor in the rules, unless its
code is void. The catalog refuses every list with an object whose code counts as absent, and of the
others it takes the course. The rules refuse the entry exactly if it has no code or a blank one, and
whatever document lists it, in whatever course list, is refused, or stops the reader for another
reason, or has the course of the entry in its rules. So a refusal by the catalog means that no
document with the entry is read, except for the void codes, whose courses have the codes of
`Fields.voidTexts`. -/
theorem entries_without_code (fields : Fields) :
    (∀ records, .object fields ∈ records → (fields.get "code").truthy = false →
      ∃ why, Catalog.ofJson (.list records) = .error (.malformed why)) ∧
    ((fields.get "code").truthy = true →
      Catalog.ofJson (.list [.object fields]) = .ok (.ofCourses [Course.ofFields fields])) ∧
    (∀ place, readCourse place (.object fields) =
      if fields.Codeless then .error (.malformed (.courseWithoutCode place))
      else .ok (Course.ofFields fields)) ∧
    (∀ major document, RuleSet.ListsEntry (.object fields) document →
      (∃ rules, RuleSet.read major (.object document) = .ok rules ∧ ¬fields.Codeless ∧
        Course.ofFields fields ∈ rules.courses) ∨
      (∃ why, RuleSet.read major (.object document) = .error (.malformed why)) ∨
      RuleSet.read major (.object document) = .error .infiniteNumber ∧
        (Json.object document).HasInfiniteCount ∨
      RuleSet.read major (.object document) = .error .wrongKind ∧
        (Json.object document).HasCompoundName) ∧
    (((∃ why, Catalog.ofJson (.list [.object fields]) = .error (.malformed why)) →
      ∀ major document, RuleSet.ListsEntry (.object fields) document →
        ∀ rules, RuleSet.read major (.object document) ≠ .ok rules) ↔ ¬fields.HasVoidCode) ∧
    (fields.HasVoidCode → (Course.ofFields fields).code ∈ Fields.voidTexts) := by
  refine ⟨fun _ => Catalog.ofJson_refused, Catalog.ofJson_singleton,
    fun place => readCourse_ofFields place fields, fun major _ h => h.read_cases major, ?_,
    Fields.code_ofFields_mem_voidTexts⟩
  constructor
  · intro hagree hvoid
    obtain ⟨hfalsy, hcode⟩ := Fields.hasVoidCode_iff.mp hvoid
    have hrefused := Catalog.ofJson_refused (List.mem_singleton_self (Json.object fields)) hfalsy
    exact hagree hrefused "" _ (.excluded rfl (List.mem_singleton_self _)) _
      (RuleSet.read_excluded hcode "")
  · rintro hno ⟨why, hrefused⟩ major document hlists rules hok
    have hfalsy : (fields.get "code").truthy = false := by
      rw [Bool.eq_false_iff]
      intro htruthy
      rw [Catalog.ofJson_singleton htruthy] at hrefused
      cases hrefused
    rcases hlists.read_cases major with ⟨_, -, hcode, -⟩ | ⟨_, hread⟩ | ⟨hread, -⟩ | ⟨hread, -⟩
    · exact hno (Fields.hasVoidCode_iff.mpr ⟨hfalsy, hcode⟩)
    all_goals rw [hok] at hread; cases hread

end

/-- A document with an entry in a group of a requirement. -/
def grouped (entry : Json) : Fields :=
  [("required_courses", .list [.object [("type", .text "one_group_required"), ("groups", .list
    [.object [("type", .text "all_required"), ("courses", .list [entry])]])]])]

theorem listsEntry_grouped (entry : Json) : RuleSet.ListsEntry entry (grouped entry) :=
  @RuleSet.ListsEntry.requirement entry (grouped entry) .required _ _ List.mem_cons_self
    List.mem_cons_self (.group rfl rfl List.mem_cons_self (.courses rfl List.mem_cons_self))

def titleOnly : Fields := [("title", .text "Calculus")]

theorem entries_without_code_title :
    (∃ why, Catalog.ofJson (.list [.object titleOnly]) = .error (.malformed why)) ∧
      RuleSet.ListsEntry (.object titleOnly) (grouped (.object titleOnly)) ∧
      ∀ rules, RuleSet.read "m" (.object (grouped (.object titleOnly))) ≠ .ok rules := by
  obtain ⟨hcatalog, -, -, -, hagree, -⟩ := entries_without_code titleOnly
  have hrefused := hcatalog [.object titleOnly] List.mem_cons_self rfl
  have hno : ¬titleOnly.HasVoidCode := by
    rintro ⟨v, hv, -⟩
    cases hv
  exact ⟨hrefused, listsEntry_grouped _, hagree.mpr hno hrefused "m" _ (listsEntry_grouped _)⟩

/-- A void code that the catalog refuses is that of a course in the rules. -/
theorem void_code_becomes_course :
    (∃ why, Catalog.ofJson (.list [.object [("code", .null)]]) = .error (.malformed why)) ∧
    RuleSet.ListsEntry (.object [("code", .null)]) (grouped (.object [("code", .null)])) ∧
    (∃ rules, RuleSet.read "m" (.object (grouped (.object [("code", .null)]))) = .ok rules ∧
      rules.courses = [Course.untitled "None"]) ∧
    ¬∀ fields major document,
      (∃ why, Catalog.ofJson (.list [.object fields]) = .error (.malformed why)) →
      RuleSet.ListsEntry (.object fields) document →
        ∃ why, RuleSet.read major (.object document) = .error (.malformed why) := by
  have hrefused : ∃ why, Catalog.ofJson (.list [.object [("code", .null)]]) =
      .error (.malformed why) := ⟨_, rfl⟩
  refine ⟨hrefused, listsEntry_grouped _, ⟨_, rfl, rfl⟩, fun hall => ?_⟩
  obtain ⟨why, h⟩ := hall _ "m" _ hrefused (listsEntry_grouped _)
  cases h

end DegreeAudit
