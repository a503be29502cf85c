import DegreeAudit.Intake.Offerings
import DegreeAudit.Proofs.FixedForm
import DegreeAudit.Proofs.Lookup
import DegreeAudit.Proofs.ReadBack
import DegreeAudit.Proofs.WellFormed

/-!
# The catalog of a table of offerings

A table of offerings is converted to a catalog document, and a catalog is read from documents. The
two meet in the document only.

**The table.** Whatever stands in a field stands in the table (`Table.within_run`), so a table of
characters gives offerings without surrogates. Their codes and titles are trimmed and not empty
(`Offerings.Sound`).

**The document.** It holds nothing but lists, objects and texts of characters, so it is read back
(`Json.Plain.readsBack`), and no record in it is refused (`Offerings.ofJson_toJson`).

**The catalog.** It has the first offering of each key, in the order of the rows, under any spelling
of its code (`Catalog.keys_ofCourses`, `Catalog.find?_ofCourses_of_allKeyed`).
-/

namespace DegreeAudit

/-! ## Tables -/

namespace Table

/-- Whether everything that was read has no surrogates. -/
structure Reading.IsPlain (s : Reading) : Prop where
  rows : ∀ row ∈ s.rows, ∀ field ∈ row, Text.IsPlain field
  fields : ∀ field ∈ s.fields, Text.IsPlain field
  field : s.field.IsPlain

namespace Reading

variable {s : Reading} {c : CodePoint}

theorem isPlain_start : start.IsPlain where
  rows _ h := absurd h List.not_mem_nil
  fields _ h := absurd h List.not_mem_nil
  field _ h := absurd h List.not_mem_nil

theorem IsPlain.endField (h : s.IsPlain) : s.endField.IsPlain where
  rows := h.rows
  fields := List.forall_mem_cons.mpr ⟨fun p hp => h.field p (List.mem_reverse.mp hp), h.fields⟩
  field _ hp := absurd hp List.not_mem_nil

theorem IsPlain.endRow (h : s.IsPlain) : s.endRow.IsPlain where
  rows := List.forall_mem_cons.mpr ⟨fun f hf => h.fields f (List.mem_reverse.mp hf), h.rows⟩
  fields _ hf := absurd hf List.not_mem_nil
  field := h.field

theorem IsPlain.take (h : s.IsPlain) (hc : c.isSurrogate = false) (spot : Spot) :
    (s.take c spot).IsPlain where
  rows := h.rows
  fields := h.fields
  field := List.forall_mem_cons.mpr ⟨hc, h.field⟩

/-- The place in a row says nothing of what was read. -/
theorem IsPlain.moved (h : s.IsPlain) (spot : Spot) (returned : Bool) :
    IsPlain { s with spot, returned } := ⟨h.rows, h.fields, h.field⟩

theorem IsPlain.stepPlain (h : s.IsPlain) (hc : c.isSurrogate = false) :
    (s.stepPlain c).IsPlain := by
  unfold Reading.stepPlain
  split
  · dsimp only
    split
    · exact h.endRow.moved _ _
    · exact h.endField.endRow.moved _ _
  · split
    · exact h.endField
    · split
      · exact h.moved _ _
      · exact h.take hc _

/-- **One character.** It is all that a step adds to what was read. -/
theorem IsPlain.step (h : s.IsPlain) (hc : c.isSurrogate = false) : (s.step c).IsPlain := by
  unfold Reading.step
  split
  · exact h.moved _ _
  · dsimp only
    split
    · split
      · exact h.moved _ _
      · exact (h.moved _ _).take hc _
    · split
      · exact (h.moved _ _).take hc _
      · exact (h.moved _ _).stepPlain hc
    · exact (h.moved _ _).stepPlain hc

theorem IsPlain.finish (h : s.IsPlain) :
    ∀ row ∈ s.finish, ∀ field ∈ row, Text.IsPlain field := by
  intro row hrow
  rw [Reading.finish, List.mem_reverse] at hrow
  split at hrow
  · exact h.rows row hrow
  · exact h.endField.endRow.rows row hrow

end Reading

/-- **A whole table.** Its fields have no surrogates if it has none. -/
theorem isPlain_rows {table : Text} (h : table.IsPlain) :
    ∀ row ∈ rows table, ∀ field ∈ row, Text.IsPlain field := by
  have hrun : ∀ s : Reading, s.IsPlain → (table.foldl Reading.step s).IsPlain := by
    induction table with
    | nil => exact fun _ => id
    | cons c rest ih =>
      obtain ⟨hc, hrest⟩ := List.forall_mem_cons.mp h
      exact fun s hs => ih hrest _ (hs.step hc)
  exact (hrun Reading.start Reading.isPlain_start).finish

theorem isPlain_value {column : Text} {header row : List Text}
    (h : ∀ field ∈ row, Text.IsPlain field) : (value column (record header row)).IsPlain := by
  unfold value
  cases hlookup : (record header row).reverse.lookup column with
  | none => exact fun _ hp => absurd hp List.not_mem_nil
  | some v =>
    cases v with
    | none => exact fun _ hp => absurd hp List.not_mem_nil
    | some field =>
      obtain ⟨before, after, hsplit, -⟩ := List.lookup_eq_some_iff.mp hlookup
      have hmem : (column, some field) ∈ record header row := by
        rw [← List.mem_reverse, hsplit]
        exact List.mem_append_right _ List.mem_cons_self
      obtain ⟨⟨name, i⟩, -, heq⟩ := List.mem_map.mp hmem
      exact h field (List.mem_of_getElem? (Prod.mk.inj heq).2)

end Table

/-! ## Offerings -/

namespace Offerings

/-- What an offering promises: a code and a title that are trimmed, not empty and without
surrogates. -/
structure Sound (o : Text × Text) : Prop where
  code : Text.trim o.1 = o.1 ∧ o.1 ≠ ""
  title : o.2 ≠ ""
  plain : Text.IsPlain o.1 ∧ Text.IsPlain o.2

theorem column_spec (first second : Text) (header : List Text) {row : List Text}
    (h : ∀ field ∈ row, Text.IsPlain field) :
    Text.trim (column first second (Table.record header row)) =
        column first second (Table.record header row) ∧
      (column first second (Table.record header row)).IsPlain := by
  unfold column
  refine ⟨Text.trim_trim _, fun p hp => ?_⟩
  have hmem := Text.trim_subset _ hp
  split at hmem
  · exact Table.isPlain_value h p hmem
  · exact Table.isPlain_value h p hmem

/-- **Offerings are sound** if the table has no surrogates. -/
theorem sound_of_mem_read {table : Text} (h : table.IsPlain) : ∀ o ∈ read table, Sound o := by
  intro o ho
  obtain ⟨fields, hfields, hrecord⟩ := List.mem_filterMap.mp ho
  have hrows := Table.isPlain_rows h
  unfold Table.records at hfields
  split at hfields
  · exact absurd hfields List.not_mem_nil
  · next header rest hsplit =>
    obtain ⟨row, hrow, rfl⟩ := List.mem_map.mp hfields
    have hplain : ∀ field ∈ row, Text.IsPlain field :=
      hrows row (hsplit ▸ List.mem_cons_of_mem _ (List.mem_filter.mp hrow).1)
    unfold ofRecord? at hrecord
    dsimp only at hrecord
    split at hrecord
    · cases hrecord
    · next hpresent =>
      rw [Bool.not_eq_true, Bool.or_eq_false_iff, decide_eq_false_iff_not,
        decide_eq_false_iff_not] at hpresent
      obtain rfl := Option.some.inj hrecord
      have hcode := column_spec "code" "Course code" header hplain
      have htitle := column_spec "title" "Course title" header hplain
      exact ⟨⟨hcode.1, hpresent.1⟩, hpresent.2, hcode.2, htitle.2⟩

def toCourse (o : Text × Text) : Course := ⟨o.1, .text o.2⟩

theorem plain_toJson {offerings : List (Text × Text)} (h : ∀ o ∈ offerings, Sound o) :
    (toJson offerings).Plain 2 := by
  refine .list fun v hv => ?_
  obtain ⟨o, ho, rfl⟩ := List.mem_map.mp hv
  have hkeys : Fields.keys [("code", .text o.1), ("title", .text o.2)] =
      (["code", "title"] : List Text) := rfl
  refine .object (hkeys ▸ by decide) ?_ ?_
  · simp only [List.forall_mem_cons]
    exact ⟨Text.isPlain_ofString _, Text.isPlain_ofString _, nofun⟩
  · simp only [List.forall_mem_cons]
    exact ⟨.text (h o ho).plain.1, .text (h o ho).plain.2, nofun⟩

theorem ofRecord_toRecord {o : Text × Text} (h : Sound o) :
    Catalog.ofRecord (toRecord o) = .ok (toCourse o) := by
  have hcode : (Fields.get [("code", .text o.1), ("title", .text o.2)] "code") = .text o.1 := rfl
  have htitle : (Fields.get [("code", .text o.1), ("title", .text o.2)] "title") = .text o.2 := rfl
  have htruthy : ∀ {s : Text}, s ≠ "" → (Json.text s).truthy = true := fun hne => by
    simpa [Json.truthy] using hne
  rw [toRecord, Catalog.ofRecord, hcode, if_pos (htruthy h.code.2), Course.ofFields, htitle,
    Json.orElse, if_pos (htruthy h.title)]
  show Except.ok (⟨Text.trim o.1, .text o.2⟩ : Course) = _
  rw [h.code.1, toCourse]

/-- **No record is refused.** -/
theorem ofJson_toJson {offerings : List (Text × Text)} (h : ∀ o ∈ offerings, Sound o) :
    Catalog.ofJson (toJson offerings) = .ok (.ofCourses (offerings.map toCourse)) := by
  have hrecords : (offerings.map toRecord).mapM Catalog.ofRecord =
      .ok (offerings.map toCourse) := by
    induction offerings with
    | nil => rfl
    | cons o rest ih =>
      rw [List.forall_mem_cons] at h
      rw [List.map_cons, List.mapM_cons, ofRecord_toRecord h.1, ih h.2]
      rfl
  rw [toJson, Catalog.ofJson, hrecords]
  rfl

end Offerings

/-! ## Catalogs -/

namespace Catalog

theorem keys_ofCourses {courses : List Course} (h : AllKeyed courses) :
    (ofCourses courses).courses.map Course.key = (courses.map Course.key).eraseDups := by
  have hall : (courses.map Course.key).filter (fun k => k ∉ ([""] : List Key)) =
      courses.map Course.key := by
    rw [List.filter_eq_self]
    intro k hk
    obtain ⟨c, hc, rfl⟩ := List.mem_map.mp hk
    simpa using h c hc
  rw [ofCourses, Course.map_key_dedupe, hall]

theorem find?_ofCourses_of_allKeyed {courses : List Course} (h : AllKeyed courses) (code : Text) :
    (ofCourses courses).find? code = courses.find? fun c => c.key == Code.key code := by
  rw [find?_ofCourses]
  split
  · next hempty =>
    exact (List.find?_eq_none.mpr fun c hc hbeq => h c hc ((eq_of_beq hbeq).trans hempty)).symm
  · rfl

theorem requireAll_eq_ok {catalog : Catalog} {codes : List Text}
    (h : ∀ code ∈ codes, (catalog.find? code).isSome = true) :
    catalog.requireAll codes = .ok () := by
  have hnone : catalog.unknown codes = [] := by
    rw [unknown, List.filter_eq_nil_iff]
    intro code hcode
    simp [has, h code hcode]
  rw [requireAll, hnone]

end Catalog

/-! ## From the table to the catalog -/

namespace Offerings

theorem key_ne {o : Text × Text} (h : Sound o) : (toCourse o).key ≠ "" := by
  intro hkey
  refine h.code.2 ?_
  rw [← h.code.1]
  refine Code.key_trim_eq_nil_iff.mp ?_
  rw [h.code.1]
  exact hkey

/-- **A table of offerings feeds the catalog.** What a conversion writes is a list of objects, and
it is read back as a catalog wherever it stands, if a document may hold objects in a list. The
catalog has the keys of the offerings, each once and in the order of their first rows; the course of
a code in any spelling is that of the first offering with its key; the offering of every row is
found; and no code of an offering is unknown. -/
theorem offerings_feed_catalog (input output : Path) (table : String) (outcome : Outcome)
    (h : run input output (some (Text.ofString table)) = .ok outcome) :
    ∃ document catalog, outcome.document = some document ∧
      (∀ limit p, 2 ≤ limit →
        (Folder.readBytes limit p document.toUTF8 >>= Catalog.ofJson) = .ok catalog) ∧
      (∀ r : Registry, 2 ≤ r.folder.maxDepth →
        r.folder.look r.catalogPath = .file document.toUTF8 → r.readCatalog = .ok catalog) ∧
      catalog.courses.map Course.key =
        ((read (Text.ofString table)).map fun o => Code.key o.1).eraseDups ∧
      (∀ code, catalog.find? code = ((read (Text.ofString table)).find? fun o =>
        Code.key o.1 == Code.key code).map toCourse) ∧
      (∀ fields ∈ Table.records (Text.ofString table), ∀ o, ofRecord? fields = some o →
        ∀ code, Code.key code = Code.key o.1 → (catalog.find? code).isSome = true) ∧
      catalog.requireAll ((read (Text.ofString table)).map Prod.fst) = .ok () := by
  have hsound := sound_of_mem_read (Text.isPlain_ofString table)
  have hkeyed : AllKeyed ((read (Text.ofString table)).map toCourse) := by
    intro c hc
    obtain ⟨o, ho, rfl⟩ := List.mem_map.mp hc
    exact key_ne (hsound o ho)
  have hread : ∀ limit p, 2 ≤ limit →
      (Folder.readBytes limit p (convert (Text.ofString table)).toUTF8 >>= Catalog.ofJson) =
        .ok (.ofCourses ((read (Text.ofString table)).map toCourse)) := by
    intro limit p hlimit
    rw [convert, (plain_toJson hsound).readsBack hlimit p]
    exact ofJson_toJson hsound
  have hfind : ∀ code, (Catalog.ofCourses ((read (Text.ofString table)).map toCourse)).find? code =
      ((read (Text.ofString table)).find? fun o => Code.key o.1 == Code.key code).map toCourse := by
    intro code
    rw [Catalog.find?_ofCourses_of_allKeyed hkeyed, List.find?_map]
    rfl
  have hfound : ∀ o ∈ read (Text.ofString table), ∀ code, Code.key code = Code.key o.1 →
      ((Catalog.ofCourses ((read (Text.ofString table)).map toCourse)).find? code).isSome =
        true := by
    intro o ho code hkey
    rw [hfind, Option.isSome_map, List.find?_isSome]
    exact ⟨o, ho, by rw [hkey]; exact beq_self_eq_true _⟩
  unfold run at h
  dsimp only at h
  split at h
  · cases h
  · obtain rfl := Except.ok.inj h
    refine ⟨_, _, rfl, hread, fun r hlimit hlook => ?_, ?_, hfind,
      fun fields hfields o ho => ?_, ?_⟩
    · rw [Registry.readCatalog, Folder.read, hlook]
      exact hread _ r.catalogPath hlimit
    · rw [Catalog.keys_ofCourses hkeyed, List.map_map]
      rfl
    · exact hfound o (List.mem_filterMap.mpr ⟨fields, hfields, ho⟩)
    · refine Catalog.requireAll_eq_ok fun code hcode => ?_
      obtain ⟨o, ho, rfl⟩ := List.mem_map.mp hcode
      exact hfound o ho o.1 rfl

/-- A table with a code in two spellings, a row without a code and a quoted title. -/
def repeatedTable : String :=
  "code,title\nmath 135,Algebra\r\nMATH135,Again\n,Nothing\nCS 135,\"Functional \"\"Design\"\"\"\n"

theorem offerings_feed_catalog_repeated :
    ∃ outcome document catalog,
      run ⟨0, ["in.csv"]⟩ ⟨0, ["courses.json"]⟩ (some (Text.ofString repeatedTable)) =
        .ok outcome ∧
      outcome.document = some document ∧
      (∀ p, (Folder.readBytes 900 p document.toUTF8 >>= Catalog.ofJson) = .ok catalog) ∧
      catalog.courses.map Course.key = (["MATH135", "CS135"] : List Key) ∧
      catalog.find? "Math  135" = some ⟨"math 135", .text "Algebra"⟩ := by
  have hshort : ¬Table.isOverlong (Text.ofString repeatedTable) = true := by decide +kernel
  have hrun : ∃ outcome, run ⟨0, ["in.csv"]⟩ ⟨0, ["courses.json"]⟩
      (some (Text.ofString repeatedTable)) = .ok outcome := by
    unfold run
    dsimp only
    rw [if_neg hshort]
    exact ⟨_, rfl⟩
  obtain ⟨outcome, hrun⟩ := hrun
  obtain ⟨document, catalog, hdocument, hread, -, hkeys, hfind, -, -⟩ :=
    offerings_feed_catalog _ _ _ _ hrun
  have hfirst : (read (Text.ofString repeatedTable)).find?
      (fun o => Code.key o.1 == Code.key "Math  135") =
        some (("math 135" : Text), ("Algebra" : Text)) := by
    decide +kernel
  refine ⟨outcome, document, catalog, hrun, hdocument, fun p => hread 900 p (by decide), ?_, ?_⟩
  · rw [hkeys]
    decide +kernel
  · rw [hfind, hfirst]
    rfl

end Offerings

end DegreeAudit
