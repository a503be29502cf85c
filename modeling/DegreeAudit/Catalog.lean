import DegreeAudit.Course.Basic

/-!
# The course catalog

The catalog keeps the order of its document and the first course of each key. Codes are looked up
in any spelling.
-/

namespace DegreeAudit

/-- The courses on offer, in document order. -/
structure Catalog where
  courses : List Course
  /-- No two courses have the same key. -/
  nodup : (courses.map Course.key).Nodup
  /-- Every course can be looked up. -/
  keyed : ∀ c ∈ courses, c.key ≠ ""

namespace Catalog

/-- The catalog of a list of courses. A course without a key cannot be looked up and is left out. -/
def ofCourses (courses : List Course) : Catalog where
  courses := Course.dedupe [""] courses
  nodup := Course.nodup_key_dedupe [""] courses
  keyed _ h hkey := Course.not_mem_excluded_of_mem_dedupe h (by simp [hkey])

/-- The course of one record. -/
def ofRecord : Json → Except Fault Course
  | .object fields =>
    if (Fields.get fields "code").truthy then .ok (Course.ofFields fields)
    else .error (.malformed (.catalogEntry (.object fields)))
  | entry => .error (.malformed (.catalogEntry entry))

/-- The catalog of a document: a list of records with a code and a title. -/
def ofJson : Json → Except Fault Catalog
  | .list records => do return ofCourses (← records.mapM ofRecord)
  | _ => .error (.malformed .catalogNotList)

/-- The course of a code. -/
def find? (catalog : Catalog) (code : Text) : Option Course :=
  catalog.courses.find? fun c => c.key == Code.key code

/-- Whether the catalog has a course of a code. -/
def has (catalog : Catalog) (code : Text) : Bool := (catalog.find? code).isSome

/-- The codes without a course, as given and in order. -/
def unknown (catalog : Catalog) (codes : List Text) : List Text :=
  codes.filter fun code => !catalog.has code

/-- Faults if some codes have no course. -/
def requireAll (catalog : Catalog) (codes : List Text) : Except Fault Unit :=
  match catalog.unknown codes with
  | [] => .ok ()
  | missing => .error (.unknownCourses missing)

/-- The course of a code, without a title if the catalog does not list it. -/
def courseFor (catalog : Catalog) (code : Text) : Course :=
  (catalog.find? code).getD (Course.untitled (Text.trim (Text.upper code)))

end Catalog

end DegreeAudit
