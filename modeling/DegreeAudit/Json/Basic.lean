import DegreeAudit.Number.Binary64
import DegreeAudit.Text.Basic

/-!
# JSON values

Objects are lists of fields in document order. A document never gives one key two fields: a later
field with the same key replaces the value and keeps the place (`Json.put`).
-/

namespace DegreeAudit

/-- A JSON value. Whole numbers are exact; other numbers are in binary floating point. -/
inductive Json where
  | null
  | bool (b : Bool)
  | int (n : Int)
  | float (x : Binary64)
  | text (s : Text)
  | list (items : List Json)
  | object (fields : List (Text × Json))
deriving Inhabited

/-- The fields of a JSON object, in document order. -/
abbrev Fields := List (Text × Json)

namespace Fields

/-- The value of the first field with a key. -/
def get? (fields : Fields) (key : Text) : Option Json := fields.lookup key

/-- The value of the first field with a key, `null` if there is none. -/
def get (fields : Fields) (key : Text) : Json := (fields.get? key).getD .null

/-- Whether there is a field with a key. -/
def has (fields : Fields) (key : Text) : Bool := (fields.get? key).isSome

/-- Sets the value of a key, in the place of the field that has it or as a new last field. -/
def put (fields : Fields) (key : Text) (value : Json) : Fields :=
  match fields with
  | [] => [(key, value)]
  | (k, v) :: rest => if k = key then (k, value) :: rest else (k, v) :: put rest key value

/-- The keys in document order. -/
def keys (fields : Fields) : List Text := fields.map Prod.fst

@[simp] theorem keys_cons (k : Text) (v : Json) (rest : Fields) :
    keys ((k, v) :: rest) = k :: keys rest := rfl

theorem mem_keys_put {fields : Fields} {key k : Text} {value : Json} :
    k ∈ (fields.put key value).keys ↔ k = key ∨ k ∈ fields.keys := by
  induction fields with
  | nil => simp [put, keys]
  | cons f rest ih =>
    obtain ⟨k', v'⟩ := f
    unfold put
    split
    · subst_vars; simp
    · simp only [keys_cons, List.mem_cons, ih]
      exact ⟨fun h => by rcases h with h | h | h <;> simp [h],
        fun h => by rcases h with h | h | h <;> simp [h]⟩

/-- Setting a field keeps the keys distinct. -/
theorem nodup_put {fields : Fields} (h : fields.keys.Nodup) (key : Text) (value : Json) :
    (fields.put key value).keys.Nodup := by
  induction fields with
  | nil => simp [put, keys]
  | cons f rest ih =>
    obtain ⟨k, v⟩ := f
    simp only [keys_cons, List.nodup_cons] at h
    unfold put
    split
    · simpa using h
    · next hne =>
      simp only [keys_cons, List.nodup_cons]
      refine ⟨fun hmem => ?_, ih h.2⟩
      rcases mem_keys_put.mp hmem with hk | hk
      · exact hne hk
      · exact h.1 hk

end Fields

namespace Json

/-- Whether a value counts as present: everything but null, false, zeros and empty values. -/
def truthy : Json → Bool
  | null => false
  | bool b => b
  | int n => n != 0
  | float x => !x.isZero
  | text s => s != ""
  | list items => !items.isEmpty
  | object fields => !fields.isEmpty

/-- The value if it counts as present, and another value otherwise. -/
def orElse (v other : Json) : Json := if v.truthy then v else other

/-- The name of the kind of a value, as messages give it. -/
def kindName : Json → Text
  | null => "NoneType"
  | bool _ => "bool"
  | int _ => "int"
  | float _ => "float"
  | text _ => "str"
  | list _ => "list"
  | object _ => "dict"

/-- The text, if the value is one. -/
def text? : Json → Option Text
  | text s => some s
  | _ => none

/-- The texts of a list of texts. -/
def texts? : Json → Option (List Text)
  | list items => items.mapM text?
  | _ => none

/-- A list of texts as a value. -/
def ofTexts (xs : List Text) : Json := list (xs.map text)

mutual

/-- Whether two values are the same. -/
def same : Json → Json → Bool
  | null, null => true
  | bool a, bool b => a == b
  | int m, int n => m == n
  | float x, float y => x == y
  | text s, text t => s == t
  | list vs, list ws => sameItems vs ws
  | object fs, object gs => sameFields fs gs
  | _, _ => false

/-- Whether two lists of values are the same. -/
def sameItems : List Json → List Json → Bool
  | [], [] => true
  | v :: vs, w :: ws => same v w && sameItems vs ws
  | _, _ => false

/-- Whether two lists of fields are the same. -/
def sameFields : List (Text × Json) → List (Text × Json) → Bool
  | [], [] => true
  | (k, v) :: fs, (l, w) :: gs => k == l && (same v w && sameFields fs gs)
  | _, _ => false

end

mutual

theorem same_iff : ∀ v w : Json, same v w = true ↔ v = w
  | null, w | bool _, w | int _, w | float _, w | text _, w => by cases w <;> simp [same]
  | list vs, w => by cases w <;> simp [same, sameItems_iff]
  | object fs, w => by cases w <;> simp [same, sameFields_iff]

theorem sameItems_iff : ∀ vs ws : List Json, sameItems vs ws = true ↔ vs = ws
  | [], ws => by cases ws <;> simp [sameItems]
  | v :: vs, ws => by cases ws <;> simp [sameItems, same_iff, sameItems_iff vs]

theorem sameFields_iff : ∀ fs gs : List (Text × Json), sameFields fs gs = true ↔ fs = gs
  | [], gs => by cases gs <;> simp [sameFields]
  | (k, v) :: fs, gs => by
    cases gs <;> simp [sameFields, same_iff, sameFields_iff fs, Prod.ext_iff, and_assoc]

end

instance : DecidableEq Json := fun v w => decidable_of_iff _ (same_iff v w)

end Json

end DegreeAudit
