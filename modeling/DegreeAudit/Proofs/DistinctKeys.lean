import DegreeAudit.Folder.Basic

/-!
# Objects with distinct keys

In a value that was read, no object gives one key two fields, at any depth (`Json.Keyed`). Such a
value can be looked up by its keys and gone through field by field, and both find the same.

**The reader.** A field with a key that an object already has takes the place of the earlier one
(`Fields.nodup_put`). So the frames of the stack keep their keys distinct, and with them every value
that is taken off the stack: the invariant is `Reading.Keyed`, kept by each step (`step_keyed`) and
so by a whole run (`run_keyed`).
-/

namespace DegreeAudit

namespace Fields

theorem mem_put {fields : Fields} {key : Text} {value : Json} {f : Text × Json}
    (h : f ∈ fields.put key value) : f = (key, value) ∨ f ∈ fields := by
  induction fields with
  | nil => exact .inl (List.mem_singleton.mp h)
  | cons g rest ih =>
    unfold put at h
    split at h
    · next hkey =>
      rcases List.mem_cons.mp h with rfl | h
      · exact .inl (by rw [← hkey])
      · exact .inr (List.mem_cons_of_mem _ h)
    · rcases List.mem_cons.mp h with rfl | h
      · exact .inr List.mem_cons_self
      · exact (ih h).imp id (List.mem_cons_of_mem _)

end Fields

namespace Json

/-- Whether no object in a value gives one key two fields, at any depth. -/
inductive Keyed : Json → Prop
  | null : Keyed .null
  | bool (b : Bool) : Keyed (.bool b)
  | int (n : Int) : Keyed (.int n)
  | float (x : Binary64) : Keyed (.float x)
  | text (s : Text) : Keyed (.text s)
  | list {items : List Json} (hitems : ∀ v ∈ items, Keyed v) : Keyed (.list items)
  | object {fields : Fields} (hkeys : fields.keys.Nodup) (hfields : ∀ f ∈ fields, Keyed f.2) :
      Keyed (.object fields)

theorem Keyed.nodup_keys {fields : Fields} (h : Keyed (.object fields)) : fields.keys.Nodup := by
  cases h
  assumption

theorem Keyed.of_mem {fields : Fields} {f : Text × Json} (h : Keyed (.object fields))
    (hf : f ∈ fields) : Keyed f.2 := by
  cases h with
  | object _ hfields => exact hfields f hf

theorem Keyed.put {fields : Fields} {value : Json} (h : Keyed (.object fields)) (key : Text)
    (hvalue : Keyed value) : Keyed (.object (fields.put key value)) := by
  refine .object (Fields.nodup_put h.nodup_keys key value) fun f hf => ?_
  rcases Fields.mem_put hf with rfl | hf
  · exact hvalue
  · exact h.of_mem hf

theorem empty_keyed : Keyed (.object []) := .object List.nodup_nil nofun

/-! ## The reader -/

/-- Whether what is known of a list or object has distinct keys. -/
def Frame.Keyed : Frame → Prop
  | list items => ∀ v ∈ items, v.Keyed
  | object fields _ => (Json.object fields).Keyed

/-- Whether everything that is known has distinct keys. -/
structure Reading.Keyed (s : Reading) : Prop where
  stack : ∀ f ∈ s.stack, f.Keyed
  done : ∀ v, s.mode = .done v → v.Keyed

namespace Reading

variable {limit n : Nat} {s s' : Reading} {stack : List Frame} {c : Char}

theorem start_keyed : start.Keyed := ⟨fun _ hf => absurd hf List.not_mem_nil, nofun⟩

theorem numberOf_keyed {start : Nat} {negative : Bool} {cs rest : List Char} {v : Json}
    (h : numberOf start negative cs = .ok (v, rest)) : v.Keyed := by
  unfold numberOf at h
  dsimp only at h
  -- Whatever its digits, a number is whole or in floating point.
  repeat' split at h
  all_goals cases h
  all_goals constructor

theorem constants_keyed : ∀ e ∈ constants, e.2.Keyed := by
  intro e he
  simp only [constants, List.mem_cons, List.not_mem_nil, or_false] at he
  rcases he with rfl | rfl | rfl | rfl | rfl | rfl <;> constructor

theorem wordValue_keyed {start : Nat} {cs rest : List Char} {v : Json}
    (h : wordValue start cs = .ok (v, rest)) : v.Keyed := by
  unfold wordValue at h
  split at h
  · next name v' hfind =>
    cases h
    exact constants_keyed _ (List.mem_of_find?_eq_some hfind)
  · split at h <;> exact numberOf_keyed h

theorem push_keyed {v : Json} (hstack : ∀ f ∈ stack, f.Keyed) (hv : v.Keyed) :
    (push stack v).Keyed := by
  match stack with
  | [] => exact ⟨nofun, fun w hw => by cases hw; exact hv⟩
  | .list items :: rest =>
    rw [List.forall_mem_cons] at hstack
    exact ⟨List.forall_mem_cons.mpr ⟨List.forall_mem_cons.mpr ⟨hv, hstack.1⟩, hstack.2⟩, nofun⟩
  | .object fields k :: rest =>
    rw [List.forall_mem_cons] at hstack
    have hput : (Json.object (fields.put k v)).Keyed := Json.Keyed.put hstack.1 k hv
    exact ⟨List.forall_mem_cons.mpr ⟨hput, hstack.2⟩, nofun⟩

theorem pushKey_keyed (hstack : ∀ f ∈ stack, f.Keyed) (k : Text) :
    ∀ f ∈ pushKey stack k, f.Keyed := by
  unfold pushKey
  split
  · rw [List.forall_mem_cons] at hstack ⊢
    exact hstack
  · exact hstack

theorem pushText_keyed (hstack : ∀ f ∈ stack, f.Keyed) (q : Quote) :
    (pushText stack q).Keyed := by
  unfold pushText
  dsimp only
  split
  · exact ⟨pushKey_keyed hstack _, nofun⟩
  · exact push_keyed hstack (.text _)

theorem descend_keyed {frame : Frame} {mode : Mode} (h : descend limit stack frame mode = .ok s')
    (hstack : ∀ f ∈ stack, f.Keyed) (hframe : frame.Keyed) (hmode : ∀ v, mode ≠ .done v) :
    s'.Keyed := by
  unfold descend at h
  split at h
  · cases h
    exact ⟨List.forall_mem_cons.mpr ⟨hframe, hstack⟩, fun v hv => absurd hv (hmode v)⟩
  · cases h

theorem openValue_keyed (hstack : ∀ f ∈ stack, f.Keyed)
    (h : openValue limit n stack c = .ok s') : s'.Keyed := by
  unfold openValue at h
  split at h
  · cases h
    exact ⟨hstack, nofun⟩
  · split at h
    · exact descend_keyed h hstack nofun nofun
    · split at h
      · exact descend_keyed h hstack empty_keyed nofun
      · split at h
        · cases h
          exact ⟨hstack, nofun⟩
        · cases h

theorem afterValue_keyed (hstack : ∀ f ∈ stack, f.Keyed) (h : afterValue n stack c = .ok s') :
    s'.Keyed := by
  unfold afterValue at h
  split at h
  · cases h
    rw [List.forall_mem_cons] at hstack
    exact push_keyed hstack.2 (.list fun v hv => hstack.1 v (List.mem_reverse.mp hv))
  · cases h
    rw [List.forall_mem_cons] at hstack
    exact push_keyed hstack.2 hstack.1
  · cases h
    exact ⟨hstack, nofun⟩
  · cases h
    exact ⟨hstack, nofun⟩
  · cases h

theorem endWord_keyed {start : Nat} {cs : List Char} (hstack : ∀ f ∈ stack, f.Keyed)
    (h : endWord stack start cs = .ok s') : s'.Keyed := by
  unfold endWord at h
  cases hword : wordValue start cs with
  | error e =>
    rw [hword] at h
    cases h
  | ok word =>
    rw [hword] at h
    dsimp only [bind, Except.bind] at h
    split at h
    · cases h
      exact push_keyed hstack (wordValue_keyed hword)
    · cases h

theorem stepPlain_keyed (hs : s.Keyed) (h : stepPlain limit n s c = .ok s') : s'.Keyed := by
  unfold stepPlain at h
  split at h
  · cases h
    exact hs
  · split at h
    · next rest hmode hstack =>
      have hrest : ∀ f ∈ rest, f.Keyed := fun f hf =>
        hs.stack f (hstack ▸ List.mem_cons_of_mem _ hf)
      split at h
      · cases h
        exact push_keyed hrest (.list nofun)
      · exact openValue_keyed hs.stack h
    · exact openValue_keyed hs.stack h
    · next rest hmode hstack =>
      have hrest : ∀ f ∈ rest, f.Keyed := fun f hf =>
        hs.stack f (hstack ▸ List.mem_cons_of_mem _ hf)
      split at h
      · cases h
        exact push_keyed hrest empty_keyed
      · split at h
        · cases h
          exact ⟨hs.stack, nofun⟩
        · cases h
    · split at h
      · cases h
        exact ⟨hs.stack, nofun⟩
      · cases h
    · split at h
      · cases h
        exact ⟨hs.stack, nofun⟩
      · cases h
    · exact afterValue_keyed hs.stack h
    · cases h

/-- **One step.** Whatever the machine knows keeps its keys distinct. -/
theorem step_keyed (hs : s.Keyed) (h : step limit n s c = .ok s') : s'.Keyed := by
  unfold step at h
  split at h
  · split at h
    · cases h
      exact pushText_keyed hs.stack _
    · split at h
      · cases h
        exact ⟨hs.stack, nofun⟩
      · split at h
        · cases h
        · cases h
          exact ⟨hs.stack, nofun⟩
  · split at h
    · cases h
      exact ⟨hs.stack, nofun⟩
    · split at h
      · cases h
        exact ⟨hs.stack, nofun⟩
      · cases h
  · split at h
    · cases h
    · dsimp only at h
      split at h <;> (cases h; exact ⟨hs.stack, nofun⟩)
  · next start chars hmode =>
    split at h
    · cases h
      exact ⟨hs.stack, nofun⟩
    · cases hword : endWord s.stack start chars.reverse with
      | error e =>
        rw [hword] at h
        cases h
      | ok s₁ =>
        rw [hword] at h
        exact stepPlain_keyed (endWord_keyed hs.stack hword) h
  · exact stepPlain_keyed hs h

theorem finish_keyed {v : Json} (hs : s.Keyed) (h : finish n s = .ok v) : v.Keyed := by
  unfold finish at h
  split at h
  · next hmode =>
    cases h
    exact hs.done _ hmode
  · next start chars hmode =>
    cases hword : endWord s.stack start chars.reverse with
    | error e =>
      rw [hword] at h
      cases h
    | ok s₁ =>
      rw [hword] at h
      dsimp only [bind, Except.bind] at h
      split at h
      · next hdone =>
        cases h
        exact (endWord_keyed hs.stack hword).done _ hdone
      · cases h
  all_goals cases h

/-- **A whole run.** The document has distinct keys. -/
theorem run_keyed {cs : List Char} {v : Json} (hs : s.Keyed) (h : run limit n s cs = .ok v) :
    v.Keyed := by
  induction cs generalizing n s with
  | nil => exact finish_keyed hs h
  | cons c rest ih =>
    unfold run at h
    split at h
    · next s₁ hstep => exact ih (step_keyed hs hstep) h
    · cases h

end Reading

theorem readChars_keyed {limit : Nat} {cs : List Char} {v : Json}
    (h : readChars limit cs = .ok v) : v.Keyed := by
  unfold readChars at h
  split at h
  · cases h
  · exact Reading.run_keyed Reading.start_keyed h

end Json

theorem Folder.readBytes_keyed {limit : Nat} {p : Path} {bytes : ByteArray} {v : Json}
    (h : readBytes limit p bytes = .ok v) : v.Keyed := by
  unfold readBytes at h
  split at h
  · cases h
  · dsimp only at h
    split at h
    · next v' hread =>
      cases h
      exact Json.readChars_keyed hread
    all_goals cases h

theorem Folder.read_keyed {d : Folder} {p : Path} {v : Json} (h : d.read p = .ok v) :
    v.Keyed := by
  unfold read at h
  split at h
  · cases h
  · cases h
  · cases h
  · exact readBytes_keyed h

end DegreeAudit
