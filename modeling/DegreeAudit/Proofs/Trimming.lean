import DegreeAudit.Proofs.CanonicalForm
import Mathlib.Data.List.DropRight

/-!
# Blanks at the ends

A text is its trimmed middle between blanks (`Text.exists_eq_trim`), and a middle without blanks at
its ends is what is left of any blanks around it (`Text.trim_append`). So what trimming does is
known from the middle alone.

**Upper case.** It keeps every blank, makes none and lets no character disappear. Hence the
upper-case form of a trimmed text is trimmed (`Text.IsTrimmed.upper`), and a text can be trimmed
before or after it is put into upper case (`Text.trim_upper`).
-/

namespace DegreeAudit.Text

/-! ## Upper case of whole texts -/

theorem upper_eq_self {cs : Text} (h : ∀ c ∈ cs, upperChar c = [c]) : upper cs = cs := by
  induction cs with
  | nil => rfl
  | cons c rest ih =>
    rw [upper, List.flatMap_cons, h c List.mem_cons_self, ← upper,
      ih fun d hd => h d (List.mem_cons_of_mem c hd), List.singleton_append]

theorem upper_of_isBlank {cs : Text} (h : ∀ c ∈ cs, isBlank c = true) : upper cs = cs :=
  upper_eq_self fun c hc => upperChar_of_isBlank (h c hc)

theorem upperForm_ne_nil (n : Nat) : upperForm n ≠ [] := by
  have hforms : ∀ e ∈ expandingForms, e.2 ≠ [] := by decide +kernel
  unfold upperForm
  split
  · next ns hlookup =>
    obtain ⟨before, after, hsplit, -⟩ := List.lookup_eq_some_iff.mp hlookup
    exact hforms (n, ns) (hsplit ▸ List.mem_append_right _ List.mem_cons_self)
  · split <;> exact List.cons_ne_nil _ _

theorem upperChar_ne_nil (c : CodePoint) : upperChar c ≠ [] := by
  cases c with
  | surrogate i => exact List.cons_ne_nil _ _
  | scalar c =>
    rw [upperChar_scalar, ne_eq, List.map_eq_nil_iff]
    exact upperForm_ne_nil _

theorem upper_eq_nil_iff {cs : Text} : upper cs = [] ↔ cs = [] := by
  rw [upper, List.flatMap_eq_nil_iff, List.eq_nil_iff_forall_not_mem]
  exact forall₂_congr fun c _ => iff_false_intro (upperChar_ne_nil c)

/-! ## The middle of a text -/

/-- Whether a text has no blanks at its ends. -/
structure IsTrimmed (cs : Text) : Prop where
  first : ∀ c ∈ cs.head?, isBlank c = false
  last : ∀ c ∈ cs.getLast?, isBlank c = false

theorem isTrimmed_of_forall {cs : Text} (h : ∀ c ∈ cs, isBlank c = false) : IsTrimmed cs where
  first c hc := h c (List.mem_of_mem_head? hc)
  last c hc := h c (List.mem_of_mem_getLast? hc)

section

variable {b m b' : Text}

theorem trimLeft_append (hb : ∀ c ∈ b, isBlank c = true) (hm : ∀ c ∈ m.head?, isBlank c = false) :
    trimLeft (b ++ m) = m := by
  rw [trimLeft, List.dropWhile_append_of_pos hb]
  cases m with
  | nil => rfl
  | cons c rest => exact List.dropWhile_cons_of_neg (by simp [hm c rfl])

theorem trimRight_append (hm : ∀ c ∈ m.getLast?, isBlank c = false)
    (hb : ∀ c ∈ b, isBlank c = true) : trimRight (m ++ b) = m := by
  have hleft : trimLeft (b.reverse ++ m.reverse) = m.reverse :=
    trimLeft_append (fun c hc => hb c (List.mem_reverse.mp hc)) (by rwa [List.head?_reverse])
  rw [trimRight, List.reverse_append, ← trimLeft, hleft, List.reverse_reverse]

/-- **The middle** is what trimming leaves. -/
theorem trim_append (hb : ∀ c ∈ b, isBlank c = true) (hm : IsTrimmed m)
    (hb' : ∀ c ∈ b', isBlank c = true) : trim (b ++ (m ++ b')) = m := by
  cases m with
  | nil =>
    rw [trim_eq_nil_iff, List.nil_append]
    simpa [squeeze, or_imp, forall_and] using ⟨hb, hb'⟩
  | cons c rest =>
    have hleft : trimLeft (b ++ (c :: rest ++ b')) = c :: rest ++ b' := trimLeft_append hb hm.first
    rw [trim, hleft, trimRight_append hm.last hb']

end

theorem trim_eq_self {cs : Text} (h : IsTrimmed cs) : trim cs = cs := by
  have htrim : trim ([] ++ (cs ++ [])) = cs := trim_append nofun h nofun
  rwa [List.nil_append, List.append_nil] at htrim

/-- A text is its trimmed middle between blanks. -/
theorem exists_eq_trim (cs : Text) : ∃ b b', (∀ c ∈ b, isBlank c = true) ∧
    (∀ c ∈ b', isBlank c = true) ∧ cs = b ++ (trim cs ++ b') := by
  refine ⟨cs.takeWhile isBlank, ((trimLeft cs).reverse.takeWhile isBlank).reverse,
    fun c hc => List.mem_takeWhile_imp hc,
    fun c hc => List.mem_takeWhile_imp (List.mem_reverse.mp hc), ?_⟩
  rw [trim, trimRight, ← List.reverse_append, List.takeWhile_append_dropWhile,
    List.reverse_reverse, trimLeft, List.takeWhile_append_dropWhile]

theorem isTrimmed_trim (cs : Text) : IsTrimmed (trim cs) where
  first c hc := by
    -- What is left starts as the text without the blanks in front does.
    obtain ⟨rest, hrest⟩ : trim cs <+: trimLeft cs := List.rdropWhile_prefix _ _
    have hhead : (trimLeft cs).head? = some c := by
      rw [← hrest, List.head?_append, Option.mem_def.mp hc]
      rfl
    have hnot := List.head?_dropWhile_not isBlank cs
    rwa [← trimLeft, hhead] at hnot
  last c hc := by
    obtain ⟨hne, rfl⟩ := List.mem_getLast?_eq_getLast hc
    exact Bool.eq_false_iff.mpr (List.rdropWhile_last_not isBlank (trimLeft cs) hne)

theorem trim_trim (cs : Text) : trim (trim cs) = trim cs := trim_eq_self (isTrimmed_trim cs)

theorem trim_subset (cs : Text) : trim cs ⊆ cs := by
  obtain ⟨b, b', -, -, hcs⟩ := exists_eq_trim cs
  intro c hc
  rw [hcs]
  exact List.mem_append_right b (List.mem_append_left b' hc)

/-! ## Trimming and upper case -/

theorem IsTrimmed.upper {cs : Text} (h : IsTrimmed cs) : IsTrimmed (upper cs) where
  first c hc := by
    cases cs with
    | nil => cases hc
    | cons d rest =>
      rw [Text.upper, List.flatMap_cons, List.head?_append_of_ne_nil _ (upperChar_ne_nil d)] at hc
      exact isBlank_of_mem_upperChar (h.first d rfl) (List.mem_of_mem_head? hc)
  last c hc := by
    obtain rfl | ⟨init, d, rfl⟩ := List.eq_nil_or_concat' cs
    · cases hc
    · rw [Text.upper, List.flatMap_append, List.flatMap_singleton,
        List.getLast?_append_of_ne_nil _ (upperChar_ne_nil d)] at hc
      exact isBlank_of_mem_upperChar (h.last d (by simp)) (List.mem_of_mem_getLast? hc)

theorem trim_upper (cs : Text) : trim (upper cs) = upper (trim cs) := by
  obtain ⟨b, b', hb, hb', hcs⟩ := exists_eq_trim cs
  conv_lhs => rw [hcs, upper_append, upper_append, upper_of_isBlank hb, upper_of_isBlank hb']
  exact trim_append hb (isTrimmed_trim cs).upper hb'

end DegreeAudit.Text
