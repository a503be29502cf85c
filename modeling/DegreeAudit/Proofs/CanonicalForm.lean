import DegreeAudit.Breadth
import Mathlib.Data.List.TakeDrop
import Mathlib.Data.List.TakeWhile

/-!
# Keys and canonical forms

A course is known by two forms of its code. The key has no blanks at all; the canonical form has one
blank between subject and number, and otherwise keeps what is inside a text that is no course code.
So two texts with one key can have two canonical forms.

**Keys.** Upper case keeps blanks and makes none, so it can be taken before or after the blanks are
removed (`squeeze_upper`).

**Shapes.** A text is *shaped* as a code if `parts?` reads it: letters, blanks, digits, letters.
Without its blanks it is read in the same way (`parts?_squeeze`), so two shaped texts with one key
have one canonical form. Hence two texts with one key differ in canonical form exactly if they
differ at all and one of them is not shaped (`canonical_eq_iff`).
-/

namespace DegreeAudit

/-! ## Numbers of code points -/

namespace CodePoint

theorem ofNat_val (c : CodePoint) : ofNat c.val = c := by
  cases c with
  | scalar c =>
    have hc := c.valid
    have hout : ¬(0xD800 ≤ c.toNat ∧ c.toNat < 0xE000) := by
      simp only [UInt32.isValidChar, Nat.isValidChar, Char.toNat] at hc ⊢
      omega
    rw [val_scalar, ofNat, dif_neg hout, Char.ofNat_toNat]
  | surrogate i =>
    have hin : 0xD800 ≤ 0xD800 + i.val ∧ 0xD800 + i.val < 0xE000 := by omega
    simp only [val, ofNat, dif_pos hin, Nat.add_sub_cancel_left]

/-- A number that no code point has is read as zero. -/
theorem val_ofNat (n : Nat) : (ofNat n).val = n ∨ (ofNat n).val = 0 := by
  unfold ofNat
  split
  · next h =>
    left
    simp only [val]
    omega
  · by_cases hn : n.isValidChar
    · left
      rw [val_scalar, Char.ofNat, dif_pos hn]
      unfold Char.ofNatAux Char.toNat
      simp
    · right
      rw [val_scalar, Char.ofNat, dif_neg hn]
      rfl

end CodePoint

namespace Text

/-! ## Blanks and upper case -/

/-- Whether a number is that of a blank. -/
def IsBlankNumber (n : Nat) : Prop := ∃ r ∈ blankRanges, r.1 ≤ n ∧ n ≤ r.2

theorem isBlank_iff {c : CodePoint} : isBlank c = true ↔ IsBlankNumber c.val := CharSet.has_iff

/-- Visible ASCII characters are no blanks. -/
theorem isBlank_eq_false {c : CodePoint} (hlow : 0x21 ≤ c.val) (hhigh : c.val ≤ 0x7E) :
    isBlank c = false := by
  rw [Bool.eq_false_iff]
  intro h
  obtain ⟨r, hr, hle, hge⟩ := isBlank_iff.mp h
  have hout : ∀ r ∈ blankRanges, r.2 < 0x21 ∨ 0x7E < r.1 := by decide
  have := hout r hr
  omega

theorem isBlank_of_isCapital {c : CodePoint} (h : isCapital c = true) : isBlank c = false := by
  simp only [isCapital, Bool.and_eq_true, decide_eq_true_eq] at h
  exact isBlank_eq_false (by omega) (by omega)

theorem isBlank_of_isPlainDigit {c : CodePoint} (h : isPlainDigit c = true) :
    isBlank c = false := by
  simp only [isPlainDigit, Bool.and_eq_true, decide_eq_true_eq] at h
  exact isBlank_eq_false (by omega) (by omega)

theorem expandingForms_not_ascii : ∀ e ∈ expandingForms, 0x80 ≤ e.1 := by decide +kernel

theorem caseRuns_not_ascii : ∀ run ∈ caseRuns.tail, 0x80 ≤ run.first := by decide +kernel

/-- Of all tables only the first run of small letters holds ASCII characters. -/
theorem upperForm_ascii {n : Nat} (h : n < 0x80) :
    upperForm n = [if 0x61 ≤ n ∧ n ≤ 0x7A then n - 0x20 else n] := by
  have hlookup : expandingForms.lookup n = none :=
    List.lookup_eq_none_iff.mpr fun e he => by
      have := expandingForms_not_ascii e he
      rw [bne_iff_ne]
      omega
  have hfind : caseRuns.tail.find? (·.covers n) = none :=
    List.find?_eq_none.mpr fun run hrun => by
      have := caseRuns_not_ascii run hrun
      simp only [CaseRun.covers, Bool.and_eq_true, decide_eq_true_eq]
      omega
  have hcons : caseRuns = ⟨0x61, 0x7A, 1, 0x41⟩ :: caseRuns.tail := rfl
  unfold upperForm
  rw [hlookup, hcons, List.find?_cons, hfind]
  by_cases hsmall : 0x61 ≤ n ∧ n ≤ 0x7A
  · have hcovers : CaseRun.covers ⟨0x61, 0x7A, 1, 0x41⟩ n = true := by
      simp [CaseRun.covers, hsmall, Nat.mod_one]
    simp only [hcovers, if_pos hsmall, CaseRun.apply]
    congr 1
    omega
  · have hcovers : CaseRun.covers ⟨0x61, 0x7A, 1, 0x41⟩ n = false := by
      simpa [CaseRun.covers, Nat.mod_one] using hsmall
    simp only [hcovers, if_neg hsmall]

theorem toUpper_ascii : ∀ n < 0x80, (Char.ofNat n).toUpper.toNat =
    if 0x61 ≤ n ∧ n ≤ 0x7A then n - 0x20 else n := by
  decide +kernel

theorem upperForm_blankRanges :
    ∀ r ∈ blankRanges, ∀ k < r.2 - r.1 + 1, upperForm (r.1 + k) = [r.1 + k] := by
  decide +kernel

theorem upperForm_of_isBlankNumber {n : Nat} (h : IsBlankNumber n) : upperForm n = [n] := by
  obtain ⟨r, hr, hlow, hhigh⟩ := h
  have hform := upperForm_blankRanges r hr (n - r.1) (by omega)
  rwa [Nat.add_sub_cancel' hlow] at hform

/-- Whether the tables of upper case give no form that lies in a set of characters. -/
structure Untouched (set : CharSet) : Prop where
  zero : ∀ r ∈ set, 0 < r.1
  forms : ∀ e ∈ expandingForms, ∀ m ∈ e.2, ∀ r ∈ set, m < r.1 ∨ r.2 < m
  runs : ∀ run ∈ caseRuns, ∀ r ∈ set,
    run.upper + (run.last - run.first) < r.1 ∨ r.2 < run.upper

theorem blankRanges_untouched : Untouched blankRanges where
  zero := by decide
  forms := by decide +kernel
  runs := by decide +kernel

theorem Untouched.eq_of_mem_upperForm {set : CharSet} (h : Untouched set) {n m : Nat}
    (hm : m ∈ upperForm n) {r : Nat × Nat} (hr : r ∈ set) (hlow : r.1 ≤ m) (hhigh : m ≤ r.2) :
    m = n := by
  unfold upperForm at hm
  split at hm
  · next ns hlookup =>
    have hmem : (n, ns) ∈ expandingForms := by
      obtain ⟨as, bs, heq, -⟩ := List.lookup_eq_some_iff.mp hlookup
      simp [heq]
    have := h.forms _ hmem m hm r hr
    omega
  · split at hm
    · next run hfind =>
      have hcovers := List.find?_some hfind
      simp only [CaseRun.covers, Bool.and_eq_true, decide_eq_true_eq] at hcovers
      rw [List.mem_singleton, CaseRun.apply] at hm
      have := h.runs run (List.mem_of_find?_eq_some hfind) r hr
      omega
    · exact List.mem_singleton.mp hm

/-- The short way for ASCII characters agrees with the table. -/
theorem upperChar_scalar (c : Char) :
    upperChar (.scalar c) = (upperForm c.toNat).map CodePoint.ofNat := by
  rw [upperChar]
  split
  · next h =>
    rw [upperForm_ascii h, ← toUpper_ascii c.toNat h, Char.ofNat_toNat, List.map_singleton,
      ← CodePoint.val_scalar c.toUpper, CodePoint.ofNat_val]
  · rfl

theorem upperChar_of_isBlank {c : CodePoint} (h : isBlank c = true) : upperChar c = [c] := by
  cases c with
  | scalar c =>
    have hnumber : IsBlankNumber c.toNat := isBlank_iff.mp h
    rw [upperChar_scalar, upperForm_of_isBlankNumber hnumber, List.map_singleton,
      ← CodePoint.val_scalar c, CodePoint.ofNat_val]
  | surrogate i => rfl

/-- A character of such a set is in the upper-case form of no other character. -/
theorem Untouched.eq_of_mem_upperChar {set : CharSet} (h : Untouched set) {c d : CodePoint}
    (hd : d ∈ upperChar c) (hset : set.has d = true) : d = c := by
  cases c with
  | surrogate i => exact List.mem_singleton.mp hd
  | scalar c =>
    rw [upperChar_scalar] at hd
    obtain ⟨m, hm, rfl⟩ := List.mem_map.mp hd
    obtain ⟨r, hr, hlow, hhigh⟩ := CharSet.has_iff.mp hset
    obtain hval | hval := CodePoint.val_ofNat m
    · rw [hval] at hlow hhigh
      rw [h.eq_of_mem_upperForm hm hr hlow hhigh, ← CodePoint.val_scalar c, CodePoint.ofNat_val]
    · have := h.zero r hr
      omega

theorem isBlank_of_mem_upperChar {c d : CodePoint} (h : isBlank c = false)
    (hd : d ∈ upperChar c) : isBlank d = false := by
  rw [Bool.eq_false_iff]
  intro hblank
  rw [blankRanges_untouched.eq_of_mem_upperChar hd hblank, h] at hblank
  exact Bool.false_ne_true hblank

theorem squeeze_upper (cs : Text) : squeeze (upper cs) = upper (squeeze cs) := by
  induction cs with
  | nil => rfl
  | cons c rest ih =>
    have hsplit : upper (c :: rest) = upperChar c ++ upper rest := List.flatMap_cons
    rw [hsplit, squeeze_append, ih]
    cases hc : isBlank c with
    | true => simp [squeeze, upperChar_of_isBlank hc, hc]
    | false =>
      have hkeep : squeeze (upperChar c) = upperChar c :=
        List.filter_eq_self.mpr fun d hd => by simp [isBlank_of_mem_upperChar hc hd]
      rw [hkeep]
      simp [squeeze, upper, hc]

/-! ## Blanks at the ends -/

theorem squeeze_trimLeft (cs : Text) : squeeze (trimLeft cs) = squeeze cs := by
  unfold trimLeft
  induction cs with
  | nil => rfl
  | cons c rest ih =>
    rw [List.dropWhile_cons]
    split
    · next hc => simpa [squeeze, hc] using ih
    · rfl

theorem squeeze_trim (cs : Text) : squeeze (trim cs) = squeeze cs := by
  have hright : ∀ t : Text, squeeze (trimRight t) = squeeze t := by
    intro t
    have h := squeeze_trimLeft t.reverse
    simp only [squeeze, trimLeft, trimRight, List.filter_reverse] at h ⊢
    rw [h, List.reverse_reverse]
  rw [trim, hright, squeeze_trimLeft]

theorem trim_eq_nil_iff {cs : Text} : trim cs = [] ↔ squeeze cs = [] := by
  constructor
  · intro h
    rw [← squeeze_trim, h]
    rfl
  · intro h
    have hblank : ∀ c ∈ cs, isBlank c = true := by simpa [squeeze] using h
    have hleft : trimLeft cs = [] := List.dropWhile_eq_nil_iff.mpr hblank
    rw [trim, hleft]
    rfl

/-! ## Longest runs -/

theorem span_append {p : CodePoint → Bool} {run rest : Text} (hrun : ∀ c ∈ run, p c = true)
    (hstop : ∀ c ∈ rest.head?, p c = false) : (run ++ rest).span p = (run, rest) := by
  rw [List.span_eq_takeWhile_dropWhile, List.takeWhile_append_of_pos hrun,
    List.dropWhile_append_of_pos hrun]
  cases rest with
  | nil => simp
  | cons c rest =>
    have hc : p c = false := hstop c rfl
    simp [hc]

end Text

namespace Code

open Text

/-! ## Shaped texts -/

theorem dropZeros_dropZeros (ds : Text) : dropZeros (dropZeros ds) = dropZeros ds := by
  fun_induction dropZeros ds with
  | case1 d e ds ih => exact ih
  | case2 ds hshort => rw [dropZeros.eq_2 ds hshort]

theorem dropZeros_suffix (ds : Text) : dropZeros ds <:+ ds := by
  fun_induction dropZeros ds with
  | case1 d e ds ih => exact ih.trans (List.suffix_cons _ _)
  | case2 ds _ => exact List.suffix_refl ds

/-- The parts of a text that is shaped as a code: letters, blanks, digits and a suffix. -/
structure Shaped (l b d s : Text) : Prop where
  letters : ∀ c ∈ l, isCapital c = true
  blanks : ∀ c ∈ b, isBlank c = true
  digits : ∀ c ∈ d, isPlainDigit c = true
  suffix : ∀ c ∈ s, isCapital c = true
  letters_length : 2 ≤ l.length ∧ l.length ≤ 10
  number_length : 2 ≤ (dropZeros d).length ∧ (dropZeros d).length ≤ 3
  suffix_length : s.length ≤ 2

theorem isCapital_of_isBlank {c : CodePoint} (h : isBlank c = true) : isCapital c = false := by
  rw [Bool.eq_false_iff]
  intro hcap
  rw [isBlank_of_isCapital hcap] at h
  exact Bool.false_ne_true h

theorem isCapital_of_isPlainDigit {c : CodePoint} (h : isPlainDigit c = true) :
    isCapital c = false := by
  simp only [isPlainDigit, Bool.and_eq_true, decide_eq_true_eq] at h
  simp only [isCapital, Bool.and_eq_false_iff, decide_eq_false_iff_not]
  omega

theorem isPlainDigit_of_isCapital {c : CodePoint} (h : isCapital c = true) :
    isPlainDigit c = false := by
  rw [Bool.eq_false_iff]
  intro hdigit
  rw [isCapital_of_isPlainDigit hdigit] at h
  exact Bool.false_ne_true h

namespace Shaped

variable {l b d s : Text}

theorem exists_digit (h : Shaped l b d s) : ∃ c ds, d = c :: ds ∧ isPlainDigit c = true := by
  cases d with
  | nil => exact absurd h.number_length.1 (by decide)
  | cons c ds => exact ⟨c, ds, rfl, h.digits c List.mem_cons_self⟩

theorem parts? (h : Shaped l b d s) :
    parts? (l ++ (b ++ (d ++ s))) = some (l, dropZeros d ++ s) := by
  obtain ⟨c, ds, rfl, hc⟩ := h.exists_digit
  have hletters : spanCapitals (l ++ (b ++ (c :: ds ++ s))) = (l, b ++ (c :: ds ++ s)) := by
    refine span_append h.letters fun a ha => ?_
    cases b with
    | nil =>
      obtain rfl := Option.mem_some.mp ha
      exact isCapital_of_isPlainDigit hc
    | cons a' bs =>
      obtain rfl := Option.mem_some.mp ha
      exact isCapital_of_isBlank (h.blanks a' List.mem_cons_self)
  have hblanks : trimLeft (b ++ (c :: ds ++ s)) = c :: ds ++ s := by
    have hspan : (b ++ (c :: ds ++ s)).span isBlank = (b, c :: ds ++ s) := by
      refine span_append h.blanks fun a ha => ?_
      obtain rfl := Option.mem_some.mp ha
      exact isBlank_of_isPlainDigit hc
    rw [List.span_eq_takeWhile_dropWhile] at hspan
    exact (Prod.mk.inj hspan).2
  have hdigits : spanPlainDigits (c :: ds ++ s) = (c :: ds, s) :=
    span_append h.digits fun a ha =>
      isPlainDigit_of_isCapital (h.suffix a (List.mem_of_mem_head? ha))
  have hsuffix : s.all isCapital = true := List.all_eq_true.mpr h.suffix
  simp only [Code.parts?, hletters, hblanks, hdigits]
  exact if_pos ⟨h.letters_length.1, h.letters_length.2, h.number_length.1, h.number_length.2,
    h.suffix_length, hsuffix⟩

theorem squeeze (h : Shaped l b d s) : squeeze (l ++ (b ++ (d ++ s))) = l ++ (d ++ s) := by
  have hl : Text.squeeze l = l :=
    List.filter_eq_self.mpr fun c hc => by simp [isBlank_of_isCapital (h.letters c hc)]
  have hb : Text.squeeze b = [] :=
    List.filter_eq_nil_iff.mpr fun c hc => by simp [h.blanks c hc]
  have hd : Text.squeeze d = d :=
    List.filter_eq_self.mpr fun c hc => by simp [isBlank_of_isPlainDigit (h.digits c hc)]
  have hs : Text.squeeze s = s :=
    List.filter_eq_self.mpr fun c hc => by simp [isBlank_of_isCapital (h.suffix c hc)]
  rw [squeeze_append, squeeze_append, squeeze_append, hl, hb, hd, hs, List.nil_append]

theorem shown (h : Shaped l b d s) : Shaped l (" " : Text) (dropZeros d) s :=
  { h with
    blanks := by decide
    digits := fun c hc => h.digits c ((dropZeros_suffix d).subset hc)
    number_length := by rw [dropZeros_dropZeros]; exact h.number_length }

end Shaped

theorem parts?_eq_some_iff {cs : Text} {q : Text × Text} :
    parts? cs = some q ↔ ∃ l b d s, Shaped l b d s ∧ cs = l ++ (b ++ (d ++ s)) ∧
      q = (l, dropZeros d ++ s) := by
  constructor
  · intro h
    simp only [parts?, spanCapitals, spanPlainDigits, List.span_eq_takeWhile_dropWhile,
      Option.ite_none_right_eq_some, Option.some.injEq] at h
    obtain ⟨⟨hl2, hl10, hn2, hn3, hs2, hs⟩, rfl⟩ := h
    refine ⟨_, (cs.dropWhile isCapital).takeWhile isBlank, _, _, ⟨?_, ?_, ?_, ?_, ⟨hl2, hl10⟩,
      ⟨hn2, hn3⟩, hs2⟩, ?_, rfl⟩
    · exact fun c hc => List.mem_takeWhile_imp hc
    · exact fun c hc => List.mem_takeWhile_imp hc
    · exact fun c hc => List.mem_takeWhile_imp hc
    · exact List.all_eq_true.mp hs
    · rw [List.takeWhile_append_dropWhile, trimLeft, List.takeWhile_append_dropWhile,
        List.takeWhile_append_dropWhile]
  · rintro ⟨l, b, d, s, hshape, rfl, rfl⟩
    exact hshape.parts?

/-- The blanks in a text are not needed to read it. -/
theorem parts?_squeeze {cs : Text} {q : Text × Text} (h : parts? cs = some q) :
    parts? (squeeze cs) = some q := by
  obtain ⟨l, b, d, s, hshape, rfl, rfl⟩ := parts?_eq_some_iff.mp h
  have hbare : Shaped l [] d s := { hshape with blanks := by simp }
  rw [hshape.squeeze]
  exact hbare.parts?

theorem parts?_shown {cs letters number : Text} (h : parts? cs = some (letters, number)) :
    parts? (letters ++ " " ++ number) = some (letters, number) := by
  obtain ⟨l, b, d, s, hshape, rfl, hq⟩ := parts?_eq_some_iff.mp h
  obtain ⟨rfl, rfl⟩ := Prod.mk.inj hq
  have hread := hshape.shown.parts?
  rwa [dropZeros_dropZeros, ← List.append_assoc] at hread

/-! ## One key, one canonical form? -/

/-- Whether a text is spelled as a course code. -/
def IsShaped (code : Text) : Prop := (parts? (trim (upper code))).isSome = true

instance (code : Text) : Decidable (IsShaped code) := inferInstanceAs (Decidable (_ = true))

theorem key_eq_squeeze (code : Text) : key code = squeeze (trim (upper code)) := by
  rw [key, ← squeeze_upper, squeeze_trim]

theorem canonical_of_parts? {code : Text} {q : Text × Text}
    (h : parts? (trim (upper code)) = some q) : canonical code = q.1 ++ " " ++ q.2 := by
  simp only [canonical, h]

theorem canonical_of_not_isShaped {code : Text} (h : ¬IsShaped code) :
    canonical code = trim (upper code) := by
  rw [IsShaped, Option.not_isSome_iff_eq_none] at h
  simp only [canonical, h]

theorem parts?_canonical (code : Text) :
    parts? (canonical code) = parts? (trim (upper code)) := by
  cases h : parts? (trim (upper code)) with
  | some q => rw [canonical_of_parts? h, parts?_shown h]
  | none => rw [canonical_of_not_isShaped (by simp [IsShaped, h]), h]

/-- **Two texts with one key** have one canonical form exactly if they are the same apart from case
and from blanks at the ends, or both are spelled as course codes. -/
theorem canonical_eq_iff {x y : Text} (hkey : key x = key y) :
    canonical x = canonical y ↔
      trim (upper x) = trim (upper y) ∨ IsShaped x ∧ IsShaped y := by
  rw [key_eq_squeeze, key_eq_squeeze] at hkey
  constructor
  · intro h
    have hparts : parts? (trim (upper x)) = parts? (trim (upper y)) := by
      rw [← parts?_canonical, h, parts?_canonical]
    by_cases hx : IsShaped x
    · exact .inr ⟨hx, by rwa [IsShaped, ← hparts]⟩
    · have hy : ¬IsShaped y := by rwa [IsShaped, ← hparts]
      rw [canonical_of_not_isShaped hx, canonical_of_not_isShaped hy] at h
      exact .inl h
  · rintro (h | ⟨hx, hy⟩)
    · unfold canonical
      rw [h]
    · obtain ⟨q, hq⟩ := Option.isSome_iff_exists.mp hx
      obtain ⟨q', hq'⟩ := Option.isSome_iff_exists.mp hy
      -- Both are read without their blanks, and there they are the same text.
      have hsame := parts?_squeeze hq
      rw [hkey, parts?_squeeze hq'] at hsame
      rw [canonical_of_parts? hq, canonical_of_parts? hq', Option.some.inj hsame]

theorem canonical_eq_nil_iff {code : Text} : canonical code = [] ↔ key code = [] := by
  rw [key_eq_squeeze, squeeze_trim, ← trim_eq_nil_iff]
  constructor
  · intro h
    have hparts := parts?_canonical code
    rw [h] at hparts
    have hx : ¬IsShaped code := by
      rw [IsShaped, ← hparts]
      decide
    rwa [canonical_of_not_isShaped hx] at h
  · intro h
    unfold canonical
    rw [h]
    rfl

end Code

end DegreeAudit
