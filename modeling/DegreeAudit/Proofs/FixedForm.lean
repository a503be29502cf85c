import DegreeAudit.Proofs.Trimming

/-!
# What the forms of a code leave as it is

Both forms of a code are fixed: the key of a key is that key (`Code.key_key`), and the canonical
form of a canonical form is that form (`Code.canonical_canonical`). This rests on the tables of
upper case, which leave every character that they produce as it is
(`Text.upperForm_of_mem_upperForm`).

**The key of a canonical form** need not be the key of the code. A text that is no course code only
loses case and outer blanks, which the key does not show. A course code loses its needless zeros as
well, and the key does show them. So the key changes exactly if there are needless zeros
(`Code.key_canonical_eq_iff`).
-/

namespace DegreeAudit

namespace Text

/-! ## Upper case -/

/-- Whether the upper-case forms of a run lie outside another run: before it, after it, or between
its members. -/
def CaseRun.avoids (r t : CaseRun) : Bool :=
  Nat.blt (r.upper + (r.last - r.first)) t.first || Nat.blt t.last r.upper ||
    (r.stride == 2 || r.first == r.last) && (t.stride == 2 || t.first == t.last) &&
      (r.upper + t.first) % 2 == 1

theorem CaseRun.covers_apply {r t : CaseRun} {n : Nat} (havoids : r.avoids t = true)
    (h : r.covers n = true) : t.covers (r.apply n) = false := by
  rw [Bool.eq_false_iff]
  intro ht
  simp only [covers, avoids, Bool.and_eq_true, Bool.or_eq_true, decide_eq_true_eq, beq_iff_eq,
    Nat.blt_eq] at h ht havoids
  simp only [apply] at ht
  obtain ⟨⟨hfirst, hlast⟩, hstride⟩ := h
  obtain ⟨⟨hfirst', hlast'⟩, hstride'⟩ := ht
  rcases havoids with (hbefore | hafter) | ⟨⟨heven, heven'⟩, hodd⟩
  · omega
  · omega
  · have hn : (n - r.first) % 2 = 0 := by
      rcases heven with htwo | hone
      · rwa [htwo] at hstride
      · omega
    have hm : (r.upper + (n - r.first) - t.first) % 2 = 0 := by
      rcases heven' with htwo | hone
      · rwa [htwo] at hstride'
      · omega
    omega

theorem caseRuns_avoid_caseRuns :
    (caseRuns.all fun r => caseRuns.all fun t => r.avoids t) = true := by
  decide +kernel

theorem caseRuns_avoid_expandingForms :
    (caseRuns.all fun r => expandingForms.all fun e => r.avoids ⟨e.1, e.1, 1, 0⟩) = true := by
  decide +kernel

theorem expandingForms_fixed : ∀ e ∈ expandingForms, ∀ m ∈ e.2, upperForm m = [m] := by
  decide +kernel

/-- The tables leave the upper-case forms of a run as they are. -/
theorem upperForm_apply {r : CaseRun} {n : Nat} (hr : r ∈ caseRuns) (hn : r.covers n = true) :
    upperForm (r.apply n) = [r.apply n] := by
  have hlookup : expandingForms.lookup (r.apply n) = none := by
    refine List.lookup_eq_none_iff.mpr fun e he => ?_
    have hall := List.all_eq_true.mp caseRuns_avoid_expandingForms r hr
    have hout := CaseRun.covers_apply (List.all_eq_true.mp hall e he) hn
    rw [bne_iff_ne]
    intro heq
    simp [CaseRun.covers, heq] at hout
  have hfind : caseRuns.find? (·.covers (r.apply n)) = none :=
    List.find?_eq_none.mpr fun t ht => by
      have hall := List.all_eq_true.mp caseRuns_avoid_caseRuns r hr
      simp [CaseRun.covers_apply (List.all_eq_true.mp hall t ht) hn]
  simp only [upperForm, hlookup, hfind]

/-- **Upper case is final.** A number in an upper-case form is its own upper-case form. -/
theorem upperForm_of_mem_upperForm {n m : Nat} (h : m ∈ upperForm n) : upperForm m = [m] := by
  cases hlookup : expandingForms.lookup n with
  | some ns =>
    obtain ⟨as, bs, heq, -⟩ := List.lookup_eq_some_iff.mp hlookup
    have hform : upperForm n = ns := by simp only [upperForm, hlookup]
    exact expandingForms_fixed (n, ns) (by simp [heq]) m (hform ▸ h)
  | none =>
    cases hfind : caseRuns.find? (·.covers n) with
    | some run =>
      have hform : upperForm n = [run.apply n] := by simp only [upperForm, hlookup, hfind]
      rw [hform, List.mem_singleton] at h
      have hcovers : run.covers n = true := by
        simpa using List.find?_some hfind
      rw [h]
      exact upperForm_apply (List.mem_of_find?_eq_some hfind) hcovers
    | none =>
      have hform : upperForm n = [n] := by simp only [upperForm, hlookup, hfind]
      rw [hform, List.mem_singleton] at h
      rw [h, hform]

theorem upperChar_of_mem_upperChar {c d : CodePoint} (h : d ∈ upperChar c) :
    upperChar d = [d] := by
  cases d with
  | surrogate i => rfl
  | scalar d =>
    have hfixed : upperForm d.toNat = [d.toNat] := by
      cases c with
      | surrogate i => exact absurd (List.mem_singleton.mp h) (by simp)
      | scalar c =>
        rw [upperChar_scalar, List.mem_map] at h
        obtain ⟨m, hm, heq⟩ := h
        rw [← CodePoint.val_scalar d, ← heq]
        obtain hval | hval := CodePoint.val_ofNat m
        · rw [hval, upperForm_of_mem_upperForm hm]
        · rw [hval, upperForm_ascii (by decide)]
          rfl
    rw [upperChar_scalar, hfixed, List.map_singleton, ← CodePoint.val_scalar d,
      CodePoint.ofNat_val]

theorem upperChar_ascii {c : CodePoint} (hascii : c.val < 0x80)
    (hsmall : ¬(0x61 ≤ c.val ∧ c.val ≤ 0x7A)) : upperChar c = [c] := by
  cases c with
  | surrogate i => rfl
  | scalar c =>
    rw [CodePoint.val_scalar] at hascii hsmall
    rw [upperChar_scalar, upperForm_ascii hascii, if_neg hsmall, List.map_singleton,
      ← CodePoint.val_scalar c, CodePoint.ofNat_val]

theorem upperChar_of_isCapital {c : CodePoint} (h : isCapital c = true) : upperChar c = [c] := by
  simp only [isCapital, Bool.and_eq_true, decide_eq_true_eq] at h
  exact upperChar_ascii (by omega) (by omega)

theorem upperChar_of_isPlainDigit {c : CodePoint} (h : isPlainDigit c = true) :
    upperChar c = [c] := by
  simp only [isPlainDigit, Bool.and_eq_true, decide_eq_true_eq] at h
  exact upperChar_ascii (by omega) (by omega)

theorem upperChar_of_mem_upper {cs : Text} {d : CodePoint} (h : d ∈ upper cs) :
    upperChar d = [d] := by
  obtain ⟨c, -, hd⟩ := List.mem_flatMap.mp h
  exact upperChar_of_mem_upperChar hd

theorem upper_upper (cs : Text) : upper (upper cs) = upper cs :=
  upper_eq_self fun _ hc => upperChar_of_mem_upper hc

end Text

namespace Code

open Text

/-! ## Keys -/

theorem key_key (code : Text) : key (key code) = key code := by
  have hfixed : upper (key code) = key code := upper_upper (squeeze code)
  have hsqueezed : squeeze (key code) = key code := by
    rw [key, squeeze_upper, squeeze_squeeze]
  conv_lhs => rw [key]
  rw [hsqueezed, hfixed]

/-! ## Canonical forms -/

namespace Shaped

variable {l b d s : Text}

theorem upper_eq (h : Shaped l b d s) : upper (l ++ (b ++ (d ++ s))) = l ++ (b ++ (d ++ s)) := by
  refine upper_eq_self fun c hc => ?_
  simp only [List.mem_append] at hc
  rcases hc with hc | hc | hc | hc
  · exact upperChar_of_isCapital (h.letters c hc)
  · exact upperChar_of_isBlank (h.blanks c hc)
  · exact upperChar_of_isPlainDigit (h.digits c hc)
  · exact upperChar_of_isCapital (h.suffix c hc)

theorem isTrimmed (h : Shaped l b d s) : IsTrimmed (l ++ (b ++ (d ++ s))) where
  first := by
    obtain ⟨hl2, -⟩ := h.letters_length
    cases l with
    | nil => simp at hl2
    | cons a l =>
      intro c hc
      obtain rfl := Option.mem_some.mp hc
      exact isBlank_of_isCapital (h.letters a List.mem_cons_self)
  last := by
    intro c hc
    obtain ⟨a, ds, rfl, -⟩ := h.exists_digit
    have hend : c ∈ a :: ds ++ s := by
      have hlast : (l ++ (b ++ (a :: ds ++ s))).getLast? = (a :: ds ++ s).getLast? := by
        rw [← List.append_assoc, List.getLast?_append_of_ne_nil _ (by simp)]
      exact List.mem_of_getLast? (hlast ▸ hc)
    rcases List.mem_append.mp hend with hc | hc
    · exact isBlank_of_isPlainDigit (h.digits c hc)
    · exact isBlank_of_isCapital (h.suffix c hc)

theorem trim_upper (h : Shaped l b d s) :
    trim (upper (l ++ (b ++ (d ++ s)))) = l ++ (b ++ (d ++ s)) := by
  rw [h.upper_eq, trim_eq_self h.isTrimmed]

theorem canonical_eq (h : Shaped l b d s) :
    canonical (l ++ (b ++ (d ++ s))) = l ++ (" " ++ (dropZeros d ++ s)) := by
  have hparts : Code.parts? (trim (upper (l ++ (b ++ (d ++ s))))) = some (l, dropZeros d ++ s) := by
    rw [h.trim_upper, h.parts?]
  rw [canonical_of_parts? hparts, List.append_assoc]

end Shaped

theorem trim_upper_canonical (code : Text) : trim (upper (canonical code)) = canonical code := by
  by_cases h : IsShaped code
  · obtain ⟨q, hq⟩ := Option.isSome_iff_exists.mp h
    obtain ⟨l, b, d, s, hshape, -, rfl⟩ := parts?_eq_some_iff.mp hq
    rw [canonical_of_parts? hq, List.append_assoc]
    exact hshape.shown.trim_upper
  · rw [canonical_of_not_isShaped h, upper_eq_self, trim_trim]
    exact fun c hc => upperChar_of_mem_upper (trim_subset _ hc)

theorem isShaped_canonical {code : Text} : IsShaped (canonical code) ↔ IsShaped code := by
  rw [IsShaped, trim_upper_canonical, parts?_canonical, IsShaped]

theorem canonical_canonical (code : Text) : canonical (canonical code) = canonical code := by
  by_cases h : IsShaped code
  · obtain ⟨q, hq⟩ := Option.isSome_iff_exists.mp h
    have hagain : parts? (trim (upper (canonical code))) = some q := by
      rw [trim_upper_canonical, parts?_canonical, hq]
    rw [canonical_of_parts? hagain, canonical_of_parts? hq]
  · rw [canonical_of_not_isShaped (mt isShaped_canonical.mp h), trim_upper_canonical]

/-! ## The key of a canonical form -/

/-- Whether a text is a course code whose number has zeros that its canonical form has not. -/
def HasNeedlessZeros (code : Text) : Prop :=
  ∃ l b d s, Shaped l b d s ∧ trim (upper code) = l ++ (b ++ (d ++ s)) ∧ dropZeros d ≠ d

theorem HasNeedlessZeros.isShaped {code : Text} (h : HasNeedlessZeros code) : IsShaped code := by
  obtain ⟨l, b, d, s, hshape, heq, -⟩ := h
  rw [IsShaped, heq, hshape.parts?]
  rfl

theorem key_canonical (code : Text) : key (canonical code) = squeeze (canonical code) := by
  rw [key_eq_squeeze, trim_upper_canonical]

theorem key_canonical_of_not_isShaped {code : Text} (h : ¬IsShaped code) :
    key (canonical code) = key code := by
  rw [key_canonical, canonical_of_not_isShaped h, ← key_eq_squeeze]

/-- **The canonical form** has the key of the code exactly if there are no needless zeros. -/
theorem key_canonical_eq_iff {code : Text} :
    key (canonical code) = key code ↔ ¬HasNeedlessZeros code := by
  by_cases h : IsShaped code
  · obtain ⟨q, hq⟩ := Option.isSome_iff_exists.mp h
    obtain ⟨l, b, d, s, hshape, heq, rfl⟩ := parts?_eq_some_iff.mp hq
    have hkey : key code = l ++ (d ++ s) := by rw [key_eq_squeeze, heq, hshape.squeeze]
    have hcanonical : key (canonical code) = l ++ (dropZeros d ++ s) := by
      rw [key_canonical, canonical_of_parts? hq, List.append_assoc, hshape.shown.squeeze]
    rw [hkey, hcanonical, List.append_cancel_left_eq, List.append_cancel_right_eq]
    constructor
    · rintro hzeros ⟨l', b', d', s', hshape', heq', hne⟩
      -- The parts of a shaped text are determined by it.
      have hkey' : key code = l' ++ (d' ++ s') := by rw [key_eq_squeeze, heq', hshape'.squeeze]
      have hread := hshape'.parts?
      rw [← heq', hq] at hread
      obtain ⟨rfl, hnumber⟩ := Prod.mk.inj (Option.some.inj hread)
      rw [hkey, List.append_cancel_left_eq] at hkey'
      rw [hzeros, hkey', List.append_cancel_right_eq] at hnumber
      exact hne hnumber.symm
    · intro hno
      by_contra hne
      exact hno ⟨l, b, d, s, hshape, heq, hne⟩
  · exact ⟨fun _ hzeros => h hzeros.isShaped, fun _ => key_canonical_of_not_isShaped h⟩

instance (code : Text) : Decidable (HasNeedlessZeros code) :=
  decidable_of_iff (key (canonical code) ≠ key code)
    ((not_congr key_canonical_eq_iff).trans Classical.not_not)

end Code

end DegreeAudit
