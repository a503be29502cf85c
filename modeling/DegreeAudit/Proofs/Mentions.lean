import DegreeAudit.Prereq.Graph
import DegreeAudit.Proofs.FixedForm
import DegreeAudit.Text.Split
import Mathlib.Data.List.Nodup

/-!
# What a text mentions

A mention is found by its place: it starts where no word goes on, and it ends where no word goes on.

**One mention.** `mentionAt?` reads exactly the brief texts that stand as a word (`Brief`,
`mentionAt?_eq_some_iff`). A brief text is shaped as a code, but with at most five letters in front
and at most one behind.

**A text in parts.** What comes before a capital letter is read alone if it does not end with a word
character, because no mention leads over such a place (`scan_append`). So a code in canonical form
that stands as a word is found wherever it stands, if it is brief, and is passed over as a whole if
it is not (`scan_code`).

**Codes read back.** Codes that are joined by a comma or by a word are found in their order
(`mentioned_join`), and a code that a text names is among those that it mentions
(`mem_mentioned_iff_of_names`).
-/

namespace DegreeAudit

open Text Code

namespace Text

/-! ## Word characters -/

theorem isLetter_of_isCapital {c : CodePoint} (h : isCapital c = true) : isLetter c = true := by
  simp only [isCapital, Bool.and_eq_true, decide_eq_true_eq] at h
  exact CharSet.has_iff.mpr ⟨(0x41, 0x5A), List.mem_cons_self, h.1, h.2⟩

theorem isDecimal_of_isPlainDigit {c : CodePoint} (h : isPlainDigit c = true) :
    isDecimal c = true := by
  simp only [isPlainDigit, Bool.and_eq_true, decide_eq_true_eq] at h
  exact CharSet.has_iff.mpr ⟨(0x30, 0x39), List.mem_cons_self, h.1, h.2⟩

theorem isWordChar_of_isCapital {c : CodePoint} (h : isCapital c = true) :
    isWordChar c = true := by
  rw [isWordChar, isLetter_of_isCapital h, Bool.true_or, Bool.true_or, Bool.true_or]

theorem isWordChar_of_isPlainDigit {c : CodePoint} (h : isPlainDigit c = true) :
    isWordChar c = true := by
  rw [isWordChar, isDigit, isDecimal_of_isPlainDigit h, Bool.true_or, Bool.or_true, Bool.true_or,
    Bool.true_or]

theorem isCapital_of_not_isWordChar {c : CodePoint} (h : isWordChar c = false) :
    isCapital c = false := by
  rw [Bool.eq_false_iff]
  intro hcapital
  rw [isWordChar_of_isCapital hcapital] at h
  exact Bool.false_ne_true h.symm

theorem isPlainDigit_of_not_isWordChar {c : CodePoint} (h : isWordChar c = false) :
    isPlainDigit c = false := by
  rw [Bool.eq_false_iff]
  intro hdigit
  rw [isWordChar_of_isPlainDigit hdigit] at h
  exact Bool.false_ne_true h.symm

end Text

namespace Prereq

/-! ## One mention -/

/-- The parts of a text that can be a mention: it is shaped as a code, with few letters on both
sides and few digits. -/
structure Brief (l b d s : Text) : Prop extends Shaped l b d s where
  letters_le : l.length ≤ 5
  digits_le : d.length ≤ 3
  suffix_le : s.length ≤ 1

/-- The characters after a mention start with no word character. -/
def Bounded (rest : Text) : Prop := ∀ c ∈ rest.head?, isWordChar c = false

instance (rest : Text) : Decidable (Bounded rest) :=
  inferInstanceAs (Decidable (∀ c ∈ rest.head?, _))

theorem two_le_length_dropZeros {ds : Text} (h : 2 ≤ ds.length) : 2 ≤ (dropZeros ds).length := by
  fun_induction dropZeros ds with
  | case1 d e ds ih => exact ih (by simp)
  | case2 ds _ => exact h

namespace Brief

variable {l b d s : Text}

theorem two_le_digits (h : Brief l b d s) : 2 ≤ d.length :=
  h.number_length.1.trans (dropZeros_suffix d).length_le

/-- The characters of a mention, as they are counted. -/
theorem length (l b d s : Text) :
    (l ++ (b ++ (d ++ s))).length = l.length + b.length + d.length + s.length := by
  simp only [List.length_append]
  omega

end Brief

/-- The letter that a mention may end with, and what follows. -/
def readSuffix : Text → Text × Text
  | c :: rest => if isCapital c then ([c], rest) else ([], c :: rest)
  | [] => ([], [])

/-- Whether no word goes on with a text. -/
def endsWord : Text → Bool
  | c :: _ => !isWordChar c
  | [] => true

theorem mentionAt?_of_parts {cs l r r' : Text} {d : Text} (hl : spanCapitals cs = (l, r))
    (hd : spanPlainDigits (r.dropWhile isBlank) = (d, r')) :
    mentionAt? cs =
      if 2 ≤ l.length ∧ l.length ≤ 5 ∧ 2 ≤ d.length ∧ d.length ≤ 3 ∧ endsWord (readSuffix r').2 then
        some (l ++ " " ++ d ++ (readSuffix r').1,
          l.length + (r.takeWhile isBlank).length + d.length + (readSuffix r').1.length)
      else none := by
  simp only [mentionAt?, hl, hd]
  cases r' <;> rfl

theorem endsWord_iff {rest : Text} : endsWord rest = true ↔ Bounded rest := by
  cases rest with
  | nil => simp [endsWord, Bounded]
  | cons c rest => simp [endsWord, Bounded]

theorem readSuffix_append {s rest : Text} (hs : ∀ c ∈ s, isCapital c = true) (hle : s.length ≤ 1)
    (hrest : Bounded rest) : readSuffix (s ++ rest) = (s, rest) := by
  cases s with
  | nil =>
    cases rest with
    | nil => rfl
    | cons c rest => simp [readSuffix, isCapital_of_not_isWordChar (hrest c rfl)]
  | cons a s =>
    have hs' : s = [] := List.eq_nil_of_length_eq_zero (by simpa using hle)
    simp [readSuffix, hs', hs a List.mem_cons_self]

theorem readSuffix_spec (rest : Text) : (∀ c ∈ (readSuffix rest).1, isCapital c = true) ∧
    (readSuffix rest).1.length ≤ 1 ∧ (readSuffix rest).1 ++ (readSuffix rest).2 = rest := by
  cases rest with
  | nil => simp [readSuffix]
  | cons c rest => by_cases hc : isCapital c = true <;> simp [readSuffix, hc]

theorem spans {l b d rest : Text} (hl : ∀ c ∈ l, isCapital c = true)
    (hb : ∀ c ∈ b, isBlank c = true) (hd : ∀ c ∈ d, isPlainDigit c = true) (hne : d ≠ [])
    (hrest : ∀ c ∈ rest.head?, isPlainDigit c = false) :
    spanCapitals (l ++ (b ++ (d ++ rest))) = (l, b ++ (d ++ rest)) ∧
      (b ++ (d ++ rest)).takeWhile isBlank = b ∧
      spanPlainDigits ((b ++ (d ++ rest)).dropWhile isBlank) = (d, rest) := by
  obtain ⟨a, ds, rfl⟩ := List.exists_cons_of_ne_nil hne
  have ha := hd a List.mem_cons_self
  have hblanks : (b ++ (a :: ds ++ rest)).span isBlank = (b, a :: ds ++ rest) := by
    refine span_append hb fun c hc => ?_
    obtain rfl := Option.mem_some.mp hc
    exact isBlank_of_isPlainDigit ha
  rw [List.span_eq_takeWhile_dropWhile] at hblanks
  obtain ⟨htake, hdrop⟩ := Prod.mk.inj hblanks
  refine ⟨span_append hl fun c hc => ?_, htake, ?_⟩
  swap
  · rw [hdrop]
    exact span_append hd hrest
  cases b with
  | nil =>
    obtain rfl := Option.mem_some.mp hc
    exact isCapital_of_isPlainDigit ha
  | cons a' bs =>
    obtain rfl := Option.mem_some.mp hc
    exact isCapital_of_isBlank (hb a' List.mem_cons_self)

/-- After the digits of a mention come its suffix and the end of the word, and no digit. -/
theorem not_isPlainDigit_head {s rest : Text} (hs : ∀ c ∈ s, isCapital c = true)
    (hrest : Bounded rest) : ∀ c ∈ (s ++ rest).head?, isPlainDigit c = false := by
  intro c hc
  cases s with
  | nil => exact isPlainDigit_of_not_isWordChar (hrest c hc)
  | cons a s =>
    obtain rfl := Option.mem_some.mp hc
    exact isPlainDigit_of_isCapital (hs a List.mem_cons_self)

/-- Exactly the brief texts that stand at the start as a word are mentions there. -/
theorem mentionAt?_eq_some_iff {cs code : Text} {n : Nat} :
    mentionAt? cs = some (code, n) ↔ ∃ l b d s rest, Brief l b d s ∧ Bounded rest ∧
      cs = l ++ (b ++ (d ++ (s ++ rest))) ∧ code = l ++ " " ++ d ++ s ∧
      n = (l ++ (b ++ (d ++ s))).length := by
  constructor
  · intro h
    rw [mentionAt?_of_parts (List.span_eq_takeWhile_dropWhile ..)
      (List.span_eq_takeWhile_dropWhile ..), Option.ite_none_right_eq_some, Option.some.injEq,
      Prod.mk.injEq] at h
    obtain ⟨⟨hl2, hl5, hd2, hd3, hends⟩, rfl, rfl⟩ := h
    obtain ⟨hsuffix, hsuffix_le, hparts⟩ := readSuffix_spec
      (((cs.dropWhile isCapital).dropWhile isBlank).dropWhile isPlainDigit)
    refine ⟨_, (cs.dropWhile isCapital).takeWhile isBlank, _, _, _,
      ⟨⟨?_, ?_, ?_, hsuffix, ⟨hl2, by omega⟩, ⟨two_le_length_dropZeros hd2, ?_⟩, by omega⟩,
        hl5, hd3, hsuffix_le⟩, endsWord_iff.mp hends, ?_, rfl, (Brief.length ..).symm⟩
    · exact fun c hc => List.mem_takeWhile_imp hc
    · exact fun c hc => List.mem_takeWhile_imp hc
    · exact fun c hc => List.mem_takeWhile_imp hc
    · exact (dropZeros_suffix _).length_le.trans hd3
    · rw [hparts, List.takeWhile_append_dropWhile, List.takeWhile_append_dropWhile,
        List.takeWhile_append_dropWhile]
  · rintro ⟨l, b, d, s, rest, hbrief, hrest, rfl, rfl, rfl⟩
    have hne : d ≠ [] := List.ne_nil_of_length_pos (by have := hbrief.two_le_digits; omega)
    obtain ⟨hletters, htake, hdigits⟩ := spans hbrief.letters hbrief.blanks hbrief.digits hne
      (not_isPlainDigit_head hbrief.suffix hrest)
    rw [mentionAt?_of_parts hletters hdigits, htake,
      readSuffix_append hbrief.suffix hbrief.suffix_le hrest, Brief.length]
    exact if_pos ⟨hbrief.letters_length.1, hbrief.letters_le, hbrief.two_le_digits,
      hbrief.digits_le, endsWord_iff.mpr hrest⟩

/-! ## A text in parts -/

/-- A text ends with no word character. -/
def Closed (before : Text) : Prop := ∀ c ∈ before.getLast?, isWordChar c = false

instance (before : Text) : Decidable (Closed before) :=
  inferInstanceAs (Decidable (∀ c ∈ before.getLast?, _))

theorem Closed.exists_of_append {init part : Text} (h : Closed (init ++ part)) (hne : part ≠ []) :
    ∃ c ∈ part, isWordChar c = false := by
  refine ⟨part.getLast hne, List.getLast_mem hne, h _ ?_⟩
  rw [List.getLast?_append_of_ne_nil _ hne]
  exact List.getLast_mem_getLast? hne

namespace Brief

variable {l b d s : Text}

theorem isWordChar_of_mem (h : Brief l b d s) {c : CodePoint} (hc : c ∈ l ∨ c ∈ d ++ s) :
    isWordChar c = true := by
  rw [List.mem_append] at hc
  rcases hc with hc | hc | hc
  · exact isWordChar_of_isCapital (h.letters c hc)
  · exact isWordChar_of_isPlainDigit (h.digits c hc)
  · exact isWordChar_of_isCapital (h.suffix c hc)

/-- The part of a mention before a place where no word goes on ends in the blanks. -/
theorem blanks_of_closed (h : Brief l b d s) {before after : Text}
    (heq : l ++ (b ++ (d ++ s)) = before ++ after) (hne : before ≠ []) (hclosed : Closed before) :
    ∃ rest, (∀ c ∈ rest, isBlank c = true) ∧ after = rest ++ (d ++ s) := by
  have hword : ∀ init part, before = init ++ part → part ≠ [] →
      ¬∀ c ∈ part, c ∈ l ∨ c ∈ d ++ s := by
    rintro init part rfl hpart hmem
    obtain ⟨c, hc, hno⟩ := hclosed.exists_of_append hpart
    rw [h.isWordChar_of_mem (hmem c hc)] at hno
    exact Bool.false_ne_true hno.symm
  rcases List.append_eq_append_iff.mp heq with ⟨gap, hbefore, hgap⟩ | ⟨more, hl, -⟩
  · rcases List.append_eq_append_iff.mp hgap with ⟨tail, hgap', htail⟩ | ⟨more, hb, hmore⟩
    · cases tail with
      | nil => exact ⟨[], by simp, htail.symm⟩
      | cons c tail =>
        refine absurd (fun a ha => .inr (htail ▸ List.mem_append_left _ ha))
          (hword (l ++ b) (c :: tail) ?_ (by simp))
        rw [hbefore, hgap', List.append_assoc]
    · exact ⟨more, fun c hc => h.blanks c (hb ▸ List.mem_append_right _ hc), hmore⟩
  · exact absurd (fun a ha => .inl (hl ▸ List.mem_append_left _ ha)) (hword [] before rfl hne)

/-- A mention ends with a word character. -/
theorem not_closed (h : Brief l b d s) : ¬Closed (l ++ (b ++ (d ++ s))) := by
  intro hclosed
  obtain ⟨a, ds, rfl, -⟩ := h.exists_digit
  have hwhole := (List.append_nil (l ++ (b ++ (a :: ds ++ s)))).symm
  obtain ⟨rest, -, hnil⟩ := h.blanks_of_closed hwhole (by simp) hclosed
  simp at hnil

end Brief

/-- A mention does not lead over a place where no word goes on and that a capital letter follows. -/
theorem mentionAt?_append {before rest : Text} (hne : before ≠ []) (hclosed : Closed before)
    (hrest : ∀ c ∈ rest.head?, isCapital c = true) :
    mentionAt? (before ++ rest) = mentionAt? before := by
  refine Option.ext fun ⟨code, n⟩ => ?_
  rw [mentionAt?_eq_some_iff, mentionAt?_eq_some_iff]
  constructor
  · rintro ⟨l, b, d, s, tail, hbrief, htail, heq, rfl, rfl⟩
    have heq' : before ++ rest = (l ++ (b ++ (d ++ s))) ++ tail := by simp [heq]
    rcases List.append_eq_append_iff.mp heq' with ⟨part, hpart, hrest'⟩ | ⟨tail', hbefore, htail'⟩
    · -- The mention would go on with a blank or a digit.
      obtain ⟨blanks, hblanks, rfl⟩ := hbrief.blanks_of_closed hpart hne hclosed
      obtain ⟨a, ds, rfl, ha⟩ := hbrief.exists_digit
      cases blanks with
      | nil =>
        have hcapital := hrest a (by rw [hrest']; rfl)
        rw [isCapital_of_isPlainDigit ha] at hcapital
        exact absurd hcapital Bool.false_ne_true
      | cons c blanks =>
        have hcapital := hrest c (by rw [hrest']; rfl)
        rw [isCapital_of_isBlank (hblanks c List.mem_cons_self)] at hcapital
        exact absurd hcapital Bool.false_ne_true
    · refine ⟨l, b, d, s, tail', hbrief, fun c hc => htail c ?_, by simp [hbefore], rfl, rfl⟩
      rw [htail', List.head?_append, Option.mem_def.mp hc]
      rfl
  · rintro ⟨l, b, d, s, tail, hbrief, htail, heq, rfl, rfl⟩
    refine ⟨l, b, d, s, tail ++ rest, hbrief, fun c hc => ?_, by simp [heq], rfl, rfl⟩
    cases tail with
    | nil => exact absurd (by simpa [heq] using hclosed) hbrief.not_closed
    | cons a tail => exact htail c hc

/-- Before a place where no word goes on and that a capital letter follows, a text is gone through
by itself. -/
theorem scan_append {before rest : Text} (hclosed : Closed before)
    (hrest : ∀ c ∈ rest.head?, isCapital c = true) {inside : Bool} {skip : Nat}
    (hskip : skip ≤ before.length) (hinside : before = [] → inside = false) :
    scan inside skip (before ++ rest) = scan inside skip before ++ scan false 0 rest := by
  induction before generalizing inside skip with
  | nil =>
    obtain rfl := Nat.le_zero.mp hskip
    rw [hinside rfl, List.nil_append, scan.eq_1, List.nil_append]
  | cons c cs ih =>
    have hclosed' : Closed cs := by
      cases cs with
      | nil => simp [Closed]
      | cons a cs => rwa [Closed, List.getLast?_cons_cons] at hclosed
    have hinside' : cs = [] → isWordChar c = false := by
      rintro rfl
      exact hclosed c rfl
    rw [List.length_cons] at hskip
    cases skip with
    | succ skip =>
      rw [List.cons_append, scan, scan]
      exact ih hclosed' (by omega) hinside'
    | zero =>
      cases inside with
      | true =>
        rw [List.cons_append, scan, scan]
        exact ih hclosed' (by omega) hinside'
      | false =>
        have hmention := mentionAt?_append (List.cons_ne_nil c cs) hclosed hrest
        rw [List.cons_append] at hmention ⊢
        rw [scan, scan]
        simp only [Bool.false_eq_true, if_false, hmention]
        cases hfound : mentionAt? (c :: cs) with
        | none => exact ih hclosed' (by omega) hinside'
        | some found =>
          obtain ⟨code, n⟩ := found
          obtain ⟨l, b, d, s, tail, hbrief, -, heq, -, rfl⟩ := mentionAt?_eq_some_iff.mp hfound
          have hlength := congrArg List.length heq
          have hl := hbrief.letters_length.1
          simp only [List.length_append, List.length_cons] at hlength ⊢
          rw [List.cons_append]
          refine congrArg (code :: ·) (ih hclosed' (by omega) ?_)
          rintro rfl
          simp only [List.length_nil] at hlength
          omega

theorem scan_skip {part after : Text} (hword : ∀ c ∈ part.getLast?, isWordChar c = true)
    {inside : Bool} (hinside : part = [] → inside = true) :
    scan inside part.length (part ++ after) = scan true 0 after := by
  induction part generalizing inside with
  | nil => rw [hinside rfl, List.nil_append, List.length_nil]
  | cons c cs ih =>
    rw [List.length_cons, List.cons_append, scan]
    apply ih
    · cases cs with
      | nil => simp
      | cons a cs => rwa [List.getLast?_cons_cons] at hword
    · rintro rfl
      exact hword c rfl

theorem scan_word {word after : Text} (hword : ∀ c ∈ word, isWordChar c = true) :
    scan true 0 (word ++ after) = scan true 0 after := by
  induction word with
  | nil => rfl
  | cons c cs ih =>
    rw [List.cons_append, scan]
    simp only [if_true, hword c List.mem_cons_self]
    exact ih fun a ha => hword a (List.mem_cons_of_mem c ha)

end Prereq

/-! ## Canonical forms -/

namespace Code

/-- Whether a text is a course code in canonical form: subject, one space, number, and nothing that
its canonical form does not have. -/
structure IsCanonical (code : Text) : Prop where
  fixed : canonical code = code
  spelled : ∃ l d s : Text, code = l ++ " " ++ d ++ s ∧
    (∀ c ∈ l, isCapital c = true) ∧ (2 ≤ l.length ∧ l.length ≤ 10) ∧
    (∀ c ∈ d, isPlainDigit c = true) ∧ (2 ≤ d.length ∧ d.length ≤ 3) ∧
    (∀ c ∈ s, isCapital c = true) ∧ s.length ≤ 2

theorem isCanonical_iff {code : Text} : IsCanonical code ↔
    ∃ l d s, Shaped l (" " : Text) d s ∧ dropZeros d = d ∧ code = l ++ (" " ++ (d ++ s)) := by
  constructor
  · rintro ⟨hfixed, l, d, s, rfl, hl, hllen, hd, ⟨hd2, hd3⟩, hs, hslen⟩
    have hshape : Shaped l (" " : Text) d s :=
      ⟨hl, by decide, hd, hs, hllen,
        ⟨Prereq.two_le_length_dropZeros hd2, (dropZeros_suffix d).length_le.trans hd3⟩, hslen⟩
    have hassoc : l ++ " " ++ d ++ s = l ++ (" " ++ (d ++ s)) := by simp only [List.append_assoc]
    rw [hassoc, hshape.canonical_eq] at hfixed
    refine ⟨l, d, s, hshape, ?_, hassoc⟩
    simpa only [List.append_cancel_left_eq, List.append_cancel_right_eq] using hfixed
  · rintro ⟨l, d, s, hshape, hzeros, rfl⟩
    have hnumber := hshape.number_length
    rw [hzeros] at hnumber
    exact ⟨by rw [hshape.canonical_eq, hzeros], l, d, s, by simp only [List.append_assoc],
      hshape.letters, hshape.letters_length, hshape.digits, hnumber, hshape.suffix,
      hshape.suffix_length⟩

/-- A canonical form is what is left unchanged of the texts that are spelled as codes. -/
theorem isCanonical_iff_isShaped {code : Text} :
    IsCanonical code ↔ canonical code = code ∧ IsShaped code := by
  rw [isCanonical_iff]
  constructor
  · rintro h
    refine ⟨(isCanonical_iff.mpr h).fixed, ?_⟩
    obtain ⟨l, d, s, hshape, -, rfl⟩ := h
    rw [IsShaped, hshape.trim_upper, hshape.parts?]
    rfl
  · rintro ⟨hfixed, hshaped⟩
    obtain ⟨q, hq⟩ := Option.isSome_iff_exists.mp hshaped
    obtain ⟨l, b, d, s, hshape, -, rfl⟩ := parts?_eq_some_iff.mp hq
    refine ⟨l, dropZeros d, s, hshape.shown, dropZeros_dropZeros d, ?_⟩
    rw [← hfixed, canonical_of_parts? hq, List.append_assoc]

instance (code : Text) : Decidable (IsCanonical code) :=
  decidable_of_iff _ isCanonical_iff_isShaped.symm

theorem IsCanonical.upper_eq {code : Text} (h : IsCanonical code) : upper code = code := by
  obtain ⟨l, d, s, hshape, -, rfl⟩ := isCanonical_iff.mp h
  exact hshape.upper_eq

theorem IsCanonical.isCapital_head {code : Text} (h : IsCanonical code) (after : Text) :
    ∀ c ∈ (code ++ after).head?, isCapital c = true := by
  obtain ⟨l, d, s, hshape, -, rfl⟩ := isCanonical_iff.mp h
  intro c hc
  cases l with
  | nil => exact absurd hshape.letters_length.1 (by decide)
  | cons a l =>
    obtain rfl := Option.mem_some.mp hc
    exact hshape.letters a List.mem_cons_self

theorem IsCanonical.key_ne {code : Text} (h : IsCanonical code) : key code ≠ "" := by
  intro hkey
  have hempty : canonical code = [] := canonical_eq_nil_iff.mpr hkey
  rw [h.fixed] at hempty
  obtain ⟨l, d, s, hshape, -, rfl⟩ := isCanonical_iff.mp h
  exact absurd (List.append_eq_nil_iff.mp hempty).2 (by simp [ofString, ofChars])

theorem IsCanonical.eq_of_key {code code' : Text} (h : IsCanonical code) (h' : IsCanonical code')
    (hkey : key code = key code') : code = code' := by
  have hsame := (canonical_eq_iff hkey).mpr
    (.inr ⟨(isCanonical_iff_isShaped.mp h).2, (isCanonical_iff_isShaped.mp h').2⟩)
  rwa [h.fixed, h'.fixed] at hsame

end Code

namespace Prereq

/-- Whether a code has at most five letters in front of its number and at most one behind. -/
def IsShort (code : Text) : Prop :=
  (code.takeWhile isCapital).length ≤ 5 ∧ (code.reverse.takeWhile isCapital).length ≤ 1

instance (code : Text) : Decidable (IsShort code) := inferInstanceAs (Decidable (_ ∧ _))

theorem isShort_iff {l d s : Text} (h : Shaped l (" " : Text) d s) :
    IsShort (l ++ (" " ++ (d ++ s))) ↔ l.length ≤ 5 ∧ s.length ≤ 1 := by
  obtain ⟨a, ds, rfl, ha⟩ := h.exists_digit
  have hfront : (l ++ (" " ++ (a :: ds ++ s))).span isCapital = (l, " " ++ (a :: ds ++ s)) :=
    span_append h.letters fun c hc => by
      obtain rfl := Option.mem_some.mp hc
      rfl
  have hback : (s.reverse ++ ((a :: ds).reverse ++ (" " ++ l.reverse))).span isCapital =
      (s.reverse, (a :: ds).reverse ++ (" " ++ l.reverse)) := by
    refine span_append (fun c hc => h.suffix c (List.mem_reverse.mp hc)) fun c hc => ?_
    have hmem : c ∈ (a :: ds).reverse := by
      rw [List.head?_append_of_ne_nil _ (by simp)] at hc
      exact List.mem_of_mem_head? hc
    exact isCapital_of_isPlainDigit (h.digits c (List.mem_reverse.mp hmem))
  rw [List.span_eq_takeWhile_dropWhile] at hfront hback
  have hreverse : (l ++ (" " ++ (a :: ds ++ s))).reverse =
      s.reverse ++ ((a :: ds).reverse ++ (" " ++ l.reverse)) := by
    simp only [List.reverse_append, List.append_assoc]
    rfl
  rw [IsShort, hreverse, (Prod.mk.inj hfront).1, (Prod.mk.inj hback).1, List.length_reverse]

/-- At a code in canonical form there is a mention if the code is short. -/
theorem mentionAt?_code {l d s after : Text} (h : Shaped l (" " : Text) d s)
    (hzeros : dropZeros d = d) (hafter : Bounded after) :
    mentionAt? (l ++ (" " ++ (d ++ (s ++ after)))) =
      if l.length ≤ 5 ∧ s.length ≤ 1 then
        some (l ++ (" " ++ (d ++ s)), (l ++ (" " ++ (d ++ s))).length)
      else none := by
  have hnumber := h.number_length
  rw [hzeros] at hnumber
  split
  · next hshort =>
    exact mentionAt?_eq_some_iff.mpr ⟨l, " ", d, s, after, ⟨h, hshort.1, hnumber.2, hshort.2⟩,
      hafter, rfl, by simp only [List.append_assoc], rfl⟩
  · next hlong =>
    have hne : d ≠ [] := List.ne_nil_of_length_pos (by omega)
    obtain ⟨hletters, -, hdigits⟩ := spans h.letters h.blanks h.digits hne
      (not_isPlainDigit_head h.suffix hafter)
    rw [mentionAt?_of_parts hletters hdigits]
    refine if_neg fun ⟨_, hl5, _, _, hends⟩ => hlong ⟨hl5, ?_⟩
    -- A second letter behind the number goes on with the word.
    match s, h.suffix with
    | [], _ => exact Nat.zero_le 1
    | [_], _ => exact Nat.le_refl 1
    | a :: a' :: s, hsuffix =>
      have hnext := isWordChar_of_isCapital (hsuffix a' (by simp))
      simp [readSuffix, hsuffix a (by simp), endsWord, hnext] at hends

theorem scan_of_not_isCapital {inside : Bool} {c : CodePoint} {cs : Text}
    (h : isCapital c = false) : scan inside 0 (c :: cs) = scan (isWordChar c) 0 cs := by
  have hnone : mentionAt? (c :: cs) = none := by
    rw [Option.eq_none_iff_forall_ne_some]
    rintro ⟨code, n⟩ hfound
    obtain ⟨l, b, d, s, rest, hbrief, -, heq, -, -⟩ := mentionAt?_eq_some_iff.mp hfound
    cases l with
    | nil => exact absurd hbrief.letters_length.1 (by decide)
    | cons a l =>
      have hcapital := hbrief.letters a List.mem_cons_self
      rw [← (List.cons.inj heq).1, h] at hcapital
      exact Bool.false_ne_true hcapital
  rw [scan, hnone, ite_self]

theorem scan_space {inside : Bool} (rest : Text) :
    scan inside 0 (" " ++ rest) = scan false 0 rest := by
  have hcons : (" " : Text) ++ rest = (' ' : CodePoint) :: rest := rfl
  have hspace : isWordChar ' ' = false := by decide +kernel
  rw [hcons, scan_of_not_isCapital rfl, hspace]

/-- **A code that stands as a word** is found if it is short, and is passed over as a whole if it is
not. -/
theorem scan_code {code after : Text} (h : IsCanonical code) (hafter : Bounded after) :
    scan false 0 (code ++ after) = [code].filter (IsShort ·) ++ scan true 0 after := by
  obtain ⟨l, d, s, hshape, hzeros, rfl⟩ := isCanonical_iff.mp h
  obtain ⟨a, ds, rfl, ha⟩ := hshape.exists_digit
  have hl : l ≠ [] := List.ne_nil_of_length_pos (by have := hshape.letters_length.1; omega)
  obtain ⟨c, l, rfl⟩ := List.exists_cons_of_ne_nil hl
  have hletter : ∀ x ∈ c :: l, isWordChar x = true := fun x hx =>
    isWordChar_of_isCapital (hshape.letters x hx)
  have hnumber : ∀ x ∈ a :: ds ++ s, isWordChar x = true := by
    intro x hx
    rcases List.mem_append.mp hx with hx | hx
    · exact isWordChar_of_isPlainDigit (hshape.digits x hx)
    · exact isWordChar_of_isCapital (hshape.suffix x hx)
  have hmention := mentionAt?_code hshape hzeros hafter
  have hassoc : c :: l ++ (" " ++ (a :: ds ++ s)) ++ after =
      c :: l ++ (" " ++ (a :: ds ++ (s ++ after))) := by
    simp only [List.append_assoc]
  rw [hassoc, List.cons_append, scan]
  simp only [Bool.false_eq_true, if_false]
  rw [← List.cons_append, hmention]
  by_cases hshort : IsShort (c :: l ++ (" " ++ (a :: ds ++ s)))
  · rw [if_pos ((isShort_iff hshape).mp hshort), List.filter_cons_of_pos (by simpa using hshort)]
    have htail : l ++ (" " ++ (a :: ds ++ (s ++ after))) =
        (l ++ (" " ++ (a :: ds ++ s))) ++ after := by
      simp only [List.append_assoc]
    have hlast : ∀ x ∈ (l ++ (" " ++ (a :: ds ++ s))).getLast?, isWordChar x = true := by
      intro x hx
      rw [List.getLast?_append_of_ne_nil _ (by simp),
        List.getLast?_append_of_ne_nil _ (by simp)] at hx
      exact hnumber x (List.mem_of_getLast? hx)
    rw [htail]
    exact congrArg (_ :: ·) (scan_skip hlast fun _ => rfl)
  · rw [if_neg (mt (isShort_iff hshape).mpr hshort),
      List.filter_cons_of_neg (by simpa using hshort)]
    calc scan (isWordChar c) 0 (l ++ (" " ++ (a :: ds ++ (s ++ after))))
        = scan true 0 (l ++ (" " ++ (a :: ds ++ (s ++ after)))) := by
          rw [hletter c List.mem_cons_self]
      _ = scan true 0 (" " ++ (a :: ds ++ (s ++ after))) :=
          scan_word fun x hx => hletter x (List.mem_cons_of_mem c hx)
      _ = scan false 0 (a :: (ds ++ s ++ after)) := by
          rw [scan_space, List.cons_append, List.append_assoc]
      _ = scan true 0 (ds ++ s ++ after) := by
          rw [scan_of_not_isCapital (isCapital_of_isPlainDigit ha), hnumber a (by simp)]
      _ = scan true 0 after := scan_word fun x hx => hnumber x (List.mem_cons_of_mem a hx)

theorem isShort_of_mem_scan {inside : Bool} {skip : Nat} {cs m : Text}
    (h : m ∈ scan inside skip cs) : IsCanonical (canonical m) ∧ IsShort (canonical m) := by
  fun_induction scan inside skip cs with
  | case1 => exact absurd h List.not_mem_nil
  | case2 inside skip c cs ih => exact ih h
  | case3 inside c cs code n hfound ih =>
    rcases List.mem_cons.mp h with rfl | h
    · cases inside with
      | true => simp at hfound
      | false =>
        simp only [Bool.false_eq_true, if_false] at hfound
        obtain ⟨l, b, d, s, rest, hbrief, -, -, rfl, -⟩ := mentionAt?_eq_some_iff.mp hfound
        have hshape : Shaped l (" " : Text) d s := { hbrief.toShaped with blanks := by decide }
        have hassoc : l ++ " " ++ d ++ s = l ++ (" " ++ (d ++ s)) := by
          simp only [List.append_assoc]
        rw [hassoc, hshape.canonical_eq]
        exact ⟨isCanonical_iff.mpr ⟨l, _, s, hshape.shown, dropZeros_dropZeros d, rfl⟩,
          (isShort_iff hshape.shown).mpr ⟨hbrief.letters_le, hbrief.suffix_le⟩⟩
    · exact ih h
  | case4 inside c cs hfound ih => exact ih h

/-! ## Codes read back -/

theorem mem_keys_distinctCodes {seen : List Key} {codes : List Text} {k : Key} :
    k ∈ (distinctCodes seen codes).map key ↔ k ∈ codes.map key ∧ k ∉ seen := by
  rw [PrereqGraph.map_key_distinctCodes, PrereqGraph.mem_distinctKeys]

theorem distinctCodes_sublist (seen : List Key) (codes : List Text) :
    (distinctCodes seen codes).Sublist codes := by
  fun_induction distinctCodes seen codes with
  | case1 => exact List.Sublist.slnil
  | case2 seen code rest hseen ih => exact ih.cons code
  | case3 seen code rest hseen ih => exact ih.cons_cons code

theorem distinctCodes_eq_self {seen : List Key} {codes : List Text}
    (hnodup : (codes.map key).Nodup) (hseen : ∀ k ∈ codes.map key, k ∉ seen) :
    distinctCodes seen codes = codes := by
  have hkeys : (distinctCodes seen codes).map key = codes.map key := by
    rw [PrereqGraph.map_key_distinctCodes, PrereqGraph.distinctKeys_eq_self hnodup hseen]
  have hlength := congrArg List.length hkeys
  rw [List.length_map, List.length_map] at hlength
  exact (distinctCodes_sublist seen codes).eq_of_length hlength

section

variable {codes : List Text} (hcodes : ∀ code ∈ codes, IsCanonical code)

include hcodes

theorem upper_join (sep : Text) : upper (join sep codes) = join (upper sep) codes := by
  unfold join
  induction codes with
  | nil => rfl
  | cons code rest ih =>
    have hcode := (hcodes code List.mem_cons_self).upper_eq
    have hrest := ih fun c hc => hcodes c (List.mem_cons_of_mem code hc)
    cases rest with
    | nil => rw [List.intercalate_singleton, List.intercalate_singleton, hcode]
    | cons next rest =>
      rw [List.intercalate_cons_cons, List.intercalate_cons_cons, upper_append, upper_append,
        hcode, hrest]

/-- Codes between separators that no word goes on into are found in their order. -/
theorem scan_join {sep : Text} (hsep : sep ≠ []) (hopen : Bounded sep) (hclosed : Closed sep)
    (hnone : scan true 0 sep = []) : scan false 0 (join sep codes) = codes.filter (IsShort ·) := by
  unfold join
  induction codes with
  | nil => rfl
  | cons code rest ih =>
    have hcode := hcodes code List.mem_cons_self
    have hrest := ih fun c hc => hcodes c (List.mem_cons_of_mem code hc)
    cases rest with
    | nil =>
      have hnil : Bounded [] := by simp [Bounded]
      have hend := scan_code hcode hnil
      rw [List.append_nil, scan, List.append_nil] at hend
      rwa [List.intercalate_singleton]
    | cons next rest =>
      have hnext : ∀ c ∈ (List.intercalate sep (next :: rest)).head?, isCapital c = true := by
        have hcapital := (hcodes next (by simp)).isCapital_head
        cases rest with
        | nil => simpa using hcapital []
        | cons other rest =>
          rw [List.intercalate_cons_cons, List.append_assoc]
          exact hcapital _
      have hafter : Bounded (sep ++ List.intercalate sep (next :: rest)) := by
        rwa [Bounded, List.head?_append_of_ne_nil _ hsep]
      rw [List.intercalate_cons_cons, List.append_assoc, scan_code hcode hafter,
        scan_append hclosed hnext (Nat.zero_le _) (absurd · hsep), hnone, hrest, List.nil_append,
        ← List.filter_append, List.singleton_append]

end

/-- Distinct codes in canonical form that a text joins are read back from it, if they are short. -/
theorem mentioned_join {codes : List Text} (hcodes : ∀ code ∈ codes, IsCanonical code)
    (hnodup : codes.Nodup) {sep : Text} (hsep : upper sep ≠ []) (hopen : Bounded (upper sep))
    (hclosed : Closed (upper sep)) (hnone : scan true 0 (upper sep) = []) :
    mentioned (join sep codes) none = codes.filter (IsShort ·) := by
  have hsub : ∀ code ∈ codes.filter (IsShort ·), IsCanonical code := fun code hcode =>
    hcodes code (List.mem_of_mem_filter hcode)
  have hmap : (codes.filter (IsShort ·)).map canonical = codes.filter (IsShort ·) :=
    (List.map_congr_left fun code hcode => (hsub code hcode).fixed).trans (List.map_id _)
  have hkeys : ((codes.filter (IsShort ·)).map key).Nodup :=
    List.Nodup.map_on (fun code hcode code' hcode' hkey =>
      (hsub code hcode).eq_of_key (hsub code' hcode') hkey) (hnodup.filter _)
  rw [mentioned, upper_join hcodes, scan_join hcodes hsep hopen hclosed hnone, hmap]
  exact distinctCodes_eq_self hkeys fun _ _ => List.not_mem_nil

/-- Whether a text names a code: in upper case, the code stands in it as a word. -/
def Names (text code : Text) : Prop :=
  ∃ before after, upper text = before ++ code ++ after ∧ Closed before ∧ Bounded after

theorem mem_mentioned_iff_of_names {text code : Text} (h : Names text code)
    (hcode : IsCanonical code) {exclude : Option Text} (hother : ∀ e ∈ exclude, key e ≠ key code) :
    key code ∈ (mentioned text exclude).map key ↔ IsShort code := by
  obtain ⟨before, after, hupper, hclosed, hafter⟩ := h
  unfold mentioned
  rw [mem_keys_distinctCodes, hupper]
  constructor
  · rintro ⟨hmem, -⟩
    obtain ⟨found, hfound, hkey⟩ := List.mem_map.mp hmem
    obtain ⟨m, hm, rfl⟩ := List.mem_map.mp hfound
    obtain ⟨hcanonical, hshort⟩ := isShort_of_mem_scan hm
    rwa [hcode.eq_of_key hcanonical hkey.symm]
  · intro hshort
    have hfound : code ∈ scan false 0 (before ++ code ++ after) := by
      rw [List.append_assoc, scan_append hclosed (hcode.isCapital_head after) (Nat.zero_le _)
        fun _ => rfl, scan_code hcode hafter]
      simp [hshort]
    refine ⟨List.mem_map.mpr ⟨code, List.mem_map.mpr ⟨code, hfound, hcode.fixed⟩, rfl⟩, ?_⟩
    cases exclude with
    | none => exact List.not_mem_nil
    | some e =>
      dsimp only
      split
      · exact List.not_mem_nil
      · exact fun hmem => hother e rfl (List.mem_singleton.mp hmem).symm

end Prereq

end DegreeAudit
