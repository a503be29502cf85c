import DegreeAudit.Proofs.Selection

/-!
# Levels, windows and categories

Ranges, levels and categories are read and matched in ways of their own: a range by a number behind
the start of the key, a level by subject and hundred, a category by what follows the letters. For
letters that are capitals they fit together.

**Reading.** Letters and a number in decimal write the selector that they look like: nothing is
trimmed from them or put in upper case, and the number is read back (`Token.selector?_dashed`,
`Text.decimalNat_decimal`).

**Matching.** If the level of every course can be read, a token that writes a selector matches a
part of the catalog that a condition on courses describes (`Catalog.matched_eq`). So what is left
is to compare conditions. The subject of a course starts its key (`Course.prefix_of_subject`), and
letters that a digit follows are the whole subject, because no digit is a capital letter
(`Course.subject_of_follows`).

The main statement is `selector_algebra`.
-/

namespace DegreeAudit

open Text

namespace Text

/-! ## Numbers in decimal -/

theorem markedDigitRanges_above : ∀ r ∈ markedDigitRanges, 0x5A < r.1 := by decide

theorem isCapital_of_isDigit {c : CodePoint} (h : isDigit c = true) : isCapital c = false := by
  rw [isDigit, Bool.or_eq_true] at h
  rcases h with h | h
  · exact (not_isCapital_isBlank_of_isDecimal h).1
  · obtain ⟨r, hr, hlow, -⟩ := CharSet.has_iff.mp h
    have habove := markedDigitRanges_above r hr
    simp only [isCapital, Bool.and_eq_false_iff, decide_eq_false_iff_not]
    omega

theorem decimalValue?_of_isPlainDigit {c : CodePoint} (h : isPlainDigit c = true) :
    decimalValue? c = some (c.val - 0x30) := by
  simp only [isPlainDigit, Bool.and_eq_true, decide_eq_true_eq] at h
  rw [decimalValue?, decimalRanges, List.find?_cons_of_pos (by simp [h.1, h.2]), Option.map_some,
    Nat.mod_eq_of_lt (by omega)]

/-- A number in ASCII digits that is not too long to be read. -/
structure IsNumber (digits : Text) : Prop where
  digits_ne : digits ≠ []
  plain : ∀ c ∈ digits, isPlainDigit c = true
  length_le : digits.length ≤ Numeral.digitLimit

theorem isPlainDigit_scalar (c : Char) : isPlainDigit (.scalar c) = c.isDigit := rfl

theorem decimalNat_ofChars {ds : List Char} (h : ∀ c ∈ ds, c.isDigit = true) :
    decimalNat (ofChars ds) = Nat.ofDigitChars 10 ds 0 := by
  rw [decimalNat, ofChars, List.foldl_map, Nat.ofDigitChars_eq_foldl]
  refine List.foldl_ext _ _ _ fun n c hc => ?_
  rw [decimalValue?_of_isPlainDigit (by rw [isPlainDigit_scalar, h c hc])]
  rfl

theorem decimal_eq (n : Nat) : decimal n = ofChars (Nat.toDigits 10 n) := by
  rw [decimal, ofString]
  exact congrArg ofChars Nat.toList_repr

/-- **A number in decimal** is read back. -/
theorem decimalNat_decimal (n : Nat) : decimalNat (decimal n) = n := by
  rw [decimal_eq, decimalNat_ofChars fun c hc =>
    Nat.isDigit_of_mem_toDigits (by decide) (by decide) hc, Nat.ofDigitChars_ten_toDigits]

theorem length_decimal_le {m n : Nat} (h : m ≤ n) : (decimal m).length ≤ (decimal n).length := by
  have hpos : 0 < (Nat.toDigits 10 n).length := Nat.length_toDigits_pos
  have hlt := (Nat.length_toDigits_le_iff (by decide) hpos).mp (Nat.le_refl _)
  rw [decimal_eq, decimal_eq, ofChars, ofChars, List.length_map, List.length_map]
  exact (Nat.length_toDigits_le_iff (by decide) hpos).mpr (Nat.lt_of_le_of_lt h hlt)

theorem decimalNat_hundred {d : CodePoint} (hd : isPlainDigit d = true) :
    decimalNat (d :: ("00" : Text)) = 100 * (d.val - 0x30) ∧
      decimalNat (d :: ("99" : Text)) = 100 * (d.val - 0x30) + 99 := by
  cases d with
  | surrogate i =>
    simp only [isPlainDigit, Bool.and_eq_true, decide_eq_true_eq] at hd
    rw [CodePoint.val] at hd
    omega
  | scalar c =>
    rw [isPlainDigit_scalar] at hd
    have hlow : CodePoint.scalar c :: ("00" : Text) = ofChars [c, '0', '0'] := rfl
    have hhigh : CodePoint.scalar c :: ("99" : Text) = ofChars [c, '9', '9'] := rfl
    have hzero : '0'.toNat = 0x30 := rfl
    have hnine : '9'.toNat = 0x39 := rfl
    rw [hlow, hhigh, decimalNat_ofChars (by simp [hd]), decimalNat_ofChars (by simp [hd])]
    simp only [Nat.ofDigitChars_cons, Nat.ofDigitChars_nil, CodePoint.val_scalar, hzero, hnine]
    omega

theorem decimal_ne_nil (n : Nat) : decimal n ≠ [] := by
  rw [decimal_eq, ofChars, ne_eq, List.map_eq_nil_iff]
  exact Nat.toDigits_ne_nil

theorem isPlainDigit_of_mem_decimal {n : Nat} {c : CodePoint} (h : c ∈ decimal n) :
    isPlainDigit c = true := by
  rw [decimal_eq, ofChars, List.mem_map] at h
  obtain ⟨d, hd, rfl⟩ := h
  exact Nat.isDigit_of_mem_toDigits (by decide) (by decide) hd

theorem isNumber_decimal {n : Nat} (h : (decimal n).length ≤ Numeral.digitLimit) :
    IsNumber (decimal n) where
  digits_ne := decimal_ne_nil n
  plain _ := isPlainDigit_of_mem_decimal
  length_le := h

theorem isNumber_hundred {d : CodePoint} (hd : isPlainDigit d = true) :
    IsNumber (d :: ("00" : Text)) ∧ IsNumber (d :: ("99" : Text)) :=
  have hshort : ("00" : Text).length + 1 ≤ Numeral.digitLimit ∧
      ("99" : Text).length + 1 ≤ Numeral.digitLimit := by decide
  ⟨⟨by simp, List.forall_mem_cons.mpr ⟨hd, by decide⟩, hshort.1⟩,
    ⟨by simp, List.forall_mem_cons.mpr ⟨hd, by decide⟩, hshort.2⟩⟩

/-- The number behind letters is the first one of the text. -/
theorem firstDecimals_letters {letters digits : Text} (hletters : ∀ c ∈ letters, isCapital c = true)
    (hdigits : IsNumber digits) : firstDecimals (letters ++ digits) = digits := by
  have hfirst : firstDecimals (letters ++ (digits ++ [])) = digits :=
    firstDecimals_append (fun c hc => isDecimal_of_isCapital (hletters c hc)) hdigits.digits_ne
      (fun c hc => isDecimal_of_isPlainDigit (hdigits.plain c hc)) nofun
  rwa [List.append_nil] at hfirst

/-! ## Characters that stand for themselves -/

/-- Whether a character of a token is read as it is: it is no blank and in upper case. -/
def IsFixed (c : CodePoint) : Prop := isBlank c = false ∧ upperChar c = [c]

theorem isFixed_of_isCapital {c : CodePoint} (h : isCapital c = true) : IsFixed c :=
  ⟨isBlank_of_isCapital h, upperChar_of_isCapital h⟩

theorem isFixed_of_isPlainDigit {c : CodePoint} (h : isPlainDigit c = true) : IsFixed c :=
  ⟨isBlank_of_isPlainDigit h, upperChar_of_isPlainDigit h⟩

theorem trim_eq_self_of_isFixed {cs : Text} (h : ∀ c ∈ cs, IsFixed c) : trim cs = cs :=
  trim_eq_self (isTrimmed_of_forall fun c hc => (h c hc).1)

theorem key_eq_self_of_isFixed {cs : Text} (h : ∀ c ∈ cs, IsFixed c) : Code.key cs = cs := by
  have hsqueeze : squeeze cs = cs := List.filter_eq_self.mpr fun c hc => by simp [(h c hc).1]
  rw [Code.key, hsqueeze, upper_eq_self fun c hc => (h c hc).2]

end Text

namespace Token

/-! ## Reading -/

theorem numberOf_of_isNumber {digits : Text} (h : IsNumber digits) :
    Selector.numberOf digits = .ok (decimalNat digits) := by
  rw [Selector.numberOf, Numeral.natOfDigits?, if_pos h.length_le]

/-- The range from one number to another one, with the letters before both. -/
def dashed (letters low high : Text) : Token := .range (letters ++ low ++ "-" ++ letters ++ high)

section

variable {letters : Text} (hne : letters ≠ []) (hletters : ∀ c ∈ letters, isCapital c = true)

include hne hletters

theorem selector?_subject : (level letters).selector? = .ok (some (.subject letters)) := by
  have hkey : Code.key letters = letters :=
    key_eq_self_of_isFixed fun c hc => isFixed_of_isCapital (hletters c hc)
  have hspan : Code.spanCapitals letters = (letters, []) := by
    have hspan : Code.spanCapitals (letters ++ []) = (letters, []) := span_append hletters nofun
    rwa [List.append_nil] at hspan
  rw [selector?, Selector.ofLevel?, hkey, hspan]
  simp [hne]

theorem selector?_hundred {d : CodePoint} (hd : isPlainDigit d = true) :
    (level (letters ++ [d])).selector? = .ok (some (.hundred letters (d.val - 0x30))) := by
  have hkey : Code.key (letters ++ [d]) = letters ++ [d] := by
    refine key_eq_self_of_isFixed (List.forall_mem_append.mpr ⟨fun c hc => ?_, fun c hc => ?_⟩)
    · exact isFixed_of_isCapital (hletters c hc)
    · exact isFixed_of_isPlainDigit (List.mem_singleton.mp hc ▸ hd)
  have hspan : Code.spanCapitals (letters ++ [d]) = (letters, [d]) :=
    span_append hletters fun c hc => Option.mem_some.mp hc ▸ Code.isCapital_of_isPlainDigit hd
  rw [selector?, Selector.ofLevel?, hkey, hspan]
  simp [hne, decimalValue?_of_isPlainDigit hd]

theorem selector?_category : (category letters).selector? = .ok (some (.category letters)) := by
  have hkey : Code.key letters = letters :=
    key_eq_self_of_isFixed fun c hc => isFixed_of_isCapital (hletters c hc)
  have hall : allLetters letters = true := by
    rw [allLetters, Bool.and_eq_true, List.all_eq_true]
    exact ⟨by simp [hne], fun c hc => isLetter_of_isCapital (hletters c hc)⟩
  rw [selector?, Selector.ofCategory?, hkey, if_pos hall]

theorem selector?_dashed {low high : Text} (hlow : IsNumber low) (hhigh : IsNumber high) :
    (dashed letters low high).selector? =
      .ok (some (.window letters (decimalNat low) (decimalNat high))) := by
  have hfixed : ∀ digits, IsNumber digits → ∀ c ∈ letters ++ digits, IsFixed c := fun digits h =>
    List.forall_mem_append.mpr ⟨fun c hc => isFixed_of_isCapital (hletters c hc),
      fun c hc => isFixed_of_isPlainDigit (h.plain c hc)⟩
  have htoken : letters ++ low ++ "-" ++ letters ++ high =
      letters ++ low ++ ('-' : CodePoint) :: (letters ++ high) := by
    have hdash : ("-" : Text) = [('-' : CodePoint)] := rfl
    rw [hdash, List.append_assoc, List.append_assoc, List.singleton_append]
  have hwhole : ∀ c ∈ letters ++ low ++ ('-' : CodePoint) :: (letters ++ high), IsFixed c :=
    List.forall_mem_append.mpr ⟨hfixed low hlow,
      List.forall_mem_cons.mpr ⟨⟨by decide, by decide⟩, hfixed high hhigh⟩⟩
  have hread : trim (upper (letters ++ low ++ "-" ++ letters ++ high)) =
      letters ++ low ++ ('-' : CodePoint) :: (letters ++ high) := by
    rw [htoken, upper_eq_self fun c hc => (hwhole c hc).2, trim_eq_self_of_isFixed hwhole]
  have hstart : ('-' : CodePoint) ∉ letters ++ low := by
    rw [List.mem_append, not_or]
    exact ⟨fun h => absurd (hletters _ h) (by decide), fun h => absurd (hlow.plain _ h) (by decide)⟩
  have hopens : Selector.Opens (trim (letters ++ low)) letters low := by
    rw [trim_eq_self_of_isFixed (hfixed low hlow)]
    exact ⟨hne, hlow.digits_ne, hletters, fun c hc => isDecimal_of_isPlainDigit (hlow.plain c hc),
      [], [], by simp, by simp, by simp⟩
  have hnumber := firstDecimals_letters hletters hhigh
  have hstop : firstDecimals (letters ++ high) ≠ [] := by
    rw [hnumber]
    exact hhigh.digits_ne
  rw [dashed, selector?, Selector.ofRange?_of_opens hread hstart hopens hstop, hnumber,
    numberOf_of_isNumber hlow, numberOf_of_isNumber hhigh]
  rfl

end

end Token

/-! ## Matching -/

namespace Course

def level (c : Course) : Nat := (Code.level? c.code).getD 0

variable {c : Course} {letters : Text}

/-- A selector with a window asks for something else first, and then for the level. -/
theorem inWindow_ite (h : (Code.level? c.code).isSome = true) (p : Prop) [Decidable p]
    (low high : Nat) :
    (if p then Selector.inWindow low high c else .ok false) =
      .ok (decide p && (decide (low ≤ c.level) && decide (c.level ≤ high))) := by
  obtain ⟨n, hn⟩ := Option.isSome_iff_exists.mp h
  split
  · next hp =>
    rw [Selector.inWindow, Selector.levelOf, level, hn, decide_eq_true hp, Bool.true_and]
    rfl
  · next hp => rw [decide_eq_false hp, Bool.false_and]

theorem prefix_of_subject (h : Code.subject c.code = letters) : letters <+: c.key := by
  rw [← h, Code.subject, Code.spanCapitals, List.span_eq_takeWhile_dropWhile]
  exact List.takeWhile_prefix isCapital

theorem subject_of_follows (hletters : ∀ c ∈ letters, isCapital c = true) {d : CodePoint}
    {rest : Text} (hkey : c.key = letters ++ d :: rest) (hd : isDigit d = true) :
    Code.subject c.code = letters := by
  have hspan : Code.spanCapitals (letters ++ d :: rest) = (letters, d :: rest) :=
    span_append hletters fun a ha => Option.mem_some.mp ha ▸ isCapital_of_isDigit hd
  rw [Code.subject, ← key, hkey, hspan]

end Course

/-- Terms with one token and nothing else. -/
def Terms.only (token : Token) : Terms where
  description := none
  courses := []
  count := none
  required := []
  range := match token with | .range s => [s] | _ => []
  levelRanges := match token with | .level s => [s] | _ => []
  categoryRanges := match token with | .category s => [s] | _ => []
  patterns := []

theorem Terms.tokens_only (token : Token) : (only token).tokens = [token] := by
  cases token <;> rfl

theorem Selector.filterCourses_eq {s : Selector} {p : Course → Bool} {courses : List Course}
    (h : ∀ c ∈ courses, s.selects c = .ok (p c)) :
    s.filterCourses courses = .ok (courses.filter p) := by
  induction courses with
  | nil => rfl
  | cons c rest ih =>
    rw [List.forall_mem_cons] at h
    rw [filterCourses, h.1, ih h.2, List.filter_cons]
    rfl

namespace Catalog

def matched (catalog : Catalog) (token : Token) : Except Fault (List Course) :=
  catalog.select [] (.only token)

/-- A token that writes a selector matches the courses that the selector selects. -/
theorem matched_eq {catalog : Catalog} {token : Token} {s : Selector}
    (hs : token.selector? = .ok (some s)) {p : Course → Bool}
    (h : ∀ c ∈ catalog.courses, s.selects c = .ok (p c)) :
    catalog.matched token = .ok (catalog.courses.filter p) := by
  have hselectors : Selector.ofTokens [token] = .ok [s] := by
    rw [Selector.ofTokens, hs]
    rfl
  have hmatching : catalog.matching [s] = .ok (catalog.courses.filter p) := by
    rw [matching, Selector.filterCourses_eq h]
    exact congrArg Except.ok (List.append_nil _)
  have hnodup : ((catalog.courses.filter p).map Course.key).Nodup :=
    catalog.nodup.sublist (List.filter_sublist.map Course.key)
  have hkept : Course.dedupe [] (catalog.courses.filter p ++ []) = catalog.courses.filter p := by
    rw [List.append_nil, Course.dedupe_eq_self hnodup fun _ _ => List.not_mem_nil]
  rw [matched, select, Selector.ofTerms_eq, Terms.tokens_only, hselectors]
  show (catalog.matching [s] >>= fun selected => pure (Course.dedupe [] (selected ++ []))) = _
  rw [hmatching]
  exact congrArg Except.ok hkept

section

variable {catalog : Catalog} {letters : Text} (hne : letters ≠ [])
  (hletters : ∀ c ∈ letters, isCapital c = true)

include hne hletters

theorem matched_subject : ∃ courses, catalog.matched (.level letters) = .ok courses ∧
    ∀ c, c ∈ courses ↔ c ∈ catalog.courses ∧ Code.subject c.code = letters := by
  refine ⟨_, matched_eq (Token.selector?_subject hne hletters) fun c _ => rfl, fun c => ?_⟩
  rw [List.mem_filter, beq_iff_eq]

theorem matched_category : ∃ courses, catalog.matched (.category letters) = .ok courses ∧
    ∀ c, c ∈ courses ↔ c ∈ catalog.courses ∧
      ∃ d rest, c.key = letters ++ d :: rest ∧ isDigit d = true := by
  refine ⟨_, matched_eq (Token.selector?_category hne hletters) fun c _ => rfl, fun c => ?_⟩
  rw [List.mem_filter, Bool.and_eq_true, List.isPrefixOf_iff_prefix]
  refine and_congr_right fun _ => ⟨fun ⟨⟨rest, hrest⟩, hdigit⟩ => ?_, ?_⟩
  · rw [← hrest, List.drop_left] at hdigit
    cases rest with
    | nil => cases hdigit
    | cons d rest => exact ⟨d, rest, hrest.symm, hdigit⟩
  · rintro ⟨d, rest, hkey, hd⟩
    rw [hkey, List.drop_left]
    exact ⟨List.prefix_append _ _, hd⟩

variable (hlevels : ∀ c ∈ catalog.courses, (Code.level? c.code).isSome = true)

include hlevels

theorem matched_hundred {d : CodePoint} (hd : isPlainDigit d = true) :
    ∃ courses, catalog.matched (.level (letters ++ [d])) = .ok courses ∧
      ∀ c, c ∈ courses ↔ c ∈ catalog.courses ∧ Code.subject c.code = letters ∧
        100 * (d.val - 0x30) ≤ c.level ∧ c.level ≤ 100 * (d.val - 0x30) + 99 := by
  refine ⟨_, matched_eq (Token.selector?_hundred hne hletters hd) fun c hc =>
    Course.inWindow_ite (hlevels c hc) _ _ _, fun c => ?_⟩
  simp only [List.mem_filter, Bool.and_eq_true, decide_eq_true_eq]

theorem matched_dashed {low high : Text} (hlow : IsNumber low) (hhigh : IsNumber high) :
    ∃ courses, catalog.matched (.dashed letters low high) = .ok courses ∧
      ∀ c, c ∈ courses ↔ c ∈ catalog.courses ∧ letters <+: c.key ∧
        decimalNat low ≤ c.level ∧ c.level ≤ decimalNat high := by
  refine ⟨_, matched_eq (Token.selector?_dashed hne hletters hlow hhigh) fun c hc =>
    Course.inWindow_ite (hlevels c hc) _ _ _, fun c => ?_⟩
  simp only [List.mem_filter, Bool.and_eq_true, decide_eq_true_eq, List.isPrefixOf_iff_prefix]

end

end Catalog

/-! ## How they fit together -/

/-- **Selectors fit together.** If the level of every course can be read, then for letters that are
capitals and numbers that are not too long:

- the category matches the courses of the subject that have a digit right behind it;
- a level matches the courses of the subject in the range of its hundred, and matches only courses
  of the subject;
- a range is cut in two at any number, and no course is in both parts. -/
theorem selector_algebra {catalog : Catalog} {letters : Text} (hne : letters ≠ [])
    (hletters : ∀ c ∈ letters, isCapital c = true)
    (hlevels : ∀ c ∈ catalog.courses, (Code.level? c.code).isSome = true) :
    ∃ bare, catalog.matched (.level letters) = .ok bare ∧
      (∃ category, catalog.matched (.category letters) = .ok category ∧
        ∀ c, c ∈ category ↔ c ∈ bare ∧
          ∃ d rest, c.key = letters ++ d :: rest ∧ isDigit d = true) ∧
      (∀ d, isPlainDigit d = true → ∃ hundred window,
        catalog.matched (.level (letters ++ [d])) = .ok hundred ∧
        catalog.matched (.dashed letters (d :: "00") (d :: "99")) = .ok window ∧
        (∀ c, c ∈ hundred ↔ c ∈ window ∧ Code.subject c.code = letters) ∧ hundred ⊆ bare) ∧
      ∀ m n k : Nat, m ≤ n → n < k → (decimal k).length ≤ Numeral.digitLimit →
        ∃ whole low high,
          catalog.matched (.dashed letters (decimal m) (decimal k)) = .ok whole ∧
          catalog.matched (.dashed letters (decimal m) (decimal n)) = .ok low ∧
          catalog.matched (.dashed letters (decimal (n + 1 : Nat)) (decimal k)) = .ok high ∧
          (∀ c, c ∈ whole ↔ c ∈ low ∨ c ∈ high) ∧ ∀ c ∈ low, c ∉ high := by
  obtain ⟨bare, hbare, hmem⟩ := catalog.matched_subject hne hletters
  refine ⟨bare, hbare, ?_, fun d hd => ?_, fun m n k hmn hnk hk => ?_⟩
  · obtain ⟨category, hcategory, hmem'⟩ := catalog.matched_category hne hletters
    refine ⟨category, hcategory, fun c => ?_⟩
    rw [hmem, hmem', and_assoc]
    refine and_congr_right fun _ => ⟨fun hfollows => ⟨?_, hfollows⟩, And.right⟩
    obtain ⟨d, rest, hkey, hd⟩ := hfollows
    exact Course.subject_of_follows hletters hkey hd
  · obtain ⟨hundred, hhundred, hmem'⟩ := catalog.matched_hundred hne hletters hlevels hd
    obtain ⟨hzero, hnine⟩ := isNumber_hundred hd
    obtain ⟨window, hwindow, hmem''⟩ := catalog.matched_dashed hne hletters hlevels hzero hnine
    refine ⟨hundred, window, hhundred, hwindow, fun c => ?_, fun c hc => ?_⟩
    · rw [hmem', hmem'', (decimalNat_hundred hd).1, (decimalNat_hundred hd).2]
      constructor
      · rintro ⟨hc, hsubject, hlevel⟩
        exact ⟨⟨hc, Course.prefix_of_subject hsubject, hlevel⟩, hsubject⟩
      · rintro ⟨⟨hc, -, hlevel⟩, hsubject⟩
        exact ⟨hc, hsubject, hlevel⟩
    · rw [hmem'] at hc
      exact (hmem c).mpr ⟨hc.1, hc.2.1⟩
  · have hnumber : ∀ i ≤ k, IsNumber (decimal i) := fun i hi =>
      isNumber_decimal ((length_decimal_le hi).trans hk)
    obtain ⟨whole, hwhole, hmem₁⟩ := catalog.matched_dashed hne hletters hlevels
      (hnumber m (by omega)) (hnumber k (by omega))
    obtain ⟨low, hlow, hmem₂⟩ := catalog.matched_dashed hne hletters hlevels
      (hnumber m (by omega)) (hnumber n (by omega))
    obtain ⟨high, hhigh, hmem₃⟩ := catalog.matched_dashed hne hletters hlevels
      (hnumber (n + 1) (by omega)) (hnumber k (by omega))
    simp only [decimalNat_decimal] at hmem₁ hmem₂ hmem₃
    refine ⟨whole, low, high, hwhole, hlow, hhigh, fun c => ?_, fun c hc => ?_⟩
    · rw [hmem₁, hmem₂, hmem₃, ← and_or_left, ← and_or_left]
      refine and_congr_right fun _ => and_congr_right fun _ => ?_
      omega
    · rw [hmem₂] at hc
      rw [hmem₃]
      omega

/-- Courses at the two ends of a hundred, one beyond it, and one of a longer subject. -/
def hundredCatalog : Catalog :=
  Catalog.ofCourses [.untitled "CS 100", .untitled "CSE 150", .untitled "CS 199",
    .untitled "CS 200", .untitled "CSL"]

theorem selector_algebra_hundred :
    (∀ c ∈ hundredCatalog.courses, (Code.level? c.code).isSome = true) ∧
    ∃ hundred window, hundredCatalog.matched (.level "CS1") = .ok hundred ∧
      hundredCatalog.matched (.range "CS100-CS199") = .ok window ∧
      window.map Course.code = ["CS 100", "CSE 150", "CS 199"] ∧
      (∀ c, c ∈ hundred ↔ c ∈ window ∧ Code.subject c.code = "CS") ∧
      ∃ low high, hundredCatalog.matched (.range "CS100-CS149") = .ok low ∧
        hundredCatalog.matched (.range "CS150-CS199") = .ok high ∧
        ∀ c, c ∈ window ↔ c ∈ low ∨ c ∈ high := by
  have hlevels : ∀ c ∈ hundredCatalog.courses, (Code.level? c.code).isSome = true := by
    decide +kernel
  have hletters : ∀ c ∈ ("CS" : Text), isCapital c = true := by decide
  have hcodes : (hundredCatalog.matched (.range "CS100-CS199")).toOption.map (·.map Course.code) =
      some (["CS 100", "CSE 150", "CS 199"] : List Text) := by
    decide +kernel
  obtain ⟨bare, hbare, hcategory, hhundreds, hcuts⟩ :=
    selector_algebra (List.cons_ne_nil _ _) hletters hlevels
  obtain ⟨hundred, window, hhundred, hwindow, hmem, hsub⟩ := hhundreds '1' (by decide)
  obtain ⟨whole, low, high, hwhole, hlow, hhigh, hparts, hapart⟩ :=
    hcuts 100 149 199 (by decide) (by decide) (by decide +kernel)
  -- The range of the hundred is the one that is cut.
  obtain rfl : window = whole := Except.ok.inj (hwindow.symm.trans hwhole)
  have hwindow' : hundredCatalog.matched (.range "CS100-CS199") = .ok window := hwindow
  rw [hwindow'] at hcodes
  exact ⟨hlevels, hundred, window, hhundred, hwindow', Option.some.inj hcodes, hmem, low, high,
    hlow, hhigh, hparts⟩

end DegreeAudit
