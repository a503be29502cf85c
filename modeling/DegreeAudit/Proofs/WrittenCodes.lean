import DegreeAudit.Proofs.FixedForm
import DegreeAudit.Proofs.Windows

/-!
# Course codes as they are written

A course code is written as letters, digits and perhaps letters again, in any case and with blanks
wherever they do no harm (`Code.Spelling`). All that is derived from a code is derived from the text
as it is written: the canonical form, the key, the subject and the level. They agree on what subject
and number are.

**In upper case and trimmed**, a spelling is shaped as a code and has no needless zeros
(`Code.Spelling.shaped`). So both forms can be read off, and neither the letters of the subject nor
the digits of the number can be split in another way.

**The level** is read from the text as it stands. Only the digits of the number are digits there,
and without zeros in front a number is written in one way only (`Text.decimal_decimalNat`).
-/

namespace DegreeAudit

namespace Text

/-! ## ASCII letters -/

/-- The upper-case form of an ASCII letter is one capital letter. -/
theorem upperChar_of_isPlainLetter {c : CodePoint} (h : isPlainLetter c = true) :
    ∃ d, upperChar c = [d] ∧ isCapital d = true := by
  rw [isPlainLetter, Bool.or_eq_true] at h
  rcases h with hcapital | hsmall
  · exact ⟨c, upperChar_of_isCapital hcapital, hcapital⟩
  · rw [Bool.and_eq_true, decide_eq_true_eq, decide_eq_true_eq] at hsmall
    cases c with
    | surrogate i =>
      rw [CodePoint.val] at hsmall
      omega
    | scalar c =>
      rw [CodePoint.val_scalar] at hsmall
      have hascii : c.toNat < 0x80 := by omega
      have hupper := toUpper_ascii c.toNat hascii
      rw [Char.ofNat_toNat, if_pos hsmall] at hupper
      refine ⟨.scalar c.toUpper, by rw [upperChar, if_pos hascii], ?_⟩
      simp only [isCapital, CodePoint.val_scalar, hupper, Bool.and_eq_true, decide_eq_true_eq]
      omega

theorem isCapital_of_mem_upper {cs : Text} (h : ∀ c ∈ cs, isPlainLetter c = true) :
    ∀ d ∈ upper cs, isCapital d = true := by
  intro d hd
  obtain ⟨c, hc, hd⟩ := List.mem_flatMap.mp hd
  obtain ⟨e, he, hcapital⟩ := upperChar_of_isPlainLetter (h c hc)
  rw [he, List.mem_singleton] at hd
  exact hd ▸ hcapital

theorem length_upper_of_isPlainLetter {cs : Text} (h : ∀ c ∈ cs, isPlainLetter c = true) :
    (upper cs).length = cs.length := by
  induction cs with
  | nil => rfl
  | cons c rest ih =>
    rw [List.forall_mem_cons] at h
    obtain ⟨d, hd, -⟩ := upperChar_of_isPlainLetter h.1
    have hsplit : upper (c :: rest) = upperChar c ++ upper rest := List.flatMap_cons
    rw [hsplit, hd, List.singleton_append, List.length_cons, List.length_cons, ih h.2]

/-! ## Numbers without zeros in front -/

theorem decimal_of_isPlainDigit {c : CodePoint} (h : isPlainDigit c = true) :
    decimal (c.val - 0x30 : Nat) = [c] := by
  simp only [isPlainDigit, Bool.and_eq_true, decide_eq_true_eq] at h
  have hlt : c.val - 0x30 < 10 := by omega
  rw [decimal_eq, Nat.toDigits_of_lt_base hlt, ofChars, List.map_singleton]
  refine congrArg (fun d => [d]) (CodePoint.val_injective ?_)
  rw [CodePoint.val_scalar, Nat.toNat_digitChar_of_lt_ten hlt]
  omega

theorem decimal_append {n : Nat} (hn : 0 < n) {c : CodePoint} (h : isPlainDigit c = true) :
    decimal n ++ [c] = decimal (10 * n + (c.val - 0x30) : Nat) := by
  have hlt : c.val - 0x30 < 10 := by
    simp only [isPlainDigit, Bool.and_eq_true, decide_eq_true_eq] at h
    omega
  rw [← decimal_of_isPlainDigit h, decimal_eq, decimal_eq, decimal_eq,
    ← Nat.toDigits_append_toDigits (by decide) hn hlt, ofChars, ofChars, ofChars, List.map_append]

/-- Further digits, after a number that is not zero. -/
theorem decimal_append_digits {n : Nat} (hn : 0 < n) {ds : Text}
    (h : ∀ c ∈ ds, isPlainDigit c = true) :
    decimal n ++ ds =
      decimal (ds.foldl (fun n c => 10 * n + (decimalValue? c).getD 0) n : Nat) := by
  induction ds generalizing n with
  | nil => rw [List.append_nil, List.foldl_nil]
  | cons c rest ih =>
    rw [List.forall_mem_cons] at h
    rw [List.foldl_cons, decimalValue?_of_isPlainDigit h.1, Option.getD_some,
      ← ih (by omega) h.2, ← decimal_append hn h.1, List.append_assoc, List.singleton_append]

/-- **A number without zeros in front** is written back as it was. -/
theorem decimal_decimalNat {c : CodePoint} {ds : Text} (h : ∀ d ∈ c :: ds, isPlainDigit d = true)
    (hc : c ≠ '0') : decimal (decimalNat (c :: ds)) = c :: ds := by
  rw [List.forall_mem_cons] at h
  have hplain := h.1
  simp only [isPlainDigit, Bool.and_eq_true, decide_eq_true_eq] at hplain
  have hpos : 0 < c.val - 0x30 := by
    have hne : c.val ≠ 0x30 := fun heq => hc (CodePoint.val_injective heq)
    omega
  rw [decimalNat, List.foldl_cons, decimalValue?_of_isPlainDigit h.1, Option.getD_some,
    Nat.mul_zero, Nat.zero_add, ← decimal_append_digits hpos h.2, decimal_of_isPlainDigit h.1,
    List.singleton_append]

end Text

namespace Code

open Text

/-- A course code as it is written: a subject of two to ten letters, and a number of two or three
digits without a zero in front and of at most two letters, with blanks around and between them. -/
structure Spelling where
  front : Text
  subject : Text
  gap : Text
  digits : Text
  suffix : Text
  back : Text
  front_blank : ∀ c ∈ front, isBlank c = true
  subject_letters : ∀ c ∈ subject, isPlainLetter c = true
  gap_blank : ∀ c ∈ gap, isBlank c = true
  digits_plain : ∀ c ∈ digits, isPlainDigit c = true
  suffix_letters : ∀ c ∈ suffix, isPlainLetter c = true
  back_blank : ∀ c ∈ back, isBlank c = true
  subject_length : 2 ≤ subject.length ∧ subject.length ≤ 10
  digits_length : 2 ≤ digits.length ∧ digits.length ≤ 3
  digits_head : digits.head? ≠ some ('0' : CodePoint)
  suffix_length : suffix.length ≤ 2

namespace Spelling

def number (v : Spelling) : Text := v.digits ++ v.suffix

def text (v : Spelling) : Text := v.front ++ v.subject ++ v.gap ++ v.number ++ v.back

variable (v w : Spelling)

theorem exists_digit : ∃ d ds, v.digits = d :: ds ∧ d ≠ '0' := by
  have hne : v.digits ≠ [] :=
    List.ne_nil_of_length_pos (Nat.lt_of_lt_of_le (by decide) v.digits_length.1)
  obtain ⟨d, ds, hd⟩ := List.exists_cons_of_ne_nil hne
  refine ⟨d, ds, hd, fun hzero => v.digits_head ?_⟩
  rw [hd, hzero, List.head?_cons]

theorem dropZeros_digits : dropZeros v.digits = v.digits := by
  obtain ⟨d, ds, hd, hzero⟩ := v.exists_digit
  rw [hd, dropZeros.eq_2]
  rintro a b rest heq
  exact hzero (List.cons.inj heq).1

theorem shaped : Shaped (upper v.subject) v.gap v.digits (upper v.suffix) where
  letters := isCapital_of_mem_upper v.subject_letters
  blanks := v.gap_blank
  digits := v.digits_plain
  suffix := isCapital_of_mem_upper v.suffix_letters
  letters_length := by rw [length_upper_of_isPlainLetter v.subject_letters]; exact v.subject_length
  number_length := by rw [v.dropZeros_digits]; exact v.digits_length
  suffix_length := by rw [length_upper_of_isPlainLetter v.suffix_letters]; exact v.suffix_length

theorem upper_number : upper v.number = v.digits ++ upper v.suffix := by
  have hdigits : upper v.digits = v.digits :=
    upper_eq_self fun c hc => upperChar_of_isPlainDigit (v.digits_plain c hc)
  rw [number, upper_append, hdigits]

theorem trim_upper_text :
    trim (upper v.text) = upper v.subject ++ (v.gap ++ (v.digits ++ upper v.suffix)) := by
  have hupper : upper v.text =
      v.front ++ (upper v.subject ++ (v.gap ++ (v.digits ++ upper v.suffix)) ++ v.back) := by
    simp only [text, upper_append, v.upper_number, upper_of_isBlank v.front_blank,
      upper_of_isBlank v.gap_blank, upper_of_isBlank v.back_blank, List.append_assoc]
  rw [hupper, trim_append v.front_blank v.shaped.isTrimmed v.back_blank]

theorem canonical_text : canonical v.text = upper v.subject ++ " " ++ upper v.number := by
  have hparts : parts? (trim (upper v.text)) = some (upper v.subject, upper v.number) := by
    rw [v.trim_upper_text, v.shaped.parts?, v.dropZeros_digits, v.upper_number]
  rw [canonical_of_parts? hparts]

theorem key_text : key v.text = upper v.subject ++ upper v.number := by
  rw [key_eq_squeeze, v.trim_upper_text, v.shaped.squeeze, v.upper_number]

/-- The letters of the subject end at the first digit. -/
theorem subject_text : Code.subject v.text = upper v.subject := by
  obtain ⟨d, ds, hd, -⟩ := v.exists_digit
  have hspan : spanCapitals (upper v.subject ++ upper v.number) =
      (upper v.subject, upper v.number) := by
    refine span_append v.shaped.letters fun c hc => ?_
    rw [v.upper_number, hd] at hc
    obtain rfl := Option.mem_some.mp hc
    exact isCapital_of_isPlainDigit (v.digits_plain d (hd ▸ List.mem_cons_self))
  rw [Code.subject, v.key_text, hspan]

theorem firstDecimals_text : firstDecimals v.text = v.digits := by
  obtain ⟨d, ds, hd, -⟩ := v.exists_digit
  have hsplit : v.text = v.front ++ v.subject ++ v.gap ++ (v.digits ++ (v.suffix ++ v.back)) := by
    simp only [text, number, List.append_assoc]
  rw [hsplit]
  refine firstDecimals_append ?_ (hd ▸ List.cons_ne_nil d ds)
    (fun c hc => isDecimal_of_isPlainDigit (v.digits_plain c hc)) ?_
  · simp only [List.mem_append, or_assoc]
    rintro c (hc | hc | hc)
    · exact isDecimal_of_isBlank (v.front_blank c hc)
    · exact isDecimal_of_isPlainLetter (v.subject_letters c hc)
    · exact isDecimal_of_isBlank (v.gap_blank c hc)
  · intro c hc
    rcases List.mem_append.mp (List.mem_of_mem_head? hc) with hc | hc
    · exact isDecimal_of_isPlainLetter (v.suffix_letters c hc)
    · exact isDecimal_of_isBlank (v.back_blank c hc)

theorem level?_text : ∃ n : Nat, level? v.text = some n ∧ decimal n = v.digits := by
  obtain ⟨d, ds, hd, hzero⟩ := v.exists_digit
  have hshort : v.digits.length ≤ Numeral.digitLimit := v.digits_length.2.trans (by decide)
  refine ⟨decimalNat v.digits, ?_, ?_⟩
  · rw [level?, v.firstDecimals_text, Numeral.natOfDigits?, if_pos hshort]
  · have hplain := v.digits_plain
    rw [hd] at hplain ⊢
    exact decimal_decimalNat hplain hzero

theorem key_canonical_text : key (canonical v.text) = key v.text := by
  have hshown := v.shaped.shown.squeeze
  rw [v.dropZeros_digits] at hshown
  rw [key_canonical, v.canonical_text, v.key_text, v.upper_number, List.append_assoc, hshown]

theorem key_text_eq_iff : key v.text = key w.text ↔
    upper v.subject = upper w.subject ∧ upper v.number = upper w.number := by
  constructor
  · intro h
    have hsubject : upper v.subject = upper w.subject := by
      rw [← v.subject_text, ← w.subject_text, Code.subject, Code.subject, h]
    rw [v.key_text, w.key_text, hsubject, List.append_cancel_left_eq] at h
    exact ⟨hsubject, h⟩
  · rintro ⟨hsubject, hnumber⟩
    rw [v.key_text, w.key_text, hsubject, hnumber]

theorem canonical_text_eq_iff : canonical v.text = canonical w.text ↔ key v.text = key w.text := by
  constructor
  · intro h
    rw [← v.key_canonical_text, h, w.key_canonical_text]
  · intro h
    obtain ⟨hsubject, hnumber⟩ := (key_text_eq_iff v w).mp h
    rw [v.canonical_text, w.canonical_text, hsubject, hnumber]

end Spelling

/-- **All readings of a written code agree.** However a code is written, its canonical form is the
subject and the number in upper case with a space between them, its key is the two without a space,
its subject is the subject and its level is the number that the digits write. The canonical form has
the same key, and two written codes have one canonical form exactly if they have one key, which is
if they have one subject and one number apart from case. The canonical form of any text, written as
a code or not, is its own canonical form. -/
theorem spellings_agree (v w : Spelling) :
    canonical v.text = upper v.subject ++ " " ++ upper v.number ∧
    key v.text = upper v.subject ++ upper v.number ∧
    subject v.text = upper v.subject ∧
    (∃ n : Nat, level? v.text = some n ∧ decimal n = v.digits) ∧
    key (canonical v.text) = key v.text ∧
    (canonical v.text = canonical w.text ↔ key v.text = key w.text) ∧
    (key v.text = key w.text ↔
      upper v.subject = upper w.subject ∧ upper v.number = upper w.number) ∧
    ∀ code, canonical (canonical code) = canonical code :=
  ⟨v.canonical_text, v.key_text, v.subject_text, v.level?_text, v.key_canonical_text,
    v.canonical_text_eq_iff w, v.key_text_eq_iff w, canonical_canonical⟩

/-- A code in small letters, with blanks of all kinds. -/
def spaced : Spelling where
  front := "\n "
  subject := "engl"
  gap := "\u3000\t"
  digits := "129"
  suffix := "r"
  back := " "
  front_blank := by decide
  subject_letters := by decide
  gap_blank := by decide
  digits_plain := by decide
  suffix_letters := by decide
  back_blank := by decide
  subject_length := by decide
  digits_length := by decide
  digits_head := by decide
  suffix_length := by decide

def spacedTight : Spelling :=
  { spaced with
    front := ""
    subject := "ENGL"
    gap := ""
    back := ""
    front_blank := by decide
    subject_letters := by decide
    gap_blank := by decide
    back_blank := by decide
    subject_length := by decide }

theorem spellings_agree_spaced :
    spaced.text = "\n engl\u3000\t129r " ∧ spacedTight.text = "ENGL129r" ∧
      canonical spaced.text = "ENGL 129R" ∧ key spaced.text = "ENGL129R" ∧
      key spaced.text = key spacedTight.text ∧
      canonical spaced.text = canonical spacedTight.text := by
  obtain ⟨hcanonical, hkey, -, -, -, hiff, hparts, -⟩ := spellings_agree spaced spacedTight
  have hsame : key spaced.text = key spacedTight.text := hparts.mpr (by decide +kernel)
  have hform : upper spaced.subject ++ " " ++ upper spaced.number = "ENGL 129R" := by decide +kernel
  have hwhole : upper spaced.subject ++ upper spaced.number = "ENGL129R" := by decide +kernel
  exact ⟨by decide +kernel, by decide +kernel, hcanonical.trans hform, hkey.trans hwhole, hsame,
    hiff.mpr hsame⟩

end Code

end DegreeAudit
