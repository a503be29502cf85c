import DegreeAudit.Proofs.Mentions
import DegreeAudit.Selector

/-!
# Tokens

A requirement writes its selectors as tokens, and the field that a token stands in decides how it is
read. A token has the shape of a selector (`Token.WellShaped`) or it writes none
(`Token.selector?_eq_none_iff`).

**Ranges.** A range with a hyphen must start with letters and a number and have a number behind the
hyphen. Where it starts is read off as it stands (`Selector.rangeStart?_eq_some_iff`): no blank and
no digit is a capital letter, so the letters cannot be split in another way.
-/

namespace DegreeAudit

open Text

namespace Text

/-! ## Digits of every script -/

theorem decimalRanges_apart :
    ∀ r ∈ decimalRanges, (r.2 < 0x41 ∨ 0x7A < r.1) ∧ ∀ b ∈ blankRanges, r.2 < b.1 ∨ b.2 < r.1 := by
  decide +kernel

theorem isDecimal_of_isPlainLetter {c : CodePoint} (h : isPlainLetter c = true) :
    isDecimal c = false := by
  simp only [isPlainLetter, isCapital, Bool.or_eq_true, Bool.and_eq_true, decide_eq_true_eq] at h
  rw [Bool.eq_false_iff]
  intro hdecimal
  obtain ⟨r, hr, hlow, hhigh⟩ := CharSet.has_iff.mp hdecimal
  have := (decimalRanges_apart r hr).1
  omega

theorem isDecimal_of_isBlank {c : CodePoint} (h : isBlank c = true) : isDecimal c = false := by
  rw [Bool.eq_false_iff]
  intro hdecimal
  obtain ⟨r, hr, hlow, hhigh⟩ := CharSet.has_iff.mp hdecimal
  obtain ⟨b, hb, hblow, hbhigh⟩ := CharSet.has_iff.mp h
  have := (decimalRanges_apart r hr).2 b hb
  omega

theorem isDecimal_of_isCapital {c : CodePoint} (h : isCapital c = true) : isDecimal c = false :=
  isDecimal_of_isPlainLetter (by rw [isPlainLetter, h, Bool.true_or])

theorem not_isCapital_isBlank_of_isDecimal {c : CodePoint} (h : isDecimal c = true) :
    isCapital c = false ∧ isBlank c = false := by
  have hno : ¬isDecimal c = false := by rw [h]; exact Bool.noConfusion
  exact ⟨Bool.eq_false_iff.mpr (mt isDecimal_of_isCapital hno),
    Bool.eq_false_iff.mpr (mt isDecimal_of_isBlank hno)⟩

theorem firstDecimals_ne_nil_iff {cs : Text} :
    firstDecimals cs ≠ [] ↔ ∃ c ∈ cs, isDecimal c = true := by
  rw [firstDecimals]
  induction cs with
  | nil => simp
  | cons c rest ih =>
    rw [List.exists_mem_cons_iff]
    cases hc : isDecimal c with
    | true =>
      rw [List.dropWhile_cons_of_neg (by simp [hc]), List.takeWhile_cons_of_pos hc]
      simp
    | false => simpa [List.dropWhile_cons_of_pos, hc] using ih

/-- The first number of a text is the run of digits that no digit comes before or right after. -/
theorem firstDecimals_append {front digits rest : Text} (hfront : ∀ c ∈ front, isDecimal c = false)
    (hne : digits ≠ []) (hdigits : ∀ c ∈ digits, isDecimal c = true)
    (hrest : ∀ c ∈ rest.head?, isDecimal c = false) :
    firstDecimals (front ++ (digits ++ rest)) = digits := by
  have hspan := span_append hdigits hrest
  rw [List.span_eq_takeWhile_dropWhile] at hspan
  obtain ⟨d, ds, rfl⟩ := List.exists_cons_of_ne_nil hne
  have hd : isDecimal d = true := hdigits d List.mem_cons_self
  rw [firstDecimals, List.dropWhile_append_of_pos fun c hc => by simp [hfront c hc],
    List.cons_append, List.dropWhile_cons_of_neg (by simp [hd]), ← List.cons_append]
  exact (Prod.mk.inj hspan).1

theorem isSome_decimalValue?_iff {c : CodePoint} :
    (decimalValue? c).isSome = true ↔ isDecimal c = true := by
  simp [decimalValue?, isDecimal, CharSet.has, List.find?_isSome]

theorem cut_append {sep : CodePoint} {start stop : Text} (h : sep ∉ start) :
    cut sep (start ++ sep :: stop) = (start, some stop) := by
  induction start with
  | nil => rw [List.nil_append, cut, if_pos rfl]
  | cons c rest ih =>
    rw [List.mem_cons, not_or] at h
    rw [List.cons_append, cut, if_neg (Ne.symm h.1), ih h.2]

theorem cut_of_not_mem {sep : CodePoint} {cs : Text} (h : sep ∉ cs) : cut sep cs = (cs, none) := by
  induction cs with
  | nil => rfl
  | cons c rest ih =>
    rw [List.mem_cons, not_or] at h
    rw [cut, if_neg (Ne.symm h.1), ih h.2]

end Text

namespace Selector

/-! ## The start of a range -/

/-- Whether a text starts with letters and a number, blanks allowed between them, and the number
ends where the digits end. -/
structure Opens (cs letters digits : Text) : Prop where
  letters_ne : letters ≠ []
  digits_ne : digits ≠ []
  capital : ∀ c ∈ letters, isCapital c = true
  decimal : ∀ c ∈ digits, isDecimal c = true
  split : ∃ blanks rest, cs = letters ++ (blanks ++ (digits ++ rest)) ∧
    (∀ c ∈ blanks, isBlank c = true) ∧ ∀ c ∈ rest.head?, isDecimal c = false

theorem rangeStart?_eq_some_iff {cs letters digits : Text} :
    rangeStart? cs = some (letters, digits) ↔ Opens cs letters digits := by
  constructor
  · intro h
    simp only [rangeStart?, Code.spanCapitals, spanDecimals, List.span_eq_takeWhile_dropWhile,
      Option.ite_none_left_eq_some, Option.some.injEq, Prod.mk.injEq, Bool.or_eq_true,
      List.isEmpty_iff, not_or] at h
    obtain ⟨⟨hletters, hdigits⟩, rfl, rfl⟩ := h
    refine ⟨hletters, hdigits, fun c hc => List.mem_takeWhile_imp hc,
      fun c hc => List.mem_takeWhile_imp hc, (cs.dropWhile isCapital).takeWhile isBlank,
      (trimLeft (cs.dropWhile isCapital)).dropWhile isDecimal, ?_,
      fun c hc => List.mem_takeWhile_imp hc, fun c hc => ?_⟩
    · rw [List.takeWhile_append_dropWhile, trimLeft, List.takeWhile_append_dropWhile,
        List.takeWhile_append_dropWhile]
    · simpa [Option.mem_def.mp hc] using List.head?_dropWhile_not isDecimal
        (trimLeft (cs.dropWhile isCapital))
  · rintro ⟨hletters, hdigits, hcapital, hdecimal, blanks, rest, rfl, hblank, hrest⟩
    obtain ⟨d, ds, rfl⟩ := List.exists_cons_of_ne_nil hdigits
    obtain ⟨hd, hd'⟩ := not_isCapital_isBlank_of_isDecimal (hdecimal d List.mem_cons_self)
    have hfront : Code.spanCapitals (letters ++ (blanks ++ (d :: ds ++ rest))) =
        (letters, blanks ++ (d :: ds ++ rest)) := by
      refine span_append hcapital fun c hc => ?_
      cases blanks with
      | nil =>
        obtain rfl := Option.mem_some.mp hc
        exact hd
      | cons b bs =>
        obtain rfl := Option.mem_some.mp hc
        exact Code.isCapital_of_isBlank (hblank b List.mem_cons_self)
    have hblanks : (blanks ++ (d :: ds ++ rest)).span isBlank = (blanks, d :: ds ++ rest) := by
      refine span_append hblank fun c hc => ?_
      obtain rfl := Option.mem_some.mp hc
      exact hd'
    rw [List.span_eq_takeWhile_dropWhile] at hblanks
    have hnumber : spanDecimals (d :: ds ++ rest) = (d :: ds, rest) := span_append hdecimal hrest
    simp only [rangeStart?, hfront, trimLeft, (Prod.mk.inj hblanks).2, hnumber]
    simp [hletters]

/-- A range with a hyphen is a window, if its start can be read and a number ends it. -/
theorem ofRange?_of_opens {s start stop letters low : Text}
    (hs : trim (upper s) = start ++ ('-' : CodePoint) :: stop) (hstart : ('-' : CodePoint) ∉ start)
    (hopens : Opens (trim start) letters low) (hstop : firstDecimals stop ≠ []) :
    ofRange? s = do
      return some (window letters (← numberOf low) (← numberOf (firstDecimals stop))) := by
  obtain ⟨c, high, hhigh⟩ := List.exists_cons_of_ne_nil hstop
  rw [ofRange?, hs, cut_append hstart]
  dsimp only
  rw [rangeStart?_eq_some_iff.mpr hopens, hhigh]

/-- A range with a hyphen is skipped if its start cannot be read or no number ends it. -/
theorem ofRange?_of_not_opens {s start stop : Text}
    (hs : trim (upper s) = start ++ ('-' : CodePoint) :: stop) (hstart : ('-' : CodePoint) ∉ start)
    (h : (∀ letters low, ¬Opens (trim start) letters low) ∨ firstDecimals stop = []) :
    ofRange? s = .ok none := by
  rw [ofRange?, hs, cut_append hstart]
  dsimp only
  cases hread : rangeStart? (trim start) with
  | none => rfl
  | some parts =>
    rcases h with hclosed | hnil
    · exact absurd (rangeStart?_eq_some_iff.mp hread) (hclosed parts.1 parts.2)
    · rw [hnil]

theorem window_ne_none {letters low high : Text} :
    (do return some (window letters (← numberOf low) (← numberOf high)) :
      Except Fault (Option Selector)) ≠ .ok none := by
  cases numberOf low with
  | error e => nofun
  | ok a =>
    cases numberOf high with
    | error e => nofun
    | ok b => nofun

end Selector

/-! ## Tokens -/

/-- A token of a requirement, by the field in which it stands. Patterns are read as levels. -/
inductive Token where
  | range (text : Text)
  | level (text : Text)
  | category (text : Text)
deriving DecidableEq

namespace Token

def selector? : Token → Except Fault (Option Selector)
  | range s => Selector.ofRange? s
  | level s => .ok (Selector.ofLevel? s)
  | category s => .ok (Selector.ofCategory? s)

/-- Whether a token has the shape of a selector: a range is a single code, or letters and a number
before a hyphen and some number behind it; a level is letters and at most one digit; a category is
letters. -/
def WellShaped : Token → Prop
  | range s => ('-' : CodePoint) ∉ trim (upper s) ∨
      ∃ start stop, trim (upper s) = start ++ ('-' : CodePoint) :: stop ∧
        ('-' : CodePoint) ∉ start ∧ (∃ letters digits, Selector.Opens (trim start) letters digits) ∧
        ∃ c ∈ stop, isDecimal c = true
  | level s => ∃ letters digits, Code.key s = letters ++ digits ∧ letters ≠ [] ∧
      (∀ c ∈ letters, isCapital c = true) ∧ digits.length ≤ 1 ∧ ∀ c ∈ digits, isDecimal c = true
  | category s => Code.key s ≠ [] ∧ ∀ c ∈ Code.key s, isLetter c = true

theorem isSome_ofLevel?_iff {s : Text} :
    (Selector.ofLevel? s).isSome = true ↔ (level s).WellShaped := by
  constructor
  · intro h
    simp only [Selector.ofLevel?, Code.spanCapitals, List.span_eq_takeWhile_dropWhile] at h
    have hsplit := List.takeWhile_append_dropWhile (p := isCapital) (l := Code.key s)
    refine ⟨(Code.key s).takeWhile isCapital, (Code.key s).dropWhile isCapital, hsplit.symm, ?_,
      fun c hc => List.mem_takeWhile_imp hc, ?_⟩
    · intro hnil
      simp [hnil] at h
    · split at h
      · cases h
      · split at h
        · next hrest => simp [hrest]
        · next c hrest =>
          rw [Option.isSome_map, isSome_decimalValue?_iff] at h
          simp [hrest, h]
        · cases h
  · rintro ⟨letters, digits, hkey, hne, hcapital, hlength, hdecimal⟩
    have hspan : Code.spanCapitals (Code.key s) = (letters, digits) := by
      rw [hkey]
      exact span_append hcapital fun c hc =>
        (not_isCapital_isBlank_of_isDecimal (hdecimal c (List.mem_of_mem_head? hc))).1
    simp only [Selector.ofLevel?, hspan, List.isEmpty_iff, hne, if_false]
    cases digits with
    | nil => rfl
    | cons c rest =>
      obtain rfl : rest = [] := List.eq_nil_of_length_eq_zero (by simpa using hlength)
      rw [Option.isSome_map, isSome_decimalValue?_iff]
      exact hdecimal c List.mem_cons_self

theorem ofRange?_eq_none_iff {s : Text} :
    Selector.ofRange? s = .ok none ↔ ¬(range s).WellShaped := by
  by_cases hdash : ('-' : CodePoint) ∈ trim (upper s)
  · obtain ⟨start, stop, hs, hstart⟩ := List.eq_append_cons_of_mem hdash
    have hshape : (range s).WellShaped ↔
        (∃ letters digits, Selector.Opens (trim start) letters digits) ∧
          firstDecimals stop ≠ [] := by
      rw [WellShaped, or_iff_right (not_not_intro hdash)]
      constructor
      · rintro ⟨start', stop', hs', hstart', h⟩
        have hcut : cut '-' (trim (upper s)) = (start, some stop) := hs ▸ cut_append hstart
        rw [hs', cut_append hstart', Prod.mk.injEq, Option.some.injEq] at hcut
        obtain ⟨rfl, rfl⟩ := hcut
        exact ⟨h.1, firstDecimals_ne_nil_iff.mpr h.2⟩
      · exact fun h => ⟨start, stop, hs, hstart, h.1, firstDecimals_ne_nil_iff.mp h.2⟩
    rw [hshape]
    constructor
    · rintro hnone ⟨⟨letters, low, hopens⟩, hstop⟩
      rw [Selector.ofRange?_of_opens hs hstart hopens hstop] at hnone
      exact Selector.window_ne_none hnone
    · intro hno
      refine Selector.ofRange?_of_not_opens hs hstart (or_iff_not_imp_right.mpr ?_)
      exact fun hstop letters low hopens => hno ⟨⟨letters, low, hopens⟩, hstop⟩
  · rw [Selector.ofRange?, cut_of_not_mem hdash]
    exact iff_of_false nofun fun hno => hno (.inl hdash)

/-- **A token writes no selector** exactly if it has another shape. -/
theorem selector?_eq_none_iff {token : Token} :
    token.selector? = .ok none ↔ ¬token.WellShaped := by
  cases token with
  | range s => exact ofRange?_eq_none_iff
  | level s => rw [← isSome_ofLevel?_iff, selector?, Except.ok.injEq, Option.not_isSome_iff_eq_none]
  | category s =>
    rw [selector?, Except.ok.injEq, Selector.ofCategory?, WellShaped]
    split
    · next h => simp_all [allLetters]
    · next h => simp_all [allLetters]

instance : DecidablePred WellShaped := fun token =>
  match h : token.selector? with
  | .ok none => isFalse (selector?_eq_none_iff.mp h)
  | .ok (some _) => isTrue (not_not.mp fun hno => by cases h ▸ selector?_eq_none_iff.mpr hno)
  | .error _ => isTrue (not_not.mp fun hno => by cases h ▸ selector?_eq_none_iff.mpr hno)

end Token

end DegreeAudit
