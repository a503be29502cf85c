import DegreeAudit.Proofs.Mentions

/-!
# The list of mentioned codes is final

Reading a text gives a list of codes. Nothing is left to do with that list: its codes are in
canonical form, each stands for another course, and a text that joins them mentions the same list.

**Mentions.** Two mentions cannot overlap. A later one would have to start inside the earlier one,
after a character of no word; such characters are the blanks of a mention, and its digits come next.
So going through the text from the left misses none (`mem_scan_iff`): the codes found are the
canonical forms of all brief texts that stand in it as a word (`Mentions`).

**The list.** Of each key the first code is kept (`distinctCodes`). Since two canonical codes with
one key are the same, this drops repetitions only (`mem_mentioned_iff`), and the excluded course.

**Once more.** Codes in canonical form are read back if they are short, and what was found is short
(`isShort_of_mem_scan`). The main statement is `mentioned_list_final`.
-/

namespace DegreeAudit

open Text Code

namespace Prereq

/-! ## Mentions -/

/-- Whether a text mentions a code: a brief text stands in it as a word, in upper case, and the code
is its canonical form. -/
def Mentions (text code : Text) : Prop :=
  ∃ l b d s, Brief l b d s ∧ Names text (l ++ (b ++ (d ++ s))) ∧
    canonical (l ++ (b ++ (d ++ s))) = code

theorem Closed.cons {c : CodePoint} {before : Text} (h : Closed before)
    (hc : before = [] → isWordChar c = false) : Closed (c :: before) := by
  cases before with
  | nil =>
    intro a ha
    obtain rfl := Option.mem_some.mp ha
    exact hc rfl
  | cons a before => rwa [Closed, List.getLast?_cons_cons]

/-- Whether a mention stands in a text as a word. `inside` tells whether a word character comes
before the text. -/
def StandsIn (inside : Bool) (cs m : Text) : Prop :=
  ∃ before l b d s after, Brief l b d s ∧ cs = before ++ (l ++ (b ++ (d ++ s))) ++ after ∧
    Closed before ∧ (before = [] → inside = false) ∧ Bounded after ∧ m = l ++ " " ++ d ++ s

theorem StandsIn.cons {inside : Bool} {c : CodePoint} {cs m : Text}
    (h : StandsIn (isWordChar c) cs m) : StandsIn inside (c :: cs) m := by
  obtain ⟨before, l, b, d, s, after, hbrief, rfl, hclosed, hc, hafter, rfl⟩ := h
  exact ⟨c :: before, l, b, d, s, after, hbrief, rfl, hclosed.cons hc,
    fun h => absurd h (List.cons_ne_nil c before), hafter, rfl⟩

/-- What stands as a word behind a word character does so behind any character. -/
theorem StandsIn.of_true {inside : Bool} {cs m : Text} (h : StandsIn true cs m) :
    StandsIn inside cs m := by
  obtain ⟨before, l, b, d, s, after, hbrief, hcs, hclosed, hinside, hafter, hm⟩ := h
  exact ⟨before, l, b, d, s, after, hbrief, hcs, hclosed,
    fun hnil => absurd (hinside hnil) (by decide), hafter, hm⟩

theorem standsIn_of_mem_scan {inside : Bool} {skip : Nat} {cs m : Text}
    (h : m ∈ scan inside skip cs) : StandsIn inside cs m := by
  fun_induction scan inside skip cs with
  | case1 => exact absurd h List.not_mem_nil
  | case2 inside skip c cs ih => exact (ih h).cons
  | case3 inside c cs code n hfound ih =>
    rcases List.mem_cons.mp h with rfl | h
    · cases inside with
      | true => simp at hfound
      | false =>
        simp only [Bool.false_eq_true, if_false] at hfound
        obtain ⟨l, b, d, s, after, hbrief, hafter, heq, rfl, -⟩ := mentionAt?_eq_some_iff.mp hfound
        exact ⟨[], l, b, d, s, after, hbrief, by simp [heq], by simp [Closed], fun _ => rfl, hafter,
          rfl⟩
    · exact (ih h).of_true.cons
  | case4 inside c cs hfound ih => exact (ih h).cons

theorem mem_scan_of_brief {before l b d s after : Text} (hbrief : Brief l b d s)
    (hclosed : Closed before) (hafter : Bounded after) :
    l ++ " " ++ d ++ s ∈ scan false 0 (before ++ (l ++ (b ++ (d ++ s))) ++ after) := by
  have hl : l ≠ [] := List.ne_nil_of_length_pos (by have := hbrief.letters_length.1; omega)
  obtain ⟨a, l, rfl⟩ := List.exists_cons_of_ne_nil hl
  have hcapital : ∀ c ∈ (a :: l ++ (b ++ (d ++ s)) ++ after).head?, isCapital c = true := by
    intro c hc
    obtain rfl := Option.mem_some.mp hc
    exact hbrief.letters a List.mem_cons_self
  have hmention : mentionAt? (a :: l ++ (b ++ (d ++ s)) ++ after) =
      some (a :: l ++ " " ++ d ++ s, (a :: l ++ (b ++ (d ++ s))).length) :=
    mentionAt?_eq_some_iff.mpr ⟨a :: l, b, d, s, after, hbrief, hafter,
      by simp only [List.append_assoc], rfl, rfl⟩
  -- No mention leads over the place where the word begins, so it is the first one from there on.
  rw [List.append_assoc, scan_append hclosed hcapital (Nat.zero_le _) fun _ => rfl]
  refine List.mem_append_right _ ?_
  simp only [List.cons_append] at hmention ⊢
  rw [scan]
  simp only [Bool.false_eq_true, if_false, hmention]
  exact List.mem_cons_self

/-- **Going through a text from the left misses no mention.** -/
theorem mem_scan_iff {cs m : Text} : m ∈ scan false 0 cs ↔ StandsIn false cs m := by
  refine ⟨standsIn_of_mem_scan, ?_⟩
  rintro ⟨before, l, b, d, s, after, hbrief, rfl, hclosed, -, hafter, rfl⟩
  exact mem_scan_of_brief hbrief hclosed hafter

/-- The canonical form does not show the blanks of a mention. -/
theorem Brief.canonical_eq {l b d s : Text} (h : Brief l b d s) :
    canonical (l ++ (b ++ (d ++ s))) = canonical (l ++ " " ++ d ++ s) := by
  have hspaced : Shaped l (" " : Text) d s := { h.toShaped with blanks := by decide }
  have hassoc : l ++ " " ++ d ++ s = l ++ (" " ++ (d ++ s)) := by simp only [List.append_assoc]
  rw [hassoc, h.toShaped.canonical_eq, hspaced.canonical_eq]

theorem mem_map_canonical_scan_iff {text code : Text} :
    code ∈ (scan false 0 (upper text)).map canonical ↔ Mentions text code := by
  simp only [List.mem_map, mem_scan_iff]
  constructor
  · rintro ⟨-, ⟨before, l, b, d, s, after, hbrief, hupper, hclosed, -, hafter, rfl⟩, rfl⟩
    exact ⟨l, b, d, s, hbrief, ⟨before, after, hupper, hclosed, hafter⟩, hbrief.canonical_eq⟩
  · rintro ⟨l, b, d, s, hbrief, ⟨before, after, hupper, hclosed, hafter⟩, rfl⟩
    exact ⟨_, ⟨before, l, b, d, s, after, hbrief, hupper, hclosed, fun _ => rfl, hafter, rfl⟩,
      hbrief.canonical_eq.symm⟩

theorem Mentions.isCanonical {text code : Text} (h : Mentions text code) :
    IsCanonical code ∧ IsShort code := by
  obtain ⟨m, hm, rfl⟩ := List.mem_map.mp (mem_map_canonical_scan_iff.mpr h)
  exact isShort_of_mem_scan hm

/-! ## The list -/

theorem nodup_key_distinctCodes (seen : List Key) (codes : List Text) :
    ((distinctCodes seen codes).map key).Nodup := by
  rw [PrereqGraph.map_key_distinctCodes]
  exact PrereqGraph.nodup_distinctKeys _ _

/-- The keys that are left out of the list. -/
def skipped : Option Text → List Key
  | some code => if code = "" then [] else [key code]
  | none => []

theorem mentioned_eq (text : Text) (exclude : Option Text) : mentioned text exclude =
    distinctCodes (skipped exclude) ((scan false 0 (upper text)).map canonical) := by
  cases exclude <;> rfl

theorem mem_skipped_iff {exclude : Option Text} {code : Text} (hcode : key code ≠ "") :
    key code ∈ skipped exclude ↔ ∃ e ∈ exclude, key e = key code := by
  cases exclude with
  | none => simp [skipped]
  | some e =>
    by_cases he : e = ""
    · subst he
      simp only [skipped, if_pos, List.not_mem_nil, Option.mem_some_iff, exists_eq_left', false_iff]
      exact fun h => hcode h.symm
    · simp [skipped, he, eq_comm]

/-- The list has the mentioned codes, apart from the one left out. -/
theorem mem_mentioned_iff {text code : Text} {exclude : Option Text} :
    code ∈ mentioned text exclude ↔ Mentions text code ∧ ∀ e ∈ exclude, key e ≠ key code := by
  have hkept : Mentions text code →
      (key code ∉ skipped exclude ↔ ∀ e ∈ exclude, key e ≠ key code) := by
    intro h
    rw [mem_skipped_iff h.isCanonical.1.key_ne]
    push Not
    rfl
  rw [mentioned_eq]
  constructor
  · intro h
    have hmention := mem_map_canonical_scan_iff.mp ((distinctCodes_sublist _ _).subset h)
    exact ⟨hmention, (hkept hmention).mp (mem_keys_distinctCodes.mp (List.mem_map_of_mem h)).2⟩
  · rintro ⟨hmention, hexclude⟩
    have hfound := mem_map_canonical_scan_iff.mpr hmention
    have hkey := mem_keys_distinctCodes.mpr
      ⟨List.mem_map_of_mem hfound, (hkept hmention).mpr hexclude⟩
    obtain ⟨code', hcode', heq⟩ := List.mem_map.mp hkey
    have hmention' := mem_map_canonical_scan_iff.mp ((distinctCodes_sublist _ _).subset hcode')
    rwa [← hmention'.isCanonical.1.eq_of_key hmention.isCanonical.1 heq]

end Prereq

/-! ## Once more -/

/-- **The list of mentioned codes is final.** It has exactly the codes that the text mentions, in
canonical form, without the one left out; so none of them has its key, and no two have the same
key. A text that joins the codes of the list mentions the same list, in the same order. -/
theorem mentioned_list_final (text : Text) (exclude : Option Text) :
    (∀ code, code ∈ Prereq.mentioned text exclude ↔
      Prereq.Mentions text code ∧ ∀ e ∈ exclude, key e ≠ key code) ∧
    (∀ code ∈ Prereq.mentioned text exclude, canonical code = code ∧ IsCanonical code) ∧
    ((Prereq.mentioned text exclude).map key).Nodup ∧
    (∀ e ∈ exclude, key e ∉ (Prereq.mentioned text exclude).map key) ∧
    Prereq.mentioned (join ", " (Prereq.mentioned text exclude)) none =
      Prereq.mentioned text exclude := by
  have hmention : ∀ code ∈ Prereq.mentioned text exclude, Prereq.Mentions text code :=
    fun code hcode => (Prereq.mem_mentioned_iff.mp hcode).1
  have hcanonical : ∀ code ∈ Prereq.mentioned text exclude, IsCanonical code :=
    fun code hcode => (hmention code hcode).isCanonical.1
  have hnodup : ((Prereq.mentioned text exclude).map key).Nodup := by
    rw [Prereq.mentioned_eq]
    exact Prereq.nodup_key_distinctCodes _ _
  refine ⟨fun code => Prereq.mem_mentioned_iff,
    fun code hcode => ⟨(hcanonical code hcode).fixed, hcanonical code hcode⟩, hnodup, ?_, ?_⟩
  · rintro e he hkey
    obtain ⟨code, hcode, heq⟩ := List.mem_map.mp hkey
    exact (Prereq.mem_mentioned_iff.mp hcode).2 e he heq.symm
  · have hsep : upper ", " ≠ [] ∧ Prereq.Bounded (upper ", ") ∧ Prereq.Closed (upper ", ") ∧
        Prereq.scan true 0 (upper ", ") = [] := by
      decide +kernel
    obtain ⟨hne, hopen, hclosed, hnone⟩ := hsep
    rw [Prereq.mentioned_join hcanonical (hnodup.of_map key) hne hopen hclosed hnone]
    exact List.filter_eq_self.mpr fun code hcode => by
      simpa using (hmention code hcode).isCanonical.2

/-- A text with a course in three spellings, one of them with a needless zero, a course of its own,
and a code that goes on as a word. -/
theorem mentioned_list_final_math :
    Prereq.mentioned "math 012, MATH12 or Math\t12; CS245, STAT 2300, engl 210f."
        (some "engl210F") = ["MATH 12", "CS 245"] ∧
      canonical "MATH 12" = "MATH 12" ∧
      key "engl210F" ∉ (["MATH 12", "CS 245"] : List Text).map key ∧
      Prereq.mentioned "MATH 12, CS 245" none = ["MATH 12", "CS 245"] := by
  have hlist : Prereq.mentioned "math 012, MATH12 or Math\t12; CS245, STAT 2300, engl 210f."
      (some "engl210F") = ["MATH 12", "CS 245"] := by
    decide +kernel
  obtain ⟨-, hfixed, -, hexcluded, hagain⟩ := mentioned_list_final
    "math 012, MATH12 or Math\t12; CS245, STAT 2300, engl 210f." (some "engl210F")
  rw [hlist] at hfixed hexcluded hagain
  exact ⟨hlist, (hfixed "MATH 12" (by decide +kernel)).1, hexcluded "engl210F" rfl, hagain⟩

end DegreeAudit
