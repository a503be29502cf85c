import DegreeAudit.Audit.CourseList
import DegreeAudit.Proofs.FixedForm

/-!
# Entered course lists

A student enters courses as one text with commas, in any case, with blanks and superfluous commas.

**In parts.** Two texts with a comma between them are read one after the other
(`CourseList.read_append`), so it is enough to know how a text without a comma is read: it has one
entry, unless it is blank (`CourseList.read_of_not_mem`).

**Settled entries.** An entry is not empty, has no comma and is trimmed and in upper case
(`CourseList.Settled`). That a trimmed part is put into upper case afterwards does no harm: upper
case makes no comma and no blank, however many characters it puts in the place of one. A settled
entry is read as itself, so the lists that can be read are exactly the lists of settled entries, and
each of them is read back from its entries.
-/

namespace DegreeAudit

namespace Text

theorem comma_untouched : Untouched [(0x2C, 0x2C)] where
  zero := by decide
  forms := by decide +kernel
  runs := by decide +kernel

theorem comma_not_mem_upper {cs : Text} (h : (',' : CodePoint) ∉ cs) :
    (',' : CodePoint) ∉ upper cs := by
  intro hmem
  obtain ⟨c, hc, hcomma⟩ := List.mem_flatMap.mp hmem
  have heq := comma_untouched.eq_of_mem_upperChar hcomma (by decide)
  exact h (heq ▸ hc)

theorem join_cons_cons (sep s t : Text) (rest : List Text) :
    join sep (s :: t :: rest) = s ++ sep ++ join sep (t :: rest) := List.intercalate_cons_cons

end Text

namespace CourseList

open Text

/-! ## In parts -/

/-- Two texts with a comma between them are read one after the other. -/
theorem read_append (s t : Text) : read (s ++ "," ++ t) = read s ++ read t := by
  have hcomma : s ++ "," ++ t = s ++ (',' : CodePoint) :: t := List.append_assoc s "," t
  rw [hcomma, read, split_append, List.map_append, List.filter_append, List.map_append]
  rfl

theorem read_of_not_mem {s : Text} (h : (',' : CodePoint) ∉ s) :
    read s = if trim s = "" then [] else [upper (trim s)] := by
  rw [read, split_of_not_mem h]
  split
  · next hblank =>
    rw [List.map_singleton, hblank]
    rfl
  · next hne =>
    have hkept : [trim s].filter (!·.isEmpty) = [trim s] :=
      List.filter_cons_of_pos (by rw [List.isEmpty_eq_false_iff.mpr hne]; rfl)
    rw [List.map_singleton, hkept, List.map_singleton]

theorem read_join (texts : List Text) : read (join "," texts) = texts.flatMap read := by
  induction texts with
  | nil => rfl
  | cons s rest ih =>
    cases rest with
    | nil => rw [join, List.intercalate_singleton, List.flatMap_singleton]
    | cons t rest =>
      rw [join_cons_cons, read_append, ih]
      exact List.flatMap_cons.symm

/-! ## Entries -/

/-- Whether a text is an entry as it stands: it is not empty, has no comma, and is trimmed and in
upper case. -/
structure Settled (entry : Text) : Prop where
  ne_empty : entry ≠ ""
  no_comma : (',' : CodePoint) ∉ entry
  trimmed : trim entry = entry
  upper : upper entry = entry

theorem settled_of_mem_read {s entry : Text} (h : entry ∈ read s) : Settled entry := by
  obtain ⟨middle, hmiddle, rfl⟩ := List.mem_map.mp h
  obtain ⟨hmem, hne⟩ := List.mem_filter.mp hmiddle
  obtain ⟨part, hpart, rfl⟩ := List.mem_map.mp hmem
  have hcomma : (',' : CodePoint) ∉ trim part := fun hc =>
    not_mem_of_mem_split hpart (trim_subset part hc)
  exact {
    ne_empty := fun hempty => by simp [upper_eq_nil_iff.mp hempty] at hne
    no_comma := comma_not_mem_upper hcomma
    trimmed := by rw [trim_upper, trim_trim]
    upper := upper_upper _ }

theorem Settled.read_eq {entry : Text} (h : Settled entry) : read entry = [entry] := by
  rw [read_of_not_mem h.no_comma, h.trimmed, if_neg h.ne_empty, h.upper]

theorem read_join_of_settled {entries : List Text} (h : ∀ entry ∈ entries, Settled entry) :
    read (join "," entries) = entries := by
  rw [read_join]
  induction entries with
  | nil => rfl
  | cons entry rest ih =>
    rw [List.forall_mem_cons] at h
    rw [List.flatMap_cons, h.1.read_eq, ih h.2, List.singleton_append]

/-- **An entered list is read part by part.** Two texts with a comma between them give the entries
of the first and then those of the second, and a text without a comma gives its trimmed upper-case
form, or nothing if it is blank. Every entry is settled, the entries with commas between them are
read again as they are, and every list of settled entries is what some text is read as. -/
theorem course_list_in_parts :
    (∀ s t : Text, read (s ++ "," ++ t) = read s ++ read t) ∧
    (∀ s : Text, (',' : CodePoint) ∉ s →
      read s = if trim s = "" then [] else [upper (trim s)]) ∧
    (∀ s : Text, ∀ entry ∈ read s, Settled entry) ∧
    (∀ s : Text, read (join "," (read s)) = read s) ∧
    ∀ entries : List Text, (∃ s, read s = entries) ↔ ∀ entry ∈ entries, Settled entry := by
  refine ⟨read_append, fun _ => read_of_not_mem, fun _ _ => settled_of_mem_read,
    fun _ => read_join_of_settled fun _ => settled_of_mem_read, fun entries => ⟨?_, fun h => ?_⟩⟩
  · rintro ⟨s, rfl⟩ entry hentry
    exact settled_of_mem_read hentry
  · exact ⟨join "," entries, read_join_of_settled h⟩

/-- Two courses in an untidy text. The last letter of the second has no upper case of its own. -/
def untidyList : Text := " math\u3000135 ,, \t,\nﬁne 101ß"

theorem course_list_in_parts_untidy :
    read untidyList = ["MATH\u3000135", "FINE 101SS"] ∧
      Settled "FINE 101SS" ∧
      (',' : CodePoint) ∉ ("\nﬁne 101ß" : Text) ∧ read "\nﬁne 101ß" = ["FINE 101SS"] ∧
      read "MATH\u3000135,FINE 101SS" = ["MATH\u3000135", "FINE 101SS"] := by
  obtain ⟨-, halone, hsettled, hagain, -⟩ := course_list_in_parts
  have hread : read untidyList = ["MATH\u3000135", "FINE 101SS"] := by decide +kernel
  have hcomma : (',' : CodePoint) ∉ ("\nﬁne 101ß" : Text) := by decide +kernel
  refine ⟨hread, hsettled untidyList _ (hread ▸ by simp), hcomma, ?_, ?_⟩
  · rw [halone _ hcomma]
    decide +kernel
  · have hjoin := hagain untidyList
    rwa [hread] at hjoin

end CourseList

end DegreeAudit
