import DegreeAudit.Breadth
import Mathlib.Data.List.Perm.Subperm

/-!
# Counting courses for breadth

The countable courses of a student are known as a set: `mem_countable` says which canonical codes
count, and none of them is listed twice. So the courses of a longer list count at least as often
(`countable_subperm`).

**Categories.** How many courses a category gets depends on three numbers only: how many courses
belong to the pure sciences alone, to the applied sciences alone, and to both. Handing out the
overlap leaves each of the two categories at least as many courses when any of these numbers grows
(`length_assigned_le`), although more courses in the pure sciences change where the overlap goes.
-/

namespace DegreeAudit

/-! ## Countable courses -/

theorem mem_distinctTexts {seen texts : List Text} {s : Text} :
    s ∈ distinctTexts seen texts ↔ s ∈ texts ∧ s ∉ seen := by
  induction texts generalizing seen with
  | nil => simp [distinctTexts]
  | cons t rest ih =>
    unfold distinctTexts
    split
    · next ht =>
      rw [ih, List.mem_cons]
      exact ⟨fun h => ⟨.inr h.1, h.2⟩, fun h => ⟨h.1.resolve_left fun hs => h.2 (hs ▸ ht), h.2⟩⟩
    · next ht =>
      simp only [List.mem_cons, ih, not_or]
      by_cases hs : s = t
      · subst hs
        simp [ht]
      · simp [hs]

theorem nodup_distinctTexts (seen texts : List Text) : (distinctTexts seen texts).Nodup := by
  induction texts generalizing seen with
  | nil => exact List.nodup_nil
  | cons t rest ih =>
    unfold distinctTexts
    split
    · exact ih seen
    · rw [List.nodup_cons, mem_distinctTexts]
      exact ⟨fun h => h.2 List.mem_cons_self, ih (t :: seen)⟩

theorem mem_countable {excluded codes : List Text} {code : Text} :
    code ∈ countable excluded codes ↔
      isCountable excluded code = true ∧ ∃ c ∈ codes, Code.canonical c = code := by
  simp [countable, mem_distinctTexts, List.mem_filter, and_comm]

theorem nodup_countable (excluded codes : List Text) : (countable excluded codes).Nodup :=
  nodup_distinctTexts _ _

theorem countable_subset {codes codes' : List Text} (excluded : List Text) (h : codes ⊆ codes') :
    countable excluded codes ⊆ countable excluded codes' := by
  intro code hcode
  obtain ⟨hcount, c, hc, hcanon⟩ := mem_countable.mp hcode
  exact mem_countable.mpr ⟨hcount, c, h hc, hcanon⟩

theorem countable_subperm {codes codes' : List Text} (excluded : List Text) (h : codes ⊆ codes') :
    (countable excluded codes).Subperm (countable excluded codes') :=
  (nodup_countable excluded codes).subperm (countable_subset excluded h)

/-! ## Categories -/

namespace BreadthPolicy

variable (p : BreadthPolicy)

theorem length_assigned_pure (codes : List Text) :
    (p.assigned codes .pureSciences).length =
      (p.withoutOverlap .pureSciences codes).length +
        min (p.pureShare codes) (p.overlap codes).length := by
  rw [assigned, List.length_append, List.length_take]

theorem length_assigned_applied (codes : List Text) :
    (p.assigned codes .appliedSciences).length =
      (p.withoutOverlap .appliedSciences codes).length +
        ((p.overlap codes).length - p.pureShare codes) := by
  rw [assigned, List.length_append, List.length_drop]

/-- **No category loses a course** when more courses are taken. -/
theorem length_assigned_le {codes codes' : List Text} (h : codes.Subperm codes') (c : Category) :
    (p.assigned codes c).length ≤ (p.assigned codes' c).length := by
  have hcat : ∀ c, (p.ofCategory c codes).Subperm (p.ofCategory c codes') := fun c => h.filter _
  have halone : ∀ c, (p.withoutOverlap c codes).length ≤ (p.withoutOverlap c codes').length :=
    fun c => ((hcat c).filter _).length_le
  have hoverlap : (p.overlap codes).length ≤ (p.overlap codes').length := (h.filter _).length_le
  have hpure := halone .pureSciences
  have happlied := halone .appliedSciences
  cases c with
  | humanities => exact (hcat .humanities).length_le
  | socialSciences => exact (hcat .socialSciences).length_le
  | pureSciences =>
    rw [length_assigned_pure, length_assigned_pure]
    unfold pureShare
    omega
  | appliedSciences =>
    rw [length_assigned_applied, length_assigned_applied]
    unfold pureShare
    omega

theorem classify_length_le {codes codes' : List Text} (h : codes ⊆ codes') :
    List.Forall₂ (fun f g => f.category = g.category ∧ f.needed = g.needed ∧
        f.taken.length ≤ g.taken.length)
      (p.classify codes).categories (p.classify codes').categories := by
  have hsub := countable_subperm p.excludedSubjects h
  simp only [classify, List.forall₂_map_left_iff, List.forall₂_map_right_iff, List.forall₂_same,
    true_and]
  exact fun c _ => p.length_assigned_le hsub c

end BreadthPolicy

end DegreeAudit
