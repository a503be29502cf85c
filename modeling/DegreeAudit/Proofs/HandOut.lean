import DegreeAudit.Proofs.Counting
import Mathlib.Data.List.Induction
import Mathlib.Data.List.Nodup

/-!
# Handing out the overlapping courses

A course whose subject is both a pure and an applied science counts for one of the two. These
courses are handed out one after the other, to the pure sciences as long as they need courses and
then to the applied sciences (`handOut`). What a category is assigned is what it has in the end
(`foldl_handOut`).

**The invariant** (`PureFirst`). Nothing is lost or doubled on the way. The applied sciences got a
course only if the pure sciences have enough, and these got a course only up to what they need.

**Optimality.** The two numbers of courses have a fixed sum. If some way to split the overlapping
courses gives both categories what they need, then so does the invariant
(`PureFirst.meets`): the pure sciences have enough or all there is, and they have no more than they
need or no overlapping course at all. The main statement is `hand_out_lossless_and_optimal`.
-/

namespace DegreeAudit

/-! ## One course after the other -/

/-- The courses counted for the pure and for the applied sciences so far. -/
structure Sciences where
  pure : List Text
  applied : List Text

namespace Sciences

/-- Hands out an overlapping course. -/
def handOut (needed : Int) (h : Sciences) (code : Text) : Sciences :=
  if (h.pure.length : Int) < needed then { h with pure := h.pure ++ [code] }
  else { h with applied := h.applied ++ [code] }

/-- The pure sciences get the first courses, up to the number needed. -/
theorem foldl_handOut (needed : Int) (h : Sciences) (codes : List Text) :
    codes.foldl (handOut needed) h =
      ⟨h.pure ++ codes.take (needed - h.pure.length).toNat,
        h.applied ++ codes.drop (needed - h.pure.length).toNat⟩ := by
  induction codes generalizing h with
  | nil => simp
  | cons code rest ih =>
    rw [List.foldl_cons, ih]
    unfold handOut
    split
    · next hmore =>
      have hsucc : (needed - h.pure.length).toNat =
          (needed - (h.pure ++ [code]).length).toNat + 1 := by
        rw [List.length_append, List.length_singleton]
        omega
      rw [hsucc, List.take_succ_cons, List.drop_succ_cons, List.append_assoc,
        List.singleton_append]
    · next hfull =>
      have hzero : (needed - h.pure.length).toNat = 0 := by omega
      rw [hzero, List.take_zero, List.drop_zero, List.take_zero, List.drop_zero, List.append_assoc,
        List.singleton_append]

/-- A split of courses between the sciences that gives the pure sciences courses first: the applied
sciences got one only if the pure sciences have enough, and these got one only up to the number
needed. -/
structure PureFirst (needed : Int) (start : Sciences) (codes xs ys : List Text) : Prop where
  split : (xs ++ ys).Perm codes
  enough : ys = [] ∨ needed ≤ (start.pure ++ xs).length
  lean : xs = [] ∨ ((start.pure ++ xs).length : Int) ≤ needed

theorem PureFirst.step {needed : Int} {start : Sciences} {codes xs ys : List Text}
    (h : PureFirst needed start codes xs ys) (code : Text) :
    ∃ xs' ys', handOut needed ⟨start.pure ++ xs, start.applied ++ ys⟩ code =
        ⟨start.pure ++ xs', start.applied ++ ys'⟩ ∧
      PureFirst needed start (codes ++ [code]) xs' ys' := by
  unfold handOut
  dsimp only
  split
  · next hmore =>
    refine ⟨xs ++ [code], ys, by rw [List.append_assoc], ?_, .inl ?_, .inr ?_⟩
    · have hmiddle : (xs ++ [code] ++ ys).Perm (xs ++ ys ++ [code]) := by
        rw [List.append_assoc, List.append_assoc]
        exact List.perm_append_comm.append_left xs
      exact hmiddle.trans (h.split.append_right [code])
    · exact h.enough.resolve_right (by omega)
    · simp only [List.length_append, List.length_singleton] at hmore ⊢
      omega
  · next hfull =>
    refine ⟨xs, ys ++ [code], by rw [List.append_assoc], ?_, .inr (by omega), h.lean⟩
    rw [← List.append_assoc]
    exact h.split.append_right [code]

/-- Handing out courses one after the other splits them pure first. -/
theorem exists_pureFirst (needed : Int) (start : Sciences) (codes : List Text) :
    ∃ xs ys, codes.foldl (handOut needed) start = ⟨start.pure ++ xs, start.applied ++ ys⟩ ∧
      PureFirst needed start codes xs ys := by
  induction codes using List.reverseRecOn with
  | nil => exact ⟨[], [], by simp, List.Perm.refl _, .inl rfl, .inl rfl⟩
  | append_singleton codes code ih =>
    obtain ⟨xs, ys, hcodes, hfirst⟩ := ih
    rw [List.foldl_append, hcodes, List.foldl_cons, List.foldl_nil]
    exact hfirst.step code

/-- **Optimality.** If any split gives both sciences what they need, then so does one that is pure
first. -/
theorem PureFirst.meets {needed needed' : Int} {start : Sciences} {codes xs ys vs ws : List Text}
    (h : PureFirst needed start codes xs ys) (hsplit : (vs ++ ws).Perm codes)
    (hpure : needed ≤ (start.pure ++ vs).length)
    (happlied : needed' ≤ (start.applied ++ ws).length) :
    needed ≤ (start.pure ++ xs).length ∧ needed' ≤ (start.applied ++ ys).length := by
  have hlength := (h.split.trans hsplit.symm).length_eq
  obtain ⟨-, henough, hlean⟩ := h
  rw [← List.length_eq_zero_iff] at henough hlean
  simp only [List.length_append] at *
  constructor <;> omega

end Sciences

/-! ## Categories -/

namespace BreadthPolicy

variable (p : BreadthPolicy)

/-- Whether a course has a subject that is a pure or an applied science. -/
def isScience (code : Text) : Bool :=
  p.belongs .pureSciences (Code.subject code) || p.belongs .appliedSciences (Code.subject code)

/-- What is counted for the sciences before the overlapping courses are handed out. -/
def direct (counted : List Text) : Sciences :=
  ⟨p.withoutOverlap .pureSciences counted, p.withoutOverlap .appliedSciences counted⟩

/-- The courses assigned to the sciences are those that handing out leaves. -/
theorem assigned_eq_foldl_handOut (counted : List Text) :
    (⟨p.assigned counted .pureSciences, p.assigned counted .appliedSciences⟩ : Sciences) =
      (p.overlap counted).foldl (Sciences.handOut (p.needed .pureSciences)) (p.direct counted) := by
  rw [Sciences.foldl_handOut]
  rfl

theorem count_filter_eq (q : Text → Bool) (codes : List Text) (code : Text) :
    (codes.filter q).count code = if q code = true then codes.count code else 0 := by
  split
  · next hq => exact List.count_filter hq
  · next hq => exact List.count_eq_zero.mpr fun hmem => hq (List.mem_filter.mp hmem).2

theorem perm_sciences (counted : List Text) :
    ((p.direct counted).pure ++ (p.direct counted).applied ++ p.overlap counted).Perm
      (counted.filter p.isScience) := by
  rw [List.perm_iff_count]
  intro code
  simp only [direct, withoutOverlap, ofCategory, overlap, List.count_append, count_filter_eq,
    isScience, overlaps]
  by_cases hpure : p.belongs .pureSciences (Code.subject code) = true <;>
    by_cases happlied : p.belongs .appliedSciences (Code.subject code) = true <;>
      simp [hpure, happlied]

/-- The courses of the sciences are counted for one of the two, and once. -/
structure SharesOut (counted pure applied : List Text) : Prop where
  once : ∀ code ∈ counted, p.isScience code = true → pure.count code + applied.count code = 1
  pure : ∀ code ∈ pure, code ∈ counted ∧ p.belongs .pureSciences (Code.subject code) = true
  applied : ∀ code ∈ applied,
    code ∈ counted ∧ p.belongs .appliedSciences (Code.subject code) = true

/-- A way to split the overlapping courses that gives both sciences what they need. -/
structure Suffices (counted xs ys : List Text) : Prop where
  split : (xs ++ ys).Perm (p.overlap counted)
  pure : p.needed .pureSciences ≤ ((p.direct counted).pure ++ xs).length
  applied : p.needed .appliedSciences ≤ ((p.direct counted).applied ++ ys).length

variable {p}

/-- What handing out leaves, as a split of the overlapping courses. -/
theorem exists_assigned_eq (counted : List Text) :
    ∃ xs ys, p.assigned counted .pureSciences = (p.direct counted).pure ++ xs ∧
      p.assigned counted .appliedSciences = (p.direct counted).applied ++ ys ∧
      Sciences.PureFirst (p.needed .pureSciences) (p.direct counted) (p.overlap counted) xs ys := by
  obtain ⟨xs, ys, hcodes, hfirst⟩ :=
    Sciences.exists_pureFirst (p.needed .pureSciences) (p.direct counted) (p.overlap counted)
  obtain ⟨hpure, happlied⟩ :=
    Sciences.mk.inj ((p.assigned_eq_foldl_handOut counted).trans hcodes)
  exact ⟨xs, ys, hpure, happlied, hfirst⟩

/-- **Nothing is lost or doubled.** -/
theorem sharesOut_assigned {counted : List Text} (hnodup : counted.Nodup) :
    p.SharesOut counted (p.assigned counted .pureSciences)
      (p.assigned counted .appliedSciences) := by
  obtain ⟨xs, ys, hpure, happlied, hfirst⟩ := exists_assigned_eq (p := p) counted
  rw [hpure, happlied]
  have hoverlap : ∀ code ∈ xs ++ ys, code ∈ counted ∧ p.overlaps code = true :=
    fun code hcode => List.mem_filter.mp (hfirst.split.mem_iff.mp hcode)
  have hperm : ((p.direct counted).pure ++ xs ++ ((p.direct counted).applied ++ ys)).Perm
      (counted.filter p.isScience) := by
    have hsplit := (hfirst.split.append_left _).trans (p.perm_sciences counted)
    refine List.Perm.trans ?_ hsplit
    rw [List.append_assoc, List.append_assoc, ← List.append_assoc xs, ← List.append_assoc _ xs]
    exact (List.perm_append_comm.append_right ys).append_left _
  constructor
  · intro code hcode hscience
    rw [← List.count_append, hperm.count_eq, List.count_filter hscience]
    exact List.count_eq_one_of_mem hnodup hcode
  · intro code hcode
    rcases List.mem_append.mp hcode with h | h
    · obtain ⟨hcategory, -⟩ := List.mem_filter.mp h
      exact List.mem_filter.mp hcategory
    · obtain ⟨hcounted, hboth⟩ := hoverlap code (List.mem_append_left ys h)
      exact ⟨hcounted, (Bool.and_eq_true _ _ ▸ hboth).1⟩
  · intro code hcode
    rcases List.mem_append.mp hcode with h | h
    · obtain ⟨hcategory, -⟩ := List.mem_filter.mp h
      exact List.mem_filter.mp hcategory
    · obtain ⟨hcounted, hboth⟩ := hoverlap code (List.mem_append_right xs h)
      exact ⟨hcounted, (Bool.and_eq_true _ _ ▸ hboth).2⟩

/-- **Optimality.** Some split gives both sciences what they need exactly if they get it. -/
theorem exists_suffices_iff (counted : List Text) :
    (∃ xs ys, p.Suffices counted xs ys) ↔
      p.needed .pureSciences ≤ (p.assigned counted .pureSciences).length ∧
        p.needed .appliedSciences ≤ (p.assigned counted .appliedSciences).length := by
  obtain ⟨xs, ys, hpure, happlied, hfirst⟩ := exists_assigned_eq (p := p) counted
  rw [hpure, happlied]
  constructor
  · rintro ⟨vs, ws, h⟩
    exact hfirst.meets h.split h.pure h.applied
  · rintro ⟨hpure, happlied⟩
    exact ⟨xs, ys, hfirst.split, hpure, happlied⟩

end BreadthPolicy

/-- **The hand-out is lossless and optimal.** The pure and the applied sciences are assigned what
handing out the overlapping courses one after the other leaves. Every countable course with a
subject of the sciences is in exactly one of the two lists, once, and in the list of a category to
which its subject belongs. If any split of the overlapping courses gives both sciences what they
need, then so does this one. So breadth is satisfied exactly if the humanities and the social
sciences reach their numbers and some split suffices for the sciences. -/
theorem hand_out_lossless_and_optimal (p : BreadthPolicy) (codes : List Text) :
    ∃ counted pure applied,
      counted = countable p.excludedSubjects codes ∧
      (p.classify codes).categories =
        [⟨.humanities, p.needed .humanities, p.ofCategory .humanities counted⟩,
          ⟨.socialSciences, p.needed .socialSciences, p.ofCategory .socialSciences counted⟩,
          ⟨.pureSciences, p.needed .pureSciences, pure⟩,
          ⟨.appliedSciences, p.needed .appliedSciences, applied⟩] ∧
      ⟨pure, applied⟩ = (p.overlap counted).foldl (Sciences.handOut (p.needed .pureSciences))
        (p.direct counted) ∧
      p.SharesOut counted pure applied ∧
      (∀ xs ys, p.Suffices counted xs ys →
        p.needed .pureSciences ≤ pure.length ∧ p.needed .appliedSciences ≤ applied.length) ∧
      ((p.classify codes).satisfied = true ↔
        p.needed .humanities ≤ (p.ofCategory .humanities counted).length ∧
        p.needed .socialSciences ≤ (p.ofCategory .socialSciences counted).length ∧
        ∃ xs ys, p.Suffices counted xs ys) := by
  have hiff := p.exists_suffices_iff (countable p.excludedSubjects codes)
  refine ⟨_, _, _, rfl, rfl, p.assigned_eq_foldl_handOut _,
    BreadthPolicy.sharesOut_assigned (nodup_countable _ _), fun xs ys h => hiff.mp ⟨xs, ys, h⟩, ?_⟩
  rw [hiff]
  simp [BreadthFinding.satisfied, BreadthPolicy.classify, Category.all, CategoryFinding.met,
    BreadthPolicy.assigned]

/-- A policy in which physics is a pure and an applied science, and two courses of each are
needed. -/
def physicsPolicy : BreadthPolicy where
  subjects
    | .pureSciences => ["MATH", "PHYS"]
    | .appliedSciences => ["CS", "PHYS"]
    | _ => []
  excludedSubjects := []
  needed
    | .pureSciences | .appliedSciences => 2
    | _ => 0

/-- Some split suffices, and so does the one that hands out the first course of physics to the pure
sciences. -/
theorem hand_out_lossless_and_optimal_physics :
    ∃ counted pure applied,
      counted = countable [] ["PHYS 121", "math 135", "PHYS 122", "PHYS 234", "PHYS122"] ∧
      physicsPolicy.Suffices counted ["PHYS 234"] ["PHYS 122", "PHYS 121"] ∧
      (⟨pure, applied⟩ : Sciences) =
        ⟨["MATH 135", "PHYS 121"], ["PHYS 122", "PHYS 234"]⟩ ∧
      2 ≤ (pure.length : Int) ∧ 2 ≤ (applied.length : Int) ∧
      (physicsPolicy.classify
        ["PHYS 121", "math 135", "PHYS 122", "PHYS 234", "PHYS122"]).satisfied = true := by
  obtain ⟨counted, pure, applied, rfl, -, hhanded, -, hoptimal, hsatisfied⟩ :=
    hand_out_lossless_and_optimal physicsPolicy
      ["PHYS 121", "math 135", "PHYS 122", "PHYS 234", "PHYS122"]
  have hsuffices : physicsPolicy.Suffices
      (countable [] ["PHYS 121", "math 135", "PHYS 122", "PHYS 234", "PHYS122"])
      ["PHYS 234"] ["PHYS 122", "PHYS 121"] :=
    ⟨by decide +kernel, by decide +kernel, by decide +kernel⟩
  obtain ⟨hpure, happlied⟩ := hoptimal _ _ hsuffices
  exact ⟨_, pure, applied, rfl, hsuffices, hhanded.trans rfl, hpure, happlied,
    hsatisfied.mpr ⟨by decide +kernel, by decide +kernel, _, _, hsuffices⟩⟩

end DegreeAudit
