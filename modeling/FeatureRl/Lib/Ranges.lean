import FeatureRl.Lib.Sorting
import Mathlib.Algebra.GroupWithZero.Nat
import Mathlib.Data.List.Lex
import Mathlib.Data.Prod.Lex
import Mathlib.Order.Lattice.Nat

/-!
Inclusive ranges of positive numbers. Ranges that touch or leave a gap of one are merged; what
remains is increasing and apart.
-/

namespace Ranges

abbrev Range := Nat × Nat

def Formed (range : Range) : Prop := 1 ≤ range.1 ∧ range.1 ≤ range.2

/-- Add a range to merged ones, the last of which stands first. -/
def mergeStep : List Range → Range → List Range
  | [], range => [range]
  | last :: rest, range =>
      if range.1 ≤ last.2 + 2 then (last.1, max range.2 last.2) :: rest else range :: last :: rest

def merge (ranges : List Range) : List Range :=
  ((Sorting.sortBy (fun range => toLex range) ranges).foldl mergeStep []).reverse

/-- How many numbers the ranges cover. -/
def size (ranges : List Range) : Nat := (ranges.map fun range => range.2 + 1 - range.1).sum

structure Separated (ranges : List Range) : Prop where
  formed : ∀ range ∈ ranges, Formed range
  apart : ranges.Pairwise fun one two => one.2 + 2 < two.1

/-- The same for ranges whose last stands first. -/
structure SeparatedBack (ranges : List Range) : Prop where
  formed : ∀ range ∈ ranges, Formed range
  apart : ranges.Pairwise fun one two => two.2 + 2 < one.1

theorem SeparatedBack.mergeStep {merged : List Range} {range : Range} (separated : SeparatedBack merged)
    (formed : Formed range) : SeparatedBack (mergeStep merged range) := by
  cases merged with
  | nil => exact ⟨by simpa [Ranges.mergeStep] using formed, List.pairwise_singleton _ _⟩
  | cons last rest =>
      have apart := List.pairwise_cons.mp separated.apart
      have lastFormed := separated.formed last List.mem_cons_self
      rw [Ranges.mergeStep]
      by_cases near : range.1 ≤ last.2 + 2
      · rw [if_pos near]
        constructor
        · intro other member
          rcases List.mem_cons.mp member with rfl | later
          · exact ⟨lastFormed.1, le_trans lastFormed.2 (le_max_right _ _)⟩
          · exact separated.formed other (List.mem_cons_of_mem _ later)
        · exact List.pairwise_cons.mpr apart
      · rw [if_neg near]
        constructor
        · intro other member
          rcases List.mem_cons.mp member with rfl | later
          · exact formed
          · exact separated.formed other later
        · refine List.pairwise_cons.mpr ⟨fun other member => ?_, separated.apart⟩
          have lower := lastFormed.2
          rcases List.mem_cons.mp member with rfl | later
          · omega
          · have before := apart.1 other later
            omega

theorem separatedBack_foldl {ranges merged : List Range} (separated : SeparatedBack merged)
    (formed : ∀ range ∈ ranges, Formed range) : SeparatedBack (ranges.foldl mergeStep merged) := by
  induction ranges generalizing merged with
  | nil => exact separated
  | cons range rest ih =>
      exact ih (separated.mergeStep (formed range List.mem_cons_self))
        fun other member => formed other (List.mem_cons_of_mem _ member)

theorem separated_merge {ranges : List Range} (formed : ∀ range ∈ ranges, Formed range) :
    Separated (merge ranges) := by
  have back : SeparatedBack ((Sorting.sortBy (fun range => toLex range) ranges).foldl mergeStep []) :=
    separatedBack_foldl ⟨by simp, List.Pairwise.nil⟩ fun range member => formed range (Sorting.mem_sortBy.mp member)
  exact ⟨fun range member => back.formed range (List.mem_reverse.mp member), List.pairwise_reverse.mpr back.apart⟩

theorem foldl_mergeStep_le {ranges merged : List Range} {bound : Nat} (before : ∀ range ∈ merged, range.2 ≤ bound)
    (inside : ∀ range ∈ ranges, range.2 ≤ bound) : ∀ range ∈ ranges.foldl mergeStep merged, range.2 ≤ bound := by
  induction ranges generalizing merged with
  | nil => exact before
  | cons range rest ih =>
      refine ih ?_ fun other member => inside other (List.mem_cons_of_mem _ member)
      have upper := inside range List.mem_cons_self
      intro other member
      cases merged with
      | nil =>
          obtain rfl := List.mem_singleton.mp member
          exact upper
      | cons last older =>
          rw [mergeStep] at member
          split at member
          next =>
            rcases List.mem_cons.mp member with rfl | later
            · exact max_le upper (before last List.mem_cons_self)
            · exact before other (List.mem_cons_of_mem _ later)
          next =>
            rcases List.mem_cons.mp member with rfl | later
            · exact upper
            · exact before other later

theorem merge_le {ranges : List Range} {bound : Nat} (inside : ∀ range ∈ ranges, range.2 ≤ bound) :
    ∀ range ∈ merge ranges, range.2 ≤ bound := fun range member =>
  foldl_mergeStep_le (by simp) (fun other found => inside other (Sorting.mem_sortBy.mp found)) range
    (List.mem_reverse.mp member)

theorem foldl_mergeStep_ne_nil {ranges merged : List Range} (some_range : ranges ≠ [] ∨ merged ≠ []) :
    ranges.foldl mergeStep merged ≠ [] := by
  induction ranges generalizing merged with
  | nil => simpa using some_range
  | cons range rest ih =>
      apply ih
      right
      cases merged with
      | nil => exact List.cons_ne_nil _ _
      | cons last older =>
          rw [mergeStep]
          split <;> exact List.cons_ne_nil _ _

theorem merge_ne_nil {ranges : List Range} (nonempty : ranges ≠ []) : merge ranges ≠ [] := by
  rw [merge, ne_eq, List.reverse_eq_nil_iff]
  refine foldl_mergeStep_ne_nil (.inl fun empty => nonempty ?_)
  exact List.Perm.nil_eq (empty ▸ (Sorting.sortBy_perm _ ranges)) |>.symm

end Ranges
