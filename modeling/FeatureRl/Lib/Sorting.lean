import Mathlib.Data.List.Sort
import Mathlib.Order.Basic

/-! Lists sorted by a key. A sorted list does not depend on the order of what was sorted. -/

namespace Sorting

variable {α κ : Type*} [LinearOrder κ]

def sortBy (key : α → κ) (items : List α) : List α := items.insertionSort fun one two => key one ≤ key two

variable {key : α → κ} {items : List α}

theorem sortBy_perm (key : α → κ) (items : List α) : (sortBy key items).Perm items :=
  List.perm_insertionSort _ items

@[simp] theorem mem_sortBy {item : α} : item ∈ sortBy key items ↔ item ∈ items :=
  (sortBy_perm key items).mem_iff

theorem nodup_sortBy : (sortBy key items).Nodup ↔ items.Nodup := (sortBy_perm key items).nodup_iff

theorem sortBy_sorted (key : α → κ) (items : List α) :
    (sortBy key items).Pairwise fun one two => key one ≤ key two := by
  let _ : Std.Total fun one two : α => key one ≤ key two := ⟨fun one two => le_total (key one) (key two)⟩
  let _ : IsTrans α fun one two : α => key one ≤ key two := ⟨fun _ _ _ => le_trans⟩
  exact List.pairwise_insertionSort _ items

theorem sortBy_eq_self (sorted : items.Pairwise fun one two => key one ≤ key two) :
    sortBy key items = items := List.Pairwise.insertionSort_eq sorted

/-- Distinct keys leave only one sorted order. -/
theorem sortBy_eq_of_perm {others : List α} (injective : ∀ one ∈ items, ∀ two ∈ items,
    key one = key two → one = two) (same : items.Perm others) : sortBy key items = sortBy key others := by
  have sorted := ((sortBy_perm key items).trans same).trans (sortBy_perm key others).symm
  refine List.Perm.eq_of_pairwise ?_ (sortBy_sorted key items) (sortBy_sorted key others) sorted
  intro one two first second below above
  exact injective one (mem_sortBy.mp first) two (same.mem_iff.mpr (mem_sortBy.mp second))
    (le_antisymm below above)

end Sorting
