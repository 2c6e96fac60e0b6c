import Mathlib.Order.Basic
import Mathlib.Order.Bounds.Basic
import Mathlib.Order.Monotone.Defs
import Mathlib.Tactic.TypeStar

/-!
A loop that repeats an inflationary pass until a size measure stops growing. It ends within
the room the measure has, at the least value above the start that the pass keeps.
-/

namespace Fixpoint

variable {α : Type*}

/-- Repeat the pass until the size stays the same; `none` when the rounds run out. -/
def untilStable (pass : α → α) (size : α → Nat) : Nat → α → Option α
  | 0, _ => none
  | rounds + 1, value =>
      let next := pass value
      if size next = size value then some next else untilStable pass size rounds next

section

variable [PartialOrder α] {pass : α → α} {size : α → Nat}

theorem eq_of_size_eq (grows : StrictMono size) {small large : α} (below : small ≤ large)
    (same : size large = size small) : large = small := by
  rcases below.lt_or_eq with less | equal
  · exact absurd same (Nat.ne_of_gt (grows less))
  · exact equal.symm

/-- The loop ends at a value the pass keeps. -/
theorem untilStable_fixed (inflates : ∀ value, value ≤ pass value) (grows : StrictMono size)
    {rounds : Nat} {start result : α} (found : untilStable pass size rounds start = some result) :
    pass result = result := by
  induction rounds generalizing start with
  | zero => cases found
  | succ rounds ih =>
      simp only [untilStable] at found
      split at found
      next stable =>
        obtain rfl := Option.some.inj found
        have same := eq_of_size_eq grows (inflates start) stable
        exact congrArg pass same
      next => exact ih found

theorem le_untilStable (inflates : ∀ value, value ≤ pass value) {rounds : Nat}
    {start result : α} (found : untilStable pass size rounds start = some result) :
    start ≤ result := by
  induction rounds generalizing start with
  | zero => cases found
  | succ rounds ih =>
      simp only [untilStable] at found
      split at found
      next => exact Option.some.inj found ▸ inflates start
      next => exact (inflates start).trans (ih found)

theorem untilStable_le {top : α} (keeps : ∀ value, value ≤ top → pass value ≤ top) {rounds : Nat}
    {start result : α} (below : start ≤ top)
    (found : untilStable pass size rounds start = some result) : result ≤ top := by
  induction rounds generalizing start with
  | zero => cases found
  | succ rounds ih =>
      simp only [untilStable] at found
      split at found
      next => exact Option.some.inj found ▸ keeps start below
      next => exact ih (keeps start below) found

/-- Under a bound that the pass keeps, as many rounds as the size can grow are enough. -/
theorem untilStable_terminates (inflates : ∀ value, value ≤ pass value) (grows : StrictMono size)
    {top : α} (keeps : ∀ value, value ≤ top → pass value ≤ top) {rounds : Nat} {start : α}
    (below : start ≤ top) (enough : size top < rounds + size start) :
    ∃ result, untilStable pass size rounds start = some result := by
  induction rounds generalizing start with
  | zero =>
      have bounded := grows.monotone below
      omega
  | succ rounds ih =>
      simp only [untilStable]
      split
      next => exact ⟨_, rfl⟩
      next moved =>
        have larger := grows.monotone (inflates start)
        exact ih (keeps start below) (by omega)

/-- The loop computes the least value above its start that the pass keeps. -/
theorem untilStable_isLeast (inflates : ∀ value, value ≤ pass value) (grows : StrictMono size)
    (monotone : Monotone pass) {rounds : Nat} {start result : α}
    (found : untilStable pass size rounds start = some result) :
    IsLeast {value | start ≤ value ∧ pass value ≤ value} result := by
  refine ⟨⟨le_untilStable inflates found, (untilStable_fixed inflates grows found).le⟩, ?_⟩
  rintro top ⟨below, closed⟩
  exact untilStable_le (fun value under => (monotone under).trans closed) below found

end

/-! ### Passes that fold over a list -/

section Folds

variable {β : Type*} [PartialOrder α] {step : α → β → α}

theorem le_foldl (inflates : ∀ value item, value ≤ step value item) (items : List β)
    (value : α) : value ≤ items.foldl step value := by
  induction items generalizing value with
  | nil => exact le_rfl
  | cons item rest ih => exact (inflates value item).trans (ih _)

/-- A fold that changes nothing has no step that does. -/
theorem step_of_foldl_eq (inflates : ∀ value item, value ≤ step value item) {items : List β}
    {value : α} (fixed : items.foldl step value = value) {item : β} (member : item ∈ items) :
    step value item = value := by
  induction items with
  | nil => cases member
  | cons first rest ih =>
      have after := le_foldl inflates rest (step value first)
      rw [List.foldl_cons] at fixed
      have here : step value first = value := le_antisymm (after.trans fixed.le) (inflates value first)
      rw [here] at fixed
      rcases List.mem_cons.mp member with rfl | later
      · exact here
      · exact ih fixed later

theorem foldl_le {items : List β} {value top : α}
    (keeps : ∀ item ∈ items, ∀ value, value ≤ top → step value item ≤ top)
    (below : value ≤ top) : items.foldl step value ≤ top := by
  induction items generalizing value with
  | nil => exact below
  | cons item rest ih =>
      exact ih (fun other member => keeps other (by simp [member]))
        (keeps item (by simp) value below)

end Folds

end Fixpoint
