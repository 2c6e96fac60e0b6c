import Mathlib.Logic.Basic
import Mathlib.Tactic.TypeStar

/-!
Computations that stop at the first failed check. Each operation has one rule for when it
succeeds, so a proof takes a computation apart without unfolding the monad.
-/

namespace Checked

universe u

variable {ε : Type*} {α β : Type u}

theorem bind_eq_ok {computation : Except ε α} {next : α → Except ε β} {result : β} :
    (computation >>= next) = .ok result ↔
      ∃ value, computation = .ok value ∧ next value = .ok result := by
  cases computation <;> simp [bind, Except.bind]

theorem ok_bind (value : α) (next : α → Except ε β) : (Except.ok value >>= next) = next value := rfl

/-- One check after another. -/
theorem seq_eq_ok {γ : Type} {first : Except ε Unit} {second : Except ε γ} {result : γ} :
    (first >>= fun _ => second) = .ok result ↔ first = .ok () ∧ second = .ok result := by
  cases first <;> simp [bind, Except.bind]

theorem bind_eq_error {computation : Except ε α} {next : α → Except ε β} {failure : ε} :
    (computation >>= next) = .error failure ↔
      computation = .error failure ∨ ∃ value, computation = .ok value ∧ next value = .error failure := by
  cases computation <;> simp [bind, Except.bind]

theorem exists_ok {outcome : Except ε α} (ok : outcome.toBool = true) : ∃ value, outcome = .ok value := by
  cases outcome with
  | error => cases ok
  | ok value => exact ⟨value, rfl⟩

/-- Stop with the failure when the condition holds. -/
def refuse (condition : Prop) [Decidable condition] (failure : ε) : Except ε Unit :=
  if condition then .error failure else .ok ()

theorem refuse_eq_ok {condition : Prop} [Decidable condition] {failure : ε} {result : Unit} :
    refuse condition failure = .ok result ↔ ¬ condition := by
  by_cases holds : condition <;> simp [refuse, holds]

theorem refuse_eq_error {condition : Prop} [Decidable condition] {failure other : ε} :
    refuse condition failure = .error other ↔ condition ∧ failure = other := by
  by_cases holds : condition <;> simp [refuse, holds]

/-- The value of an option, or the failure. -/
def require (value : Option α) (failure : ε) : Except ε α :=
  match value with
  | none => .error failure
  | some value => .ok value

theorem require_eq_ok {value : Option α} {failure : ε} {result : α} :
    require value failure = .ok result ↔ value = some result := by
  cases value <;> simp [require]

theorem require_eq_error {value : Option α} {failure other : ε} :
    require value failure = .error other ↔ value = none ∧ failure = other := by
  cases value <;> simp [require]

/-- Check the items from first to last. -/
def checkAll (check : α → Except ε Unit) : List α → Except ε Unit
  | [] => .ok ()
  | item :: rest => check item >>= fun _ => checkAll check rest

theorem checkAll_eq_ok {check : α → Except ε Unit} {items : List α} {result : Unit} :
    checkAll check items = .ok result ↔ ∀ item ∈ items, check item = .ok () := by
  induction items with
  | nil => simp [checkAll]
  | cons item rest ih =>
      rw [checkAll, bind_eq_ok, List.forall_mem_cons, ← ih]
      exact ⟨fun ⟨(), here, later⟩ => ⟨here, later⟩, fun ⟨here, later⟩ => ⟨(), here, later⟩⟩

/-- Carry a state through the items from first to last. -/
def foldAll (step : β → α → Except ε β) : β → List α → Except ε β
  | state, [] => .ok state
  | state, item :: rest => step state item >>= fun next => foldAll step next rest

@[simp] theorem foldAll_nil (step : β → α → Except ε β) (state : β) :
    foldAll step state [] = .ok state := rfl

theorem foldAll_cons_eq_ok {step : β → α → Except ε β} {state result : β} {item : α}
    {rest : List α} : foldAll step state (item :: rest) = .ok result ↔
      ∃ next, step state item = .ok next ∧ foldAll step next rest = .ok result := by
  rw [foldAll, bind_eq_ok]

theorem foldAll_append_eq_ok {step : β → α → Except ε β} {state result : β}
    {first second : List α} : foldAll step state (first ++ second) = .ok result ↔
      ∃ middle, foldAll step state first = .ok middle ∧
        foldAll step middle second = .ok result := by
  induction first generalizing state with
  | nil => simp
  | cons item rest ih =>
      simp only [List.cons_append, foldAll_cons_eq_ok, ih]
      constructor
      · rintro ⟨next, here, middle, left, right⟩
        exact ⟨middle, ⟨next, here, left⟩, right⟩
      · rintro ⟨middle, ⟨next, here, left⟩, right⟩
        exact ⟨next, here, middle, left, right⟩

theorem foldAll_concat_eq_ok {step : β → α → Except ε β} {state result : β} {items : List α}
    {last : α} : foldAll step state (items ++ [last]) = .ok result ↔
      ∃ middle, foldAll step state items = .ok middle ∧ step middle last = .ok result := by
  simp [foldAll_append_eq_ok, foldAll_cons_eq_ok]

end Checked
