import FeatureRl.Lib.Checked
import Mathlib.Data.List.Forall2

/-!
Computations that read a store and stop at the first read that fails. Such a computation
cannot tell a store from a larger one that still answers what it asked.
-/

/-- A computation with its reads. -/
inductive Reads (κ ν ε α : Type) where
  | done (outcome : Except ε α)
  | fetch (key : κ) (next : ν → Reads κ ν ε α)

namespace Reads

variable {κ ν ε α β : Type}

def run (lookup : κ → Except ε ν) : Reads κ ν ε α → Except ε α
  | done outcome => outcome
  | fetch key next => lookup key >>= fun value => run lookup (next value)

def bind (first : Reads κ ν ε α) (second : α → Reads κ ν ε β) : Reads κ ν ε β :=
  match first with
  | done (.error failure) => done (.error failure)
  | done (.ok value) => second value
  | fetch key next => fetch key fun value => bind (next value) second

instance : Monad (Reads κ ν ε) where
  pure value := done (.ok value)
  bind := Reads.bind

theorem run_bind (lookup : κ → Except ε ν) (first : Reads κ ν ε α) (second : α → Reads κ ν ε β) :
    (first >>= second).run lookup = first.run lookup >>= fun value => (second value).run lookup := by
  change (bind first second).run lookup = _
  induction first with
  | done outcome => cases outcome <;> rfl
  | fetch key next ih =>
      simp only [bind, run]
      cases lookup key with
      | error failure => rfl
      | ok value => exact ih value

@[simp] theorem run_pure (lookup : κ → Except ε ν) (value : α) :
    (pure value : Reads κ ν ε α).run lookup = .ok value := rfl

/-- Run the computation of each item from first to last. -/
def mapAll (f : α → Reads κ ν ε β) : List α → Reads κ ν ε (List β)
  | [] => pure []
  | item :: rest => f item >>= fun value => mapAll f rest >>= fun values => pure (value :: values)

theorem exists_of_mapAll {lookup : κ → Except ε ν} {f : α → Reads κ ν ε β} {items : List α}
    {values : List β} (returned : (mapAll f items).run lookup = .ok values) :
    List.Forall₂ (fun item value => (f item).run lookup = .ok value) items values := by
  induction items generalizing values with
  | nil =>
      obtain rfl := Except.ok.inj returned
      exact .nil
  | cons item rest ih =>
      simp only [mapAll, run_bind, Checked.bind_eq_ok, run_pure] at returned
      obtain ⟨value, here, others, later, done⟩ := returned
      obtain rfl := Except.ok.inj done
      exact .cons here (ih later)

/-- What a computation returned, it returns wherever its reads succeed with the same values. -/
theorem run_mono {lookup larger : κ → Except ε ν}
    (grows : ∀ key value, lookup key = .ok value → larger key = .ok value) {program : Reads κ ν ε α}
    {result : α} (returned : program.run lookup = .ok result) : program.run larger = .ok result := by
  induction program with
  | done outcome => exact returned
  | fetch key next ih =>
      obtain ⟨value, read, rest⟩ := Checked.bind_eq_ok.mp returned
      exact Checked.bind_eq_ok.mpr ⟨value, grows key value read, ih value rest⟩

end Reads
