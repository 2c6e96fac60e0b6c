import Mathlib.Logic.Basic

/-!
Computations on a state that keep their effects when they fail, as a process does that
raises halfway. `Ends` says how a computation may end; each way to build one has a rule.
-/

/-- A state transformer that returns a value or fails, with the state it reached. -/
def Effects (σ ε α : Type) := σ → Except ε α × σ

namespace Effects

variable {σ ε α β : Type}

instance : Monad (Effects σ ε) where
  pure value state := (.ok value, state)
  bind computation next state :=
    match computation state with
    | (.ok value, after) => next value after
    | (.error failure, after) => (.error failure, after)

/-- A check or a pure computation. -/
def lift (outcome : Except ε α) : Effects σ ε α := fun state => (outcome, state)

def read : Effects σ ε σ := fun state => (.ok state, state)

def modify (change : σ → σ) : Effects σ ε Unit := fun state => (.ok (), change state)

/-- Run a handler when the computation fails, in the state that the failure left. -/
def catching (computation : Effects σ ε α) (handler : ε → Effects σ ε α) : Effects σ ε α := fun state =>
  match computation state with
  | (.ok value, after) => (.ok value, after)
  | (.error failure, after) => handler failure after

/-- Run a last step whether the computation returns or fails; its own failure wins. -/
def finishing (computation : Effects σ ε α) (last : Effects σ ε Unit) : Effects σ ε α := fun state =>
  match computation state with
  | (outcome, after) =>
      match last after with
      | (.ok (), final) => (outcome, final)
      | (.error failure, final) => (.error failure, final)

/-- Started in `state`, the computation returns a value with `done` or fails with `failed`. -/
def Ends (computation : Effects σ ε α) (state : σ) (done : α → σ → Prop)
    (failed : ε → σ → Prop) : Prop :=
  match computation state with
  | (.ok value, after) => done value after
  | (.error failure, after) => failed failure after

theorem Ends.mono {computation : Effects σ ε α} {state : σ} {done other : α → σ → Prop}
    {failed broken : ε → σ → Prop} (ends : computation.Ends state done failed)
    (weaker : ∀ value after, done value after → other value after)
    (worse : ∀ failure after, failed failure after → broken failure after) :
    computation.Ends state other broken := by
  simp only [Ends] at ends ⊢
  generalize computation state = result at ends
  rcases result with ⟨failure | value, after⟩
  · exact worse failure after ends
  · exact weaker value after ends

theorem Ends.and {computation : Effects σ ε α} {state : σ} {done other : α → σ → Prop}
    {failed broken : ε → σ → Prop} (ends : computation.Ends state done failed)
    (also : computation.Ends state other broken) :
    computation.Ends state (fun value after => done value after ∧ other value after)
      (fun failure after => failed failure after ∧ broken failure after) := by
  simp only [Ends] at ends also ⊢
  generalize computation state = result at ends also
  rcases result with ⟨failure | value, after⟩ <;> exact ⟨ends, also⟩

theorem ends_of_ok {computation : Effects σ ε α} {state after : σ} {value : α}
    {done : α → σ → Prop} {failed : ε → σ → Prop} (ends : computation.Ends state done failed)
    (returned : computation state = (.ok value, after)) : done value after := by
  simpa only [Ends, returned] using ends

theorem ends_of_error {computation : Effects σ ε α} {state after : σ} {failure : ε}
    {done : α → σ → Prop} {failed : ε → σ → Prop} (ends : computation.Ends state done failed)
    (raised : computation state = (.error failure, after)) : failed failure after := by
  simpa only [Ends, raised] using ends

/-- What holds however a computation ends holds of the state that it leaves. -/
theorem final_of_ends {computation : Effects σ ε α} {state : σ} {holds : σ → Prop}
    (ends : computation.Ends state (fun _ after => holds after) fun _ after => holds after) :
    holds (computation state).2 := by
  simp only [Ends] at ends
  generalize computation state = result at ends ⊢
  rcases result with ⟨failure | value, after⟩
  · exact ends
  · exact ends

/-- A computation that cannot fail returns. -/
theorem ok_of_ends {computation : Effects σ ε α} {state : σ} {done : α → σ → Prop}
    (ends : computation.Ends state done fun _ _ => False) :
    ∃ value after, computation state = (.ok value, after) ∧ done value after := by
  simp only [Ends] at ends
  generalize computation state = result at ends
  rcases result with ⟨failure | value, after⟩
  · exact ends.elim
  · exact ⟨value, after, rfl, ends⟩

/-- A computation that cannot return fails. -/
theorem error_of_ends {computation : Effects σ ε α} {state : σ} {failed : ε → σ → Prop}
    (ends : computation.Ends state (fun _ _ => False) failed) :
    ∃ failure after, computation state = (.error failure, after) ∧ failed failure after := by
  simp only [Ends] at ends
  generalize computation state = result at ends
  rcases result with ⟨failure | value, after⟩
  · exact ⟨failure, after, rfl, ends⟩
  · exact ends.elim

variable {state : σ} {done : α → σ → Prop} {failed : ε → σ → Prop}

@[simp] theorem ends_pure {value : α} :
    (pure value : Effects σ ε α).Ends state done failed ↔ done value state := Iff.rfl

@[simp] theorem ends_bind {computation : Effects σ ε β} {next : β → Effects σ ε α} :
    (computation >>= next).Ends state done failed ↔
      computation.Ends state (fun value after => (next value).Ends after done failed) failed := by
  simp only [Ends, bind]
  rcases computation state with ⟨failure | value, after⟩ <;> rfl

@[simp] theorem ends_lift {outcome : Except ε α} :
    (lift outcome : Effects σ ε α).Ends state done failed ↔
      (∀ value, outcome = .ok value → done value state) ∧
        ∀ failure, outcome = .error failure → failed failure state := by
  cases outcome <;> simp [Ends, lift]

theorem ends_lift_ok {value : α} :
    (lift (.ok value) : Effects σ ε α).Ends state done failed ↔ done value state := Iff.rfl

theorem ends_lift_error {failure : ε} :
    (lift (.error failure) : Effects σ ε α).Ends state done failed ↔ failed failure state := Iff.rfl

@[simp] theorem ends_read {done : σ → σ → Prop} :
    (read : Effects σ ε σ).Ends state done failed ↔ done state state := Iff.rfl

@[simp] theorem ends_modify {change : σ → σ} {done : Unit → σ → Prop} :
    (modify change : Effects σ ε Unit).Ends state done failed ↔ done () (change state) := Iff.rfl

theorem ends_catching {computation : Effects σ ε α} {handler : ε → Effects σ ε α} :
    (computation.catching handler).Ends state done failed ↔
      computation.Ends state done fun failure after => (handler failure).Ends after done failed := by
  simp only [Ends, catching]
  rcases computation state with ⟨failure | value, after⟩ <;> rfl

theorem ends_finishing {computation : Effects σ ε α} {last : Effects σ ε Unit} :
    (computation.finishing last).Ends state done failed ↔
      computation.Ends state
        (fun value after => last.Ends after (fun _ final => done value final) failed)
        (fun failure after => last.Ends after (fun _ final => failed failure final) failed) := by
  simp only [Ends, finishing]
  rcases computation state with ⟨failure | value, after⟩ <;>
    · simp only
      rcases last after with ⟨problem | _, final⟩ <;> rfl

-- Programs are taken apart by the rules alone, never by evaluating them.
attribute [irreducible] Ends

end Effects
