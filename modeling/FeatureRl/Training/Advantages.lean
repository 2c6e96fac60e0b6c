import FeatureRl.Lib.Checked
import Mathlib.Algebra.BigOperators.Group.List.Basic
import Mathlib.Algebra.BigOperators.Ring.List
import Mathlib.Algebra.Order.Field.Rat
import Mathlib.Data.List.ReduceOption
import Mathlib.Tactic.FieldSimp
import Mathlib.Tactic.Linarith
import Mathlib.Tactic.NormNum
import Mathlib.Tactic.Positivity
import Mathlib.Tactic.Ring

/-!
The advantages of a group: measured rewards against their mean, in exact arithmetic. The
square root of the deviation is a parameter; whatever it gives, the scale is positive.
-/

namespace FeatureRl

open Checked

namespace Training

inductive Failure where
  | value (text : String)
  | attribute
  | type
  | assertion
  | index

def isReward : Option Int → Bool
  | none => true
  | some reward => reward = 0 || reward = 1

def centred (valid : List Int) (reward : Int) : ℚ :=
  ((reward : ℚ) * valid.length - (valid.sum : Int)) / valid.length

def scaleOf (sqrt : ℚ → ℚ) (normalizeStd : Bool) (valid : List Int) : ℚ :=
  let std := sqrt ((valid.map fun reward => centred valid reward ^ 2).sum / valid.length)
  if normalizeStd then max std (1 / 10 ^ 6) else 1

def groupAdvantages (sqrt : ℚ → ℚ) (normalizeStd : Bool) (rewards : List (Option Int)) :
    Except Failure (List (Option ℚ)) := do
  refuse (rewards.length < 2 ∨ rewards.all isReward = false)
    (.value "GRPO requires at least two assigned binary-or-invalid outcomes")
  let valid := rewards.reduceOption
  if valid.length < 2 then .ok (rewards.map (Option.map fun _ => 0))
  else
    let scale := scaleOf sqrt normalizeStd valid
    .ok (rewards.map (Option.map fun reward => centred valid reward / scale))

/-- The advantage of a measured reward among the measured rewards of its group. -/
def advantageOf (sqrt : ℚ → ℚ) (normalizeStd : Bool) (valid : List Int) (reward : Int) : ℚ :=
  if valid.length < 2 then 0 else centred valid reward / scaleOf sqrt normalizeStd valid

variable {sqrt : ℚ → ℚ} {normalizeStd : Bool}

theorem advantageOf_few {valid : List Int} (few : valid.length < 2) :
    advantageOf sqrt normalizeStd valid = fun _ => 0 := by
  funext reward
  rw [advantageOf, if_pos few]

theorem advantageOf_enough {valid : List Int} (enough : ¬ valid.length < 2) :
    advantageOf sqrt normalizeStd valid = fun reward => centred valid reward / scaleOf sqrt normalizeStd valid := by
  funext reward
  rw [advantageOf, if_neg enough]

theorem groupAdvantages_eq_ok {rewards : List (Option Int)} {advantages : List (Option ℚ)} :
    groupAdvantages sqrt normalizeStd rewards = .ok advantages ↔
      2 ≤ rewards.length ∧ rewards.all isReward = true ∧
        advantages = rewards.map (Option.map (advantageOf sqrt normalizeStd rewards.reduceOption)) := by
  have branches : (if rewards.reduceOption.length < 2 then
      Except.ok (ε := Failure) (rewards.map (Option.map fun _ => (0 : ℚ)))
      else .ok (rewards.map (Option.map fun reward =>
        centred rewards.reduceOption reward / scaleOf sqrt normalizeStd rewards.reduceOption))) =
      .ok (rewards.map (Option.map (advantageOf sqrt normalizeStd rewards.reduceOption))) := by
    split
    next few => rw [advantageOf_few few]
    next enough => rw [advantageOf_enough enough]
  simp only [groupAdvantages, bind_eq_ok, refuse_eq_ok, branches, not_or, Nat.not_lt, Bool.not_eq_false,
    Except.ok.injEq]
  constructor
  · rintro ⟨-, ⟨size, binary⟩, same⟩
    exact ⟨size, binary, same.symm⟩
  · rintro ⟨size, binary, same⟩
    exact ⟨(), ⟨size, binary⟩, same.symm⟩

theorem scaleOf_pos (valid : List Int) : 0 < scaleOf sqrt normalizeStd valid := by
  rw [scaleOf]
  split
  · exact lt_max_of_lt_right (by positivity)
  · exact one_pos

/-! ### The mean -/

theorem sum_centred (valid : List Int) : (valid.map (centred valid)).sum = 0 := by
  have spread (part : List Int) : (part.map (centred valid)).sum =
      ((part.sum : Int) * valid.length - part.length * (valid.sum : Int)) / valid.length := by
    induction part with
    | nil => simp
    | cons reward rest ih =>
        rw [List.map_cons, List.sum_cons, ih, centred, List.sum_cons, List.length_cons]
        push_cast
        ring
  rw [spread, mul_comm, sub_self, zero_div]

/-- The advantages of the measured rewards cancel. -/
theorem sum_advantageOf (valid : List Int) : (valid.map (advantageOf sqrt normalizeStd valid)).sum = 0 := by
  by_cases few : valid.length < 2
  · simp [advantageOf_few few]
  · have scaled : valid.map (advantageOf sqrt normalizeStd valid) =
        (valid.map (centred valid)).map fun value => value / scaleOf sqrt normalizeStd valid := by
      rw [List.map_map, advantageOf_enough few]
      rfl
    have divided (values : List ℚ) (scale : ℚ) :
        (values.map fun value => value / scale).sum = values.sum / scale := by
      induction values with
      | nil => simp
      | cons value rest ih => rw [List.map_cons, List.sum_cons, ih, List.sum_cons, add_div]
    rw [scaled, divided, sum_centred, zero_div]

/-- A measured reward has no advantage exactly when it is the mean or has no peer. -/
theorem advantageOf_eq_zero_iff {valid : List Int} {reward : Int} (enough : 2 ≤ valid.length) :
    advantageOf sqrt normalizeStd valid reward = 0 ↔ reward * valid.length = valid.sum := by
  have size : (valid.length : ℚ) ≠ 0 := by
    have positive : 0 < valid.length := by omega
    exact_mod_cast positive.ne'
  rw [advantageOf, if_neg (by omega), div_eq_zero_iff, or_iff_left (scaleOf_pos valid).ne', centred,
    div_eq_zero_iff, or_iff_left size, sub_eq_zero]
  exact_mod_cast Iff.rfl

theorem sum_of_equal {valid : List Int} {reward : Int} (equal : ∀ other ∈ valid, other = reward) :
    reward * valid.length = valid.sum := by
  rw [List.eq_replicate_of_mem equal, List.sum_replicate, List.length_replicate, nsmul_eq_mul, mul_comm]

/-- Binary rewards that are not all equal are all away from their mean. -/
theorem equal_of_mean {valid : List Int} {reward : Int} (binary : ∀ other ∈ valid, other = 0 ∨ other = 1)
    (member : reward ∈ valid) (mean : reward * valid.length = valid.sum) : ∀ other ∈ valid, other = reward := by
  have lower (part : List Int) (bits : ∀ other ∈ part, other = 0 ∨ other = 1) : 0 ≤ part.sum :=
    List.sum_nonneg fun other listed => by rcases bits other listed with rfl | rfl <;> omega
  have upper (part : List Int) (bits : ∀ other ∈ part, other = 0 ∨ other = 1) : part.sum ≤ part.length := by
    have bound := List.sum_le_card_nsmul part (1 : Int) fun other listed => by
      rcases bits other listed with rfl | rfl <;> omega
    simpa using bound
  intro other listed
  obtain ⟨before, after, rfl⟩ := List.append_of_mem listed
  have low := lower (before ++ after) fun one inside => binary one (by
    rcases List.mem_append.mp inside with left | right
    · exact List.mem_append_left _ left
    · exact List.mem_append_right _ (List.mem_cons_of_mem _ right))
  have high := upper (before ++ after) fun one inside => binary one (by
    rcases List.mem_append.mp inside with left | right
    · exact List.mem_append_left _ left
    · exact List.mem_append_right _ (List.mem_cons_of_mem _ right))
  simp only [List.sum_append, List.length_append] at low high
  simp only [List.sum_append, List.sum_cons, List.length_append, List.length_cons] at mean
  push_cast at mean high
  rcases binary reward member with rfl | rfl <;> rcases binary other listed with rfl | rfl <;> omega

end Training

end FeatureRl
