import Mathlib.Data.Int.CardIntervalMod
import Mathlib.Data.Nat.Count

/-!
Places that take turns. A place that passes its own turns on to further places nests one
round inside another.
-/

namespace RoundRobin

variable {places : Nat}

/-- How many of the first `rounds` turns fall to a place. -/
def turns (places place rounds : Nat) : Nat := Nat.count (fun turn => turn % places = place) rounds

theorem turns_eq {place : Nat} (rounds : Nat) (inside : place < places) :
    turns places place rounds = rounds / places + if place < rounds % places then 1 else 0 := by
  have counted := Nat.count_modEq_card rounds (Nat.zero_lt_of_lt inside) place
  rw [Nat.mod_eq_of_lt inside] at counted
  rw [← counted, turns]
  congr 1
  funext turn
  rw [Nat.ModEq, Nat.mod_eq_of_lt inside]

/-- No place is ahead of another by more than one turn. -/
theorem turns_le_succ {one two : Nat} (rounds : Nat) (first : one < places) (second : two < places) :
    turns places one rounds ≤ turns places two rounds + 1 := by
  rw [turns_eq rounds first, turns_eq rounds second]
  split <;> omega

/-- The place whose turn it is has had a turn in every finished round. -/
theorem turns_self (rounds : Nat) (inhabited : 0 < places) :
    turns places (rounds % places) rounds = rounds / places := by
  rw [turns_eq rounds (Nat.mod_lt rounds inhabited), if_neg (Nat.lt_irrefl _), Nat.add_zero]

/-- Among the turns of a place, what its finished rounds decide is counted by its own turns. -/
theorem count_turn_and {place : Nat} (decides : Nat → Prop) [DecidablePred decides] (rounds : Nat)
    (inside : place < places) :
    Nat.count (fun turn => turn % places = place ∧ decides (turn / places)) rounds =
      Nat.count decides (turns places place rounds) := by
  induction rounds with
  | zero => simp [turns]
  | succ rounds ih =>
      rw [Nat.count_succ, ih]
      by_cases its : rounds % places = place
      · have next : turns places place (rounds + 1) = turns places place rounds + 1 := by
          rw [turns, Nat.count_succ, if_pos its, turns]
        have finished : turns places place rounds = rounds / places := by
          rw [← its, turns_self rounds (Nat.zero_lt_of_lt inside)]
        rw [next, Nat.count_succ, finished]
        simp only [its, true_and]
      · have next : turns places place (rounds + 1) = turns places place rounds := by
          rw [turns, Nat.count_succ, if_neg its, turns, Nat.add_zero]
        rw [next, if_neg fun both => its both.1, Nat.add_zero]

end RoundRobin
