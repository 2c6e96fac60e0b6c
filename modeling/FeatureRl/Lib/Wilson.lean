import Mathlib.Algebra.BigOperators.Fin
import Mathlib.Algebra.Order.Chebyshev
import Mathlib.Analysis.Real.Sqrt

/-!
Weighted proportions over the reals: the effective size of a weighted sample and the Wilson
score interval around a proportion.
-/

namespace Wilson

noncomputable def effectiveSize (weights : List ℝ) : ℝ :=
  weights.sum ^ 2 / (weights.map fun weight => weight * weight).sum

noncomputable def scale (z size : ℝ) : ℝ := 1 + z * z / size

noncomputable def center (z proportion size : ℝ) : ℝ := (proportion + z * z / (2 * size)) / scale z size

noncomputable def radius (z proportion size : ℝ) : ℝ :=
  z * Real.sqrt (proportion * (1 - proportion) / size + z * z / (4 * size * size)) / scale z size

/-! ### The effective size -/

section Weights

variable {weights : List ℝ}

theorem sum_pos (filled : weights ≠ []) (positive : ∀ weight ∈ weights, 0 < weight) : 0 < weights.sum :=
  List.sum_pos weights positive filled

theorem squares_pos (filled : weights ≠ []) (positive : ∀ weight ∈ weights, 0 < weight) :
    0 < (weights.map fun weight => weight * weight).sum := by
  refine List.sum_pos _ (fun square member => ?_) (by simpa using filled)
  obtain ⟨weight, listed, rfl⟩ := List.mem_map.mp member
  exact mul_pos (positive weight listed) (positive weight listed)

theorem squares_le (nonneg : ∀ weight ∈ weights, 0 ≤ weight) :
    (weights.map fun weight => weight * weight).sum ≤ weights.sum ^ 2 := by
  induction weights with
  | nil => simp
  | cons weight rest ih =>
      obtain ⟨here, later⟩ := List.forall_mem_cons.mp nonneg
      have total := List.sum_nonneg later
      rw [List.map_cons, List.sum_cons, List.sum_cons]
      have cross := mul_nonneg here total
      linarith [ih later, add_sq weight rest.sum, sq weight]

theorem sq_sum_le : weights.sum ^ 2 ≤ weights.length * (weights.map fun weight => weight * weight).sum := by
  have cauchy := sq_sum_le_card_mul_sum_sq (s := Finset.univ) (f := fun place : Fin weights.length => weights[place])
  have squares := Fin.sum_univ_fun_getElem weights fun weight => weight * weight
  simpa [sq, ← squares] using cauchy

/-- The effective size is that of at least one sample and of at most all of them. -/
theorem effectiveSize_bounds (filled : weights ≠ []) (positive : ∀ weight ∈ weights, 0 < weight) :
    1 ≤ effectiveSize weights ∧ effectiveSize weights ≤ weights.length := by
  have squares := squares_pos filled positive
  rw [effectiveSize, le_div_iff₀ squares, div_le_iff₀ squares, one_mul]
  exact ⟨squares_le fun weight member => (positive weight member).le, sq_sum_le⟩

end Weights

/-! ### The interval -/

section Interval

variable {z proportion size : ℝ}

theorem scale_pos (positive : 0 < size) : 0 < scale z size := by
  have square := mul_self_nonneg z
  rw [scale]
  positivity

theorem radius_nonneg (nonneg : 0 ≤ z) (positive : 0 < size) : 0 ≤ radius z proportion size :=
  div_nonneg (mul_nonneg nonneg (Real.sqrt_nonneg _)) (scale_pos positive).le

/-- The proportion is within the radius of the center. -/
theorem abs_sub_center_le (nonneg : 0 ≤ z) (positive : 0 < size) (low : 0 ≤ proportion) (high : proportion ≤ 1) :
    |proportion - center z proportion size| ≤ radius z proportion size := by
  have scaled := scale_pos (z := z) positive
  have distance : proportion - center z proportion size = z * (z / size * (proportion - 1 / 2)) / scale z size := by
    rw [center, eq_div_iff scaled.ne', sub_mul, div_mul_cancel₀ _ scaled.ne', scale]
    field_simp
    ring
  have spread : |z / size * (proportion - 1 / 2)| ≤
      Real.sqrt (proportion * (1 - proportion) / size + z * z / (4 * size * size)) := by
    refine Real.abs_le_sqrt ?_
    have variance : 0 ≤ proportion * (1 - proportion) := mul_nonneg low (sub_nonneg.mpr high)
    have more : 0 ≤ z ^ 2 / size ^ 2 * (proportion * (1 - proportion)) := by positivity
    have less : 0 ≤ proportion * (1 - proportion) / size := by positivity
    have split : (z / size * (proportion - 1 / 2)) ^ 2 =
        z * z / (4 * size * size) - z ^ 2 / size ^ 2 * (proportion * (1 - proportion)) := by
      field_simp
      ring
    linarith
  rw [distance, abs_div, abs_mul, abs_of_nonneg nonneg, abs_of_pos scaled, radius]
  exact div_le_div_of_nonneg_right (mul_le_mul_of_nonneg_left spread nonneg) scaled.le

theorem center_sub_radius_le (nonneg : 0 ≤ z) (positive : 0 < size) (low : 0 ≤ proportion) (high : proportion ≤ 1) :
    center z proportion size - radius z proportion size ≤ proportion := by
  have near := (abs_le.mp (abs_sub_center_le nonneg positive low high)).1
  linarith

theorem le_center_add_radius (nonneg : 0 ≤ z) (positive : 0 < size) (low : 0 ≤ proportion) (high : proportion ≤ 1) :
    proportion ≤ center z proportion size + radius z proportion size := by
  have near := (abs_le.mp (abs_sub_center_le nonneg positive low high)).2
  linarith

end Interval

end Wilson
