import FeatureRl.Audits.Selection
import FeatureRl.Lib.Wilson

/-!
Inverse-probability weighted audit estimates over the reals. Every estimate passes the checks of
its constructor.
-/

namespace FeatureRl

open Checked Wilson

namespace Audits

/-! ### Samples -/

inductive Validity where
  | valid | invalid | unresolved
deriving DecidableEq

inductive AttestationStatus where
  | authenticated | unavailable
deriving DecidableEq

/-- An adjudicated patch or source; the validity is that of its unit. -/
structure AdjudicatedSample where
  selection : AuditSelection
  validity : Validity
  attestationStatus : AttestationStatus

structure MetricEstimate where
  name : String
  estimate : Option ℝ
  lower : Option ℝ
  upper : Option ℝ
  sampleSize : Nat
  method : String
  limitations : List String

open Classical in
noncomputable def MetricEstimate.bounds (metric : MetricEstimate) : Except Failure MetricEstimate := do
  refuse (metric.sampleSize = 0 ∧ ∃ bound ∈ [metric.estimate, metric.lower, metric.upper], bound ≠ none)
    (.validation "zero samples cannot yield measured estimate")
  refuse (∃ lower upper, metric.lower = some lower ∧ metric.upper = some upper ∧ upper < lower)
    (.validation "reversed uncertainty interval")
  .ok metric

/-! ### The estimate -/

def limitations : List String := [
  "Hájek inverse-probability ratio assumes the frozen frame and recorded inclusion probabilities",
  "Wilson interval uses inverse-probability effective sample size",
  "unavailable and unresolved selected samples are accounted separately and excluded from adjudicated denominators"]

def relevant (samples : List AdjudicatedSample) (denominator : AdjudicatedSample → Bool) : List AdjudicatedSample :=
  samples.filter fun item => item.attestationStatus = .authenticated && denominator item

noncomputable def weights (items : List AdjudicatedSample) : List ℝ :=
  items.map fun item => 1 / (item.selection.samplingProbability : ℝ)

def events (event : AdjudicatedSample → Bool) (items : List AdjudicatedSample) : List ℝ :=
  items.map fun item => if event item then 1 else 0

noncomputable def hajek (weights outcomes : List ℝ) : ℝ :=
  ((weights.zip outcomes).map fun pair => pair.1 * pair.2).sum / weights.sum

noncomputable def z : ℝ := 1.959963984540054

noncomputable def weightedMetric (samples : List AdjudicatedSample) (name : String)
    (denominator event : AdjudicatedSample → Bool) : Except Failure MetricEstimate :=
  match relevant samples denominator with
  | [] => MetricEstimate.bounds
      ⟨name, none, none, none, 0, "no authenticated adjudications in denominator", limitations⟩
  | first :: rest =>
      let items := first :: rest
      let estimate := hajek (weights items) (events event items)
      let effectiveN := effectiveSize (weights items)
      MetricEstimate.bounds {
        name
        estimate := some estimate
        lower := some (max 0 (center z estimate effectiveN - radius z estimate effectiveN))
        upper := some (min 1 (center z estimate effectiveN + radius z estimate effectiveN))
        sampleSize := items.length
        method := "inverse-probability weighted ratio with effective-n Wilson interval"
        limitations }

def decided (decision : VerifierDecision) (item : AdjudicatedSample) : Bool :=
  item.selection.entry.decision = some decision

noncomputable def summarizeAudits (samples : List AdjudicatedSample) : Except Failure (List MetricEstimate) := do
  refuse (¬ (samples.map fun item => item.selection.entry.subjectId).Nodup) (.selection "duplicate audited patch")
  let invalid ← weightedMetric samples "invalid_among_accepted"
    (fun item => decided .accepted item && item.validity ≠ .unresolved) fun item => item.validity = .invalid
  let accepted ← weightedMetric samples "accepted_among_invalid"
    (fun item => item.validity = .invalid) fun item => decided .accepted item
  let rejected ← weightedMetric samples "rejected_among_valid"
    (fun item => item.validity = .valid) fun item => decided .rejected item
  .ok [invalid, accepted, rejected]

noncomputable def summarizeSourceAudits (samples : List AdjudicatedSample) :
    Except Failure (List MetricEstimate) := do
  refuse (¬ (samples.map fun item => item.selection.entry.subjectId).Nodup) (.selection "duplicate audited source")
  let valid ← weightedMetric samples "valid_source_among_rejected_sources"
    (fun item => item.validity ≠ .unresolved) fun item => item.validity = .valid
  .ok [valid]

/-! ### Bounds -/

variable {items samples : List AdjudicatedSample}

theorem weights_pos (items : List AdjudicatedSample) : ∀ weight ∈ weights items, 0 < weight := by
  intro weight member
  obtain ⟨item, _, rfl⟩ := List.mem_map.mp member
  have positive : (0 : ℝ) < (item.selection.samplingProbability : ℝ) := by
    exact_mod_cast item.selection.inRange.1
  positivity

theorem weights_ne_nil (filled : items ≠ []) : weights items ≠ [] := by
  simpa [weights] using filled

theorem hajek_bounds (event : AdjudicatedSample → Bool) (filled : items ≠ []) :
    0 ≤ hajek (weights items) (events event items) ∧ hajek (weights items) (events event items) ≤ 1 := by
  have total := sum_pos (weights_ne_nil filled) (weights_pos items)
  have part (some : List AdjudicatedSample) :
      0 ≤ (((weights some).zip (events event some)).map fun pair => pair.1 * pair.2).sum ∧
        (((weights some).zip (events event some)).map fun pair => pair.1 * pair.2).sum ≤ (weights some).sum := by
    induction some with
    | nil => simp [weights, events]
    | cons item rest ih =>
        have positive := weights_pos (item :: rest) _ List.mem_cons_self
        have here : 0 ≤ 1 / (item.selection.samplingProbability : ℝ) * (if event item then 1 else 0) ∧
            1 / (item.selection.samplingProbability : ℝ) * (if event item then 1 else 0) ≤
              1 / (item.selection.samplingProbability : ℝ) := by
          split
          · rw [mul_one]
            exact ⟨positive.le, le_rfl⟩
          · rw [mul_zero]
            exact ⟨le_rfl, positive.le⟩
        simp only [weights, events, List.map_cons, List.zip_cons_cons, List.sum_cons] at ih ⊢
        exact ⟨add_nonneg here.1 ih.1, add_le_add here.2 ih.2⟩
  rw [hajek, div_le_one total]
  exact ⟨div_nonneg (part items).1 total.le, (part items).2⟩

/-- What a metric says of the samples in its denominator. -/
inductive Estimates (items : List AdjudicatedSample) (metric : MetricEstimate) : Prop where
  | unmeasured (none : items = []) (size : metric.sampleSize = 0) (estimate : metric.estimate = .none)
      (lower : metric.lower = .none) (upper : metric.upper = .none)
  | measured (estimate lower upper : ℝ) (size : metric.sampleSize = items.length)
      (isEstimate : metric.estimate = some estimate) (isLower : metric.lower = some lower)
      (isUpper : metric.upper = some upper) (low : 0 ≤ lower) (below : lower ≤ estimate) (above : estimate ≤ upper)
      (high : upper ≤ 1) (one : 1 ≤ effectiveSize (weights items))
      (all : effectiveSize (weights items) ≤ items.length)

theorem z_nonneg : 0 ≤ z := by
  rw [z]
  norm_num

theorem bounds_eq_ok {metric : MetricEstimate} (counted : metric.sampleSize = 0 →
      metric.estimate = none ∧ metric.lower = none ∧ metric.upper = none)
    (ordered : ∀ lower upper, metric.lower = some lower → metric.upper = some upper → lower ≤ upper) :
    metric.bounds = .ok metric := by
  simp only [MetricEstimate.bounds, bind_eq_ok, refuse_eq_ok]
  refine ⟨(), ?_, (), ?_, trivial⟩
  · rintro ⟨empty, bound, listed, given⟩
    obtain ⟨estimate, lower, upper⟩ := counted empty
    rw [estimate, lower, upper] at listed
    simp [given] at listed
  · rintro ⟨lower, upper, isLower, isUpper, reversed⟩
    exact (ordered lower upper isLower isUpper).not_gt reversed

/-- A metric is never rejected. -/
theorem weightedMetric_ok (samples : List AdjudicatedSample) (name : String)
    (denominator event : AdjudicatedSample → Bool) :
    ∃ metric, weightedMetric samples name denominator event = .ok metric ∧
      Estimates (relevant samples denominator) metric := by
  rw [weightedMetric]
  cases items : relevant samples denominator with
  | nil => exact ⟨_, bounds_eq_ok (by simp) (by simp), .unmeasured rfl rfl rfl rfl rfl⟩
  | cons first rest =>
      obtain ⟨one, all⟩ := effectiveSize_bounds (weights_ne_nil (List.cons_ne_nil first rest))
        (weights_pos (first :: rest))
      obtain ⟨low, high⟩ := hajek_bounds event (List.cons_ne_nil first rest)
      have positive := one_pos.trans_le one
      have below := max_le low (center_sub_radius_le z_nonneg positive low high)
      have above := le_min high (le_center_add_radius z_nonneg positive low high)
      refine ⟨_, bounds_eq_ok ?_ ?_, .measured _ _ _ rfl rfl rfl rfl (le_max_left _ _) below above
        (min_le_left _ _) one ?_⟩
      · intro empty
        cases empty
      · intro lower upper isLower isUpper
        obtain rfl := Option.some.inj isLower
        obtain rfl := Option.some.inj isUpper
        exact below.trans above
      · rwa [weights, List.length_map] at all

/-- Every weighted estimate is accepted and lies with its interval between zero and one; a summary
of distinct units is never rejected. -/
theorem estimates_sound (samples : List AdjudicatedSample) :
    (∀ name denominator event, ∃ metric, weightedMetric samples name denominator event = .ok metric ∧
      Estimates (relevant samples denominator) metric) ∧
      ((samples.map fun item => item.selection.entry.subjectId).Nodup →
        (∃ metrics, summarizeAudits samples = .ok metrics) ∧
          ∃ metrics, summarizeSourceAudits samples = .ok metrics) := by
  refine ⟨weightedMetric_ok samples, fun unique => ?_⟩
  simp only [summarizeAudits, summarizeSourceAudits, bind_eq_ok, refuse_eq_ok, not_not]
  constructor
  · obtain ⟨invalid, first, _⟩ := weightedMetric_ok samples "invalid_among_accepted"
      (fun item => decided .accepted item && item.validity ≠ .unresolved) fun item => item.validity = .invalid
    obtain ⟨accepted, second, _⟩ := weightedMetric_ok samples "accepted_among_invalid"
      (fun item => item.validity = .invalid) fun item => decided .accepted item
    obtain ⟨rejected, third, _⟩ := weightedMetric_ok samples "rejected_among_valid"
      (fun item => item.validity = .valid) fun item => decided .rejected item
    exact ⟨_, (), unique, invalid, first, accepted, second, rejected, third, rfl⟩
  · obtain ⟨valid, found, _⟩ := weightedMetric_ok samples "valid_source_among_rejected_sources"
      (fun item => item.validity ≠ .unresolved) fun item => item.validity = .valid
    exact ⟨_, (), unique, valid, found, rfl⟩

end Audits

end FeatureRl
