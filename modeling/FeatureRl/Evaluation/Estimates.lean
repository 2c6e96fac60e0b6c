import FeatureRl.Evaluation.Statistics
import Mathlib.Data.List.GetD

/-! Every estimate of gathered groups exists, and its interval is not reversed. -/

namespace FeatureRl

open Checked Sorting Binary64

namespace Evaluation

variable {generator : Generator} {groups : Groups}

theorem mean_eq_ok {values : List ℚ} (filled : values ≠ []) : ∃ value, mean values = .ok value ∧ IsDouble value :=
  ⟨_, if_neg filled, isDouble_rounded _⟩

/-! ### Percentiles -/

theorem least_small : (2 : ℚ) ^ (-1074 : Int) ≤ 1 / 1024 := by
  have power : (2 : ℚ) ^ (-1074 : Int) ≤ (2 : ℚ) ^ (-10 : Int) := zpow_le_zpow_right₀ (by norm_num) (by norm_num)
  exact power.trans (by norm_num)

/-- A position is a double inside the list. -/
theorem position_inside {fraction : ℚ} (nonneg : 0 ≤ fraction) (below : fraction ≤ 976 / 1000) (last : Nat) :
    0 ≤ rounded (rounded last * fraction) ∧ ⌊rounded (rounded last * fraction)⌋₊ ≤ last := by
  have whole : (0 : ℚ) ≤ last := Nat.cast_nonneg last
  have product : 0 ≤ rounded last * fraction := mul_nonneg (rounded_nonneg whole) nonneg
  have position : 0 ≤ rounded (rounded last * fraction) := rounded_nonneg product
  refine ⟨position, Nat.lt_succ_iff.mp ((Nat.floor_lt position).mpr ?_)⟩
  have least := least_small
  have first : rounded last ≤ last * (1 + 1 / 2 ^ 52) + 1 / 1024 := by
    rw [rounded_of_nonneg whole]
    linarith [nearest_le whole]
  have scaled : rounded last * fraction ≤ (last * (1 + 1 / 2 ^ 52) + 1 / 1024) * (976 / 1000) :=
    mul_le_mul first below nonneg (by positivity)
  have second : rounded (rounded last * fraction) ≤
      (last * (1 + 1 / 2 ^ 52) + 1 / 1024) * (976 / 1000) * (1 + 1 / 2 ^ 52) + 1 / 1024 := by
    rw [rounded_of_nonneg product]
    linarith [nearest_le product, mul_le_mul_of_nonneg_right scaled (by norm_num : (0 : ℚ) ≤ 1 + 1 / 2 ^ 52)]
  push_cast
  linarith [show (last * (1 + 1 / 2 ^ 52) + 1 / 1024) * (976 / 1000) * (1 + 1 / 2 ^ 52) + 1 / 1024 < (last : ℚ) + 1 by
    norm_num
    linarith]

theorem low_fraction : 0 ≤ rounded (25 / 1000) := rounded_nonneg (by norm_num)

theorem fractions_ordered : rounded (25 / 1000) ≤ rounded (975 / 1000) := rounded_mono (by norm_num)

theorem high_fraction : rounded (975 / 1000) ≤ 976 / 1000 := by
  rw [rounded_of_nonneg (by norm_num)]
  linarith [@nearest_le (975 / 1000) (by norm_num), least_small,
    show (975 / 1000 : ℚ) * (1 + 1 / 2 ^ 52) + 1 / 1024 ≤ 976 / 1000 by norm_num]

theorem item_eq_ok {ordered : List ℚ} {index : Nat} (bound : index < ordered.length) :
    item ordered index = .ok (ordered.getD index 0) := by
  rw [item, List.getElem?_eq_getElem bound, List.getD_eq_getElem _ _ bound]
  rfl

/-- The value at a position of a sorted list. -/
def valueAt (ordered : List ℚ) (position : ℚ) : ℚ :=
  interpolate (ordered.getD ⌊position⌋₊ 0) (ordered.getD (min (⌊position⌋₊ + 1) (ordered.length - 1)) 0)
    (rounded (position - ⌊position⌋₊))

theorem percentile_eq_ok {values : List ℚ} (filled : values ≠ []) {fraction : ℚ} (nonneg : 0 ≤ fraction)
    (below : fraction ≤ 976 / 1000) :
    percentile values fraction = .ok (valueAt (sortBy (fun value => value) values)
      (rounded (rounded ((values.length - 1 : Nat) : ℚ) * fraction))) := by
  have length : (sortBy (fun value => value) values).length = values.length := (sortBy_perm _ _).length_eq
  have some : 0 < values.length := List.length_pos_of_ne_nil filled
  have last : ((values.length : ℚ) - 1) = ((values.length - 1 : Nat) : ℚ) := by
    rw [Nat.cast_sub some, Nat.cast_one]
  obtain ⟨_, inside⟩ := position_inside nonneg below (values.length - 1)
  simp only [percentile, length, last]
  rw [item_eq_ok (by omega), item_eq_ok (by omega), valueAt, length]
  rfl

section

variable {ordered : List ℚ}

theorem getD_mono (sorted : ordered.Pairwise (· ≤ ·)) {one two : Nat} (below : one ≤ two)
    (bound : two < ordered.length) : ordered.getD one 0 ≤ ordered.getD two 0 := by
  rw [List.getD_eq_getElem _ _ (below.trans_lt bound), List.getD_eq_getElem _ _ bound]
  rcases below.eq_or_lt with rfl | less
  · exact le_rfl
  · exact List.pairwise_iff_getElem.mp sorted one two _ bound less

theorem getD_double (doubles : ∀ value ∈ ordered, IsDouble value) {index : Nat} (bound : index < ordered.length) :
    IsDouble (ordered.getD index 0) := by
  rw [List.getD_eq_getElem _ _ bound]
  exact doubles _ (List.getElem_mem bound)

/-- Interpolated values do not leave their bracket, so a later position has no smaller value. -/
theorem valueAt_mono (sorted : ordered.Pairwise (· ≤ ·)) (doubles : ∀ value ∈ ordered, IsDouble value)
    {one two : ℚ} (first : IsDouble one) (second : IsDouble two) (nonneg : 0 ≤ one) (below : one ≤ two)
    (inside : ⌊two⌋₊ < ordered.length) : valueAt ordered one ≤ valueAt ordered two := by
  have floors : ⌊one⌋₊ ≤ ⌊two⌋₊ := Nat.floor_mono below
  obtain ⟨fractionOne, belowOne, exactOne⟩ := fract_double first nonneg
  obtain ⟨fractionTwo, _, exactTwo⟩ := fract_double second (nonneg.trans below)
  have next {position : ℚ} (fits : ⌊position⌋₊ < ordered.length) :
      ordered.getD ⌊position⌋₊ 0 ≤ ordered.getD (min (⌊position⌋₊ + 1) (ordered.length - 1)) 0 :=
    getD_mono sorted (by omega) (by omega)
  rw [valueAt, valueAt, exactOne, exactTwo]
  rcases floors.eq_or_lt with same | less
  · rw [same]
    exact interpolate_mono (next inside) (by linarith)
  · calc interpolate (ordered.getD ⌊one⌋₊ 0) (ordered.getD (min (⌊one⌋₊ + 1) (ordered.length - 1)) 0)
          (one - ⌊one⌋₊)
        ≤ ordered.getD (min (⌊one⌋₊ + 1) (ordered.length - 1)) 0 :=
          interpolate_le (getD_double doubles (by omega)) (getD_double doubles (by omega)) (next (by omega))
            fractionOne belowOne
      _ ≤ ordered.getD ⌊two⌋₊ 0 := getD_mono sorted (by omega) inside
      _ ≤ _ := le_interpolate (getD_double doubles inside) (next inside) fractionTwo

end

theorem percentiles_ordered {samples : List ℚ} (filled : samples ≠ []) (doubles : ∀ value ∈ samples, IsDouble value) :
    ∃ low high, percentile samples (rounded (25 / 1000)) = .ok low ∧
      percentile samples (rounded (975 / 1000)) = .ok high ∧ low ≤ high := by
  have lowBelow := fractions_ordered.trans high_fraction
  have highNonneg := low_fraction.trans fractions_ordered
  obtain ⟨positionNonneg, _⟩ := position_inside low_fraction lowBelow (samples.length - 1)
  obtain ⟨_, inside⟩ := position_inside highNonneg high_fraction (samples.length - 1)
  have some : 0 < samples.length := List.length_pos_of_ne_nil filled
  refine ⟨_, _, percentile_eq_ok filled low_fraction lowBelow, percentile_eq_ok filled highNonneg high_fraction,
    valueAt_mono (sortBy_sorted _ samples) (fun value member => doubles value (mem_sortBy.mp member))
      (isDouble_rounded _) (isDouble_rounded _) positionNonneg ?_ ?_⟩
  · exact rounded_mono (mul_le_mul_of_nonneg_left fractions_ordered (rounded_nonneg (Nat.cast_nonneg _)))
  · rw [(sortBy_perm _ samples).length_eq]
    omega

/-! ### Groups -/

/-- No family is without values. -/
def Filled (groups : Groups) : Prop := ∀ family values, groups.get? family = some values → values ≠ []

theorem filled_gather (entries : List (Identifier × ℚ)) : Filled (Dict.gather entries) :=
  fun _ _ found => (Dict.ne_nil_of_mem_gather (Dict.mem_entries.mpr found)).2

theorem group_ne_nil (filled : Filled groups) {family : Identifier} (member : family ∈ families groups) :
    group groups family ≠ [] := by
  rw [families, mem_sortBy, Dict.mem_keys] at member
  obtain ⟨values, found⟩ := member
  rw [group, found]
  exact filled family values found

theorem drawFamilies_eq_ok (generator : Generator) (seed resample : Nat) (names : List Identifier) :
    ∃ selected, drawFamilies generator seed resample names = .ok selected ∧
      selected.length = names.length ∧ ∀ family ∈ selected, family ∈ names := by
  have drawn := @mapAll_exists StatisticsFailure Nat Identifier
    (fun place => require
      names[generator.randrange seed (resample * names.length + place) names.length]? .index)
    (fun family => family ∈ names) (List.range names.length) (fun place member => by
      have some : 0 < names.length := Nat.zero_lt_of_lt (List.mem_range.mp member)
      have inside := generator.inside seed (resample * names.length + place) names.length some
      exact ⟨_, by rw [List.getElem?_eq_getElem inside]; rfl, List.getElem_mem inside⟩)
  obtain ⟨selected, found, length, all⟩ := drawn
  exact ⟨selected, found, by rw [length, List.length_range], all⟩

theorem sample_eq_ok (filled : Filled groups) (named : families groups ≠ []) (seed : Nat) (familyWeighted : Bool)
    (resample : Nat) :
    ∃ value, sample generator groups seed familyWeighted resample = .ok value ∧ IsDouble value := by
  obtain ⟨selected, drawn, length, known⟩ := drawFamilies_eq_ok generator seed resample (families groups)
  have chosen : selected ≠ [] := by
    rw [← List.length_pos_iff, length]
    exact List.length_pos_of_ne_nil named
  rw [sample, drawn]
  cases familyWeighted with
  | true =>
      obtain ⟨means, found, count, _⟩ := mapAll_exists fun family member =>
        mean_eq_ok (group_ne_nil filled (known family member))
      have nonempty : means ≠ [] := by
        rw [← List.length_pos_iff, count]
        exact List.length_pos_of_ne_nil chosen
      obtain ⟨value, same, double⟩ := mean_eq_ok nonempty
      refine ⟨value, ?_, double⟩
      change (mapAll (fun family => mean (group groups family)) selected >>= mean) = .ok value
      rw [found]
      exact same
  | false =>
      refine mean_eq_ok fun empty => ?_
      obtain ⟨family, member⟩ := List.exists_mem_of_ne_nil _ chosen
      rw [List.flatMap_eq_nil_iff] at empty
      exact group_ne_nil filled (known family member) (empty family member)

theorem clusterInterval_eq_ok (filled : Filled groups) (seed : Nat) {resamples : Nat} (positive : 0 < resamples)
    (familyWeighted : Bool) : ∃ bounds, clusterInterval generator groups seed resamples familyWeighted = .ok bounds ∧
      ∀ low ∈ bounds.1, ∀ high ∈ bounds.2, low ≤ high := by
  rw [clusterInterval]
  split
  next => exact ⟨(none, none), rfl, fun low member => by cases member⟩
  next several =>
    have named : families groups ≠ [] := by
      intro none
      rw [none] at several
      exact several (by decide)
    have drawn : ∀ resample ∈ List.range resamples,
        ∃ value, sample generator groups seed familyWeighted resample = .ok value ∧ IsDouble value :=
      fun resample _ => sample_eq_ok filled named seed familyWeighted resample
    obtain ⟨samples, found, count, doubles⟩ := mapAll_exists drawn
    have nonempty : samples ≠ [] := by
      rw [← List.length_pos_iff, count, List.length_range]
      exact positive
    obtain ⟨low, high, lowFound, highFound, ordered⟩ := percentiles_ordered nonempty doubles
    refine ⟨(some low, some high), ?_, ?_⟩
    · rw [found]
      change (percentile samples (rounded (25 / 1000)) >>= fun low =>
        percentile samples (rounded (975 / 1000)) >>= fun high => .ok (some low, some high)) = _
      rw [lowFound, highFound]
      rfl
    · rintro _ ⟨⟩ _ ⟨⟩
      exact ordered

/-- All values of the groups. -/
def pooled (groups : Groups) : List ℚ := (families groups).flatMap (group groups)

theorem center_eq_ok (filled : Filled groups) (present : pooled groups ≠ []) (familyWeighted : Bool) :
    ∃ value, center groups familyWeighted = .ok value := by
  cases familyWeighted with
  | true =>
      have each : ∀ values ∈ groups.values, ∃ value, mean values = .ok value ∧ IsDouble value := by
        intro values member
        obtain ⟨family, found⟩ := Dict.mem_values.mp member
        exact mean_eq_ok (filled family values found)
      obtain ⟨means, found, count, _⟩ := mapAll_exists each
      have nonempty : means ≠ [] := by
        rw [← List.length_pos_iff, count, Dict.length_values, ← Dict.length_keys, List.length_pos_iff]
        intro none
        rw [pooled, families, none] at present
        exact present rfl
      obtain ⟨value, same, _⟩ := mean_eq_ok nonempty
      refine ⟨value, ?_⟩
      change (mapAll mean groups.values >>= mean) = .ok value
      rw [found]
      exact same
  | false =>
      obtain ⟨value, same, _⟩ := mean_eq_ok present
      exact ⟨value, same⟩

theorem create_eq_ok {name method : String} {middle lower upper : Option ℚ} {sampleSize : Nat}
    {limitations : List Text} (named : isText name = true) (described : isText method = true)
    (measured : sampleSize = 0 → middle = none ∧ lower = none ∧ upper = none)
    (ordered : ∀ low ∈ lower, ∀ high ∈ upper, low ≤ high) :
    ∃ metric, MetricEstimate.create name middle lower upper sampleSize method limitations = .ok metric ∧
      metric.name.val = name ∧ metric.sampleSize = sampleSize := by
  refine ⟨⟨⟨name, named⟩, middle, lower, upper, sampleSize, ⟨method, described⟩, limitations, measured, ordered⟩,
    ?_, rfl, rfl⟩
  rw [MetricEstimate.create, text, text, dif_pos named, dif_pos described]
  change (if _ : _ then if _ : _ then _ else _ else _) = _
  rw [dif_pos measured, dif_pos ordered]

theorem estimate_eq_ok (filled : Filled groups) {asked : Asked} (named : isText asked.name = true)
    (positive : 0 < asked.bootstrapResamples) (counted : pooled groups ≠ [] → 0 < asked.sampleSize) :
    ∃ metric, estimate generator groups asked = .ok metric ∧ metric.name.val = asked.name ∧
      metric.sampleSize = if pooled groups = [] then 0 else asked.sampleSize := by
  rw [estimate, ← pooled]
  by_cases present : pooled groups = []
  · rw [if_pos present, if_pos present]
    exact create_eq_ok named (by decide) (fun _ => ⟨rfl, rfl, rfl⟩) (fun low member => by cases member)
  · rw [if_neg present, if_neg present]
    obtain ⟨middle, found⟩ := center_eq_ok filled present asked.familyWeighted
    obtain ⟨bounds, bounded, ordered⟩ := @clusterInterval_eq_ok generator groups filled asked.bootstrapSeed
      asked.bootstrapResamples positive asked.familyWeighted
    rw [found]
    change ∃ metric, (clusterInterval generator groups asked.bootstrapSeed asked.bootstrapResamples
      asked.familyWeighted >>= _) = .ok metric ∧ _
    rw [bounded]
    exact create_eq_ok named (by decide) (fun none => absurd none (counted present).ne') ordered

end Evaluation

end FeatureRl
