import FeatureRl.Evaluation.Estimates

/-!
Percentiles in exact arithmetic, where no operation rounds: they stay within the list, they do not fall when the
fraction grows, and so no bootstrap interval is reversed.
-/

namespace FeatureRl

open Checked Sorting

namespace Evaluation

namespace Exact

def percentile (values : List ℚ) (fraction : ℚ) : Except StatisticsFailure ℚ := do
  let ordered := sortBy (fun value => value) values
  let position := ((ordered.length : ℚ) - 1) * fraction
  let lower := ⌊position⌋₊
  let upper := min (lower + 1) (ordered.length - 1)
  let low ← item ordered lower
  let high ← item ordered upper
  .ok (low + (high - low) * (position - lower))

def mean (values : List ℚ) : Except StatisticsFailure ℚ :=
  if values = [] then .error (.value "mean requires at least one data point")
  else .ok (values.sum / values.length)

def sample (generator : Generator) (groups : Groups) (seed : Nat) (familyWeighted : Bool) (resample : Nat) :
    Except StatisticsFailure ℚ := do
  let selected ← drawFamilies generator seed resample (families groups)
  if familyWeighted then mapAll (fun family => mean (group groups family)) selected >>= mean
  else mean (selected.flatMap (group groups))

def clusterInterval (generator : Generator) (groups : Groups) (seed resamples : Nat) (familyWeighted : Bool) :
    Except StatisticsFailure (Option ℚ × Option ℚ) :=
  if (families groups).length < 2 then .ok (none, none) else do
    let samples ← mapAll (sample generator groups seed familyWeighted) (List.range resamples)
    let low ← percentile samples (25 / 1000)
    let high ← percentile samples (975 / 1000)
    .ok (some low, some high)

/-! ### Positions in a sorted list -/

/-- The value at a position of a sorted list. -/
def valueAt (ordered : List ℚ) (position : ℚ) : ℚ :=
  let low := ordered.getD ⌊position⌋₊ 0
  let high := ordered.getD (min (⌊position⌋₊ + 1) (ordered.length - 1)) 0
  low + (high - low) * (position - ⌊position⌋₊)

theorem floor_inside {last : Nat} {fraction : ℚ} (below : fraction ≤ 1) :
    ⌊(last : ℚ) * fraction⌋₊ ≤ last :=
  Nat.floor_le_of_le (mul_le_of_le_one_right (Nat.cast_nonneg last) below)

theorem percentile_eq_ok {values : List ℚ} (filled : values ≠ []) {fraction : ℚ} (below : fraction ≤ 1) :
    percentile values fraction =
      .ok (valueAt (sortBy (fun value => value) values) (((values.length - 1 : Nat) : ℚ) * fraction)) := by
  have length : (sortBy (fun value => value) values).length = values.length := (sortBy_perm _ _).length_eq
  have some : 0 < values.length := List.length_pos_of_ne_nil filled
  have last : ((values.length : ℚ) - 1) = ((values.length - 1 : Nat) : ℚ) := by
    rw [Nat.cast_sub some, Nat.cast_one]
  have inside := @floor_inside (values.length - 1) _ below
  simp only [percentile, length, last]
  rw [item_eq_ok (by omega), item_eq_ok (by omega), valueAt, length]
  rfl

section

variable {ordered : List ℚ} {position : ℚ}

theorem next_le (sorted : ordered.Pairwise (· ≤ ·)) (inside : ⌊position⌋₊ < ordered.length) :
    ordered.getD ⌊position⌋₊ 0 ≤ ordered.getD (min (⌊position⌋₊ + 1) (ordered.length - 1)) 0 :=
  getD_mono sorted (by omega) (by omega)

theorem le_valueAt (sorted : ordered.Pairwise (· ≤ ·)) (nonneg : 0 ≤ position)
    (inside : ⌊position⌋₊ < ordered.length) : ordered.getD ⌊position⌋₊ 0 ≤ valueAt ordered position := by
  have gap := sub_nonneg.mpr (next_le sorted inside)
  have part := sub_nonneg.mpr (Nat.floor_le nonneg)
  exact le_add_of_nonneg_right (mul_nonneg gap part)

theorem valueAt_le (sorted : ordered.Pairwise (· ≤ ·)) (inside : ⌊position⌋₊ < ordered.length) :
    valueAt ordered position ≤ ordered.getD (min (⌊position⌋₊ + 1) (ordered.length - 1)) 0 := by
  have gap := sub_nonneg.mpr (next_le sorted inside)
  have part : position - ⌊position⌋₊ ≤ 1 := by linarith [Nat.lt_floor_add_one position]
  rw [valueAt]
  linarith [mul_le_of_le_one_right gap part]

/-- A later position has no smaller value: in one bracket the value grows, and brackets follow each other. -/
theorem valueAt_mono (sorted : ordered.Pairwise (· ≤ ·)) {one two : ℚ} (nonneg : 0 ≤ one) (below : one ≤ two)
    (inside : ⌊two⌋₊ < ordered.length) : valueAt ordered one ≤ valueAt ordered two := by
  have floors : ⌊one⌋₊ ≤ ⌊two⌋₊ := Nat.floor_mono below
  rcases floors.eq_or_lt with same | less
  · have gap := sub_nonneg.mpr (next_le sorted inside)
    have grown : one - ⌊two⌋₊ ≤ two - ⌊two⌋₊ := by linarith
    rw [valueAt, valueAt, same]
    linarith [mul_le_mul_of_nonneg_left grown gap]
  · calc valueAt ordered one
        ≤ ordered.getD (min (⌊one⌋₊ + 1) (ordered.length - 1)) 0 := valueAt_le sorted (by omega)
      _ ≤ ordered.getD ⌊two⌋₊ 0 := getD_mono sorted (by omega) inside
      _ ≤ valueAt ordered two := le_valueAt sorted (nonneg.trans below) inside

end

theorem sortBy_ne_nil {values : List ℚ} (filled : values ≠ []) :
    0 < (sortBy (fun value => value) values).length := by
  rw [(sortBy_perm _ values).length_eq]
  exact List.length_pos_of_ne_nil filled

theorem percentile_mono {values : List ℚ} (filled : values ≠ []) {first second : ℚ} (nonneg : 0 ≤ first)
    (below : first ≤ second) (bounded : second ≤ 1) :
    ∃ low high, percentile values first = .ok low ∧ percentile values second = .ok high ∧ low ≤ high := by
  have some := List.length_pos_of_ne_nil filled
  have inside := @floor_inside (values.length - 1) _ bounded
  have last : (0 : ℚ) ≤ (values.length - 1 : Nat) := Nat.cast_nonneg _
  refine ⟨_, _, percentile_eq_ok filled (below.trans bounded), percentile_eq_ok filled bounded,
    valueAt_mono (sortBy_sorted _ values) (mul_nonneg last nonneg) (mul_le_mul_of_nonneg_left below last) ?_⟩
  rw [(sortBy_perm _ values).length_eq]
  omega

/-- A percentile is no less than the least value and no more than the greatest. -/
theorem percentile_between {values : List ℚ} (filled : values ≠ []) {fraction : ℚ} (nonneg : 0 ≤ fraction)
    (bounded : fraction ≤ 1) : ∃ value, percentile values fraction = .ok value ∧
      (∃ least ∈ values, (∀ other ∈ values, least ≤ other) ∧ least ≤ value) ∧
      ∃ greatest ∈ values, (∀ other ∈ values, other ≤ greatest) ∧ value ≤ greatest := by
  have some := sortBy_ne_nil filled
  have sorted := sortBy_sorted (fun value : ℚ => value) values
  have length : (sortBy (fun value => value) values).length = values.length := (sortBy_perm _ _).length_eq
  have inside := @floor_inside (values.length - 1) _ bounded
  have fits : ⌊((values.length - 1 : Nat) : ℚ) * fraction⌋₊ < (sortBy (fun value => value) values).length := by omega
  have position : 0 ≤ ((values.length - 1 : Nat) : ℚ) * fraction := mul_nonneg (Nat.cast_nonneg _) nonneg
  have listed {index : Nat} (bound : index < (sortBy (fun value => value) values).length) :
      (sortBy (fun value => value) values).getD index 0 ∈ values := by
    rw [List.getD_eq_getElem _ _ bound]
    exact mem_sortBy.mp (List.getElem_mem bound)
  have placed {other : ℚ} (member : other ∈ values) : ∃ index, index < (sortBy (fun value => value) values).length ∧
      (sortBy (fun value => value) values).getD index 0 = other := by
    have sorted : other ∈ sortBy (fun value => value) values := mem_sortBy.mpr member
    obtain ⟨index, bound, found⟩ := List.getElem_of_mem sorted
    exact ⟨index, bound, (List.getD_eq_getElem _ _ bound).trans found⟩
  refine ⟨_, percentile_eq_ok filled bounded, ⟨_, listed some, ?_, ?_⟩, ⟨_, listed (Nat.sub_one_lt_of_lt some), ?_, ?_⟩⟩
  · intro other member
    obtain ⟨index, bound, rfl⟩ := placed member
    exact getD_mono sorted (Nat.zero_le index) bound
  · exact (getD_mono sorted (Nat.zero_le _) fits).trans (le_valueAt sorted position fits)
  · intro other member
    obtain ⟨index, bound, rfl⟩ := placed member
    exact getD_mono sorted (Nat.le_sub_one_of_lt bound) (Nat.sub_one_lt_of_lt some)
  · exact (valueAt_le sorted fits).trans (getD_mono sorted (Nat.min_le_right ..) (Nat.sub_one_lt_of_lt some))

theorem percentile_perm {values others : List ℚ} (same : values.Perm others) (fraction : ℚ) :
    percentile values fraction = percentile others fraction := by
  have sorted : sortBy (fun value : ℚ => value) values = sortBy (fun value => value) others :=
    sortBy_eq_of_perm (fun _ _ _ _ equal => equal) same
  rw [percentile, percentile, sorted]

theorem clusterInterval_ordered {generator : Generator} {groups : Groups} {seed resamples : Nat}
    {familyWeighted : Bool} {low high : ℚ}
    (found : clusterInterval generator groups seed resamples familyWeighted = .ok (some low, some high)) :
    low ≤ high := by
  rw [clusterInterval] at found
  split at found
  next => cases found
  next =>
    simp only [bind_eq_ok] at found
    obtain ⟨samples, drawn, lower, first, upper, second, done⟩ := found
    obtain ⟨lowEq, highEq⟩ := Prod.mk.inj (Except.ok.inj done)
    obtain rfl := Option.some.inj lowEq
    obtain rfl := Option.some.inj highEq
    have filled : samples ≠ [] := by
      rintro rfl
      cases first
    obtain ⟨one, two, firstEq, secondEq, below⟩ := @percentile_mono samples filled (25 / 1000)
      (975 / 1000) (by norm_num) (by norm_num) (by norm_num)
    rw [first] at firstEq
    rw [second] at secondEq
    rw [Except.ok.inj firstEq, Except.ok.inj secondEq]
    exact below

theorem percentile_sound :
    (∀ (values : List ℚ) (first second : ℚ), values ≠ [] → 0 ≤ first → first ≤ second → second ≤ 1 →
      ∃ low high, percentile values first = .ok low ∧ percentile values second = .ok high ∧ low ≤ high ∧
        (∃ least ∈ values, (∀ other ∈ values, least ≤ other) ∧ least ≤ low) ∧
        (∃ greatest ∈ values, (∀ other ∈ values, other ≤ greatest) ∧ high ≤ greatest) ∧
        ∀ others, values.Perm others →
          percentile others first = .ok low ∧ percentile others second = .ok high) ∧
    ∀ (generator : Generator) (groups : Groups) (seed resamples : Nat) (familyWeighted : Bool) (low high : ℚ),
      clusterInterval generator groups seed resamples familyWeighted = .ok (some low, some high) → low ≤ high := by
  refine ⟨fun values first second filled nonneg below bounded => ?_, fun _ _ _ _ _ _ _ => clusterInterval_ordered⟩
  obtain ⟨low, high, lowFound, highFound, ordered⟩ := percentile_mono filled nonneg below bounded
  obtain ⟨value, valueFound, atLeast, _⟩ := percentile_between filled nonneg (below.trans bounded)
  obtain ⟨other, otherFound, _, atMost⟩ := percentile_between filled (nonneg.trans below) bounded
  rw [lowFound] at valueFound
  rw [highFound] at otherFound
  obtain rfl := Except.ok.inj valueFound
  obtain rfl := Except.ok.inj otherFound
  refine ⟨low, high, lowFound, highFound, ordered, atLeast, atMost, fun others same => ?_⟩
  exact ⟨(percentile_perm same first).symm.trans lowFound, (percentile_perm same second).symm.trans highFound⟩

theorem percentile_sound_sample : ∃ low high, percentile [3, 1] (1 / 4) = .ok low ∧
    percentile [3, 1] (3 / 4) = .ok high ∧ low ≤ high := by
  obtain ⟨low, high, lowFound, highFound, ordered, _⟩ := percentile_sound.1 [3, 1] (1 / 4) (3 / 4)
    (List.cons_ne_nil _ _) (by norm_num) (by norm_num) (by norm_num)
  exact ⟨low, high, lowFound, highFound, ordered⟩

end Exact

end Evaluation

end FeatureRl
