import FeatureRl.Lib.Binary64
import Mathlib.Algebra.Order.Floor.Ring
import Mathlib.Algebra.Order.Floor.Semifield
import Mathlib.Tactic.Ring

/-!
Binary64 arithmetic on rationals: the nearest double, ties to even, with gradual underflow and
no upper bound on the exponent. What interpolation between two doubles can round to.
-/

namespace Binary64

/-- The nearest double of a nonnegative number. -/
def nearest (magnitude : ℚ) : ℚ :=
  roundHalfEven (magnitude / (2 : ℚ) ^ quantum magnitude) * (2 : ℚ) ^ quantum magnitude

def rounded (number : ℚ) : ℚ := if number < 0 then -nearest (-number) else nearest number

def IsDouble (number : ℚ) : Prop := rounded number = number

/-! ### Whole numbers -/

theorem floor_le_roundHalfEven (magnitude : ℚ) : ⌊magnitude⌋₊ ≤ roundHalfEven magnitude := by
  rw [roundHalfEven]
  split
  · exact le_rfl
  · split
    · exact Nat.le_succ _
    · split
      · exact le_rfl
      · exact Nat.le_succ _

theorem roundHalfEven_le_floor (magnitude : ℚ) : roundHalfEven magnitude ≤ ⌊magnitude⌋₊ + 1 := by
  rw [roundHalfEven]
  split
  · exact Nat.le_succ _
  · split
    · exact le_rfl
    · split
      · exact Nat.le_succ _
      · exact le_rfl

theorem roundHalfEven_mono {one two : ℚ} (below : one ≤ two) : roundHalfEven one ≤ roundHalfEven two := by
  rcases (Nat.floor_mono below).lt_or_eq with less | same
  · exact (roundHalfEven_le_floor one).trans (Nat.le_trans less (floor_le_roundHalfEven two))
  · simp only [roundHalfEven, same]
    have excess : one - (⌊two⌋₊ : ℚ) ≤ two - ⌊two⌋₊ := sub_le_sub_right below _
    split_ifs <;> first | omega | (exfalso; linarith)

/-! ### The grid -/

theorem least_le_quantum (magnitude : ℚ) : -1074 ≤ quantum magnitude := by
  rw [quantum]
  split
  · exact le_rfl
  · exact le_max_left _ _

theorem quantum_mono {one two : ℚ} (positive : 0 < one) (below : one ≤ two) :
    quantum one ≤ quantum two := by
  rw [quantum, quantum, if_neg positive.ne', if_neg (positive.trans_le below).ne']
  have log := Int.log_mono_right (b := 2) positive below
  omega

theorem scale_pos (exponent : Int) : (0 : ℚ) < (2 : ℚ) ^ exponent := by positivity

/-- A number is less than `2 ^ 53` quanta. -/
theorem div_quantum_lt {magnitude : ℚ} (positive : 0 < magnitude) :
    magnitude / (2 : ℚ) ^ quantum magnitude < 2 ^ 53 := by
  rw [div_lt_iff₀ (scale_pos _), ← zpow_natCast, ← zpow_add₀ (by norm_num)]
  have log : Int.log 2 magnitude < ((53 : Nat) : Int) + quantum magnitude := by
    rw [quantum, if_neg positive.ne']
    omega
  exact (Int.lt_zpow_iff_log_lt (by norm_num) positive).mpr log

/-- Above the least quantum a number is at least `2 ^ 52` quanta. -/
theorem le_div_quantum {magnitude : ℚ} (positive : 0 < magnitude) (above : -1074 < quantum magnitude) :
    2 ^ 52 ≤ magnitude / (2 : ℚ) ^ quantum magnitude := by
  rw [le_div_iff₀ (scale_pos _), ← zpow_natCast, ← zpow_add₀ (by norm_num)]
  rw [quantum, if_neg positive.ne'] at above
  have log : ((52 : Nat) : Int) + quantum magnitude ≤ Int.log 2 magnitude := by
    rw [quantum, if_neg positive.ne']
    omega
  exact (Int.zpow_le_iff_le_log (by norm_num) positive).mpr log

theorem nearest_zero : nearest 0 = 0 := by
  simp [nearest, roundHalfEven]

theorem nearest_nonneg (magnitude : ℚ) : 0 ≤ nearest magnitude := by
  rw [nearest]
  exact mul_nonneg (Nat.cast_nonneg _) (scale_pos _).le

theorem roundHalfEven_le {magnitude : ℚ} {count : Nat} (below : magnitude ≤ count) :
    roundHalfEven magnitude ≤ count := by
  have mono := roundHalfEven_mono below
  rwa [roundHalfEven_natCast] at mono

theorem le_roundHalfEven {magnitude : ℚ} {count : Nat} (above : (count : ℚ) ≤ magnitude) :
    count ≤ roundHalfEven magnitude := by
  have mono := roundHalfEven_mono above
  rwa [roundHalfEven_natCast] at mono

theorem nearest_mono {one two : ℚ} (nonneg : 0 ≤ one) (below : one ≤ two) : nearest one ≤ nearest two := by
  rcases nonneg.eq_or_lt with rfl | positive
  · rw [nearest_zero]
    exact nearest_nonneg two
  · have larger : 0 < two := positive.trans_le below
    rcases (quantum_mono positive below).lt_or_eq with coarser | same
    · -- The coarser grid starts where the finer one ends.
      have top : roundHalfEven (one / (2 : ℚ) ^ quantum one) ≤ 2 ^ 53 :=
        roundHalfEven_le (by exact_mod_cast (div_quantum_lt positive).le)
      have bottom : 2 ^ 52 ≤ roundHalfEven (two / (2 : ℚ) ^ quantum two) :=
        le_roundHalfEven (by
          exact_mod_cast le_div_quantum larger ((least_le_quantum one).trans_lt coarser))
      calc nearest one ≤ (2 : ℚ) ^ 53 * (2 : ℚ) ^ quantum one :=
            mul_le_mul_of_nonneg_right (by exact_mod_cast top) (scale_pos _).le
        _ = (2 : ℚ) ^ 52 * (2 : ℚ) ^ (quantum one + 1) := by
            rw [zpow_add_one₀ (by norm_num)]
            ring
        _ ≤ (2 : ℚ) ^ 52 * (2 : ℚ) ^ quantum two :=
            mul_le_mul_of_nonneg_left (zpow_le_zpow_right₀ (by norm_num) coarser) (by norm_num)
        _ ≤ nearest two := mul_le_mul_of_nonneg_right (by exact_mod_cast bottom) (scale_pos _).le
    · rw [nearest, nearest, ← same]
      refine mul_le_mul_of_nonneg_right ?_ (scale_pos _).le
      exact_mod_cast roundHalfEven_mono (div_le_div_of_nonneg_right below (scale_pos _).le)

/-- A whole number of quanta is its own nearest double. -/
theorem nearest_of_quanta {magnitude : ℚ} {count : Nat}
    (whole : magnitude / (2 : ℚ) ^ quantum magnitude = count) : nearest magnitude = magnitude := by
  rw [nearest, whole, roundHalfEven_natCast, ← whole, div_mul_cancel₀ _ (scale_pos _).ne']

theorem quantum_le {count : Nat} {exponent : Int} (small : count < 2 ^ 53) (least : -1074 ≤ exponent) :
    quantum (count * (2 : ℚ) ^ exponent) ≤ exponent := by
  rcases Nat.eq_zero_or_pos count with rfl | some
  · simpa [quantum] using least
  · have positive : (0 : ℚ) < count * (2 : ℚ) ^ exponent :=
      mul_pos (by exact_mod_cast some) (scale_pos _)
    have log : Int.log 2 ((count : ℚ) * (2 : ℚ) ^ exponent) < ((53 : Nat) : Int) + exponent := by
      rw [← Int.lt_zpow_iff_log_lt (by norm_num) positive, Nat.cast_ofNat, zpow_add₀ (by norm_num),
        zpow_natCast]
      exact mul_lt_mul_of_pos_right (by exact_mod_cast small) (scale_pos _)
    rw [quantum, if_neg positive.ne']
    omega

/-- A mantissa of at most 53 bits is kept. -/
theorem nearest_dyadic {count : Nat} {exponent : Int} (small : count ≤ 2 ^ 53) (least : -1074 ≤ exponent) :
    nearest (count * (2 : ℚ) ^ exponent) = count * (2 : ℚ) ^ exponent := by
  have below {count : Nat} {exponent : Int} (small : count < 2 ^ 53) (least : -1074 ≤ exponent) :
      nearest (count * (2 : ℚ) ^ exponent) = count * (2 : ℚ) ^ exponent := by
    have finer := quantum_le small least
    refine @nearest_of_quanta _
      (count * 2 ^ (exponent - quantum (count * (2 : ℚ) ^ exponent)).toNat) ?_
    rw [mul_div_assoc, ← zpow_sub₀ (by norm_num)]
    push_cast
    rw [← zpow_natCast, Int.toNat_of_nonneg (by omega)]
  rcases small.lt_or_eq with less | rfl
  · exact below less least
  · have half : ((2 ^ 53 : Nat) : ℚ) * (2 : ℚ) ^ exponent = ((2 ^ 52 : Nat) : ℚ) * (2 : ℚ) ^ (exponent + 1) := by
      rw [zpow_add_one₀ (by norm_num)]
      push_cast
      ring
    rw [half]
    exact below (by norm_num) (by omega)

/-- How a nearest double is written. -/
theorem nearest_eq {magnitude : ℚ} (nonneg : 0 ≤ magnitude) : ∃ count : Nat, count ≤ 2 ^ 53 ∧
    nearest magnitude = count * (2 : ℚ) ^ quantum magnitude := by
  refine ⟨roundHalfEven (magnitude / (2 : ℚ) ^ quantum magnitude), ?_, rfl⟩
  rcases nonneg.eq_or_lt with rfl | positive
  · simp [roundHalfEven]
  · exact roundHalfEven_le (by exact_mod_cast (div_quantum_lt positive).le)

theorem nearest_nearest {magnitude : ℚ} (nonneg : 0 ≤ magnitude) :
    nearest (nearest magnitude) = nearest magnitude := by
  obtain ⟨count, small, same⟩ := nearest_eq nonneg
  rw [same]
  exact nearest_dyadic small (least_le_quantum magnitude)

/-! ### Signs -/

theorem rounded_of_nonneg {number : ℚ} (nonneg : 0 ≤ number) : rounded number = nearest number := by
  rw [rounded, if_neg nonneg.not_gt]

theorem rounded_nonneg {number : ℚ} (nonneg : 0 ≤ number) : 0 ≤ rounded number := by
  rw [rounded_of_nonneg nonneg]
  exact nearest_nonneg number

theorem rounded_mono {one two : ℚ} (below : one ≤ two) : rounded one ≤ rounded two := by
  rw [rounded, rounded]
  split
  next negative =>
    split
    next lower => exact neg_le_neg (nearest_mono (by linarith) (by linarith))
    next => exact (neg_nonpos.mpr (nearest_nonneg _)).trans (nearest_nonneg _)
  next nonneg =>
    rw [if_neg (by linarith)]
    exact nearest_mono (not_lt.mp nonneg) below

theorem isDouble_rounded (number : ℚ) : IsDouble (rounded number) := by
  rw [IsDouble]
  rcases lt_or_ge number 0 with negative | nonneg
  · have back : rounded number = -nearest (-number) := if_pos negative
    have idem := nearest_nearest (by linarith : 0 ≤ -number)
    rw [back, rounded]
    split
    next => rw [neg_neg, idem]
    next whole =>
      have zero : nearest (-number) = 0 :=
        le_antisymm (by linarith) (nearest_nonneg _)
      rw [zero, neg_zero, nearest_zero]
  · rw [rounded_of_nonneg nonneg, rounded_of_nonneg (nearest_nonneg _), nearest_nearest nonneg]

/-- Every double is a whole number of the least quanta. -/
theorem IsDouble.whole {number : ℚ} (double : IsDouble number) :
    ∃ count : Int, number = count * (2 : ℚ) ^ (-1074 : Int) := by
  have positive {magnitude : ℚ} (nonneg : 0 ≤ magnitude) :
      ∃ count : Int, nearest magnitude = count * (2 : ℚ) ^ (-1074 : Int) := by
    obtain ⟨count, _, same⟩ := nearest_eq nonneg
    have least := least_le_quantum magnitude
    refine ⟨count * 2 ^ (quantum magnitude + 1074).toNat, ?_⟩
    rw [same]
    push_cast
    rw [← zpow_natCast, Int.toNat_of_nonneg (by omega), mul_assoc, ← zpow_add₀ (by norm_num)]
    congr 2
    omega
  rw [IsDouble] at double
  rcases lt_or_ge number 0 with negative | nonneg
  · rw [rounded, if_pos negative] at double
    obtain ⟨count, same⟩ := positive (by linarith : 0 ≤ -number)
    refine ⟨-count, ?_⟩
    rw [← double, same]
    push_cast
    ring
  · rw [rounded_of_nonneg nonneg] at double
    obtain ⟨count, same⟩ := positive nonneg
    exact ⟨count, by rw [← same, double]⟩

/-! ### Interpolation -/

/-- The largest double below one. -/
def belowOne : ℚ := 1 - 1 / 2 ^ 53

theorem roundHalfEven_add {count : Nat} {excess : ℚ} (nonneg : 0 ≤ excess) (less : excess < 1 / 2) :
    roundHalfEven (count + excess) = count := by
  have floor : ⌊(count : ℚ) + excess⌋₊ = count := by
    rw [Nat.floor_eq_iff (by positivity)]
    constructor <;> linarith
  simp only [roundHalfEven, floor, add_sub_cancel_left, if_pos less]

/-- What lies less than half a quantum above a full mantissa is rounded down to it. -/
theorem nearest_add {count : Nat} {excess : ℚ} {exponent : Int} (least : -1074 ≤ exponent)
    (full : 2 ^ 52 ≤ count) (small : count < 2 ^ 53) (nonneg : 0 ≤ excess) (less : excess < 1 / 2) :
    nearest ((count + excess) * (2 : ℚ) ^ exponent) = count * (2 : ℚ) ^ exponent := by
  have unit := scale_pos exponent
  have low : (2 : ℚ) ^ 52 ≤ count := by exact_mod_cast full
  have high : (count : ℚ) + 1 ≤ 2 ^ 53 := by exact_mod_cast small
  have positive : 0 < ((count : ℚ) + excess) * (2 : ℚ) ^ exponent :=
    mul_pos (by linarith [show (0 : ℚ) < 2 ^ 52 by norm_num]) unit
  have bottom : ((52 : Nat) : Int) + exponent ≤ Int.log 2 (((count : ℚ) + excess) * (2 : ℚ) ^ exponent) := by
    rw [← Int.zpow_le_iff_le_log (by norm_num) positive, Nat.cast_ofNat, zpow_add₀ (by norm_num),
      zpow_natCast]
    exact mul_le_mul_of_nonneg_right (by linarith) unit.le
  have top : Int.log 2 (((count : ℚ) + excess) * (2 : ℚ) ^ exponent) < ((53 : Nat) : Int) + exponent := by
    rw [← Int.lt_zpow_iff_log_lt (by norm_num) positive, Nat.cast_ofNat, zpow_add₀ (by norm_num),
      zpow_natCast]
    exact mul_lt_mul_of_pos_right (by linarith) unit
  have grid : quantum (((count : ℚ) + excess) * (2 : ℚ) ^ exponent) = exponent := by
    rw [quantum, if_neg positive.ne']
    omega
  rw [nearest, grid, mul_div_cancel_right₀ _ unit.ne', roundHalfEven_add nonneg less]

/-- A fraction below one undoes what rounding a difference of doubles may have added. -/
theorem nearest_scaled_le {gap fraction : ℚ} (count : Nat) (grid : gap = count * (2 : ℚ) ^ (-1074 : Int))
    (nonneg : 0 ≤ fraction) (below : fraction ≤ belowOne) : nearest (nearest gap * fraction) ≤ gap := by
  have filled : 0 ≤ gap := by
    rw [grid]
    exact mul_nonneg (Nat.cast_nonneg _) (scale_pos _).le
  have one : fraction ≤ 1 := below.trans (by norm_num [belowOne])
  have product : 0 ≤ nearest gap * fraction := mul_nonneg (nearest_nonneg _) nonneg
  by_cases fits : nearest gap ≤ gap
  · calc nearest (nearest gap * fraction) ≤ nearest (nearest gap) :=
          nearest_mono product (mul_le_of_le_one_right (nearest_nonneg _) one)
      _ = nearest gap := nearest_nearest filled
      _ ≤ gap := fits
  · -- The gap was rounded up, so it lies strictly between two doubles above the least quantum.
    have positive : 0 < gap := by
      refine filled.lt_of_ne fun zero => fits ?_
      rw [← zero, nearest_zero]
    have above : -1074 < quantum gap := by
      refine (least_le_quantum gap).lt_of_ne fun least => fits (le_of_eq ?_)
      refine @nearest_of_quanta gap count ?_
      rw [← least, grid, mul_div_cancel_right₀ _ (scale_pos _).ne']
    have low := le_div_quantum positive above
    have high := div_quantum_lt positive
    obtain ⟨scaled, rescaled⟩ : ∃ scaled, gap / (2 : ℚ) ^ quantum gap = scaled := ⟨_, rfl⟩
    have whole : gap = scaled * (2 : ℚ) ^ quantum gap := by
      rw [← rescaled, div_mul_cancel₀ _ (scale_pos _).ne']
    rw [rescaled] at low high
    have unit := scale_pos (quantum gap)
    have floorLow : 2 ^ 52 ≤ ⌊scaled⌋₊ := Nat.le_floor (by exact_mod_cast low)
    have floorHigh : ⌊scaled⌋₊ < 2 ^ 53 := (Nat.floor_lt (by linarith)).mpr (by exact_mod_cast high)
    have floorLe : (⌊scaled⌋₊ : ℚ) ≤ scaled := Nat.floor_le (by linarith)
    have up : roundHalfEven scaled = ⌊scaled⌋₊ + 1 := by
      refine le_antisymm (roundHalfEven_le_floor scaled) (Nat.succ_le_of_lt ?_)
      refine (floor_le_roundHalfEven scaled).lt_of_ne fun same => fits ?_
      rw [nearest, rescaled, ← same]
      conv_rhs => rw [whole]
      exact mul_le_mul_of_nonneg_right floorLe unit.le
    have room : (⌊scaled⌋₊ : ℚ) + 1 ≤ 2 ^ 53 := by exact_mod_cast floorHigh
    have full : (2 : ℚ) ^ 52 ≤ ⌊scaled⌋₊ := by exact_mod_cast floorLow
    have bound : nearest gap * fraction ≤
        ((⌊scaled⌋₊ : ℚ) + (1 - ((⌊scaled⌋₊ : ℚ) + 1) / 2 ^ 53)) * (2 : ℚ) ^ quantum gap := by
      calc nearest gap * fraction ≤ nearest gap * belowOne :=
            mul_le_mul_of_nonneg_left below (nearest_nonneg _)
        _ = ((⌊scaled⌋₊ : ℚ) + (1 - ((⌊scaled⌋₊ : ℚ) + 1) / 2 ^ 53)) * (2 : ℚ) ^ quantum gap := by
            rw [nearest, rescaled, up, belowOne]
            push_cast
            ring
    calc nearest (nearest gap * fraction) ≤ ⌊scaled⌋₊ * (2 : ℚ) ^ quantum gap := by
          refine (nearest_mono product bound).trans (le_of_eq ?_)
          refine nearest_add (least_le_quantum gap) floorLow floorHigh ?_ ?_
          · rw [sub_nonneg]
            exact (div_le_one (by norm_num)).mpr room
          · have half : (1 : ℚ) / 2 < ((⌊scaled⌋₊ : ℚ) + 1) / 2 ^ 53 := by
              rw [lt_div_iff₀ (by norm_num)]
              linarith [show (2 : ℚ) ^ 53 = 2 * 2 ^ 52 by norm_num]
            linarith
      _ ≤ gap := by
          conv_rhs => rw [whole]
          exact mul_le_mul_of_nonneg_right floorLe unit.le

/-- The value between two doubles, each operation rounded. -/
def interpolate (low high fraction : ℚ) : ℚ :=
  rounded (low + rounded (rounded (high - low) * fraction))

theorem le_interpolate {low high fraction : ℚ} (double : IsDouble low) (ordered : low ≤ high)
    (nonneg : 0 ≤ fraction) : low ≤ interpolate low high fraction := by
  have gap : 0 ≤ rounded (high - low) := rounded_nonneg (sub_nonneg.mpr ordered)
  have step : 0 ≤ rounded (rounded (high - low) * fraction) := rounded_nonneg (mul_nonneg gap nonneg)
  calc low = rounded low := double.symm
    _ ≤ interpolate low high fraction := rounded_mono (le_add_of_nonneg_right step)

theorem interpolate_le {low high fraction : ℚ} (first : IsDouble low) (second : IsDouble high)
    (ordered : low ≤ high) (nonneg : 0 ≤ fraction) (below : fraction ≤ belowOne) :
    interpolate low high fraction ≤ high := by
  obtain ⟨one, sameOne⟩ := first.whole
  obtain ⟨two, sameTwo⟩ := second.whole
  have gap : 0 ≤ high - low := sub_nonneg.mpr ordered
  have counted : one ≤ two := by
    have scaled : (one : ℚ) * (2 : ℚ) ^ (-1074 : Int) ≤ two * (2 : ℚ) ^ (-1074 : Int) := by
      rw [← sameOne, ← sameTwo]
      exact ordered
    exact_mod_cast le_of_mul_le_mul_right scaled (scale_pos _)
  have grid : high - low = (two - one).toNat * (2 : ℚ) ^ (-1074 : Int) := by
    have cast : (((two - one).toNat : Nat) : ℚ) = two - one := by
      exact_mod_cast congrArg (Int.cast : Int → ℚ) (Int.toNat_of_nonneg (sub_nonneg.mpr counted))
    rw [cast, sub_mul, ← sameOne, ← sameTwo]
  have step : rounded (rounded (high - low) * fraction) ≤ high - low := by
    rw [rounded_of_nonneg gap, rounded_of_nonneg (mul_nonneg (nearest_nonneg _) nonneg)]
    exact nearest_scaled_le _ grid nonneg below
  calc interpolate low high fraction ≤ rounded high := rounded_mono (by linarith)
    _ = high := second

theorem interpolate_mono {low high one two : ℚ} (ordered : low ≤ high) (below : one ≤ two) :
    interpolate low high one ≤ interpolate low high two := by
  have gap : 0 ≤ rounded (high - low) := rounded_nonneg (sub_nonneg.mpr ordered)
  have step := rounded_mono (mul_le_mul_of_nonneg_left below gap)
  exact rounded_mono (by linarith)

/-! ### Positions -/

/-- The fractional part of a double is a double below one. -/
theorem fract_double {position : ℚ} (double : IsDouble position) (nonneg : 0 ≤ position) :
    0 ≤ position - ⌊position⌋₊ ∧ position - ⌊position⌋₊ ≤ belowOne ∧
      rounded (position - ⌊position⌋₊) = position - ⌊position⌋₊ := by
  have least := least_le_quantum position
  obtain ⟨count, small, same⟩ := nearest_eq nonneg
  rw [IsDouble, rounded_of_nonneg nonneg] at double
  rw [double] at same
  rcases le_or_gt 0 (quantum position) with coarse | fine
  · have whole : position = ((count * 2 ^ (quantum position).toNat : Nat) : ℚ) := by
      conv_lhs => rw [same]
      push_cast
      rw [← zpow_natCast, Int.toNat_of_nonneg coarse]
    rw [whole, Nat.floor_natCast, sub_self]
    exact ⟨le_rfl, by norm_num [belowOne], by rw [rounded_of_nonneg le_rfl, nearest_zero]⟩
  · obtain ⟨bits, bitsEq⟩ : ∃ bits : Nat, quantum position = -bits := ⟨(-quantum position).toNat, by omega⟩
    have unit : (0 : ℚ) < 2 ^ bits := by positivity
    have ratio : position = (count : ℚ) / ((2 ^ bits : Nat) : ℚ) := by
      conv_lhs => rw [same, bitsEq, zpow_neg, zpow_natCast]
      rw [div_eq_mul_inv]
      push_cast
      rfl
    have fraction : position - ⌊position⌋₊ = (count % 2 ^ bits : Nat) * (2 : ℚ) ^ (-(bits : Int)) := by
      have split : (count : ℚ) = (2 ^ bits : Nat) * (count / 2 ^ bits : Nat) + (count % 2 ^ bits : Nat) := by
        exact_mod_cast (Nat.div_add_mod count (2 ^ bits)).symm
      rw [ratio, Nat.floor_div_eq_div, zpow_neg, zpow_natCast]
      field_simp
      rw [split]
      push_cast
      ring
    have part : count % 2 ^ bits ≤ 2 ^ 53 := (Nat.mod_le _ _).trans small
    have kept := nearest_dyadic part (show (-1074 : Int) ≤ -(bits : Int) by omega)
    rw [fraction]
    refine ⟨mul_nonneg (Nat.cast_nonneg _) (scale_pos _).le, ?_, ?_⟩
    · rw [belowOne, zpow_neg, zpow_natCast, ← div_eq_mul_inv, div_le_iff₀ unit]
      rcases le_or_gt bits 53 with few | many
      · have less : ((count % 2 ^ bits : Nat) : ℚ) + 1 ≤ 2 ^ bits := by
          exact_mod_cast Nat.mod_lt count (by positivity)
        have power : (2 : ℚ) ^ bits ≤ 2 ^ 53 := pow_le_pow_right₀ (by norm_num) few
        have shrunk : 1 / (2 : ℚ) ^ 53 * 2 ^ bits ≤ 1 := by
          rw [one_div_mul_eq_div]
          exact (div_le_one (by norm_num)).mpr power
        linarith
      · have power : (2 : ℚ) ^ 54 ≤ 2 ^ bits := pow_le_pow_right₀ (by norm_num) many
        have bound : ((count % 2 ^ bits : Nat) : ℚ) ≤ 2 ^ 53 := by exact_mod_cast part
        linarith [show (2 : ℚ) ^ 54 = 2 * 2 ^ 53 by norm_num,
          show 1 / (2 : ℚ) ^ 53 * 2 ^ bits ≤ 2 ^ bits / 2 by
            rw [one_div_mul_eq_div]
            exact div_le_div_of_nonneg_left unit.le (by norm_num) (by norm_num)]
    · rw [rounded_of_nonneg (mul_nonneg (Nat.cast_nonneg _) (scale_pos _).le), kept]

/-- Rounding adds less than one part in `2 ^ 52`, or one least quantum. -/
theorem nearest_le {magnitude : ℚ} (nonneg : 0 ≤ magnitude) :
    nearest magnitude ≤ magnitude * (1 + 1 / 2 ^ 52) + (2 : ℚ) ^ (-1074 : Int) := by
  have unit := scale_pos (quantum magnitude)
  rcases nonneg.eq_or_lt with rfl | positive
  · rw [nearest_zero]
    linarith [scale_pos (-1074)]
  have close : nearest magnitude ≤ magnitude + (2 : ℚ) ^ quantum magnitude := by
    have up : (roundHalfEven (magnitude / (2 : ℚ) ^ quantum magnitude) : ℚ) ≤
        magnitude / (2 : ℚ) ^ quantum magnitude + 1 := by
      have floor := Nat.floor_le (div_nonneg nonneg unit.le)
      have step : (roundHalfEven (magnitude / (2 : ℚ) ^ quantum magnitude) : ℚ) ≤
          ⌊magnitude / (2 : ℚ) ^ quantum magnitude⌋₊ + 1 := by exact_mod_cast roundHalfEven_le_floor _
      linarith
    calc nearest magnitude ≤ (magnitude / (2 : ℚ) ^ quantum magnitude + 1) * (2 : ℚ) ^ quantum magnitude :=
          mul_le_mul_of_nonneg_right up unit.le
      _ = magnitude + (2 : ℚ) ^ quantum magnitude := by
          rw [add_mul, div_mul_cancel₀ _ unit.ne', one_mul]
  rcases (least_le_quantum magnitude).eq_or_lt with least | above
  · rw [← least] at close
    linarith [show 0 ≤ magnitude * (1 / 2 ^ 52) by positivity]
  · have low := le_div_quantum positive above
    rw [le_div_iff₀ unit] at low
    have quantumLe : (2 : ℚ) ^ quantum magnitude ≤ magnitude * (1 / 2 ^ 52) := by
      rw [mul_one_div, le_div_iff₀ (by norm_num), mul_comm]
      exact low
    linarith [scale_pos (-1074)]

/-- A rounded quotient of small numbers is on the same side of every whole number. -/
theorem ceil_nearest_div {count size : Nat} (positive : 0 < size) (few : count ≤ 2 ^ 26) (small : size ≤ 2 ^ 26) :
    ⌈nearest ((count : ℚ) / size)⌉₊ = ⌈(count : ℚ) / size⌉₊ := by
  have divisor : (0 : ℚ) < size := by exact_mod_cast positive
  have nonneg : (0 : ℚ) ≤ (count : ℚ) / size := by positivity
  refine le_antisymm (Nat.ceil_le.mpr ?_) (le_of_forall_lt fun below less => ?_)
  · have bounded : ⌈(count : ℚ) / size⌉₊ ≤ 2 ^ 53 := by
      have least : (1 : ℚ) ≤ size := by exact_mod_cast positive
      have top : (count : ℚ) / size ≤ (2 ^ 26 : Nat) :=
        (div_le_self (Nat.cast_nonneg _) least).trans (by exact_mod_cast few)
      exact (Nat.ceil_le.mpr top).trans (by norm_num)
    have whole := nearest_dyadic bounded (by norm_num : (-1074 : Int) ≤ 0)
    rw [zpow_zero, mul_one] at whole
    exact (nearest_mono nonneg (Nat.le_ceil _)).trans whole.le
  · rw [Nat.lt_ceil] at less ⊢
    -- There is a double just above the whole number.
    have above : below * size < count := by exact_mod_cast (lt_div_iff₀ divisor).mp less
    have within : below ≤ 2 ^ 26 := (Nat.le_mul_of_pos_right below positive).trans (above.le.trans few)
    have double := @nearest_dyadic (below * 2 ^ 26 + 1) (-26) (by omega) (by norm_num)
    have step : ((below * 2 ^ 26 + 1 : Nat) : ℚ) * (2 : ℚ) ^ (-26 : Int) = below + 1 / 2 ^ 26 := by
      push_cast
      norm_num
      ring
    rw [step] at double
    have reached : (below : ℚ) + 1 / 2 ^ 26 ≤ (count : ℚ) / size := by
      rw [le_div_iff₀ divisor, add_mul]
      have unit : 1 / 2 ^ 26 * (size : ℚ) ≤ 1 := by
        rw [one_div_mul_eq_div, div_le_one (by norm_num)]
        exact_mod_cast small
      have more : (below : ℚ) * size + 1 ≤ count := by exact_mod_cast above
      linarith
    calc (below : ℚ) < below + 1 / 2 ^ 26 := by norm_num
      _ = nearest (below + 1 / 2 ^ 26) := double.symm
      _ ≤ nearest ((count : ℚ) / size) := nearest_mono (by positivity) reached

end Binary64
