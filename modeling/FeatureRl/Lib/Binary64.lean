import Mathlib.Algebra.Order.Field.Power
import Mathlib.Algebra.Order.Floor.Semiring
import Mathlib.Data.Int.Log
import Mathlib.Data.Nat.Log
import Mathlib.Data.Rat.Floor
import Mathlib.Tactic.FieldSimp
import Mathlib.Tactic.Linarith
import Mathlib.Tactic.NormNum
import Mathlib.Tactic.Positivity
import Mathlib.Tactic.Push

/-!
Finite IEEE 754 binary64 numbers as canonical dyadic rationals, correctly rounded
reading of a decimal, and the shortest decimal that reads back as a given number.
-/

/-- A finite double: `mantissa * 2 ^ exponent` with a sign, in the unique scaled form. -/
structure Binary64 where
  negative : Bool
  mantissa : Nat
  exponent : Int
  canonical : (mantissa < 2 ^ 52 ∧ exponent = -1074) ∨
    (2 ^ 52 ≤ mantissa ∧ mantissa < 2 ^ 53 ∧ -1074 ≤ exponent ∧ exponent ≤ 971)
deriving DecidableEq

/-- `digits * 10 ^ exponent`. -/
structure Decimal where
  digits : Nat
  exponent : Int
deriving DecidableEq

namespace Decimal

def value (decimal : Decimal) : ℚ := decimal.digits * (10 : ℚ) ^ decimal.exponent

/-- Drop trailing zero digits. -/
def strip : Nat → Decimal → Decimal
  | 0, decimal => decimal
  | fuel + 1, decimal =>
      if decimal.digits ≠ 0 ∧ decimal.digits % 10 = 0 then
        strip fuel ⟨decimal.digits / 10, decimal.exponent + 1⟩
      else decimal

theorem strip_value (fuel : Nat) (decimal : Decimal) :
    (strip fuel decimal).value = decimal.value := by
  induction fuel generalizing decimal with
  | zero => rfl
  | succ fuel ih =>
      simp only [strip]
      split
      next trailing =>
        rw [ih]
        have whole : decimal.digits = decimal.digits / 10 * 10 := by omega
        simp only [value]
        rw [zpow_add_one₀ (by norm_num)]
        conv_rhs => rw [whole]
        push_cast
        ring
      next => rfl

end Decimal

namespace Binary64

def magnitude (number : Binary64) : ℚ := number.mantissa * (2 : ℚ) ^ number.exponent

/-- The exact value; both zeros have value `0`. -/
def value (number : Binary64) : ℚ :=
  if number.negative then -number.magnitude else number.magnitude

/-- The nearest natural number, ties to even. -/
def roundHalfEven (magnitude : ℚ) : Nat :=
  let floor := ⌊magnitude⌋₊
  let excess := magnitude - floor
  if excess < 1 / 2 then floor
  else if 1 / 2 < excess then floor + 1
  else if floor % 2 = 0 then floor else floor + 1

theorem roundHalfEven_natCast (count : Nat) : roundHalfEven (count : ℚ) = count := by
  simp [roundHalfEven]

/-- The exponent of the last bit kept when rounding `magnitude`. -/
def quantum (magnitude : ℚ) : Int :=
  if magnitude = 0 then -1074 else max (-1074) (Int.log 2 magnitude - 52)

def build (negative : Bool) (mantissa : Nat) (exponent : Int) : Option Binary64 :=
  if canonical : (mantissa < 2 ^ 52 ∧ exponent = -1074) ∨
      (2 ^ 52 ≤ mantissa ∧ mantissa < 2 ^ 53 ∧ -1074 ≤ exponent ∧ exponent ≤ 971) then
    some ⟨negative, mantissa, exponent, canonical⟩
  else none

/-- Round to nearest, ties to even; `none` on overflow. -/
def ofMagnitude (negative : Bool) (magnitude : ℚ) : Option Binary64 :=
  let exponent := quantum magnitude
  let mantissa := roundHalfEven (magnitude / (2 : ℚ) ^ exponent)
  if mantissa = 2 ^ 53 then build negative (2 ^ 52) (exponent + 1)
  else build negative mantissa exponent

theorem quantum_magnitude (number : Binary64) : quantum number.magnitude = number.exponent := by
  have scale : (0 : ℚ) < (2 : ℚ) ^ number.exponent := by positivity
  by_cases zero : number.mantissa = 0
  · have exponent : number.exponent = -1074 := by have := number.canonical; omega
    simp [quantum, magnitude, zero, exponent]
  · have positive : (0 : ℚ) < number.mantissa := by
      exact_mod_cast Nat.pos_of_ne_zero zero
    have nonzero : 0 < number.magnitude := mul_pos positive scale
    have bounds (power : Nat) (above : number.mantissa < 2 ^ power) :
        Int.log 2 number.magnitude < power + number.exponent := by
      rw [← Int.lt_zpow_iff_log_lt (by norm_num) nonzero, Nat.cast_ofNat,
        zpow_add₀ (by norm_num), zpow_natCast]
      exact mul_lt_mul_of_pos_right (by exact_mod_cast above) scale
    rw [quantum, if_neg nonzero.ne']
    rcases number.canonical with ⟨small, least⟩ | ⟨large, below, least, _⟩
    · have := bounds 52 small
      omega
    · have upper := bounds 53 below
      have lower : (52 : Int) + number.exponent ≤ Int.log 2 number.magnitude := by
        rw [← Int.zpow_le_iff_le_log (by norm_num) nonzero, Nat.cast_ofNat,
          zpow_add₀ (by norm_num)]
        exact mul_le_mul_of_nonneg_right (by exact_mod_cast large) scale.le
      omega

theorem build_canonical (number : Binary64) :
    build number.negative number.mantissa number.exponent = some number := by
  rw [build, dif_pos number.canonical]

/-- A number's exact magnitude reads back as the number. -/
theorem ofMagnitude_magnitude (number : Binary64) :
    ofMagnitude number.negative number.magnitude = some number := by
  have scale : (2 : ℚ) ^ number.exponent ≠ 0 := by positivity
  have mantissa : number.magnitude / (2 : ℚ) ^ number.exponent = number.mantissa := by
    rw [magnitude, mul_div_assoc, div_self scale, mul_one]
  have below : number.mantissa ≠ 2 ^ 53 := by have := number.canonical; omega
  rw [ofMagnitude]
  simp only [quantum_magnitude, mantissa, roundHalfEven_natCast, below, ↓reduceIte]
  exact build_canonical number

/-- Every finite double is a finite decimal. -/
def exactDecimal (number : Binary64) : Decimal :=
  if 0 ≤ number.exponent then ⟨number.mantissa * 2 ^ number.exponent.toNat, 0⟩
  else ⟨number.mantissa * 5 ^ (-number.exponent).toNat, number.exponent⟩

theorem exactDecimal_value (number : Binary64) :
    number.exactDecimal.value = number.magnitude := by
  unfold exactDecimal
  split
  next whole =>
    obtain ⟨power, equal⟩ := Int.eq_ofNat_of_zero_le whole
    simp [Decimal.value, magnitude, equal]
  next fractional =>
    obtain ⟨power, equal⟩ := Int.eq_ofNat_of_zero_le (a := -number.exponent) (by omega)
    have exponent : number.exponent = -(power : Int) := by omega
    simp only [Decimal.value, magnitude, exponent, neg_neg, Int.toNat_natCast, Nat.cast_mul,
      Nat.cast_pow, Nat.cast_ofNat, zpow_neg, zpow_natCast]
    have ten : (10 : ℚ) ^ power = 5 ^ power * 2 ^ power := by rw [← mul_pow]; norm_num
    rw [ten]
    field_simp

/-- The decimals with `count` significant digits around a magnitude, the nearest first. -/
def neighbours (magnitude : ℚ) (count : Nat) : List Decimal :=
  let exponent := Int.log 10 magnitude - (count - 1)
  let scaled := magnitude / (10 : ℚ) ^ exponent
  let floor := ⌊scaled⌋₊
  let nearest := roundHalfEven scaled
  [⟨nearest, exponent⟩, ⟨if nearest = floor then floor + 1 else floor, exponent⟩]

/-- The shortest decimal that reads back as the number. Seventeen digits are enough for
every double; the exact expansion stands behind the search as its default. -/
def shortest (number : Binary64) : Decimal :=
  let candidates := (List.range 17).flatMap fun count =>
    neighbours number.magnitude (count + 1)
  let chosen := (candidates.find? fun decimal =>
    ofMagnitude number.negative decimal.value = some number).getD number.exactDecimal
  chosen.strip (Nat.log 10 chosen.digits + 1)

theorem ofMagnitude_shortest (number : Binary64) :
    ofMagnitude number.negative number.shortest.value = some number := by
  unfold shortest
  simp only [Decimal.strip_value]
  generalize (List.range 17).flatMap _ = candidates
  cases found : candidates.find? fun decimal =>
      ofMagnitude number.negative decimal.value = some number with
  | none =>
      rw [Option.getD_none, exactDecimal_value]
      exact ofMagnitude_magnitude number
  | some decimal => simpa using List.find?_some found

/-- Integers convert to the nearest double. -/
def ofInt (number : Int) : Option Binary64 :=
  ofMagnitude (decide (number < 0)) number.natAbs

end Binary64
