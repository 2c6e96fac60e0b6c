import Mathlib.Data.List.Basic
import Mathlib.Tactic.Ring

/-!
UTC timestamps in the RFC 3339 profile: `YYYY-MM-DDTHH:MM:SS[.ffffff]Z` when written;
optional seconds, other date separators, longer fractions and a zero offset when read.
-/

/-- A UTC instant of the proleptic Gregorian calendar with microseconds. -/
structure Timestamp where
  year : Nat
  month : Nat
  day : Nat
  hour : Nat
  minute : Nat
  second : Nat
  microsecond : Nat
  valid : 1 ≤ year ∧ year ≤ 9999 ∧ 1 ≤ month ∧ month ≤ 12 ∧ 1 ≤ day ∧
    day ≤ (if month = 2 then (if year % 4 = 0 ∧ (year % 100 ≠ 0 ∨ year % 400 = 0) then 29 else 28)
      else if month = 4 ∨ month = 6 ∨ month = 9 ∨ month = 11 then 30 else 31) ∧
    hour < 24 ∧ minute < 60 ∧ second < 60 ∧ microsecond < 1000000
deriving DecidableEq

namespace Timestamp

def build (year month day hour minute second microsecond : Nat) : Option Timestamp :=
  if valid : 1 ≤ year ∧ year ≤ 9999 ∧ 1 ≤ month ∧ month ≤ 12 ∧ 1 ≤ day ∧
      day ≤ (if month = 2 then
          (if year % 4 = 0 ∧ (year % 100 ≠ 0 ∨ year % 400 = 0) then 29 else 28)
        else if month = 4 ∨ month = 6 ∨ month = 9 ∨ month = 11 then 30 else 31) ∧
      hour < 24 ∧ minute < 60 ∧ second < 60 ∧ microsecond < 1000000 then
    some ⟨year, month, day, hour, minute, second, microsecond, valid⟩
  else none

/-- Decimal digits with leading zeros. -/
def digits : Nat → Nat → List Char
  | 0, _ => []
  | width + 1, value =>
      Nat.digitChar (value / 10 ^ width % 10) :: digits width (value % 10 ^ width)

def readDigits : Nat → Nat → List Char → Option (Nat × List Char)
  | 0, value, text => some (value, text)
  | _ + 1, _, [] => none
  | width + 1, value, c :: text =>
      if c.isDigit then readDigits width (value * 10 + (c.toNat - 48)) text else none

theorem shift_digit (start value width : Nat) :
    (start * 10 + value / 10 ^ width) * 10 ^ width + value % 10 ^ width =
      start * 10 ^ (width + 1) + value := by
  calc (start * 10 + value / 10 ^ width) * 10 ^ width + value % 10 ^ width
      = start * 10 ^ (width + 1) + (10 ^ width * (value / 10 ^ width) + value % 10 ^ width) := by
        ring
    _ = start * 10 ^ (width + 1) + value := by rw [Nat.div_add_mod]

theorem digits_succ_isDigit (width value : Nat) :
    ∃ c tail, digits (width + 1) value = c :: tail ∧ c.isDigit = true :=
  ⟨_, _, rfl, by simp [Nat.isDigit_digitChar, Nat.mod_lt]⟩

theorem readDigits_digits (width value start : Nat) (bound : value < 10 ^ width)
    (rest : List Char) :
    readDigits width start (digits width value ++ rest) =
      some (start * 10 ^ width + value, rest) := by
  induction width generalizing value start with
  | zero => simp_all [readDigits, digits]
  | succ width ih =>
      have positive : 0 < 10 ^ width := Nat.pow_pos (by decide)
      have leading : value / 10 ^ width < 10 := by
        rw [Nat.div_lt_iff_lt_mul positive]
        rwa [pow_succ, Nat.mul_comm] at bound
      have digit : value / 10 ^ width % 10 = value / 10 ^ width := Nat.mod_eq_of_lt leading
      rw [digits, List.cons_append, readDigits, if_pos (by simp [Nat.isDigit_digitChar, digit, leading]),
        Nat.toNat_digitChar_sub_48_of_lt_ten (by omega), ih _ _ (Nat.mod_lt _ positive), digit]
      simp only [Option.some.injEq, Prod.mk.injEq, and_true]
      exact shift_digit start value width

def readChar (accepted : List Char) : List Char → Option (List Char)
  | [] => none
  | c :: text => if c ∈ accepted then some text else none

/-- The digits of a fraction of a second as microseconds; further digits are dropped. -/
def readFraction : Nat → Nat → List Char → Nat × List Char
  | 0, value, text => (value, text.dropWhile Char.isDigit)
  | width + 1, value, [] => (value * 10 ^ (width + 1), [])
  | width + 1, value, c :: text =>
      if c.isDigit then readFraction width (value * 10 + (c.toNat - 48)) text
      else (value * 10 ^ (width + 1), c :: text)

def readSeconds (text : List Char) : Option (Nat × Nat × List Char) :=
  match readChar [':'] text with
  | none => some (0, 0, text)
  | some text => do
      let (second, text) ← readDigits 2 0 text
      match readChar ['.', ','] text with
      | none => some (second, 0, text)
      | some [] => none
      | some (c :: text) =>
          if c.isDigit then
            let (microsecond, text) := readFraction 6 0 (c :: text)
            some (second, microsecond, text)
          else none

/-- `Z` or a zero offset, and nothing after it. -/
def readZone (text : List Char) : Bool :=
  match readChar ['Z', 'z'] text with
  | some rest => rest.isEmpty
  | none =>
      match readChar ['+', '-'] text with
      | some ['0', '0', ':', '0', '0'] | some ['0', '0', '0', '0'] => true
      | _ => false

def parse (text : List Char) : Option Timestamp := do
  let (year, text) ← readDigits 4 0 text
  let text ← readChar ['-'] text
  let (month, text) ← readDigits 2 0 text
  let text ← readChar ['-'] text
  let (day, text) ← readDigits 2 0 text
  let text ← readChar ['T', 't', ' ', '_'] text
  let (hour, text) ← readDigits 2 0 text
  let text ← readChar [':'] text
  let (minute, text) ← readDigits 2 0 text
  let (second, microsecond, text) ← readSeconds text
  if readZone text then build year month day hour minute second microsecond else none

def formatFraction (microsecond : Nat) : List Char :=
  if microsecond = 0 then [] else '.' :: digits 6 microsecond

def format (time : Timestamp) : List Char :=
  digits 4 time.year ++ '-' :: (digits 2 time.month ++ '-' :: (digits 2 time.day ++ 'T' ::
    (digits 2 time.hour ++ ':' :: (digits 2 time.minute ++ ':' :: (digits 2 time.second ++
      (formatFraction time.microsecond ++ ['Z']))))))

theorem readFraction_digits (width value start : Nat) (bound : value < 10 ^ width)
    {rest : List Char} (stop : ∀ c ∈ rest.head?, c.isDigit = false) :
    readFraction width start (digits width value ++ rest) = (start * 10 ^ width + value, rest) := by
  induction width generalizing value start with
  | zero =>
      cases rest with
      | nil => simp_all [readFraction, digits]
      | cons c rest => simp_all [readFraction, digits]
  | succ width ih =>
      have positive : 0 < 10 ^ width := Nat.pow_pos (by decide)
      have leading : value / 10 ^ width < 10 := by
        rw [Nat.div_lt_iff_lt_mul positive]
        rwa [pow_succ, Nat.mul_comm] at bound
      have digit : value / 10 ^ width % 10 = value / 10 ^ width := Nat.mod_eq_of_lt leading
      rw [digits, List.cons_append, readFraction,
        if_pos (by simp [Nat.isDigit_digitChar, digit, leading]),
        Nat.toNat_digitChar_sub_48_of_lt_ten (by omega), ih _ _ (Nat.mod_lt _ positive), digit]
      simp only [Prod.mk.injEq, and_true]
      exact shift_digit start value width

theorem readSeconds_format {second microsecond : Nat} (small : second < 60)
    (fine : microsecond < 1000000) :
    readSeconds (':' :: (digits 2 second ++ (formatFraction microsecond ++ ['Z']))) =
      some (second, microsecond, ['Z']) := by
  have read := readDigits_digits 2 second 0 (by omega) (formatFraction microsecond ++ ['Z'])
  simp only [readSeconds, readChar, List.mem_singleton, ↓reduceIte, read,
    Option.bind_eq_bind, Option.bind_some, Nat.zero_mul, Nat.zero_add]
  by_cases zero : microsecond = 0
  · simp [formatFraction, zero]
  · have fraction : readFraction 6 0 (digits 6 microsecond ++ ['Z']) =
        (0 * 10 ^ 6 + microsecond, ['Z']) :=
      readFraction_digits 6 microsecond 0 (by omega) (by simp)
    obtain ⟨c, tail, split, digit⟩ := digits_succ_isDigit 5 microsecond
    simp only [Nat.zero_mul, Nat.zero_add, split, List.cons_append] at fraction
    simp [formatFraction, zero, split, digit, fraction]

theorem build_self (time : Timestamp) :
    build time.year time.month time.day time.hour time.minute time.second time.microsecond =
      some time := by
  rw [build, dif_pos time.valid]

theorem readDigits_start (width : Nat) {value : Nat} (bound : value < 10 ^ width)
    (rest : List Char) : readDigits width 0 (digits width value ++ rest) = some (value, rest) := by
  have read := readDigits_digits width value 0 bound rest
  rwa [Nat.zero_mul, Nat.zero_add] at read

/-- Reading a written timestamp gives it back. -/
theorem parse_format (time : Timestamp) : parse time.format = some time := by
  obtain ⟨_, year, _, month, _, last, hour, minute, second, microsecond⟩ := time.valid
  have day : time.day < 10 ^ 2 := by
    split at last
    · split at last <;> omega
    · split at last <;> omega
  have zone : readZone ['Z'] = true := rfl
  simp only [parse, format, readDigits_start 4 (show time.year < 10 ^ 4 by omega),
    readDigits_start 2 (show time.month < 10 ^ 2 by omega), readDigits_start 2 day,
    readDigits_start 2 (show time.hour < 10 ^ 2 by omega),
    readDigits_start 2 (show time.minute < 10 ^ 2 by omega),
    readSeconds_format second microsecond, Option.bind_eq_bind, Option.bind_some, readChar,
    List.mem_cons, true_or, ↓reduceIte, zone]
  exact build_self time

end Timestamp
