import FeatureRl.Lib.Ascii
import FeatureRl.Lib.Codec
import FeatureRl.Lib.Rounding

/-! How many bytes canonical JSON takes. -/

namespace Utf8

theorem length_encode_append (first second : List Char) :
    (encode (first ++ second)).length = (encode first).length + (encode second).length := by
  rw [encode_append, List.length_append]

theorem length_encode_cons (c : Char) (text : List Char) :
    (encode (c :: text)).length = c.utf8Size + (encode text).length := by
  simp [encode]

theorem utf8Size_ascii {c : Char} (ascii : c.toNat < 128) : c.utf8Size = 1 := by
  rw [Char.utf8Size_eq_one_iff, UInt32.le_iff_toNat_le]
  exact Nat.le_of_lt_succ ascii

theorem length_encode_ascii {text : List Char} (ascii : ∀ c ∈ text, c.toNat < 128) :
    (encode text).length = text.length := by
  induction text with
  | nil => rfl
  | cons c text ih =>
      rw [length_encode_cons, ih fun other member => ascii other (List.mem_cons_of_mem _ member),
        utf8Size_ascii (ascii c List.mem_cons_self), List.length_cons, Nat.add_comm]

end Utf8

/-! ### Decimals of doubles -/

namespace Decimal

theorem digits_strip_le (fuel : Nat) (decimal : Decimal) :
    (strip fuel decimal).digits ≤ decimal.digits := by
  induction fuel generalizing decimal with
  | zero => exact Nat.le_refl _
  | succ fuel ih =>
      simp only [strip]
      split
      · exact (ih _).trans (Nat.div_le_self _ _)
      · exact Nat.le_refl _

theorem exponent_strip (fuel : Nat) (decimal : Decimal) :
    decimal.exponent ≤ (strip fuel decimal).exponent ∧
      (strip fuel decimal).exponent ≤ decimal.exponent + fuel := by
  induction fuel generalizing decimal with
  | zero => simp [strip]
  | succ fuel ih =>
      simp only [strip]
      split
      · have later := ih ⟨decimal.digits / 10, decimal.exponent + 1⟩
        simp only at later
        omega
      · exact ⟨Int.le_refl _, by omega⟩

/-- Far more digits and larger exponents than any double needs. -/
structure Moderate (decimal : Decimal) : Prop where
  digits : decimal.digits < 10 ^ 1100
  low : -2000 ≤ decimal.exponent
  high : decimal.exponent ≤ 2000

end Decimal

namespace Binary64

theorem moderate_exactDecimal (number : Binary64) : number.exactDecimal.Moderate := by
  have mantissa : number.mantissa < 2 ^ 53 := by have := number.canonical; omega
  have exponent : -1074 ≤ number.exponent ∧ number.exponent ≤ 971 := by
    have := number.canonical; omega
  unfold exactDecimal
  split
  next whole =>
    refine ⟨?_, by simp, by simp⟩
    calc number.mantissa * 2 ^ number.exponent.toNat
        < 2 ^ 53 * 2 ^ number.exponent.toNat := Nat.mul_lt_mul_of_pos_right mantissa (by positivity)
      _ ≤ 2 ^ 53 * 2 ^ 971 := Nat.mul_le_mul_left _ (Nat.pow_le_pow_right (by decide) (by omega))
      _ < 10 ^ 1100 := by decide +kernel
  next fractional =>
    refine ⟨?_, by simp only; omega, by simp only; omega⟩
    calc number.mantissa * 5 ^ (-number.exponent).toNat
        < 2 ^ 53 * 5 ^ (-number.exponent).toNat :=
          Nat.mul_lt_mul_of_pos_right mantissa (by positivity)
      _ ≤ 2 ^ 53 * 5 ^ 1074 := Nat.mul_le_mul_left _ (Nat.pow_le_pow_right (by decide) (by omega))
      _ < 10 ^ 1100 := by decide +kernel

theorem log_magnitude (number : Binary64) :
    -1074 ≤ Int.log 10 number.magnitude ∧ Int.log 10 number.magnitude ≤ 1024 := by
  have mantissa : number.mantissa < 2 ^ 53 := by have := number.canonical; omega
  have exponent : -1074 ≤ number.exponent ∧ number.exponent ≤ 971 := by
    have := number.canonical; omega
  by_cases zero : number.mantissa = 0
  · simp [magnitude, zero]
  · have one : (1 : ℚ) ≤ number.mantissa := by exact_mod_cast Nat.pos_of_ne_zero zero
    have positive : 0 < number.magnitude := mul_pos (by linarith) (by positivity)
    have low : (10 : ℚ) ^ (-1074 : Int) ≤ number.magnitude := by
      calc (10 : ℚ) ^ (-1074 : Int) ≤ 2 ^ (-1074 : Int) := by
            rw [zpow_neg, zpow_neg]
            exact inv_anti₀ (by positivity) (zpow_le_zpow_left₀ (by norm_num) (by norm_num) (by norm_num))
        _ ≤ 2 ^ number.exponent := zpow_le_zpow_right₀ (by norm_num) exponent.1
        _ ≤ number.magnitude := le_mul_of_one_le_left (by positivity) one
    have high : number.magnitude < (10 : ℚ) ^ (1024 : Int) := by
      calc number.magnitude < 2 ^ 53 * 2 ^ number.exponent :=
            mul_lt_mul_of_pos_right (by exact_mod_cast mantissa) (by positivity)
        _ ≤ 2 ^ 53 * 2 ^ (971 : Int) :=
            mul_le_mul_of_nonneg_left (zpow_le_zpow_right₀ (by norm_num) exponent.2) (by norm_num)
        _ = 2 ^ (1024 : Int) := by rw [← zpow_natCast, ← zpow_add₀ (by norm_num)]; rfl
        _ < 10 ^ (1024 : Int) := zpow_lt_zpow_left₀ (by norm_num) (by norm_num) (by norm_num)
    have cast : ((10 : Nat) : ℚ) = 10 := by norm_num
    refine ⟨?_, ?_⟩
    · rw [← Int.zpow_le_iff_le_log (by norm_num) positive, cast]
      exact low
    · apply le_of_lt
      rw [← Int.lt_zpow_iff_log_lt (by norm_num) positive, cast]
      exact high

theorem scaled_lt (magnitude : ℚ) {count : Nat} (small : count ≤ 17) :
    magnitude / (10 : ℚ) ^ (Int.log 10 magnitude - (count - 1)) < 10 ^ 17 := by
  have below := Int.lt_zpow_succ_log_self (by norm_num : 1 < 10) magnitude
  rw [div_lt_iff₀ (by positivity)]
  calc magnitude < (10 : ℚ) ^ (Int.log 10 magnitude + 1) := by exact_mod_cast below
    _ ≤ 10 ^ (17 + (Int.log 10 magnitude - (count - 1))) :=
        zpow_le_zpow_right₀ (by norm_num) (by omega)
    _ = 10 ^ 17 * 10 ^ (Int.log 10 magnitude - (count - 1)) := by
        rw [zpow_add₀ (by norm_num)]
        rfl

theorem moderate_neighbours {number : Binary64} {count : Nat} (small : count ≤ 17)
    {decimal : Decimal} (found : decimal ∈ neighbours number.magnitude count) :
    decimal.Moderate := by
  have bounds := log_magnitude number
  have positive : 0 ≤ number.magnitude := mul_nonneg (by positivity) (by positivity)
  have floor : ⌊number.magnitude / (10 : ℚ) ^ (Int.log 10 number.magnitude - (count - 1))⌋₊ <
      10 ^ 17 := by
    rw [Nat.floor_lt (div_nonneg positive (by positivity))]
    exact_mod_cast scaled_lt number.magnitude small
  have nearest := roundHalfEven_le_floor
    (number.magnitude / (10 : ℚ) ^ (Int.log 10 number.magnitude - (count - 1)))
  have large : (10 : Nat) ^ 17 + 2 < 10 ^ 1100 := by decide +kernel
  simp only [neighbours, List.mem_cons, List.not_mem_nil, or_false] at found
  rcases found with rfl | rfl
  · exact ⟨by simp only; omega, by simp only; omega, by simp only; omega⟩
  · refine ⟨?_, by simp only; omega, by simp only; omega⟩
    simp only
    split <;> omega

theorem moderate_shortest (number : Binary64) : ∃ decimal : Decimal, decimal.Moderate ∧
    number.shortest = decimal.strip (Nat.log 10 decimal.digits + 1) := by
  refine ⟨_, ?_, rfl⟩
  cases found : ((List.range 17).flatMap fun count => neighbours number.magnitude (count + 1)).find?
      fun decimal => ofMagnitude number.negative decimal.value = some number with
  | none => exact moderate_exactDecimal number
  | some decimal =>
      obtain ⟨count, range, near⟩ := List.mem_flatMap.mp (List.mem_of_find?_eq_some found)
      have small := List.mem_range.mp range
      exact moderate_neighbours (by omega) near

/-- The shortest decimal of a double has few digits and a small exponent. -/
theorem shortest_bounds (number : Binary64) : number.shortest.digits < 10 ^ 1100 ∧
    -2000 ≤ number.shortest.exponent ∧ number.shortest.exponent ≤ 4000 := by
  obtain ⟨decimal, moderate, equal⟩ := moderate_shortest number
  have digits := Decimal.digits_strip_le (Nat.log 10 decimal.digits + 1) decimal
  have exponent := Decimal.exponent_strip (Nat.log 10 decimal.digits + 1) decimal
  have length : Nat.log 10 decimal.digits ≤ 1100 := by
    by_cases zero : decimal.digits = 0
    · simp [zero]
    · exact (Nat.log_lt_of_lt_pow zero moderate.digits).le
  have low := moderate.low
  have high := moderate.high
  rw [equal]
  exact ⟨digits.trans_lt moderate.digits, by omega, by omega⟩

end Binary64

/-! ### Number literals -/

namespace NumberLiteral

theorem length_renderExponent_le {exponent : Int} (small : exponent.natAbs < 10 ^ 4) :
    (renderExponent (some exponent)).length ≤ 6 := by
  have digits := (Nat.length_toDigits_le_iff (by decide) (by decide)).mpr small
  simp only [renderExponent, List.length_cons]
  split
  · simp only [List.length_cons]; omega
  · omega

theorem length_renderFraction_le (fraction : List Char) :
    (renderFraction fraction).length ≤ fraction.length + 1 := by
  simp only [renderFraction]
  split <;> simp

theorem length_render_le (literal : NumberLiteral) : literal.render.length ≤
    literal.whole.length + literal.fraction.length + (renderExponent literal.exponent).length + 2 := by
  have fraction := length_renderFraction_le literal.fraction
  simp only [render, List.length_append]
  split
  · simp only [List.length_singleton]; omega
  · simp only [List.length_nil]; omega

theorem length_render_ofInt {number : Int} {power : Nat} (positive : 0 < power)
    (small : number.natAbs < 10 ^ power) : (ofInt number).render.length ≤ power + 2 := by
  have digits := (Nat.length_toDigits_le_iff (by decide) positive).mpr small
  calc (ofInt number).render.length ≤ _ := length_render_le (ofInt number)
    _ ≤ power + 2 := by simpa [ofInt, renderExponent] using digits

theorem length_render_ofBinary64 (number : Binary64) : (ofBinary64 number).render.length ≤ 1200 := by
  obtain ⟨digits, low, high⟩ := Binary64.shortest_bounds number
  have count := (Nat.length_toDigits_le_iff (by decide) (by decide)).mpr digits
  have size := length_render_le (ofBinary64 number)
  refine size.trans ?_
  clear size digits
  simp only [ofBinary64]
  split_ifs with zero far small inside
  · simp [renderExponent]
  · have near : ((Nat.toDigits 10 number.shortest.digits).length + number.shortest.exponent -
        1).natAbs < 10 ^ 4 := by omega
    have exponent := length_renderExponent_le near
    simp only [List.length_take, List.length_drop] at exponent ⊢
    omega
  · simp [renderExponent]
    omega
  · simp [renderExponent]
    omega
  · simp [renderExponent]
    omega

theorem ascii_of_isDigit {c : Char} (digit : c.isDigit = true) : c.toNat < 128 := by
  have bounds := Char.isDigit_iff_toNat.mp digit
  have nine : '9'.toNat = 57 := rfl
  omega

theorem ascii_renderExponent (exponent : Option Int) :
    ∀ c ∈ renderExponent exponent, c.toNat < 128 := by
  cases exponent with
  | none => simp [renderExponent]
  | some exponent =>
      have digits : ∀ c ∈ Nat.toDigits 10 exponent.natAbs, c.toNat < 128 :=
        fun c found => ascii_of_isDigit (toDigits_isDigit _ c found)
      intro c found
      simp only [renderExponent, List.mem_cons] at found
      rcases found with rfl | rfl | digit
      · decide
      · split <;> decide
      · split at digit
        · rcases List.mem_cons.mp digit with rfl | later
          · decide
          · exact digits c later
        · exact digits c digit

theorem ascii_render {literal : NumberLiteral} (formed : literal.WellFormed) :
    ∀ c ∈ literal.render, c.toNat < 128 := by
  intro c found
  simp only [render, List.mem_append] at found
  rcases found with ((sign | whole) | fraction) | exponent
  · split at sign
    · obtain rfl := List.mem_singleton.mp sign
      decide
    · cases sign
  · exact ascii_of_isDigit (formed.whole_digits c whole)
  · rw [renderFraction] at fraction
    split at fraction
    · cases fraction
    · rcases List.mem_cons.mp fraction with rfl | digit
      · decide
      · exact ascii_of_isDigit (formed.fraction_digits c digit)
  · exact ascii_renderExponent literal.exponent c exponent

end NumberLiteral

/-! ### Values -/

namespace Json

theorem ascii_escapeChar {c : Char} (escaped : escapeChar c ≠ [c]) :
    (escapeChar c).length ≤ 6 ∧ ∀ other ∈ escapeChar c, other.toNat < 128 := by
  have digit : ∀ count < 16, (Nat.digitChar count).toNat < 128 := by decide +kernel
  simp only [escapeChar] at escaped ⊢
  split_ifs at escaped ⊢
  any_goals (simp; done)
  · have high := digit (c.toNat / 16) (by omega)
    have low := digit (c.toNat % 16) (by omega)
    refine ⟨by simp, ?_⟩
    simp only [List.forall_mem_cons, List.not_mem_nil, false_imp_iff, implies_true, high, low]
    simp
  · exact absurd rfl escaped

theorem length_escapeChar_le (c : Char) : (Utf8.encode (escapeChar c)).length ≤ 6 := by
  by_cases plain : escapeChar c = [c]
  · rw [plain, Utf8.length_encode_cons, Utf8.encode_nil, List.length_nil]
    have := c.utf8Size_le_four
    omega
  · rw [Utf8.length_encode_ascii (ascii_escapeChar plain).2]
    exact (ascii_escapeChar plain).1

theorem length_renderString_le (text : String) :
    (Utf8.encode (renderString text)).length ≤ 6 * text.toList.length + 2 := by
  have escaped : (Utf8.encode (text.toList.flatMap escapeChar)).length ≤ 6 * text.toList.length := by
    induction text.toList with
    | nil => simp
    | cons c rest ih =>
        have here := length_escapeChar_le c
        rw [List.flatMap_cons, Utf8.length_encode_append, List.length_cons]
        omega
  have quote : '"'.utf8Size = 1 := rfl
  rw [renderString, Utf8.length_encode_cons, Utf8.length_encode_append, Utf8.length_encode_cons,
    Utf8.encode_nil, List.length_nil]
  omega

/-- What a member takes with its colon and a comma or brace. -/
def memberSize (member : String × Json) : Nat :=
  (Utf8.encode (renderString member.1)).length + member.2.canonical.length + 2

theorem length_renderMembers (members : Members) :
    (Utf8.encode (renderMembers members)).length = 1 + (members.map memberSize).sum := by
  induction members with
  | nil => rfl
  | cons member rest ih =>
      obtain ⟨key, value⟩ := member
      have comma : ','.utf8Size = 1 := rfl
      have colon : ':'.utf8Size = 1 := rfl
      rw [renderMembers, Utf8.length_encode_cons, Utf8.length_encode_append,
        Utf8.length_encode_cons, Utf8.length_encode_append, ih, List.map_cons, List.sum_cons,
        memberSize, canonical]
      dsimp only
      omega

theorem length_canonical_obj_le (members : Members) :
    (Json.obj members).canonical.length ≤ 2 + (members.map memberSize).sum := by
  cases members with
  | nil => exact Nat.le_refl 2
  | cons member rest =>
      obtain ⟨key, value⟩ := member
      have brace : '{'.utf8Size = 1 := rfl
      have colon : ':'.utf8Size = 1 := rfl
      rw [canonical, render, Utf8.length_encode_cons, Utf8.length_encode_append,
        Utf8.length_encode_cons, Utf8.length_encode_append, length_renderMembers, List.map_cons,
        List.sum_cons, memberSize, canonical]
      dsimp only
      omega

theorem length_canonical_obj {members : Members} (nonempty : members ≠ []) :
    (Json.obj members).canonical.length = 1 + (members.map memberSize).sum := by
  cases members with
  | nil => exact absurd rfl nonempty
  | cons member rest =>
      obtain ⟨key, value⟩ := member
      have brace : '{'.utf8Size = 1 := rfl
      have colon : ':'.utf8Size = 1 := rfl
      rw [canonical, render, Utf8.length_encode_cons, Utf8.length_encode_append,
        Utf8.length_encode_cons, Utf8.length_encode_append, length_renderMembers, List.map_cons,
        List.sum_cons, memberSize, canonical]
      dsimp only
      omega

theorem length_canonical_dict {members : Members} (nonempty : members ≠ []) :
    (dict members).canonical.length = 1 + (members.map memberSize).sum := by
  have same := sortMembers_perm members
  have kept : sortMembers members ≠ [] := by
    intro empty
    rw [empty] at same
    exact nonempty same.nil_eq.symm
  rw [dict, length_canonical_obj kept, (same.map memberSize).sum_eq]

theorem length_canonical_dict_le (members : Members) :
    (dict members).canonical.length ≤ 2 + (members.map memberSize).sum := by
  rw [← ((sortMembers_perm members).map memberSize).sum_eq]
  exact length_canonical_obj_le _

theorem length_canonical_str_le (text : String) :
    (Json.str text).canonical.length ≤ 6 * text.toList.length + 2 := by
  rw [canonical, render]
  exact length_renderString_le text

theorem length_canonical_int_le {number : Int} {power : Nat} (positive : 0 < power)
    (small : number.natAbs < 10 ^ power) : (Json.int number).canonical.length ≤ power + 2 := by
  rw [canonical, render, Utf8.length_encode_ascii
    (NumberLiteral.ascii_render (NumberLiteral.wellFormed_ofInt number))]
  exact NumberLiteral.length_render_ofInt positive small

theorem length_canonical_float_le (number : Binary64) :
    (Json.float number).canonical.length ≤ 1200 := by
  rw [canonical, render, Utf8.length_encode_ascii
    (NumberLiteral.ascii_render (NumberLiteral.wellFormed_ofBinary64 number))]
  exact NumberLiteral.length_render_ofBinary64 number

/-! ### Documents whose texts need no escape -/

/-- A byte of a text that is rendered as it stands. -/
def plainByte (byte : UInt8) : Bool :=
  32 ≤ byte.toNat && byte.toNat < 128 && byte.toNat != 34 && byte.toNat != 92

/-- Whether a text is ASCII without any escape, read off its bytes. -/
def plain (text : String) : Bool := text.toByteArray.data.toList.all plainByte

theorem plain_char {c : Char} (bytes : ∀ byte ∈ String.utf8EncodeChar c, plainByte byte = true) :
    c.utf8Size = 1 ∧ escapeChar c = [c] := by
  rcases Nat.lt_or_ge c.toNat 128 with ascii | other
  · refine ⟨Utf8.utf8Size_ascii ascii, ?_⟩
    rw [Utf8.utf8EncodeChar_ascii ascii] at bytes
    have clear := bytes _ List.mem_cons_self
    simp only [plainByte, Utf8.toNat_ofNat_ascii ascii, Bool.and_eq_true, decide_eq_true_eq, bne_iff_ne] at clear
    obtain ⟨⟨⟨printable, _⟩, quote⟩, backslash⟩ := clear
    have differs : ∀ d : Char, c.toNat ≠ d.toNat → c ≠ d := fun d apart same => apart (same ▸ rfl)
    have notQuote : c ≠ '"' := differs _ quote
    have notBackslash : c ≠ '\\' := differs _ backslash
    have notLine : c ≠ '\n' := differs _ (show c.toNat ≠ 10 by omega)
    have notReturn : c ≠ '\r' := differs _ (show c.toNat ≠ 13 by omega)
    have notTab : c ≠ '\t' := differs _ (show c.toNat ≠ 9 by omega)
    rw [escapeChar, if_neg notQuote, if_neg notBackslash, if_neg notLine, if_neg notReturn, if_neg notTab,
      if_neg (by omega), if_neg (by omega), if_neg (by omega)]
  · obtain ⟨byte, rest, shape, high⟩ := Utf8.utf8EncodeChar_other other
    have clear := bytes byte (shape ▸ List.mem_cons_self)
    simp only [plainByte, Bool.and_eq_true, decide_eq_true_eq] at clear
    omega

theorem length_renderString_plain {text : String} (clear : plain text = true) :
    (Utf8.encode (renderString text)).length = text.utf8ByteSize + 2 := by
  have bytes : text.toByteArray.data.toList = Utf8.encode text.toList := by
    have same := congrArg (fun other : String => other.toByteArray.data.toList) (@String.ofList_toList text)
    simpa [String.ofList, Utf8.encode, List.utf8Encode] using same.symm
  have size : text.utf8ByteSize = (Utf8.encode text.toList).length := by
    rw [← bytes]
    rfl
  rw [plain, bytes, List.all_eq_true] at clear
  have shown : ∀ chars : List Char, (∀ byte ∈ Utf8.encode chars, plainByte byte = true) →
      chars.flatMap escapeChar = chars := by
    intro chars clear
    induction chars with
    | nil => rfl
    | cons c rest ih =>
        rw [List.flatMap_cons, (plain_char fun byte member => clear byte (List.mem_append_left _ member)).2,
          ih fun byte member => clear byte (List.mem_append_right _ member), List.singleton_append]
  have quote : '"'.utf8Size = 1 := rfl
  rw [renderString, shown _ clear, Utf8.length_encode_cons, Utf8.length_encode_append, Utf8.length_encode_cons,
    Utf8.encode_nil, List.length_nil, size]
  omega

mutual

/-- How many bytes a document takes whose texts need no escape. -/
def plainSize : Json → Option Nat
  | .str text => if plain text then some (text.utf8ByteSize + 2) else none
  | .arr [] => some 2
  | .arr (item :: rest) => return 1 + (← plainSize item) + (← plainSizeItems rest)
  | .obj [] => some 2
  | .obj ((key, value) :: rest) =>
      if plain key then return key.utf8ByteSize + 4 + (← plainSize value) + (← plainSizeMembers rest) else none
  | .null => some 4
  | .bool true => some 4
  | .bool false => some 5
  | .int value => some (Utf8.encode (NumberLiteral.ofInt value).render).length
  | .float value => some (Utf8.encode (NumberLiteral.ofBinary64 value).render).length

def plainSizeItems : List Json → Option Nat
  | [] => some 1
  | item :: rest => return 1 + (← plainSize item) + (← plainSizeItems rest)

def plainSizeMembers : Members → Option Nat
  | [] => some 1
  | (key, value) :: rest =>
      if plain key then return key.utf8ByteSize + 4 + (← plainSize value) + (← plainSizeMembers rest) else none

end

mutual

theorem length_of_plainSize : ∀ {value : Json} {count : Nat}, plainSize value = some count →
    (Utf8.encode (render value)).length = count
  | .str text, count, found => by
      rw [plainSize, Option.ite_none_right_eq_some] at found
      rw [render, length_renderString_plain found.1]
      exact Option.some.inj found.2
  | .arr [], count, found => Option.some.inj found
  | .arr (item :: rest), count, found => by
      simp only [plainSize, Option.pure_def, Option.bind_eq_bind, Option.bind_eq_some_iff] at found
      obtain ⟨first, here, others, there, total⟩ := found
      have bracket : '['.utf8Size = 1 := rfl
      rw [render, Utf8.length_encode_cons, Utf8.length_encode_append, length_of_plainSize here,
        length_of_plainSizeItems there, bracket, ← Option.some.inj total, Nat.add_assoc]
  | .obj [], count, found => Option.some.inj found
  | .obj ((key, value) :: rest), count, found => by
      simp only [plainSize, Option.ite_none_right_eq_some, Option.pure_def, Option.bind_eq_bind,
        Option.bind_eq_some_iff] at found
      obtain ⟨clear, first, here, others, there, total⟩ := found
      have brace : '{'.utf8Size = 1 := rfl
      have colon : ':'.utf8Size = 1 := rfl
      rw [render, Utf8.length_encode_cons, Utf8.length_encode_append, length_renderString_plain clear,
        Utf8.length_encode_cons, Utf8.length_encode_append, length_of_plainSize here,
        length_of_plainSizeMembers there, brace, colon, ← Option.some.inj total]
      omega
  | .null, count, found => Option.some.inj found
  | .bool true, count, found => Option.some.inj found
  | .bool false, count, found => Option.some.inj found
  | .int value, count, found => Option.some.inj found
  | .float value, count, found => Option.some.inj found

theorem length_of_plainSizeItems : ∀ {items : List Json} {count : Nat}, plainSizeItems items = some count →
    (Utf8.encode (renderItems items)).length = count
  | [], count, found => Option.some.inj found
  | item :: rest, count, found => by
      simp only [plainSizeItems, Option.pure_def, Option.bind_eq_bind, Option.bind_eq_some_iff] at found
      obtain ⟨first, here, others, there, total⟩ := found
      have comma : ','.utf8Size = 1 := rfl
      rw [renderItems, Utf8.length_encode_cons, Utf8.length_encode_append, length_of_plainSize here,
        length_of_plainSizeItems there, comma, ← Option.some.inj total, Nat.add_assoc]

theorem length_of_plainSizeMembers : ∀ {members : Members} {count : Nat},
    plainSizeMembers members = some count → (Utf8.encode (renderMembers members)).length = count
  | [], count, found => Option.some.inj found
  | (key, value) :: rest, count, found => by
      simp only [plainSizeMembers, Option.ite_none_right_eq_some, Option.pure_def, Option.bind_eq_bind,
        Option.bind_eq_some_iff] at found
      obtain ⟨clear, first, here, others, there, total⟩ := found
      have comma : ','.utf8Size = 1 := rfl
      have colon : ':'.utf8Size = 1 := rfl
      rw [renderMembers, Utf8.length_encode_cons, Utf8.length_encode_append, length_renderString_plain clear,
        Utf8.length_encode_cons, Utf8.length_encode_append, length_of_plainSize here,
        length_of_plainSizeMembers there, comma, colon, ← Option.some.inj total]
      omega

end

theorem length_canonical_plain {value : Json} {count : Nat} (found : plainSize value = some count) :
    value.canonical.length = count :=
  length_of_plainSize found

end Json

/-- A count takes as many digits as its upper bound. -/
theorem Bounded.length_document_le {low high power : Nat} (positive : 0 < power)
    (small : high < 10 ^ power) (count : Bounded low high) :
    ((Bounded.codec low high).document count).canonical.length ≤ power + 2 :=
  Json.length_canonical_int_le positive (count.le_high.trans_lt small)
