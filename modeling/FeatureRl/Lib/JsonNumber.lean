import FeatureRl.Lib.Binary64

/-!
JSON number literals: the grammar `-? int frac? exp?`, and the literals in which Python
writes an integer and the shortest decimal of a double.
-/

/-- A scanned literal; `fraction` is empty when the literal has none. -/
structure NumberLiteral where
  negative : Bool
  whole : List Char
  fraction : List Char
  exponent : Option Int
deriving DecidableEq

namespace NumberLiteral

def takeDigits : List Char → List Char × List Char
  | [] => ([], [])
  | c :: rest =>
      if c.isDigit then
        let (digits, after) := takeDigits rest
        (c :: digits, after)
      else ([], c :: rest)

/-- Nothing that a number literal could still absorb. -/
def Terminated (rest : List Char) : Prop :=
  ∀ c ∈ rest.head?, c.isDigit = false ∧ c ≠ '.' ∧ c ≠ 'e' ∧ c ≠ 'E'

theorem takeDigits_append {digits rest : List Char} (all : ∀ c ∈ digits, c.isDigit = true)
    (stop : ∀ c ∈ rest.head?, c.isDigit = false) :
    takeDigits (digits ++ rest) = (digits, rest) := by
  induction digits with
  | nil =>
      cases rest with
      | nil => rfl
      | cons c after => simp [takeDigits, stop c (by simp)]
  | cons c digits ih =>
      simp only [List.cons_append, takeDigits, all c (by simp), ↓reduceIte]
      rw [ih (fun other member => all other (by simp [member]))]

def scanWhole : List Char → Option (List Char × List Char)
  | [] => none
  | c :: rest =>
      if c = '0' then some (['0'], rest)
      else if c.isDigit then some (takeDigits (c :: rest))
      else none

def scanFraction : List Char → List Char × List Char
  | '.' :: rest =>
      match takeDigits rest with
      | ([], _) => ([], '.' :: rest)
      | (digits, after) => (digits, after)
  | text => ([], text)

def scanSign : List Char → Bool × List Char
  | '-' :: rest => (true, rest)
  | '+' :: rest => (false, rest)
  | text => (false, text)

def scanExponent : List Char → Option Int × List Char
  | [] => (none, [])
  | c :: rest =>
      if c = 'e' ∨ c = 'E' then
        let (negative, text) := scanSign rest
        match takeDigits text with
        | ([], _) => (none, c :: rest)
        | (digits, after) =>
            let size : Int := Nat.ofDigitChars 10 digits 0
            (some (if negative then -size else size), after)
      else (none, c :: rest)

def scanMinus : List Char → Bool × List Char
  | '-' :: rest => (true, rest)
  | text => (false, text)

/-- The longest literal at the front of the text. -/
def scan (text : List Char) : Option (NumberLiteral × List Char) :=
  let (negative, text) := scanMinus text
  match scanWhole text with
  | none => none
  | some (whole, text) =>
      let (fraction, text) := scanFraction text
      let (exponent, text) := scanExponent text
      some (⟨negative, whole, fraction, exponent⟩, text)

/-- Sign and at least two digits. -/
def renderExponent : Option Int → List Char
  | none => []
  | some exponent =>
      let digits := Nat.toDigits 10 exponent.natAbs
      'e' :: (if exponent < 0 then '-' else '+') ::
        (if digits.length < 2 then '0' :: digits else digits)

def renderFraction (fraction : List Char) : List Char :=
  if fraction = [] then [] else '.' :: fraction

def render (literal : NumberLiteral) : List Char :=
  (if literal.negative then ['-'] else []) ++ literal.whole ++
    renderFraction literal.fraction ++ renderExponent literal.exponent

structure WellFormed (literal : NumberLiteral) : Prop where
  whole_digits : ∀ c ∈ literal.whole, c.isDigit = true
  whole_ne_nil : literal.whole ≠ []
  no_leading_zero : literal.whole = ['0'] ∨ literal.whole.head? ≠ some '0'
  fraction_digits : ∀ c ∈ literal.fraction, c.isDigit = true

theorem toDigits_isDigit (count : Nat) : ∀ c ∈ Nat.toDigits 10 count, c.isDigit = true :=
  fun _ member => Nat.isDigit_of_mem_toDigits (by decide) (by decide) member

theorem toDigits_ne_nil (count : Nat) : Nat.toDigits 10 count ≠ [] := by
  rw [Nat.toDigits_eq_if (by decide)]
  split <;> simp

theorem head_toDigits {count : Nat} (positive : 0 < count) :
    (Nat.toDigits 10 count).head? ≠ some '0' := by
  induction count using Nat.strong_induction_on with
  | _ count ih =>
      rw [Nat.toDigits_eq_if (by decide)]
      split
      next small => simp [positive.ne']
      next large =>
        rw [List.head?_append_of_ne_nil _ (toDigits_ne_nil _)]
        exact ih (count / 10) (by omega) (by omega)

theorem Terminated.exponent_or (exponent : Option Int) {rest : List Char}
    (stop : Terminated rest) :
    ∀ c ∈ (renderExponent exponent ++ rest).head?, c.isDigit = false ∧ c ≠ '.' := by
  cases exponent with
  | none => exact fun c first => ⟨(stop c first).1, (stop c first).2.1⟩
  | some exponent =>
      intro c first
      obtain rfl : 'e' = c := by simpa [renderExponent] using first
      decide

theorem scanExponent_render (exponent : Option Int) {rest : List Char}
    (stop : Terminated rest) :
    scanExponent (renderExponent exponent ++ rest) = (exponent, rest) := by
  cases exponent with
  | none =>
      cases rest with
      | nil => rfl
      | cons c after =>
          have next := stop c (by simp)
          simp [renderExponent, scanExponent, next]
  | some exponent =>
      let digits := Nat.toDigits 10 exponent.natAbs
      let padded := if digits.length < 2 then '0' :: digits else digits
      have all : ∀ c ∈ padded, c.isDigit = true := by
        intro c member
        simp only [padded] at member
        split at member
        · rcases List.mem_cons.mp member with rfl | later
          · rfl
          · exact toDigits_isDigit _ c later
        · exact toDigits_isDigit _ c member
      have size : Nat.ofDigitChars 10 padded 0 = exponent.natAbs := by
        simp only [padded]
        split
        · simp [Nat.ofDigitChars_cons, digits]
        · exact Nat.ofDigitChars_ten_toDigits
      have taken : takeDigits (padded ++ rest) = (padded, rest) :=
        takeDigits_append all (fun c first => (stop c first).1)
      have nonempty : padded ≠ [] := by
        simp only [padded]
        split
        · simp
        · exact toDigits_ne_nil _
      obtain ⟨first, others, split⟩ := List.exists_cons_of_ne_nil nonempty
      have shape : renderExponent (some exponent) =
          'e' :: (if exponent < 0 then '-' else '+') :: padded := rfl
      rw [shape]
      rw [split] at taken size ⊢
      by_cases sign : exponent < 0
      · simp only [sign, ↓reduceIte, List.cons_append, scanExponent, true_or, scanSign]
        simp only [List.cons_append] at taken
        simp only [taken, size]
        simp only [Prod.mk.injEq, Option.some.injEq, and_true]
        omega
      · simp only [sign, ↓reduceIte, List.cons_append, scanExponent, true_or, scanSign]
        simp only [List.cons_append] at taken
        simp only [taken, size]
        simp only [Bool.false_eq_true, ↓reduceIte, Prod.mk.injEq, Option.some.injEq, and_true]
        omega

theorem scanFraction_render {fraction rest : List Char}
    (all : ∀ c ∈ fraction, c.isDigit = true)
    (stop : ∀ c ∈ rest.head?, c.isDigit = false ∧ c ≠ '.') :
    scanFraction (renderFraction fraction ++ rest) = (fraction, rest) := by
  cases fraction with
  | nil =>
      cases rest with
      | nil => rfl
      | cons c after =>
          have point := (stop c (by simp)).2
          simp only [renderFraction, ↓reduceIte, List.nil_append]
          unfold scanFraction
          split
          next text same => exact absurd (List.cons.inj same).1 point
          next => rfl
  | cons digit digits =>
      have taken := takeDigits_append all (fun c first => (stop c first).1)
      have shape : renderFraction (digit :: digits) ++ rest =
          '.' :: (digit :: digits ++ rest) := by simp [renderFraction]
      rw [shape, scanFraction, taken]

theorem scanWhole_append {whole rest : List Char} (all : ∀ c ∈ whole, c.isDigit = true)
    (nonempty : whole ≠ []) (leading : whole = ['0'] ∨ whole.head? ≠ some '0')
    (stop : ∀ c ∈ rest.head?, c.isDigit = false) :
    scanWhole (whole ++ rest) = some (whole, rest) := by
  obtain ⟨first, others, rfl⟩ := List.exists_cons_of_ne_nil nonempty
  by_cases zero : first = '0'
  · subst zero
    have alone : others = [] := by simpa using leading
    simp [scanWhole, alone]
  · have taken := takeDigits_append all stop
    simp only [List.cons_append] at taken ⊢
    simp [scanWhole, zero, all first (by simp), taken]

theorem whole_stop (fraction : List Char) (exponent : Option Int) {rest : List Char}
    (stop : Terminated rest) :
    ∀ c ∈ (renderFraction fraction ++ (renderExponent exponent ++ rest)).head?,
      c.isDigit = false := by
  by_cases empty : fraction = []
  · intro c first
    exact (stop.exponent_or exponent c (by simpa [renderFraction, empty] using first)).1
  · intro c first
    obtain rfl : '.' = c := by simpa [renderFraction, empty] using first
    rfl

theorem scanMinus_render (negative : Bool) {whole : List Char} (rest : List Char)
    (all : ∀ c ∈ whole, c.isDigit = true) (nonempty : whole ≠ []) :
    scanMinus ((if negative then ['-'] else []) ++ (whole ++ rest)) =
      (negative, whole ++ rest) := by
  cases negative with
  | true => rfl
  | false =>
      obtain ⟨first, others, rfl⟩ := List.exists_cons_of_ne_nil nonempty
      have digit := all first (by simp)
      simp only [Bool.false_eq_true, ↓reduceIte, List.nil_append, List.cons_append]
      unfold scanMinus
      split
      next text same =>
        obtain rfl := (List.cons.inj same).1
        cases digit
      next => rfl

/-- Scanning a written literal gives the literal and leaves what follows it. -/
theorem scan_render {literal : NumberLiteral} (formed : literal.WellFormed)
    {rest : List Char} (stop : Terminated rest) :
    scan (literal.render ++ rest) = some (literal, rest) := by
  have whole := scanWhole_append formed.whole_digits formed.whole_ne_nil formed.no_leading_zero
    (whole_stop literal.fraction literal.exponent stop)
  have fraction := scanFraction_render formed.fraction_digits
    (stop.exponent_or literal.exponent)
  have minus := scanMinus_render literal.negative
    (renderFraction literal.fraction ++ (renderExponent literal.exponent ++ rest))
    formed.whole_digits formed.whole_ne_nil
  simp only [render, List.append_assoc]
  rw [scan, minus]
  simp only [whole, fraction, scanExponent_render literal.exponent stop]

theorem render_ne_nil {literal : NumberLiteral} (formed : literal.WellFormed) :
    literal.render ≠ [] := by
  simp [render, formed.whole_ne_nil]

/-- A written literal starts with a minus sign or a digit. -/
theorem head_render {literal : NumberLiteral} (formed : literal.WellFormed) {c : Char}
    (first : c ∈ literal.render.head?) : c = '-' ∨ c.isDigit = true := by
  obtain ⟨digit, others, split⟩ := List.exists_cons_of_ne_nil formed.whole_ne_nil
  have isDigit := formed.whole_digits digit (by simp [split])
  cases negative : literal.negative with
  | true => exact Or.inl (by simpa [render, negative, eq_comm] using first)
  | false =>
      obtain rfl : digit = c := by simpa [render, negative, split] using first
      exact Or.inr isDigit

def ofInt (number : Int) : NumberLiteral :=
  ⟨decide (number < 0), Nat.toDigits 10 number.natAbs, [], none⟩

def toInt (literal : NumberLiteral) : Int :=
  let size : Int := Nat.ofDigitChars 10 literal.whole 0
  if literal.negative then -size else size

theorem toInt_ofInt (number : Int) : (ofInt number).toInt = number := by
  simp only [toInt, ofInt, Nat.ofDigitChars_ten_toDigits, decide_eq_true_eq]
  split <;> omega

theorem wellFormed_ofInt (number : Int) : (ofInt number).WellFormed := by
  refine ⟨toDigits_isDigit _, toDigits_ne_nil _, ?_, by simp [ofInt]⟩
  by_cases zero : number.natAbs = 0
  · exact Or.inl (by simp [ofInt, zero])
  · exact Or.inr (head_toDigits (Nat.pos_of_ne_zero zero))

/-- The shortest decimal in positional notation, or with an exponent when the decimal
point would stand more than four places before or sixteen places after the first digit. -/
def ofBinary64 (number : Binary64) : NumberLiteral :=
  let decimal := number.shortest
  let digits := Nat.toDigits 10 decimal.digits
  let point : Int := digits.length + decimal.exponent
  if decimal.digits = 0 then ⟨number.negative, ['0'], ['0'], none⟩
  else if point ≤ -4 ∨ 16 < point then
    ⟨number.negative, digits.take 1, digits.drop 1, some (point - 1)⟩
  else if point ≤ 0 then
    ⟨number.negative, ['0'], List.replicate (-point).toNat '0' ++ digits, none⟩
  else if point < digits.length then
    ⟨number.negative, digits.take point.toNat, digits.drop point.toNat, none⟩
  else
    ⟨number.negative, digits ++ List.replicate (point - digits.length).toNat '0', ['0'], none⟩

def toDecimal (literal : NumberLiteral) : Decimal :=
  ⟨Nat.ofDigitChars 10 (literal.whole ++ literal.fraction) 0,
    literal.exponent.getD 0 - literal.fraction.length⟩

def toBinary64 (literal : NumberLiteral) : Option Binary64 :=
  Binary64.ofMagnitude literal.negative literal.toDecimal.value

theorem ofDigitChars_replicate_append (count : Nat) (digits : List Char) :
    Nat.ofDigitChars 10 (List.replicate count '0' ++ digits) 0 =
      Nat.ofDigitChars 10 digits 0 := by
  rw [Nat.ofDigitChars_append, Nat.ofDigitChars_replicate_zero, Nat.mul_zero]

theorem negative_ofBinary64 (number : Binary64) :
    (ofBinary64 number).negative = number.negative := by
  simp only [ofBinary64]
  split
  · rfl
  · split
    · rfl
    · split
      · rfl
      · split <;> rfl

theorem value_toDecimal_ofBinary64 (number : Binary64) :
    (ofBinary64 number).toDecimal.value = number.shortest.value := by
  have read := Nat.ofDigitChars_ten_toDigits (n := number.shortest.digits)
  have nonempty := List.length_pos_of_ne_nil (toDigits_ne_nil number.shortest.digits)
  simp only [ofBinary64]
  generalize Nat.toDigits 10 number.shortest.digits = digits at *
  generalize number.shortest = decimal at *
  obtain ⟨count, exponent⟩ := decimal
  simp only at *
  split
  next zero => simp [toDecimal, Decimal.value, zero, Nat.ofDigitChars]
  next =>
    split
    next scientific =>
      simp only [toDecimal, List.take_append_drop, Option.getD_some, List.length_drop, read]
      congr 2
      omega
    next =>
      split
      next small =>
        simp only [toDecimal, List.length_append, List.length_replicate, Option.getD_none,
          List.cons_append, List.nil_append, Nat.ofDigitChars_cons]
        have zeros := ofDigitChars_replicate_append (-(digits.length + exponent)).toNat digits
        rw [read] at zeros
        simp only [Nat.mul_zero, Nat.zero_add, Nat.sub_self, zeros]
        congr 2
        omega
      next =>
        split
        next inside =>
          simp only [toDecimal, List.take_append_drop, Option.getD_none, List.length_drop, read]
          congr 2
          omega
        next large =>
          obtain ⟨padding, equal⟩ := Int.eq_ofNat_of_zero_le (a := exponent) (by omega)
          subst equal
          have width : ((digits.length : Int) + padding - digits.length).toNat = padding := by
            omega
          simp only [toDecimal, width, List.append_assoc, Nat.ofDigitChars_append,
            read, Nat.ofDigitChars_replicate_zero, Nat.ofDigitChars_cons, Nat.ofDigitChars_nil,
            Nat.sub_self, Nat.add_zero, Option.getD_none, List.length_cons, List.length_nil,
            Decimal.value]
          push_cast
          norm_num [zpow_neg]
          ring

theorem toBinary64_ofBinary64 (number : Binary64) :
    (ofBinary64 number).toBinary64 = some number := by
  rw [toBinary64, negative_ofBinary64, value_toDecimal_ofBinary64]
  exact Binary64.ofMagnitude_shortest number

/-- A double is written with a fraction or an exponent, an integer with neither. -/
def isInteger (literal : NumberLiteral) : Bool :=
  literal.fraction.isEmpty && literal.exponent.isNone

theorem isInteger_ofInt (number : Int) : (ofInt number).isInteger = true := rfl

theorem isInteger_ofBinary64 (number : Binary64) : (ofBinary64 number).isInteger = false := by
  simp only [ofBinary64]
  split
  · rfl
  · split
    · simp [isInteger]
    · split
      · simp [isInteger]
      · split
        next inside =>
          simp only [isInteger, Bool.and_eq_false_imp, List.isEmpty_iff, List.drop_eq_nil_iff]
          intro all
          omega
        next => rfl

theorem wellFormed_ofBinary64 (number : Binary64) : (ofBinary64 number).WellFormed := by
  have all := toDigits_isDigit number.shortest.digits
  have nonempty := toDigits_ne_nil number.shortest.digits
  have size := List.length_pos_of_ne_nil nonempty
  have taken (count : Nat) : ∀ c ∈ (Nat.toDigits 10 number.shortest.digits).take count,
      c.isDigit = true := fun c member => all c (List.mem_of_mem_take member)
  have dropped (count : Nat) : ∀ c ∈ (Nat.toDigits 10 number.shortest.digits).drop count,
      c.isDigit = true := fun c member => all c (List.mem_of_mem_drop member)
  have zeros (count : Nat) : ∀ c ∈ List.replicate count '0', c.isDigit = true := by
    intro c member
    rw [List.eq_of_mem_replicate member]
    rfl
  simp only [ofBinary64]
  split
  · exact ⟨by simp, by simp, by simp, by simp⟩
  next nonzero =>
    have leading := head_toDigits (Nat.pos_of_ne_zero nonzero)
    have leadingTake (count : Nat) (positive : 0 < count) :
        ((Nat.toDigits 10 number.shortest.digits).take count).head? ≠ some '0' := by
      rwa [List.head?_take, if_neg positive.ne']
    split
    · exact ⟨taken 1, by simp [nonempty], Or.inr (leadingTake 1 (by decide)), dropped 1⟩
    · split
      · refine ⟨by simp, by simp, by simp, ?_⟩
        intro c member
        rcases List.mem_append.mp member with padding | digit
        · exact zeros _ c padding
        · exact all c digit
      · split
        next positive inside =>
          have place : 0 < ((Nat.toDigits 10 number.shortest.digits).length +
              number.shortest.exponent).toNat := by omega
          refine ⟨taken _, ?_, Or.inr (leadingTake _ place), dropped _⟩
          simp only [ne_eq, List.take_eq_nil_iff, nonempty, or_false]
          omega
        next =>
          refine ⟨?_, by simp [nonempty], Or.inr ?_, by simp⟩
          · intro c member
            rcases List.mem_append.mp member with digit | padding
            · exact all c digit
            · exact zeros _ c padding
          · rwa [List.head?_append_of_ne_nil _ nonempty]

end NumberLiteral
